import Mathlib.Tactic
import ObjectLang.Proofs.Analysis.Visibility
import ObjectLang.Proofs.Lowering.Known
import ObjectLang.Proofs.Lowering.Parallel

/-!
# Code can be made anywhere

Whether a fact is missing depends on what code is made from, and not on the state in which it is
made. So code that can be made in some state can be made in any, also if the receiver and the
variables are elsewhere, and then the code for all parts can be made anywhere as well.
-/
namespace ObjectLang

open IR

/-- If code can be made in some state, other code can be made in any state, and what both give is
related. -/
def Allows {α β : Type} (x : Lower α) (Q : α → β → Prop) (y : Lower β) : Prop :=
  ∀ s a s', x s = .ok (a, s') → ∀ t, Does y t fun b _ => Q a b

/-- Nothing is missing, whatever the state. -/
def Always {β : Type} (y : Lower β) : Prop :=
  ∀ t, Does y t fun _ _ => True

section combinators

variable {α β γ δ : Type} {x : Lower α} {y : Lower β} {Q : α → β → Prop}

theorem Always.bind {f : β → Lower γ} (h : Always y) (hf : ∀ b, Always (f b)) : Always (y >>= f) :=
  fun t => (h t).bind fun b t' _ => hf b t'

theorem always_pure {b : β} : Always (pure b) :=
  fun _ => does_pure trivial

theorem always_compute {f : Builder → β × Builder} : Always (compute f) :=
  fun _ => does_compute trivial

theorem always_perform {f : Builder → Builder} : Always (perform f) :=
  fun _ => does_perform trivial

theorem always_onTarget {build : Build β} : Always (onTarget build) :=
  fun _ => does_onTarget trivial

theorem always_get : Always (get : Lower LowerState) :=
  fun _ => does_get trivial

theorem always_modify {f : LowerState → LowerState} : Always (modify f : Lower PUnit) :=
  fun _ => does_modify trivial

theorem always_typeOfOperand {x : Operand} : Always (typeOfOperand x) :=
  fun _ => does_typeOfOperand trivial

theorem Always.allows (h : Always y) : Allows x (fun _ _ => True) y :=
  fun _ _ _ _ t => h t

theorem Allows.bind {f : α → Lower γ} {g : β → Lower δ} {P : γ → δ → Prop} (h : Allows x Q y)
    (hf : ∀ a b, Q a b → Allows (f a) P (g b)) : Allows (x >>= f) P (y >>= g) := by
  intro s c s'' hrun t
  obtain ⟨a, s', hx, hfa⟩ := Lower.of_bind hrun
  exact (h s a s' hx t).bind fun b t' hab => hf a b hab s' c s'' hfa t'

/-- Two steps where the first gives the same on both sides. -/
theorem Allows.bindEq {x y : Lower α} {f : α → Lower γ} {g : α → Lower δ} {P : γ → δ → Prop}
    (h : Allows x Eq y) (hf : ∀ a, Allows (f a) P (g a)) : Allows (x >>= f) P (y >>= g) :=
  h.bind fun a _ hab => hab ▸ hf a

/-- Two steps where nothing is said of what the first gives. -/
theorem Allows.seq {f : α → Lower γ} {g : β → Lower δ} {P : γ → δ → Prop}
    (h : Allows x (fun _ _ => True) y) (hf : ∀ a b, Allows (f a) P (g b)) :
    Allows (x >>= f) P (y >>= g) :=
  h.bind fun a b _ => hf a b

theorem allows_pure {a : α} {b : β} (h : Q a b) : Allows (pure a) Q (pure b) := by
  rintro s _ _ ⟨⟩ t
  exact does_pure h

theorem allows_throw {fact : MissingFact} : Allows (throw fact) Q y := by
  rintro s _ _ ⟨⟩

/-- A fact that is there for one side is there for the other. -/
theorem allows_known {fact fact' : Option α} {missing missing' : MissingFact}
    (h : fact.isSome → fact'.isSome) :
    Allows (known fact missing) (fun _ _ => True) (known fact' missing') := by
  cases fact with
  | none => exact allows_throw
  | some a =>
      obtain ⟨b, hb⟩ := Option.isSome_iff_exists.1 (h rfl)
      exact fun _ _ _ _ t => does_known hb trivial

theorem allows_fact {fact : Option α} {missing : MissingFact} :
    Allows (known fact missing) Eq (known fact missing) := by
  cases fact with
  | none => exact allows_throw
  | some a => exact allows_pure rfl

end combinators

section fragments

variable {x y : Operand}

theorem always_cast {type : Ty} : Always (cast x type) := by
  refine always_typeOfOperand.bind fun _ => ?_
  split
  · exact always_compute
  · exact always_pure

theorem always_stopIf {stopName goName message : String} :
    Always (stopIf x stopName goName message) :=
  always_compute.bind fun _ => always_compute.bind fun _ => always_perform.bind fun _ =>
    always_perform.bind fun _ => always_perform.bind fun _ => always_perform

theorem always_nullCheck {span : Span} : Always (nullCheck x span) :=
  always_compute.bind fun _ => always_stopIf

theorem always_arrayLength : Always (arrayLength x) :=
  always_compute.bind fun _ => always_compute

theorem always_boundsCheck {span : Span} : Always (boundsCheck x y span) :=
  always_arrayLength.bind fun _ => always_compute.bind fun _ => always_compute.bind fun _ =>
    always_compute.bind fun _ => always_compute.bind fun _ => always_stopIf

theorem always_quotient {span : Span} : Always (quotient x y span) :=
  always_compute.bind fun _ => always_stopIf.bind fun _ => always_compute.bind fun _ =>
    always_compute.bind fun _ => always_compute.bind fun _ => always_compute.bind fun _ =>
    always_perform.bind fun _ => always_compute.bind fun _ => always_compute.bind fun _ =>
    always_perform.bind fun _ => always_perform.bind fun _ => always_compute.bind fun _ =>
    always_perform.bind fun _ => always_perform.bind fun _ => always_perform.bind fun _ =>
    always_compute

theorem always_equality {leftType rightType : ValueType} :
    Always (equality leftType rightType x y) := by
  refine always_typeOfOperand.bind fun _ => always_typeOfOperand.bind fun _ => ?_
  dsimp only
  split
  all_goals
    split
    · exact always_cast.bind fun _ => always_compute
    · exact always_cast.bind fun _ => always_compute

theorem always_allocator {body : Body} {component : ValueType} :
    Always (allocator body component) := by
  refine always_get.bind fun _ => ?_
  split
  · exact always_pure
  · exact always_onTarget.bind fun _ => always_onTarget.bind fun _ =>
      always_modify.bind fun _ => always_pure

theorem always_commentOn {body : Body} {s : Stmt} : Always (commentOn body s) := by
  rw [commentOn]
  split
  · exact always_perform
  · exact always_pure

theorem always_assign : Always (assign x y) :=
  always_typeOfOperand.bind fun _ => always_cast.bind fun _ => always_perform

theorem always_returnValue : Always (returnValue x) :=
  always_get.bind fun _ => always_cast.bind fun _ => always_perform

end fragments

/-- Two bodies are made from the same facts, and what has a place in the first has one in the
second. -/
structure Body.Serves (body body' : Body) : Prop where
  analysis : body'.analysis = body.analysis
  layouts : body'.layouts = body.layouts
  this : body.this.isSome → body'.this.isSome
  slots : ∀ id, (body.slots.find? (·.1 == id)).isSome → (body'.slots.find? (·.1 == id)).isSome

section trees

variable {body body' : Body} (hb : body.Serves body')
include hb

theorem allows_typeOf {id : Nat} : Allows (body.typeOf id) Eq (body'.typeOf id) := by
  rw [Body.typeOf, Body.typeOf, hb.analysis]
  exact allows_fact

theorem allows_classOf {id : Nat} : Allows (body.classOf id) Eq (body'.classOf id) :=
  (allows_typeOf hb).bindEq fun _ => allows_fact

theorem allows_classLayout {cls : ClassRef} :
    Allows (body.classLayout cls) Eq (body'.classLayout cls) := by
  rw [Body.classLayout, Body.classLayout, hb.layouts]
  exact allows_fact

theorem allows_lowerTypeExpr {t : TypeExpr} :
    Allows (body.lowerTypeExpr t) (fun _ _ => True) (body'.lowerTypeExpr t) := by
  rw [Body.lowerTypeExpr, Body.lowerTypeExpr, hb.analysis]
  exact allows_fact.bindEq fun _ => always_onTarget.allows

theorem allows_slot {decl : VarDecl} :
    Allows (body.slot decl) (fun _ _ => True) (body'.slot decl) :=
  (allows_known (hb.slots decl.id)).seq fun _ _ => allows_pure trivial

theorem allows_thisAs {cls : ClassRef} :
    Allows (thisAs body cls) (fun _ _ => True) (thisAs body' cls) :=
  (allows_known hb.this).seq fun _ _ => (allows_classLayout hb).bindEq fun _ =>
    always_cast.allows

theorem allows_fieldAddress {x y : Operand} {cls owner : ClassRef} {field : VarDecl} :
    Allows (fieldAddress body x cls owner field) (fun _ _ => True)
      (fieldAddress body' y cls owner field) :=
  (allows_classLayout hb).bindEq fun _ => allows_fact.bindEq fun _ =>
    (allows_lowerTypeExpr hb).seq fun _ _ => always_compute.allows

omit hb in
mutual

theorem allows_expr (hb : body.Serves body') :
    ∀ e : Expr, Allows (lowerExpr body e) (fun _ _ => True) (lowerExpr body' e)
  | .unary _ .neg operand => (allows_expr hb operand).seq fun _ _ => always_compute.allows
  | .unary _ .not operand => (allows_expr hb operand).seq fun _ _ => always_compute.allows
  | .binary tag op left right => by
      have hboth : ∀ {op : Operation}, Allows (do
          let first ← lowerExpr body left
          let second ← lowerExpr body right
          compute (·.binary op first second)) (fun _ _ => True) (do
          let first ← lowerExpr body' left
          let second ← lowerExpr body' right
          compute (·.binary op first second)) :=
        (allows_expr hb left).seq fun _ _ => (allows_expr hb right).seq fun _ _ =>
          always_compute.allows
      cases op with
      | and =>
          refine always_compute.allows.seq fun _ _ => (allows_expr hb left).seq fun _ _ =>
            always_perform.allows.seq fun _ _ => always_compute.allows.seq fun _ _ =>
            always_compute.allows.seq fun _ _ => always_perform.allows.seq fun _ _ =>
            always_perform.allows.seq fun _ _ => (allows_expr hb right).seq fun _ _ => ?_
          exact (always_perform.bind fun _ => always_perform.bind fun _ =>
            always_perform.bind fun _ => always_compute).allows
      | div =>
          exact (allows_expr hb left).seq fun _ _ => (allows_expr hb right).seq fun _ _ =>
            always_quotient.allows
      | equal =>
          exact (allows_expr hb left).seq fun _ _ => (allows_expr hb right).seq fun _ _ =>
            (allows_typeOf hb).bindEq fun _ => (allows_typeOf hb).bindEq fun _ =>
              always_equality.allows
      | _ => exact hboth
  | .number _ _ | .bool _ _ | .null _ => allows_pure trivial
  | .this _ => (allows_known hb.this).seq fun _ _ => allows_pure trivial
  | .read _ location => (allows_location hb location).seq fun _ _ => always_compute.allows
  | .arrayLength _ array =>
      (allows_expr hb array).seq fun _ _ => always_nullCheck.allows.seq fun _ _ =>
        always_arrayLength.allows
  | .newObject _ _ =>
      (allows_classOf hb).bindEq fun _ => (allows_classLayout hb).bindEq fun _ =>
        always_compute.allows
  | .newArray _ _ size =>
      (allows_typeOf hb).bindEq fun _ => allows_fact.bindEq fun _ =>
        always_allocator.allows.seq fun _ _ => (allows_expr hb size).seq fun _ _ =>
          always_onTarget.allows.seq fun _ _ => always_compute.allows
  | .call tag _ args => by
      have hcall : body'.analysis.notes.call? tag.id = body.analysis.notes.call? tag.id := by
        rw [hb.analysis]
      refine Allows.bindEq (by rw [hcall]; exact allows_fact) fun target => ?_
      cases target with
      | print =>
          refine (allows_arguments hb args).bind fun vs ws hlength => ?_
          refine Allows.seq (allows_known fun hsome => ?_) fun _ _ =>
            always_perform.allows.seq fun _ _ => allows_pure trivial
          cases ws with
          | nil =>
              obtain rfl := List.eq_nil_of_length_eq_zero hlength
              exact hsome
          | cons w ws => rfl
      | function decl =>
          exact Allows.bindEq (by rw [hb.layouts]; exact allows_fact) fun _ =>
            (allows_arguments hb args).bind fun _ _ _ => always_compute.allows
      | method owner decl =>
          exact (allows_thisAs hb).seq fun _ _ => (allows_classLayout hb).bindEq fun _ =>
            allows_fact.bindEq fun _ => (allows_arguments hb args).bind fun _ _ _ =>
              always_compute.allows
  | .methodCall tag receiver _ args => by
      have hcall : body'.analysis.notes.call? tag.id = body.analysis.notes.call? tag.id := by
        rw [hb.analysis]
      refine (allows_expr hb receiver).seq fun _ _ => always_nullCheck.allows.seq fun _ _ =>
        Allows.bindEq (by rw [hcall]; exact allows_fact) fun target => ?_
      cases target with
      | print => exact allows_throw
      | function decl => exact allows_throw
      | method owner decl =>
          exact (allows_classLayout hb).bindEq fun _ => always_cast.allows.seq fun _ _ =>
            allows_fact.bindEq fun _ => (allows_arguments hb args).bind fun _ _ _ =>
              always_compute.allows
termination_by structural e => e

theorem allows_location (hb : body.Serves body') : ∀ l : Location,
    Allows (lowerLocation body l) (fun _ _ => True) (lowerLocation body' l)
  | .var tag _ => by
      have hbinding : body'.analysis.notes.binding? tag.id = body.analysis.notes.binding? tag.id :=
        by rw [hb.analysis]
      refine Allows.bindEq (by rw [hbinding]; exact allows_fact) fun binding => ?_
      cases binding with
      | «variable» decl => exact allows_slot hb
      | field owner decl =>
          exact (allows_thisAs hb).seq fun _ _ => allows_fieldAddress hb
  | .field tag receiver _ => by
      have hbinding : body'.analysis.notes.binding? tag.id = body.analysis.notes.binding? tag.id :=
        by rw [hb.analysis]
      refine (allows_expr hb receiver).seq fun _ _ => always_nullCheck.allows.seq fun _ _ =>
        (allows_classOf hb).bindEq fun _ =>
          Allows.bindEq (by rw [hbinding]; exact allows_fact) fun binding => ?_
      cases binding with
      | «variable» decl => exact allows_throw
      | field owner decl => exact allows_fieldAddress hb
  | .index _ array index =>
      (allows_expr hb array).seq fun _ _ => always_nullCheck.allows.seq fun _ _ =>
        (allows_expr hb index).seq fun _ _ => always_boundsCheck.allows.seq fun _ _ =>
          (allows_typeOf hb).bindEq fun _ => always_onTarget.allows.seq fun _ _ =>
            always_compute.allows
termination_by structural l => l

/-- As many values are given on both sides. -/
theorem allows_arguments (hb : body.Serves body') : ∀ (args : List Expr) {params : List Ty},
    Allows (lowerArguments body args params) (fun vs ws => vs.length = ws.length)
      (lowerArguments body' args params)
  | [], _ => allows_pure rfl
  | _ :: _, [] => allows_pure rfl
  | arg :: args, _ :: _ =>
      (allows_expr hb arg).seq fun _ _ => always_cast.allows.seq fun _ _ =>
        (allows_arguments hb args).bind fun _ _ hlength => allows_pure (congrArg (· + 1) hlength)
termination_by structural args => args

end

omit hb in
mutual

theorem allows_stmt (hb : body.Serves body') :
    ∀ x : Stmt, Allows (lowerStmt body x) (fun _ _ => True) (lowerStmt body' x)
  | .declare _ => allows_pure trivial
  | .eval value =>
      always_commentOn.allows.seq fun _ _ => (allows_expr hb value).seq fun _ _ =>
        allows_pure trivial
  | .assign _ target value =>
      always_commentOn.allows.seq fun _ _ => (allows_location hb target).seq fun _ _ =>
        (allows_expr hb value).seq fun _ _ => always_assign.allows
  | .branch _ test onTrue onFalse => by
      rw [lowerStmt_branch, lowerStmt_branch]
      have hother : Allows (onFalse.elim (pure ()) (lowerStmt body)) (fun _ _ => True)
          (onFalse.elim (pure ()) (lowerStmt body')) := by
        cases onFalse with
        | some onFalse => exact allows_stmt hb onFalse
        | none => exact allows_pure trivial
      refine always_commentOn.allows.seq fun _ _ => (allows_expr hb test).seq fun _ _ =>
        always_compute.allows.seq fun _ _ => always_compute.allows.seq fun _ _ =>
        always_compute.allows.seq fun _ _ => always_perform.allows.seq fun _ _ =>
        always_perform.allows.seq fun _ _ => (allows_stmt hb onTrue).seq fun _ _ =>
        always_perform.allows.seq fun _ _ => always_perform.allows.seq fun _ _ =>
        hother.seq fun _ _ => (always_perform.bind fun _ => always_perform).allows
  | .loop _ test repeated =>
      always_commentOn.allows.seq fun _ _ => always_compute.allows.seq fun _ _ =>
        always_compute.allows.seq fun _ _ => always_compute.allows.seq fun _ _ =>
        always_perform.allows.seq fun _ _ => always_perform.allows.seq fun _ _ =>
        (allows_expr hb test).seq fun _ _ => always_perform.allows.seq fun _ _ =>
        always_perform.allows.seq fun _ _ => (allows_stmt hb repeated).seq fun _ _ =>
        (always_perform.bind fun _ => always_perform).allows
  | .return _ value =>
      always_commentOn.allows.seq fun _ _ => (allows_expr hb value).seq fun _ _ =>
        always_returnValue.allows
  | .block _ stmts => always_commentOn.allows.seq fun _ _ => allows_stmts hb stmts
termination_by structural x => x

theorem allows_stmts (hb : body.Serves body') : ∀ xs : List Stmt,
    Allows (lowerStmts body xs) (fun _ _ => True) (lowerStmts body' xs)
  | [] => allows_pure trivial
  | x :: xs => (allows_stmt hb x).seq fun _ _ => allows_stmts hb xs
termination_by structural xs => xs

end

end trees

/-- The code for a node, which leaves the value of an expression or the address of a location. -/
def Node.code (body : Body) : Node → Lower Operand
  | .expr e => lowerExpr body e
  | .location l => lowerLocation body l

/-- Some statements stand in a body: they are all of a block of the body from some place on. -/
inductive Stands (items : List Stmt) : List Stmt → Prop
  | here : Stands items items
  | behind {x : Stmt} {rest : List Stmt} : Stands items rest → Stands items (x :: rest)
  | inside {x : Stmt} {rest block : List Stmt} : block ∈ x.inner → Stands items block →
      Stands items (x :: rest)

theorem Stands.of_mem {items xs block : List Stmt} {x : Stmt} (hx : x ∈ xs)
    (hblock : block ∈ x.inner)
    (h : Stands items block) : Stands items xs := by
  induction xs with
  | nil => cases hx
  | cons y ys ih =>
      rcases List.mem_cons.1 hx with rfl | hx
      · exact .inside hblock h
      · exact .behind (ih hx)

section steps

variable {α β γ : Type} {x : Lower α} {f : α → Lower β} {y : Lower γ}

/-- Two steps can be made only where the first one can. -/
theorem Allows.left (h : Allows x (fun _ _ => True) y) : Allows (x >>= f) (fun _ _ => True) y := by
  intro s b s'' hrun t
  obtain ⟨a, s', hx, -⟩ := Lower.of_bind hrun
  exact h s a s' hx t

/-- Two steps can be made only if the second one can be made behind the first. -/
theorem Allows.right (h : ∀ a, Allows (f a) (fun _ _ => True) y) :
    Allows (x >>= f) (fun _ _ => True) y := by
  intro s b s'' hrun t
  obtain ⟨a, s', -, hf⟩ := Lower.of_bind hrun
  exact h a s' b s'' hf t

theorem Allows.known {fact : Option α} {missing : MissingFact}
    (h : ∀ a, fact = some a → Allows (f a) (fun _ _ => True) y) :
    Allows (known fact missing >>= f) (fun _ _ => True) y := by
  cases fact with
  | none =>
      rintro s b s' hrun
      cases hrun
  | some a => exact h a rfl

end steps

section nodes

variable {body body' : Body} (hb : body.Serves body') {vars : List VarDecl} {n : Node}
include hb

omit hb in
mutual

/-- If code for an expression can be made, code for all its parts can be. As many arguments have to
be given as there are parameters, since code is made for no others. -/
theorem allows_node_expr (hb : body.Serves body') :
    ∀ e : Expr, (∀ m ∈ e.nodes, m.Bound body.analysis body.layouts vars) →
    n ∈ e.nodes → Allows (lowerExpr body e) (fun _ _ => True) (n.code body')
  | .unary tag op operand, he, hn => by
      rw [Expr.nodes, List.forall_mem_cons] at he
      rcases List.mem_cons.1 hn with rfl | hn
      · exact allows_expr hb (.unary tag op operand)
      · have hoperand := allows_node_expr hb operand he.2 hn
        cases op with
        | neg => exact .left hoperand
        | not => exact .left hoperand
  | .binary tag op left right, he, hn => by
      rw [Expr.nodes, List.forall_mem_cons, List.forall_mem_append] at he
      rcases List.mem_cons.1 hn with rfl | hn
      · exact allows_expr hb (.binary tag op left right)
      rcases List.mem_append.1 hn with hn | hn
      · have hleft := allows_node_expr hb left he.2.1 hn
        cases op with
        | and => exact .right fun _ => .left hleft
        | _ => exact .left hleft
      · have hright := allows_node_expr hb right he.2.2 hn
        cases op with
        | and =>
            exact .right fun _ => .right fun _ => .right fun _ => .right fun _ => .right fun _ =>
              .right fun _ => .right fun _ => .left hright
        | _ => exact .right fun _ => .left hright
  | .number tag value, _, hn => by
      obtain rfl := List.mem_singleton.1 hn
      exact allows_expr hb (.number tag value)
  | .bool tag value, _, hn => by
      obtain rfl := List.mem_singleton.1 hn
      exact allows_expr hb (.bool tag value)
  | .null tag, _, hn => by
      obtain rfl := List.mem_singleton.1 hn
      exact allows_expr hb (.null tag)
  | .this tag, _, hn => by
      obtain rfl := List.mem_singleton.1 hn
      exact allows_expr hb (.this tag)
  | .newObject tag cls, _, hn => by
      obtain rfl := List.mem_singleton.1 hn
      exact allows_expr hb (.newObject tag cls)
  | .read tag location, he, hn => by
      rw [Expr.nodes, List.forall_mem_cons] at he
      rcases List.mem_cons.1 hn with rfl | hn
      · exact allows_expr hb (.read tag location)
      · exact .left (allows_node_location hb location he.2 hn)
  | .arrayLength tag array, he, hn => by
      rw [Expr.nodes, List.forall_mem_cons] at he
      rcases List.mem_cons.1 hn with rfl | hn
      · exact allows_expr hb (.arrayLength tag array)
      · exact .left (allows_node_expr hb array he.2 hn)
  | .newArray tag element size, he, hn => by
      rw [Expr.nodes, List.forall_mem_cons] at he
      rcases List.mem_cons.1 hn with rfl | hn
      · exact allows_expr hb (.newArray tag element size)
      · exact .right fun _ => .right fun _ => .right fun _ =>
          .left (allows_node_expr hb size he.2 hn)
  | .call tag name args, he, hn => by
      rw [Expr.nodes, List.forall_mem_cons] at he
      obtain ⟨⟨target, hcall, htakes⟩, he⟩ := he
      rcases List.mem_cons.1 hn with rfl | hn
      · exact allows_expr hb (.call tag name args)
      refine .known fun target' htarget => ?_
      obtain rfl := Option.some.inj (hcall.symm.trans htarget)
      cases target with
      | print => exact .left (allows_node_arguments hb args he (le_of_eq htakes) hn)
      | function decl =>
          obtain ⟨s, hs, hlength⟩ := htakes
          refine .known fun s' hs' => .left ?_
          obtain rfl := Option.some.inj (hs.symm.trans hs')
          exact allows_node_arguments hb args he hlength.ge hn
      | method owner decl =>
          obtain ⟨l, s, hl, hs, hlength⟩ := htakes
          refine .right fun _ => .known fun l' hl' => ?_
          obtain rfl := Option.some.inj (hl.symm.trans hl')
          refine .known fun s' hs' => .left ?_
          obtain rfl := Option.some.inj (hs.symm.trans hs')
          exact allows_node_arguments hb args he hlength.ge hn
  | .methodCall tag receiver name args, he, hn => by
      rw [Expr.nodes, List.forall_mem_cons, List.forall_mem_append] at he
      obtain ⟨⟨owner, decl, hcall, l, s, hl, hs, hlength⟩, hreceiver, hargs⟩ := he
      rcases List.mem_cons.1 hn with rfl | hn
      · exact allows_expr hb (.methodCall tag receiver name args)
      rcases List.mem_append.1 hn with hn | hn
      · exact .left (allows_node_expr hb receiver hreceiver hn)
      refine .right fun _ => .right fun _ => .known fun target htarget => ?_
      obtain rfl := Option.some.inj (hcall.symm.trans htarget)
      refine .known fun l' hl' => .right fun _ => ?_
      obtain rfl := Option.some.inj (hl.symm.trans hl')
      refine .known fun s' hs' => .left ?_
      obtain rfl := Option.some.inj (hs.symm.trans hs')
      exact allows_node_arguments hb args hargs hlength.ge hn
termination_by structural e => e

theorem allows_node_location (hb : body.Serves body') : ∀ l : Location,
    (∀ m ∈ l.nodes, m.Bound body.analysis body.layouts vars) →
    n ∈ l.nodes → Allows (lowerLocation body l) (fun _ _ => True) (n.code body')
  | .var tag name, _, hn => by
      obtain rfl := List.mem_singleton.1 hn
      exact allows_location hb (.var tag name)
  | .field tag receiver name, hl, hn => by
      rw [Location.nodes, List.forall_mem_cons] at hl
      rcases List.mem_cons.1 hn with rfl | hn
      · exact allows_location hb (.field tag receiver name)
      · exact .left (allows_node_expr hb receiver hl.2 hn)
  | .index tag array index, hl, hn => by
      rw [Location.nodes, List.forall_mem_cons, List.forall_mem_append] at hl
      rcases List.mem_cons.1 hn with rfl | hn
      · exact allows_location hb (.index tag array index)
      rcases List.mem_append.1 hn with hn | hn
      · exact .left (allows_node_expr hb array hl.2.1 hn)
      · exact .right fun _ => .right fun _ => .left (allows_node_expr hb index hl.2.2 hn)
termination_by structural l => l

theorem allows_node_arguments (hb : body.Serves body') : ∀ (args : List Expr) {params : List Ty},
    (∀ m ∈ nodesOfArguments args, m.Bound body.analysis body.layouts vars) →
    args.length ≤ params.length → n ∈ nodesOfArguments args →
      Allows (lowerArguments body args params) (fun _ _ => True) (n.code body')
  | [], _, _, _, hn => (List.not_mem_nil hn).elim
  | _ :: _, [], _, hlength, _ => absurd hlength (Nat.not_succ_le_zero _)
  | arg :: args, _ :: _, hargs, hlength, hn => by
      rw [nodesOfArguments, List.forall_mem_append] at hargs
      rcases List.mem_append.1 hn with hn | hn
      · exact .left (allows_node_expr hb arg hargs.1 hn)
      · exact .right fun _ => .right fun _ =>
          .left (allows_node_arguments hb args hargs.2 (Nat.le_of_succ_le_succ hlength) hn)
termination_by structural args => args

end

omit hb in
mutual

theorem allows_node_stmt (hb : body.Serves body') :
    ∀ x : Stmt, (∀ m ∈ x.nodes, m.Bound body.analysis body.layouts vars) →
    n ∈ x.nodes → Allows (lowerStmt body x) (fun _ _ => True) (n.code body')
  | .declare _, _, hn => (List.not_mem_nil hn).elim
  | .eval value, hx, hn => .right fun _ => .left (allows_node_expr hb value hx hn)
  | .return _ value, hx, hn => .right fun _ => .left (allows_node_expr hb value hx hn)
  | .assign _ target value, hx, hn => by
      rw [Stmt.nodes, List.forall_mem_append] at hx
      rcases List.mem_append.1 hn with hn | hn
      · exact .right fun _ => .left (allows_node_location hb target hx.1 hn)
      · exact .right fun _ => .right fun _ => .left (allows_node_expr hb value hx.2 hn)
  | .branch _ test onTrue none, hx, hn => by
      rw [Stmt.nodes, List.forall_mem_append] at hx
      rcases List.mem_append.1 hn with hn | hn
      · exact .right fun _ => .left (allows_node_expr hb test hx.1 hn)
      · exact .right fun _ => .right fun _ => .right fun _ => .right fun _ => .right fun _ =>
          .right fun _ => .right fun _ => .left (allows_node_stmt hb onTrue hx.2 hn)
  | .branch _ test onTrue (some onFalse), hx, hn => by
      rw [Stmt.nodes, List.forall_mem_append, List.forall_mem_append] at hx
      rcases List.mem_append.1 hn with hn | hn
      · exact .right fun _ => .left (allows_node_expr hb test hx.1 hn)
      refine .right fun _ => .right fun _ => .right fun _ => .right fun _ => .right fun _ =>
        .right fun _ => .right fun _ => ?_
      rcases List.mem_append.1 hn with hn | hn
      · exact .left (allows_node_stmt hb onTrue hx.2.1 hn)
      · exact .right fun _ => .right fun _ => .right fun _ =>
          .left (allows_node_stmt hb onFalse hx.2.2 hn)
  | .loop _ test repeated, hx, hn => by
      rw [Stmt.nodes, List.forall_mem_append] at hx
      refine .right fun _ => .right fun _ => .right fun _ => .right fun _ => .right fun _ =>
        .right fun _ => ?_
      rcases List.mem_append.1 hn with hn | hn
      · exact .left (allows_node_expr hb test hx.1 hn)
      · exact .right fun _ => .right fun _ => .right fun _ =>
          .left (allows_node_stmt hb repeated hx.2 hn)
  | .block _ stmts, hx, hn => .right fun _ => allows_node_stmts hb stmts hx hn
termination_by structural x => x

theorem allows_node_stmts (hb : body.Serves body') : ∀ xs : List Stmt,
    (∀ m ∈ nodesOfBody xs, m.Bound body.analysis body.layouts vars) →
    n ∈ nodesOfBody xs → Allows (lowerStmts body xs) (fun _ _ => True) (n.code body')
  | [], _, hn => (List.not_mem_nil hn).elim
  | x :: xs, hxs, hn => by
      rw [nodesOfBody, List.forall_mem_append] at hxs
      rcases List.mem_append.1 hn with hn | hn
      · exact .left (allows_node_stmt hb x hxs.1 hn)
      · exact .right fun _ => allows_node_stmts hb xs hxs.2 hn
termination_by structural xs => xs

end

omit hb

/-- Code for a statement can be made only where code for the blocks in it can be. -/
theorem allows_inner {γ : Type} {y : Lower γ} {x : Stmt} {block : List Stmt}
    (hblock : block ∈ x.inner) (h : Allows (lowerStmts body block) (fun _ _ => True) y) :
    Allows (lowerStmt body x) (fun _ _ => True) y := by
  cases x with
  | declare | eval | assign | «return» => cases hblock
  | branch span test onTrue onFalse =>
      rw [lowerStmt_branch]
      refine .right fun _ => .right fun _ => .right fun _ => .right fun _ => .right fun _ =>
        .right fun _ => .right fun _ => ?_
      cases onFalse with
      | none =>
          obtain rfl := List.mem_singleton.1 hblock
          rw [lowerStmts_singleton] at h
          exact .left h
      | some onFalse =>
          rcases List.mem_cons.1 hblock with rfl | hblock
          · rw [lowerStmts_singleton] at h
            exact .left h
          · obtain rfl := List.mem_singleton.1 hblock
            rw [lowerStmts_singleton] at h
            exact .right fun _ => .right fun _ => .right fun _ => .left h
  | loop span test repeated =>
      obtain rfl := List.mem_singleton.1 hblock
      rw [lowerStmts_singleton] at h
      rw [lowerStmt_loop]
      exact .right fun _ => .right fun _ => .right fun _ => .right fun _ => .right fun _ =>
        .right fun _ => .right fun _ => .right fun _ => .right fun _ => .left h
  | block span stmts =>
      obtain rfl := List.mem_singleton.1 hblock
      exact .right fun _ => h

include hb

/-- If code for a body can be made, code for all statements that stand in it can be. -/
theorem allows_stands {items xs : List Stmt} (h : Stands items xs) :
    Allows (lowerStmts body xs) (fun _ _ => True) (lowerStmts body' items) := by
  induction h with
  | here => exact allows_stmts hb items
  | behind _ ih => exact .right fun _ => ih
  | inside hblock _ ih => exact .left (allows_inner hblock ih)

end nodes

end ObjectLang
