import Mathlib.Tactic
import ObjectLang.Proofs.Analysis.States
import ObjectLang.Proofs.Lowering.Known
import ObjectLang.Proofs.Lowering.Parallel

/-!
# Allocators that are asked for

Only the making of a new array asks for an allocator, and it does so for the component of the type
that is noted of it. All operands, statements and arguments have code made for them, arguments
because what is called takes as many as there are. So after code was made for the bodies of a
program, there are allocators for just the components of the arrays that are made in it.
-/
namespace ObjectLang

/-- The component of the array that is made at a node, as it is noted. -/
def Node.made? (notes : Notes) : Node → Option ValueType
  | .expr (.newArray tag _ _) => (notes.type? tag.id).bind ValueType.component?
  | _ => none

theorem Node.exists_of_made? {notes : Notes} {n : Node} {V : ValueType}
    (h : n.made? notes = some V) : ∃ tag element size, n = .expr (.newArray tag element size) := by
  unfold Node.made? at h
  split at h
  · exact ⟨_, _, _, rfl⟩
  · cases h

/-- The components of the arrays that are made at some nodes. -/
def madeAt (notes : Notes) (nodes : List Node) : List ValueType :=
  nodes.filterMap (Node.made? notes)

theorem madeAt_append (n : Notes) (l l' : List Node) :
    madeAt n (l ++ l') = madeAt n l ++ madeAt n l' :=
  List.filterMap_append

/-- Allocators for some components are asked for: all that were there stay, for each component there
is one afterwards, and there are no others. -/
structure LowerState.Grants (s : LowerState) (asked : List ValueType) (s' : LowerState) : Prop where
  kept : s.allocators ⊆ s'.allocators
  new : ∀ x ∈ s'.allocators, x ∈ s.allocators ∨ x.1 ∈ asked
  answered : ∀ V ∈ asked, ∃ x ∈ s'.allocators, x.1.same V = true

/-- The making of code asks for allocators for some components, if it misses no fact. -/
def Asks {α : Type} (x : Lower α) (asked : List ValueType) : Prop :=
  ∀ s a s', x s = .ok (a, s') → s.Grants asked s'

section combinators

variable {α β : Type} {x : Lower α} {asked asked' : List ValueType} {s s' s'' : LowerState}

theorem LowerState.Grants.rfl : s.Grants [] s :=
  ⟨fun _ h => h, fun _ h => .inl h, List.forall_mem_nil _⟩

theorem LowerState.Grants.trans (h : s.Grants asked s') (h' : s'.Grants asked' s'') :
    s.Grants (asked ++ asked') s'' := by
  refine ⟨fun _ hx => h'.kept (h.kept hx), fun x hx => ?_, fun V hV => ?_⟩
  · rcases h'.new x hx with hx | hx
    · exact (h.new x hx).imp_right (List.mem_append_left _)
    · exact .inr (List.mem_append_right _ hx)
  · rcases List.mem_append.1 hV with hV | hV
    · obtain ⟨x, hx, hsame⟩ := h.answered V hV
      exact ⟨x, h'.kept hx, hsame⟩
    · exact h'.answered V hV

theorem Asks.bind {k : α → Lower β} (h : Asks x asked) (hk : ∀ a, Asks (k a) asked') :
    Asks (x >>= k) (asked ++ asked') := by
  intro s b s'' hrun
  obtain ⟨a, s', hx, hrun⟩ := Lower.of_bind hrun
  exact (h s a s' hx).trans (hk a s' b s'' hrun)

/-- What follows asks for nothing. -/
theorem Asks.first {k : α → Lower β} (h : Asks x asked) (hk : ∀ a, Asks (k a) []) :
    Asks (x >>= k) asked := by
  have hboth := h.bind hk
  rwa [List.append_nil] at hboth

/-- What comes before asks for nothing. -/
theorem Asks.then {k : α → Lower β} (h : Asks x []) (hk : ∀ a, Asks (k a) asked) :
    Asks (x >>= k) asked :=
  h.bind hk

/-- A fact that is looked up is there if nothing is missing. -/
theorem Asks.known {fact : Option α} {missing : MissingFact} {k : α → Lower β}
    (hk : ∀ a, fact = some a → Asks (k a) asked) : Asks (known fact missing >>= k) asked := by
  cases fact with
  | none =>
      intro s b s' hrun
      obtain ⟨_, _, hx, _⟩ := Lower.of_bind hrun
      cases hx
  | some a => exact hk a (Eq.refl _)

theorem asks_throw (missing : MissingFact) : Asks (throw missing : Lower α) asked := by
  intro s a s' hrun
  cases hrun

theorem Asks.forM {ι : Type} {f : ι → Lower PUnit} {asked : ι → List ValueType} {l : List ι}
    (h : ∀ i ∈ l, Asks (f i) (asked i)) : Asks (l.forM f) (l.flatMap asked) := by
  induction l with
  | nil =>
      rintro s _ _ ⟨⟩
      exact .rfl
  | cons i l ih =>
      rw [List.forall_mem_cons] at h
      exact h.1.bind fun _ => ih h.2

end combinators

section

variable {α β : Type}

/-- A part of the making of code that asks for no allocators. -/
class Modest (x : Lower α) : Prop where
  asks : Asks x []

theorem modest_of_eq {x : Lower α}
    (h : ∀ s a s', x s = .ok (a, s') → s'.allocators = s.allocators) :
    Modest x := by
  refine ⟨fun s a s' hrun => ?_⟩
  have hsame := h s a s' hrun
  exact ⟨fun x hx => hsame ▸ hx, fun x hx => .inl (hsame ▸ hx), List.forall_mem_nil _⟩

instance (a : α) : Modest (pure a : Lower α) :=
  ⟨fun _ _ _ h => by cases h; exact .rfl⟩

instance modest_bind {x : Lower α} {k : α → Lower β} [hx : Modest x] [hk : ∀ a, Modest (k a)] :
    Modest (x >>= k) :=
  ⟨hx.asks.then fun a => (hk a).asks⟩

instance {c : Prop} [Decidable c] {x y : Lower α} [hx : Modest x] [hy : Modest y] :
    Modest (if c then x else y) := by
  split
  · exact hx
  · exact hy

instance : Modest (get : Lower LowerState) :=
  modest_of_eq fun _ _ _ h => by cases h; rfl

instance (fact : Option α) (missing : MissingFact) : Modest (known fact missing) :=
  modest_of_eq fun _ _ _ h => by cases fact <;> cases h; rfl

instance (build : Build α) : Modest (onTarget build) :=
  modest_of_eq fun _ _ _ h => by cases h; rfl

instance (f : IR.Builder → α × IR.Builder) : Modest (compute f) :=
  modest_of_eq fun _ _ _ h => by cases h; rfl

instance (f : IR.Builder → IR.Builder) : Modest (perform f) :=
  modest_of_eq fun _ _ _ h => by cases h; rfl

instance (x : IR.Operand) : Modest (typeOfOperand x) := by
  unfold typeOfOperand
  infer_instance

instance (value : IR.Operand) (target : IR.Ty) : Modest (cast value target) := by
  unfold cast
  infer_instance

instance (condition : IR.Operand) (stopName goName message : String) :
    Modest (stopIf condition stopName goName message) := by
  unfold stopIf
  infer_instance

instance (value : IR.Operand) (span : Span) : Modest (nullCheck value span) := by
  unfold nullCheck
  infer_instance

instance (array : IR.Operand) : Modest (arrayLength array) := by
  unfold arrayLength
  infer_instance

instance (array index : IR.Operand) (span : Span) : Modest (boundsCheck array index span) := by
  unfold boundsCheck
  infer_instance

instance (dividend divisor : IR.Operand) (span : Span) :
    Modest (quotient dividend divisor span) := by
  unfold quotient
  iterate 8 refine @modest_bind _ _ _ _ _ fun _ => ?_
  infer_instance

instance (l r : ValueType) (left right : IR.Operand) : Modest (equality l r left right) := by
  unfold equality
  infer_instance

instance (address value : IR.Operand) : Modest (assign address value) := by
  unfold assign
  infer_instance

instance (value : IR.Operand) : Modest (returnValue value) := by
  unfold returnValue
  infer_instance

instance (temp : Nat) (decl : VarDecl) : Modest (lowerParameter temp decl) := by
  unfold lowerParameter
  infer_instance

instance modest_mapM (f : α → Lower β) [h : ∀ a, Modest (f a)] : (l : List α) → Modest (l.mapM f)
  | [] => by
      rw [List.mapM_nil]
      infer_instance
  | a :: l => by
      have := modest_mapM f l
      rw [List.mapM_cons]
      infer_instance

instance modest_forM (f : α → Lower PUnit) [h : ∀ a, Modest (f a)] : (l : List α) →
    Modest (l.forM f)
  | [] => inferInstanceAs (Modest (pure PUnit.unit))
  | a :: l => by
      have := modest_forM f l
      exact inferInstanceAs (Modest (f a >>= fun _ => l.forM f))

variable (body : Body)

instance (id : Nat) : Modest (body.typeOf id) := by
  unfold Body.typeOf
  infer_instance

instance (id : Nat) : Modest (body.classOf id) := by
  unfold Body.classOf
  infer_instance

instance (type : ValueType) : Modest (body.lower type) := by
  unfold Body.lower
  infer_instance

instance (t : TypeExpr) : Modest (body.lowerTypeExpr t) := by
  unfold Body.lowerTypeExpr
  infer_instance

instance (cls : ClassRef) : Modest (body.classLayout cls) := by
  unfold Body.classLayout
  infer_instance

instance (decl : VarDecl) : Modest (body.slot decl) := by
  unfold Body.slot
  infer_instance

instance (cls : ClassRef) : Modest (thisAs body cls) := by
  unfold thisAs
  infer_instance

instance (object : IR.Operand) (cls owner : ClassRef) (field : VarDecl) :
    Modest (fieldAddress body object cls owner field) := by
  unfold fieldAddress
  infer_instance

instance (s : Stmt) : Modest (commentOn body s) := by
  unfold commentOn
  infer_instance

instance (decl : VarDecl) : Modest (lowerLocal body decl) := by
  unfold lowerLocal
  infer_instance

end

theorem Modest.then {α β : Type} {x : Lower α} {k : α → Lower β} {asked : List ValueType}
    [h : Modest x] (hk : ∀ a, Asks (k a) asked) : Asks (x >>= k) asked :=
  h.asks.then hk

theorem Asks.rest {α β : Type} {x : Lower α} {k : α → Lower β} {asked : List ValueType}
    (h : Asks x asked) [hk : ∀ a, Modest (k a)] : Asks (x >>= k) asked :=
  h.first fun a => (hk a).asks

/-- The allocator for a component is asked for. -/
theorem asks_allocator (body : Body) (component : ValueType) :
    Asks (allocator body component) [component] := by
  intro s id s' hrun
  have hself : component.same component = true := by
    cases component <;> simp [ValueType.same, ClassRef.same]
  unfold allocator at hrun
  obtain ⟨_, _, hget, hrun⟩ := Lower.of_bind hrun
  cases hget
  cases hfind : s.allocators.find? (·.1.same component) with
  | some x =>
      simp only [hfind] at hrun
      cases hrun
      refine ⟨fun _ h => h, fun _ h => .inl h, fun V hV => ?_⟩
      rw [List.mem_singleton.1 hV]
      exact ⟨x, List.mem_of_find?_eq_some hfind, by simpa using List.find?_some hfind⟩
  | none =>
      simp only [hfind] at hrun
      obtain ⟨_, _, hlayout, hrun⟩ := Lower.of_bind hrun
      obtain ⟨_, _, hadd, hrun⟩ := Lower.of_bind hrun
      obtain ⟨_, _, hmodify, hrun⟩ := Lower.of_bind hrun
      cases hlayout
      cases hadd
      cases hmodify
      cases hrun
      refine ⟨fun _ h => List.mem_append_left _ h, fun x hx => ?_, fun V hV => ?_⟩
      · refine (List.mem_append.1 hx).imp_right fun hx => ?_
        rw [List.mem_singleton.1 hx]
        exact List.mem_singleton_self _
      · rw [List.mem_singleton.1 hV]
        exact ⟨_, List.mem_append_right _ (List.mem_singleton_self _), hself⟩

section trees

variable {body : Body} {vars : List VarDecl}

/-- The nodes have what is noted of them, and what they call takes their arguments. -/
def NodesBound (body : Body) (vars : List VarDecl) (nodes : List Node) : Prop :=
  ∀ n ∈ nodes, n.Bound body.analysis body.layouts vars

theorem NodesBound.append {l l' : List Node} (h : NodesBound body vars (l ++ l')) :
    NodesBound body vars l ∧ NodesBound body vars l' :=
  List.forall_mem_append.1 h

theorem NodesBound.tail {n : Node} {l : List Node} (h : NodesBound body vars (n :: l)) :
    NodesBound body vars l :=
  (List.forall_mem_cons.1 h).2

mutual

/-- Code for an expression asks for allocators for the arrays that are made in it. -/
theorem asks_expr : (e : Expr) → NodesBound body vars e.nodes →
    Asks (lowerExpr body e) (madeAt body.analysis.notes e.nodes)
  | .unary _ op operand, h => by
      have hoperand := asks_expr operand h.tail
      cases op <;> (unfold lowerExpr; exact hoperand.rest)
  | .binary tag op left right, h => by
      have hleft := asks_expr left h.tail.append.1
      have hright := asks_expr right h.tail.append.2
      refine (madeAt_append body.analysis.notes left.nodes right.nodes).symm ▸ ?_
      cases op with
      | and =>
          unfold lowerExpr
          refine Modest.then fun _ => hleft.bind fun _ => ?_
          iterate 5 refine Modest.then fun _ => ?_
          exact hright.rest
      | _ =>
          unfold lowerExpr
          exact hleft.bind fun _ => hright.rest
  | .number _ _, _ | .bool _ _, _ | .null _, _ | .newObject _ _, _ | .this _, _ => by
      unfold lowerExpr
      exact Modest.asks
  | .read _ location, h => by
      unfold lowerExpr
      exact (asks_location location h.tail).rest
  | .arrayLength _ array, h => by
      unfold lowerExpr
      exact (asks_expr array h.tail).rest
  | .newArray tag element size, h => by
      have hsize := asks_expr size h.tail
      unfold lowerExpr
      refine Asks.known fun type htype => Asks.known fun component hcomponent => ?_
      have hmade : madeAt body.analysis.notes (Expr.newArray tag element size).nodes =
          [component] ++ madeAt body.analysis.notes size.nodes := by
        rw [Expr.nodes, madeAt, List.filterMap_cons_some (b := component)]
        · rfl
        · exact Option.bind_eq_some_iff.2 ⟨type, htype, hcomponent⟩
      rw [hmade]
      exact (asks_allocator body component).bind fun _ => hsize.rest
  | .call tag name args, h => by
      obtain ⟨target, htarget, htakes⟩ := h _ (List.mem_cons_self ..)
      unfold lowerExpr
      refine Asks.known fun target' htarget' => ?_
      obtain rfl := Option.some.inj (htarget.symm.trans htarget')
      cases target with
      | print => exact (asks_arguments args [.int] htakes h.tail).rest
      | function decl =>
          obtain ⟨s, hs, hlength⟩ := htakes
          refine Asks.known fun s' hs' => ?_
          obtain rfl := Option.some.inj (hs.symm.trans hs')
          exact (asks_arguments args s.params hlength.symm h.tail).rest
      | method owner decl =>
          obtain ⟨l, s, hl, hs, hlength⟩ := htakes
          refine Modest.then fun _ => Asks.known fun l' hl' => Asks.known fun s' hs' => ?_
          obtain rfl := Option.some.inj (hl.symm.trans hl')
          obtain rfl := Option.some.inj (hs.symm.trans hs')
          exact (asks_arguments args s.params hlength.symm h.tail).rest
  | .methodCall tag receiver name args, h => by
      obtain ⟨owner, decl, htarget, l, s, hl, hs, hlength⟩ := h _ (List.mem_cons_self ..)
      refine (madeAt_append body.analysis.notes receiver.nodes (nodesOfArguments args)).symm ▸ ?_
      unfold lowerExpr
      refine (asks_expr receiver h.tail.append.1).bind fun _ => Modest.then fun _ => ?_
      refine Asks.known fun target' htarget' => ?_
      obtain rfl := Option.some.inj (htarget.symm.trans htarget')
      refine Asks.known fun l' hl' => Modest.then fun _ => Asks.known fun s' hs' => ?_
      obtain rfl := Option.some.inj (hl.symm.trans hl')
      obtain rfl := Option.some.inj (hs.symm.trans hs')
      exact (asks_arguments args s.params hlength.symm h.tail.append.2).rest
termination_by structural e => e

theorem asks_location : (l : Location) → NodesBound body vars l.nodes →
    Asks (lowerLocation body l) (madeAt body.analysis.notes l.nodes)
  | .var _ _, _ => by
      unfold lowerLocation
      refine Asks.known fun binding _ => ?_
      cases binding <;> exact Modest.asks
  | .field _ receiver _, h => by
      unfold lowerLocation
      refine (asks_expr receiver h.tail).first fun _ => Modest.then fun _ => Modest.then fun _ => ?_
      refine Asks.known fun binding _ => ?_
      obtain _ | _ := binding
      · exact asks_throw _
      · exact Modest.asks
  | .index _ array index, h => by
      refine (madeAt_append body.analysis.notes array.nodes index.nodes).symm ▸ ?_
      unfold lowerLocation
      refine (asks_expr array h.tail.append.1).bind fun _ => Modest.then fun _ => ?_
      exact (asks_expr index h.tail.append.2).rest
termination_by structural l => l

theorem asks_arguments : (args : List Expr) → (params : List IR.Ty) →
    args.length = params.length → NodesBound body vars (nodesOfArguments args) →
    Asks (lowerArguments body args params) (madeAt body.analysis.notes (nodesOfArguments args))
  | [], params, _, _ => by
      unfold lowerArguments
      exact Modest.asks
  | _ :: _, [], hlength, _ => nomatch hlength
  | arg :: args, type :: params, hlength, h => by
      have harguments := asks_arguments args params (Nat.succ.inj hlength) h.append.2
      refine (madeAt_append body.analysis.notes arg.nodes (nodesOfArguments args)).symm ▸ ?_
      unfold lowerArguments
      refine (asks_expr arg h.append.1).bind fun _ => Modest.then fun _ => ?_
      exact harguments.rest
termination_by structural args => args

end

mutual

/-- Code for a statement asks for allocators for the arrays that are made in it. -/
theorem asks_stmt : (s : Stmt) → NodesBound body vars s.nodes →
    Asks (lowerStmt body s) (madeAt body.analysis.notes s.nodes)
  | .declare _, _ => by
      rw [lowerStmt_declare]
      exact Modest.asks
  | .eval value, h => by
      rw [lowerStmt_eval]
      exact Modest.then fun _ => (asks_expr value h).rest
  | .assign _ target value, h => by
      refine (madeAt_append body.analysis.notes target.nodes value.nodes).symm ▸ ?_
      rw [lowerStmt_assign]
      refine Modest.then fun _ => (asks_location target h.append.1).bind fun _ => ?_
      exact (asks_expr value h.append.2).rest
  | .branch _ test onTrue none, h => by
      refine (madeAt_append body.analysis.notes test.nodes onTrue.nodes).symm ▸ ?_
      rw [lowerStmt_branch, Option.elim_none]
      refine Modest.then fun _ => (asks_expr test h.append.1).bind fun _ => ?_
      iterate 5 refine Modest.then fun _ => ?_
      exact (asks_stmt onTrue h.append.2).rest
  | .branch _ test onTrue (some onFalse), h => by
      have hfalse := asks_stmt onFalse h.append.2.append.2
      refine (madeAt_append body.analysis.notes test.nodes (onTrue.nodes ++ onFalse.nodes)).symm ▸
        (madeAt_append body.analysis.notes onTrue.nodes onFalse.nodes).symm ▸ ?_
      rw [lowerStmt_branch]
      refine Modest.then fun _ => (asks_expr test h.append.1).bind fun _ => ?_
      iterate 5 refine Modest.then fun _ => ?_
      refine (asks_stmt onTrue h.append.2.append.1).bind fun _ => ?_
      exact Modest.then fun _ => Modest.then fun _ => hfalse.rest
  | .loop _ test repeated, h => by
      refine (madeAt_append body.analysis.notes test.nodes repeated.nodes).symm ▸ ?_
      rw [lowerStmt_loop]
      iterate 6 refine Modest.then fun _ => ?_
      refine (asks_expr test h.append.1).bind fun _ => ?_
      exact Modest.then fun _ => Modest.then fun _ => (asks_stmt repeated h.append.2).rest
  | .return _ value, h => by
      rw [lowerStmt_return]
      exact Modest.then fun _ => (asks_expr value h).rest
  | .block _ stmts, h => by
      rw [lowerStmt_block]
      exact Modest.then fun _ => asks_stmts stmts h
termination_by structural s => s

theorem asks_stmts : (stmts : List Stmt) → NodesBound body vars (nodesOfBody stmts) →
    Asks (lowerStmts body stmts) (madeAt body.analysis.notes (nodesOfBody stmts))
  | [], _ => Modest.asks (x := pure ())
  | s :: rest, h => by
      refine (madeAt_append body.analysis.notes s.nodes (nodesOfBody rest)).symm ▸ ?_
      rw [lowerStmts_cons]
      exact (asks_stmt s h.append.1).bind fun _ => asks_stmts rest h.append.2
termination_by structural stmts => stmts

end

/-- Code for a body asks for allocators for the arrays that are made in it. -/
theorem asks_body {f : FunctionDecl} (h : NodesBound body vars (nodesOfBody f.body))
    (isMethod : Bool) :
    Asks (lowerBody body isMethod f) (madeAt body.analysis.notes (nodesOfBody f.body)) := by
  unfold lowerBody
  refine Modest.then fun _ => ?_
  exact Modest.then fun params => Modest.then fun locals => asks_stmts f.body h

end trees

section program

variable {p : Program} {body : Body} {routines : List (Routine × Signature)} {T : Target}

theorem modest_modify {f : LowerState → LowerState} (h : ∀ s, (f s).allocators = s.allocators) :
    Modest (modify f : Lower PUnit) :=
  modest_of_eq fun s _ _ hrun => by cases hrun; exact h s

theorem asks_fillProcedure {id : Nat} {entry : String} {build : Lower Unit}
    {asked : List ValueType} (h : Asks build asked) :
    Asks (fillProcedure id entry build) asked := by
  unfold fillProcedure
  refine Modest.then fun _ => Modest.then fun q => ?_
  have := modest_modify (f := fun s => { s with builder := IR.Builder.start q entry }) fun _ => rfl
  have := modest_modify (f := fun s => { s with
    target := s.target.setProcedure id s.builder.procedure }) fun _ => rfl
  exact Modest.then fun _ => h.rest

theorem asks_lowerRoutine {vars : List VarDecl} {r : Routine}
    (h : NodesBound body vars (nodesOfBody r.decl.body)) :
    Asks (lowerRoutine body r) (madeAt body.analysis.notes (nodesOfBody r.decl.body)) := by
  obtain ⟨owner, decl⟩ := r
  cases owner with
  | none => exact Modest.then fun _ => asks_fillProcedure (asks_body h false)
  | some c => exact Modest.then fun _ => Modest.then fun _ => asks_fillProcedure (asks_body h true)

instance (component : ValueType) (id : Nat) : Modest (lowerAllocator body component id) := by
  unfold lowerAllocator
  iterate 4 refine @modest_bind _ _ _ _ _ fun _ => ?_
  exact ⟨Modest.then fun _ => asks_fillProcedure Modest.asks⟩

/-- The routines of an accepted program are its methods and functions. -/
theorem Program.Accepted.map_decl_routines {printName : String} {a : Analysis}
    (ha : p.Accepted printName a) : (p.routines a.classes.classes).map Routine.decl = p.bodies := by
  rw [Program.routines, Program.bodies, List.map_append, List.map_flatMap, List.map_map]
  refine congrArg₂ _ ?_ (List.map_id p.functions)
  rw [← ha.map_classDecl, List.flatMap_map]
  refine List.flatMap_congr fun c _ => ?_
  rw [Program.methodsOf, List.map_map]
  exact List.map_id _

/-- The bodies that code is made for are all of them. -/
theorem Program.Prepared.mem_bodies_iff (hp : p.Prepared body) {d : FunctionDecl} :
    d ∈ p.bodies ↔ ∃ r ∈ p.loweringOrder body.analysis.classes.classes, r.decl = d := by
  rw [← hp.accepted.map_decl_routines, List.mem_map]
  refine exists_congr fun r => and_congr_left fun _ => ?_
  exact (p.loweringOrder_perm hp.accepted.wellFormed.functionNames _).mem_iff.symm

/-- Code for an accepted program asks for allocators for the arrays that are made in its bodies. -/
theorem asks_lowerProgram (hp : p.Prepared body)
    (h : ∀ d ∈ p.bodies, ∃ vars, NodesBound body vars (nodesOfBody d.body)) :
    Asks (lowerProgram body p)
      ((p.loweringOrder body.analysis.classes.classes).flatMap fun r =>
        madeAt body.analysis.notes (nodesOfBody r.decl.body)) := by
  have hroutines : ∀ r ∈ p.loweringOrder body.analysis.classes.classes,
      Asks (lowerRoutine body r) (madeAt body.analysis.notes (nodesOfBody r.decl.body)) := by
    intro r hr
    obtain ⟨vars, hbound⟩ := h r.decl (hp.mem_bodies_iff.2 ⟨r, hr, rfl⟩)
    exact asks_lowerRoutine hbound
  rw [lowerProgram_eq hp]
  exact (Asks.forM hroutines).rest

end program

end ObjectLang
