import Mathlib.Tactic
import ObjectLang.Proofs.Lowering.DeadCode
import ObjectLang.Proofs.Lowering.Requests

/-!
# Where the code of a node is made

Making code for a body comes to making code for each of its statements, these for their parts, and
so on down to the leaves. Each of them is begun in the state that what was made before has left.
What is made before a part and what is made behind it is orderly, so a course leads to every node,
and another one from behind it to the end.
-/
namespace ObjectLang

open IR

/-- What code is made for: a node, the arguments of a call, or statements. -/
inductive Fragment where
  | node (n : Node)
  | arguments (args : List Expr) (params : List Ty)
  | stmts (xs : List Stmt)

namespace Fragment

/-- What the code for a fragment leaves. -/
def Result : Fragment → Type
  | .node _ => Operand
  | .arguments _ _ => List Operand
  | .stmts _ => Unit

/-- The code for a fragment. -/
def code (body : Body) : (x : Fragment) → Lower x.Result
  | .node n => n.code body
  | .arguments args params => lowerArguments body args params
  | .stmts xs => lowerStmts body xs

end Fragment

section leads

variable (body : Body) (span : Span)

/-- What is made before the right side of `&&`. Gives the slot of the result and the block where it
is known. -/
def enterRight (left : Expr) : Lower (Nat × Nat) := do
  let result ← compute (·.slot .bool)
  let first ← lowerExpr body left
  perform (·.store (.temp result) first)
  let onTrue ← compute (·.newBlock "and_right")
  let done ← compute (·.newBlock "and_end")
  perform (·.branch first onTrue done)
  perform (·.switchTo onTrue)
  return (result, done)

/-- What is made before the index of an element. Gives the array. -/
def enterIndex (array : Expr) : Lower Operand := do
  let base ← lowerExpr body array
  nullCheck base array.span
  return base

/-- What is made before the arguments of a call of a method of a class. Gives the receiver. -/
def enterCall (receiver : Expr) (layout : ClassLayout) : Lower Operand := do
  let object ← lowerExpr body receiver
  nullCheck object receiver.span
  cast object layout.pointerType

/-- What is made before the other arguments. Gives the first one, as a value of a type. -/
def enterOthers (arg : Expr) (type : Ty) : Lower Operand := do
  let value ← lowerExpr body arg
  cast value type

/-- What is made before the value that is assigned. Gives the place that it is assigned to. -/
def enterValue (target : Location) (value : Expr) : Lower Operand := do
  commentOn body (.assign span target value)
  lowerLocation body target

/-- What is made before the test of a loop. Gives its blocks: that of the test, that of the repeated
part, and the one behind the loop. -/
def enterTest (test : Expr) (repeated : Stmt) : Lower (Nat × Nat × Nat) := do
  commentOn body (.loop span test repeated)
  let check ← compute (·.newBlock "while_cond")
  let again ← compute (·.newBlock "while_body")
  let done ← compute (·.newBlock "while_end")
  perform (·.jump check)
  perform (·.switchTo check)
  return (check, again, done)

end leads

/-- Making code for a fragment in some state comes at once to making code for a part of it, in the
state that what is made before has left. -/
inductive Body.Turns (body : Body) : Fragment × LowerState → Fragment × LowerState → Prop
  | operand {tag : Tag} {op : UnaryOp} {e : Expr} {s : LowerState} :
      Turns body (.node (.expr (.unary tag op e)), s) (.node (.expr e), s)
  | left {tag : Tag} {op : BinaryOp} {l r : Expr} {s : LowerState} : op ≠ .and →
      Turns body (.node (.expr (.binary tag op l r)), s) (.node (.expr l), s)
  | right {tag : Tag} {op : BinaryOp} {l r : Expr} {s t : LowerState} {v : Operand} : op ≠ .and →
      lowerExpr body l s = .ok (v, t) →
      Turns body (.node (.expr (.binary tag op l r)), s) (.node (.expr r), t)
  | first {tag : Tag} {l r : Expr} {s t : LowerState} {result : Nat} :
      compute (·.slot .bool) s = .ok (result, t) →
      Turns body (.node (.expr (.binary tag .and l r)), s) (.node (.expr l), t)
  | second {tag : Tag} {l r : Expr} {s t : LowerState} {v : Nat × Nat} :
      enterRight body l s = .ok (v, t) →
      Turns body (.node (.expr (.binary tag .and l r)), s) (.node (.expr r), t)
  | read {tag : Tag} {l : Location} {s : LowerState} :
      Turns body (.node (.expr (.read tag l)), s) (.node (.location l), s)
  | measured {tag : Tag} {e : Expr} {s : LowerState} :
      Turns body (.node (.expr (.arrayLength tag e)), s) (.node (.expr e), s)
  | size {tag : Tag} {type : TypeExpr} {e : Expr} {array component : ValueType}
      {s t : LowerState} {procedure : Nat} :
      body.analysis.notes.type? tag.id = some array → array.component? = some component →
      allocator body component s = .ok (procedure, t) →
      Turns body (.node (.expr (.newArray tag type e)), s) (.node (.expr e), t)
  | printed {tag : Tag} {name : Ident} {args : List Expr} {s : LowerState} :
      body.analysis.notes.call? tag.id = some .print →
      Turns body (.node (.expr (.call tag name args)), s) (.arguments args [.int], s)
  | function {tag : Tag} {name : Ident} {args : List Expr} {decl : FunctionDecl} {sg : Signature}
      {s : LowerState} : body.analysis.notes.call? tag.id = some (.function decl) →
      body.layouts.function? decl.name.name = some sg →
      Turns body (.node (.expr (.call tag name args)), s) (.arguments args sg.params, s)
  | method {tag : Tag} {name : Ident} {args : List Expr} {owner : ClassRef} {decl : FunctionDecl}
      {layout : ClassLayout} {sg : Signature} {s t : LowerState} {v : Operand} :
      body.analysis.notes.call? tag.id = some (.method owner decl) →
      body.layouts.class? owner.name = some layout → layout.method? decl.name.name = some sg →
      thisAs body owner s = .ok (v, t) →
      Turns body (.node (.expr (.call tag name args)), s) (.arguments args sg.params, t)
  | receiver {tag : Tag} {name : Ident} {e : Expr} {args : List Expr} {s : LowerState} :
      Turns body (.node (.expr (.methodCall tag e name args)), s) (.node (.expr e), s)
  | handed {tag : Tag} {name : Ident} {e : Expr} {args : List Expr} {owner : ClassRef}
      {decl : FunctionDecl} {layout : ClassLayout} {sg : Signature} {s t : LowerState}
      {v : Operand} : body.analysis.notes.call? tag.id = some (.method owner decl) →
      body.layouts.class? owner.name = some layout → layout.method? decl.name.name = some sg →
      enterCall body e layout s = .ok (v, t) →
      Turns body (.node (.expr (.methodCall tag e name args)), s) (.arguments args sg.params, t)
  | object {tag : Tag} {e : Expr} {name : Ident} {s : LowerState} :
      Turns body (.node (.location (.field tag e name)), s) (.node (.expr e), s)
  | array {tag : Tag} {e i : Expr} {s : LowerState} :
      Turns body (.node (.location (.index tag e i)), s) (.node (.expr e), s)
  | index {tag : Tag} {e i : Expr} {s t : LowerState} {v : Operand} :
      enterIndex body e s = .ok (v, t) →
      Turns body (.node (.location (.index tag e i)), s) (.node (.expr i), t)
  | argument {e : Expr} {es : List Expr} {type : Ty} {types : List Ty} {s : LowerState} :
      Turns body (.arguments (e :: es) (type :: types), s) (.node (.expr e), s)
  | others {e : Expr} {es : List Expr} {type : Ty} {types : List Ty} {s t : LowerState}
      {v : Operand} : enterOthers body e type s = .ok (v, t) →
      Turns body (.arguments (e :: es) (type :: types), s) (.arguments es types, t)
  | value {e : Expr} {rest : List Stmt} {s t : LowerState} :
      commentOn body (.eval e) s = .ok ((), t) →
      Turns body (.stmts (.eval e :: rest), s) (.node (.expr e), t)
  | target {span : Span} {l : Location} {e : Expr} {rest : List Stmt} {s t : LowerState} :
      commentOn body (.assign span l e) s = .ok ((), t) →
      Turns body (.stmts (.assign span l e :: rest), s) (.node (.location l), t)
  | assigned {span : Span} {l : Location} {e : Expr} {rest : List Stmt} {s t : LowerState}
      {v : Operand} : enterValue body span l e s = .ok (v, t) →
      Turns body (.stmts (.assign span l e :: rest), s) (.node (.expr e), t)
  | condition {span : Span} {e : Expr} {x : Stmt} {other : Option Stmt} {rest : List Stmt}
      {s t : LowerState} : commentOn body (.branch span e x other) s = .ok ((), t) →
      Turns body (.stmts (.branch span e x other :: rest), s) (.node (.expr e), t)
  | test {span : Span} {e : Expr} {x : Stmt} {rest : List Stmt} {s t : LowerState}
      {v : Nat × Nat × Nat} : enterTest body span e x s = .ok (v, t) →
      Turns body (.stmts (.loop span e x :: rest), s) (.node (.expr e), t)
  | returned {span : Span} {e : Expr} {rest : List Stmt} {s t : LowerState} :
      commentOn body (.return span e) s = .ok ((), t) →
      Turns body (.stmts (.return span e :: rest), s) (.node (.expr e), t)
  | stmts {xs ys : List Stmt} {s t : LowerState} : body.Calls (xs, s) (ys, t) →
      Turns body (.stmts xs, s) (.stmts ys, t)

/-- Making code for a fragment comes at last to making code for another one. -/
def Body.TurnsTo (body : Body) : Fragment × LowerState → Fragment × LowerState → Prop :=
  Relation.ReflTransGen body.Turns

/-- Some code is a part of other code: something is made before it and something behind it, so that
in the end the same blocks are still to be opened as at first. -/
def Embeds {α β γ : Type} (lead : Lower β) (part : Lower α) (whole : Lower γ) : Prop :=
  ∃ follow : β → α → Lower γ, whole = (do
      let b ← lead
      let a ← part
      follow b a) ∧
    ∀ o, ∃ d : β → Outlook, Steers o lead d ∧
      ∀ b a, Steers (d b).blind (follow b a) fun _ => o.blind

/-- A fact that is there is looked up. -/
theorem known_some {α : Type} (a : α) (missing : MissingFact) : known (some a) missing = pure a :=
  rfl

theorem Lower.of_known {α : Type} {fact : Option α} {missing : MissingFact} {a : α}
    {s t : LowerState} (h : known fact missing s = .ok (a, t)) : fact = some a ∧ t = s := by
  cases fact with
  | none => cases h
  | some b =>
      cases h
      exact ⟨rfl, rfl⟩

section embeds

variable {α β γ : Type} {lead : Lower β} {part : Lower α} {whole : Lower γ} {body : Body}
  {o : Outlook} {e l r i : Expr} {x : Stmt} {rest : List Stmt} {span : Span} {tag : Tag}
  {name : Ident} {args es : List Expr} {types : List Ty} {type : Ty}

/-- What is made first in some code. -/
theorem embeds_first (follow : α → Lower γ) (h : whole = part >>= follow)
    (hfollow : ∀ (o : Outlook) a, Steers o.blind (follow a) fun _ => o.blind) :
    Embeds (pure () : Lower Unit) part whole :=
  ⟨fun _ => follow, h.trans (pure_bind ..).symm,
    fun o => ⟨fun _ => o, steers_pure .rfl, fun _ => hfollow o⟩⟩

theorem Embeds.split {s u : LowerState} {c : γ} (h : Embeds lead part whole)
    (hrun : whole s = .ok (c, u)) :
    ∃ v t a t', lead s = .ok (v, t) ∧ part t = .ok (a, t') := by
  obtain ⟨follow, rfl, -⟩ := h
  obtain ⟨v, t, hlead, hrest⟩ := Lower.of_bind hrun
  obtain ⟨a, t', hpart, -⟩ := Lower.of_bind hrest
  exact ⟨v, t, a, t', hlead, hpart⟩

/-- A part of the first of some statements is a part of all of them. -/
theorem Embeds.behind (h : Embeds lead part (lowerStmt body x)) (rest : List Stmt) :
    Embeds lead part (lowerStmts body (x :: rest)) := by
  obtain ⟨follow, heq, hsteers⟩ := h
  refine ⟨fun b a => do follow b a; lowerStmts body rest, ?_, fun o => ?_⟩
  · rw [lowerStmts_cons, heq]
    simp only [bind_assoc]
  · obtain ⟨d, hlead, hfollow⟩ := hsteers o
    exact ⟨d, hlead, fun b a => (hfollow b a).bind fun _ => steers_stmts rest⟩

theorem embeds_of_amid {part whole : Lower Unit} (h : Amid lead part whole) :
    Embeds lead part whole := by
  obtain ⟨follow, heq, hsteers⟩ := h
  refine ⟨fun b _ => follow b, heq, fun o => ?_⟩
  obtain ⟨d, hlead, hfollow⟩ := hsteers o
  exact ⟨d, hlead, fun b _ => hfollow b⟩

/-- Code for an expression may be made wherever it is not known whether a block is open. -/
theorem steers_blind (e : Expr) : Steers o (lowerExpr body e) fun _ => o.blind :=
  .weaken (steers_expr e (.inl rfl)) o.blind_le

theorem embeds_left {op : BinaryOp} (hop : op ≠ .and) :
    Embeds (pure () : Lower Unit) (lowerExpr body l) (lowerExpr body (.binary tag op l r)) := by
  have hboth : ∀ {op : Operation}, Embeds (pure () : Lower Unit) (lowerExpr body l) (do
      let first ← lowerExpr body l
      let second ← lowerExpr body r
      compute (·.binary op first second)) :=
    embeds_first _ rfl fun _ _ => .bind (steers_expr r (.inl rfl)) fun _ => steers_binary
  cases op with
  | and => exact absurd rfl hop
  | div =>
      exact embeds_first _ rfl fun _ _ =>
        .bind (steers_expr r (.inl rfl)) fun _ => steers_quotient (.inl rfl)
  | equal =>
      exact embeds_first _ rfl fun _ _ => .bind (steers_expr r (.inl rfl)) fun _ =>
        steers_typeOf.bind fun _ => steers_typeOf.bind fun _ => steers_equality
  | _ => exact hboth

theorem embeds_right {op : BinaryOp} (hop : op ≠ .and) :
    Embeds (lowerExpr body l) (lowerExpr body r) (lowerExpr body (.binary tag op l r)) := by
  have hboth : ∀ {op : Operation}, Embeds (lowerExpr body l) (lowerExpr body r) (do
      let first ← lowerExpr body l
      let second ← lowerExpr body r
      compute (·.binary op first second)) :=
    ⟨fun first second => compute (·.binary _ first second), rfl,
      fun o => ⟨_, steers_blind l, fun _ _ => steers_binary⟩⟩
  cases op with
  | and => exact absurd rfl hop
  | div =>
      exact ⟨fun first second => quotient first second tag.span, rfl,
        fun o => ⟨_, steers_blind l, fun _ _ => steers_quotient (.inl rfl)⟩⟩
  | equal =>
      exact ⟨fun first second => do
          equality (← body.typeOf l.id) (← body.typeOf r.id) first second, rfl,
        fun o => ⟨_, steers_blind l, fun _ _ =>
          steers_typeOf.bind fun _ => steers_typeOf.bind fun _ => steers_equality⟩⟩
  | _ => exact hboth

theorem embeds_and_left (tag : Tag) : Embeds (compute (·.slot .bool)) (lowerExpr body l)
    (lowerExpr body (.binary tag .and l r)) := by
  refine ⟨_, rfl, fun o => ⟨_, steers_slot, fun result first => ?_⟩⟩
  refine .bind steers_store fun _ => ?_
  refine .bind steers_newBlock fun onTrue => .bind steers_newBlock fun done => ?_
  refine .bind (steers_branch (by simp) (by simp)) fun _ => ?_
  refine .bind (steers_switchTo [done]) fun _ => ?_
  refine .bind (steers_expr r (.inr rfl)) fun _ => .bind steers_store fun _ => ?_
  refine .bind (steers_jump (by simp)) fun _ => .bind (steers_switchTo []) fun _ => ?_
  exact steers_load.mono fun _ => ⟨rfl, List.subset_append_right [done, onTrue] _, .inl rfl⟩

theorem steers_enterRight : Steers o (enterRight body l) fun v =>
    ⟨v.2 :: o.pending, v.2 :: o.known, some true⟩ := by
  refine .bind steers_slot fun result => .bind (steers_blind l) fun first =>
    .bind steers_store fun _ => ?_
  refine .bind steers_newBlock fun onTrue => .bind steers_newBlock fun done => ?_
  refine .bind (steers_branch (by simp) (by simp)) fun _ => ?_
  refine .bind (steers_switchTo [done]) fun _ => ?_
  exact steers_pure ⟨rfl, List.cons_subset_cons _ (List.subset_cons_self ..), .inr rfl⟩

theorem embeds_and_right (tag : Tag) : Embeds (enterRight body l) (lowerExpr body r)
    (lowerExpr body (.binary tag .and l r)) := by
  refine ⟨fun v second => (do
    perform (·.store (.temp v.1) second)
    perform (·.jump v.2)
    perform (·.switchTo v.2)
    compute (·.load (.temp v.1))), ?_, fun o => ⟨_, steers_enterRight, fun v _ => ?_⟩⟩
  · rw [enterRight]
    simp only [bind_assoc, pure_bind]
    rfl
  · refine .bind steers_store fun _ => .bind (steers_jump (by simp)) fun _ =>
      .bind (steers_switchTo []) fun _ => ?_
    exact steers_load.mono fun _ => ⟨rfl, List.subset_append_right [v.2] _, .inl rfl⟩

theorem embeds_operand {op : UnaryOp} : Embeds (pure () : Lower Unit) (lowerExpr body e)
    (lowerExpr body (.unary tag op e)) := by
  cases op with
  | neg | not => exact embeds_first _ rfl fun _ _ => steers_binary

theorem embeds_size (element : TypeExpr) {array component : ValueType}
    (harray : body.analysis.notes.type? tag.id = some array)
    (hcomponent : array.component? = some component) : Embeds (allocator body component)
      (lowerExpr body e) (lowerExpr body (.newArray tag element e)) := by
  refine ⟨fun procedure length => (do
    let pointer ← body.lower array
    compute (·.call procedure [length] pointer)), ?_,
    fun o => ⟨_, steers_allocator, fun _ _ => steers_lower.bind fun _ => steers_call⟩⟩
  change (known (body.analysis.notes.type? tag.id) _ >>= fun type => _) = _
  simp only [harray, known_some, pure_bind, hcomponent]

section calls

variable {owner : ClassRef} {decl : FunctionDecl} {layout : ClassLayout} {sg : Signature}

theorem embeds_printed (name : Ident)
    (hcall : body.analysis.notes.call? tag.id = some .print) :
    Embeds (pure () : Lower Unit) (lowerArguments body args [.int])
      (lowerExpr body (.call tag name args)) := by
  refine embeds_first (fun values => do
    let value ← known values.head? (.printArgument tag.id)
    perform (·.print value)
    return .int 0) ?_ fun o _ =>
      steers_known.bind fun _ => steers_print.bind fun _ => steers_pure .rfl
  change (known (body.analysis.notes.call? tag.id) _ >>= fun target => _) = _
  rw [hcall]
  rfl

theorem embeds_function (name : Ident)
    (hcall : body.analysis.notes.call? tag.id = some (.function decl))
    (hsg : body.layouts.function? decl.name.name = some sg) :
    Embeds (pure () : Lower Unit) (lowerArguments body args sg.params)
      (lowerExpr body (.call tag name args)) := by
  refine embeds_first (fun values => compute (·.call sg.procedure values sg.returnType)) ?_
    fun o _ => steers_call
  change (known (body.analysis.notes.call? tag.id) _ >>= fun target => _) = _
  simp only [hcall, known_some, pure_bind, hsg]

theorem embeds_method (name : Ident)
    (hcall : body.analysis.notes.call? tag.id = some (.method owner decl))
    (hl : body.layouts.class? owner.name = some layout)
    (hsg : layout.method? decl.name.name = some sg) : Embeds (thisAs body owner)
      (lowerArguments body args sg.params) (lowerExpr body (.call tag name args)) := by
  refine ⟨fun receiver values => compute (·.call sg.procedure (receiver :: values) sg.returnType),
    ?_, fun o => ⟨_, steers_thisAs, fun _ _ => steers_call⟩⟩
  change (known (body.analysis.notes.call? tag.id) _ >>= fun target => _) = _
  simp only [hcall, known_some, pure_bind, Body.classLayout, hl, hsg]

theorem steers_enterCall : Steers o (enterCall body e layout) fun _ => o.blind :=
  .bind (steers_blind e) fun _ => .bind (steers_nullCheck (.inl rfl)) fun _ => steers_cast

theorem embeds_handed (name : Ident)
    (hcall : body.analysis.notes.call? tag.id = some (.method owner decl))
    (hl : body.layouts.class? owner.name = some layout)
    (hsg : layout.method? decl.name.name = some sg) : Embeds (enterCall body e layout)
      (lowerArguments body args sg.params) (lowerExpr body (.methodCall tag e name args)) := by
  refine ⟨fun object values => compute (·.call sg.procedure (object :: values) sg.returnType), ?_,
    fun o => ⟨_, steers_enterCall, fun _ _ => steers_call⟩⟩
  unfold lowerExpr
  simp only [hcall, known_some, pure_bind, Body.classLayout, hl, hsg, enterCall, bind_assoc]

/-- The receiver of a call is computed first, whatever is called. -/
theorem embeds_receiver (tag : Tag) (name : Ident) : Embeds (pure () : Lower Unit)
    (lowerExpr body e)
    (lowerExpr body (.methodCall tag e name args)) := by
  refine embeds_first _ rfl fun _ object => ?_
  refine .bind (steers_nullCheck (.inl rfl)) fun _ => .bind steers_known fun target => ?_
  cases target with
  | print => exact steers_throw
  | function decl => exact steers_throw
  | method owner decl =>
      exact steers_classLayout.bind fun _ => steers_cast.bind fun _ =>
        .bind steers_known fun _ => .bind (steers_arguments args (.inl rfl)) fun _ => steers_call

theorem embeds_argument : Embeds (pure () : Lower Unit) (lowerExpr body e)
    (lowerArguments body (e :: es) (type :: types)) :=
  embeds_first _ rfl fun _ _ => steers_cast.bind fun _ =>
    .bind (steers_arguments es (.inl rfl)) fun _ => steers_pure .rfl

theorem embeds_others : Embeds (enterOthers body e type) (lowerArguments body es types)
    (lowerArguments body (e :: es) (type :: types)) := by
  refine ⟨fun value values => return value :: values, ?_,
    fun o => ⟨_, .bind (steers_blind e) fun _ => steers_cast, fun _ _ => steers_pure .rfl⟩⟩
  rw [enterOthers]
  simp only [bind_assoc]
  rfl

end calls

section locations

variable {l : Location}

theorem embeds_read (tag : Tag) : Embeds (pure () : Lower Unit) (lowerLocation body l)
    (lowerExpr body (.read tag l)) :=
  embeds_first _ rfl fun _ _ => steers_load

theorem embeds_measured (tag : Tag) : Embeds (pure () : Lower Unit) (lowerExpr body e)
    (lowerExpr body (.arrayLength tag e)) :=
  embeds_first _ rfl fun _ _ => .bind (steers_nullCheck (.inl rfl)) fun _ => steers_arrayLength

theorem embeds_object (tag : Tag) (name : Ident) : Embeds (pure () : Lower Unit) (lowerExpr body e)
    (lowerLocation body (.field tag e name)) := by
  refine embeds_first _ rfl fun _ _ => ?_
  refine .bind (steers_nullCheck (.inl rfl)) fun _ => steers_classOf.bind fun _ =>
    .bind steers_known fun binding => ?_
  cases binding with
  | «variable» decl => exact steers_throw
  | field owner decl => exact steers_fieldAddress

theorem embeds_array : Embeds (pure () : Lower Unit) (lowerExpr body e)
    (lowerLocation body (.index tag e i)) :=
  embeds_first _ rfl fun _ _ => .bind (steers_nullCheck (.inl rfl)) fun _ =>
    .bind (steers_expr i (.inl rfl)) fun _ => .bind (steers_boundsCheck (.inl rfl)) fun _ =>
      steers_typeOf.bind fun _ => steers_lower.bind fun _ => steers_elementPtr

theorem embeds_index : Embeds (enterIndex body e) (lowerExpr body i)
    (lowerLocation body (.index tag e i)) := by
  refine ⟨fun base position => (do
    boundsCheck base position tag.span
    let element ← body.lower (← body.typeOf tag.id)
    compute (·.elementPtr base [.int 0, .int 1, position] element)), ?_, fun o =>
      ⟨fun _ => o.blind, .bind (steers_blind e) fun _ => .bind (steers_nullCheck (.inl rfl))
        fun _ => steers_pure .rfl, fun _ _ => .bind (steers_boundsCheck (.inl rfl)) fun _ =>
          steers_typeOf.bind fun _ => steers_lower.bind fun _ => steers_elementPtr⟩⟩
  rw [enterIndex]
  simp only [bind_assoc, pure_bind]
  rfl

theorem embeds_value : Embeds (commentOn body (.eval e)) (lowerExpr body e)
    (lowerStmt body (.eval e)) :=
  ⟨fun _ _ => pure (), rfl, fun _ => ⟨_, steers_commentOn, fun _ _ => steers_pure .rfl⟩⟩

theorem embeds_target : Embeds (commentOn body (.assign span l e)) (lowerLocation body l)
    (lowerStmt body (.assign span l e)) :=
  ⟨_, rfl, fun _ => ⟨_, steers_commentOn, fun _ _ =>
    .bind (steers_expr e (.inl rfl)) fun _ => steers_assign⟩⟩

theorem embeds_assigned : Embeds (enterValue body span l e) (lowerExpr body e)
    (lowerStmt body (.assign span l e)) := by
  refine ⟨assign, ?_, fun o => ⟨fun _ => o.blind, .weaken (.bind steers_commentOn fun _ =>
    steers_location l (.inl rfl)) o.blind_le, fun _ _ => steers_assign⟩⟩
  rw [enterValue, lowerStmt_assign]
  simp only [bind_assoc]

theorem embeds_condition {other : Option Stmt} : Embeds (commentOn body (.branch span e x other))
    (lowerExpr body e) (lowerStmt body (.branch span e x other)) := by
  refine ⟨fun _ condition => (do
    let first ← compute (·.newBlock "if_true")
    let second ← compute (·.newBlock "if_false")
    let done ← compute (·.newBlock "if_end")
    perform (·.branch condition first second)
    perform (·.switchTo first)
    lowerStmt body x
    perform (·.jump done)
    perform (·.switchTo second)
    other.elim (pure ()) (lowerStmt body)
    perform (·.jump done)
    perform (·.switchTo done)), ?_, fun o => ⟨_, steers_commentOn, fun _ _ => ?_⟩⟩
  · rw [lowerStmt_branch]
  · refine .bind steers_newBlock fun first => .bind steers_newBlock fun second =>
      .bind steers_newBlock fun done => ?_
    refine .bind (steers_branch (by simp) (by simp)) fun _ => ?_
    refine .bind (steers_switchTo [done, second]) fun _ => .bind (steers_stmt x) fun _ => ?_
    refine .bind (steers_jump (by simp)) fun _ => .bind (steers_switchTo [done]) fun _ => ?_
    refine .bind steers_other fun _ => .bind (steers_jump (by simp)) fun _ => ?_
    exact (steers_switchTo []).mono fun _ =>
      ⟨rfl, List.subset_append_right [done, second, first] _, .inl rfl⟩

theorem steers_enterTest : Steers o (enterTest body span e x) fun v =>
    ⟨v.2.2 :: v.2.1 :: o.pending, v.2.2 :: v.2.1 :: v.1 :: o.known, some true⟩ := by
  refine .bind steers_commentOn fun _ => .bind steers_newBlock fun check =>
    .bind steers_newBlock fun again => .bind steers_newBlock fun done => ?_
  refine .bind (steers_jump (by simp)) fun _ =>
    .bind (steers_switchTo [done, again]) fun _ => ?_
  exact steers_pure .rfl

theorem embeds_test : Embeds (enterTest body span e x) (lowerExpr body e)
    (lowerStmt body (.loop span e x)) := by
  refine ⟨fun blocks condition => (do
    perform (·.branch condition blocks.2.1 blocks.2.2)
    perform (·.switchTo blocks.2.1)
    lowerStmt body x
    perform (·.jump blocks.1)
    perform (·.switchTo blocks.2.2)), ?_, fun o => ⟨_, steers_enterTest, fun blocks _ => ?_⟩⟩
  · rw [lowerStmt_loop, enterTest]
    simp only [bind_assoc, pure_bind]
  · refine .bind (steers_branch (by simp) (by simp)) fun _ => ?_
    refine .bind (steers_switchTo [blocks.2.2]) fun _ => .bind (steers_stmt x) fun _ => ?_
    refine .bind (steers_jump (by simp)) fun _ => ?_
    exact (steers_switchTo []).mono fun _ =>
      ⟨rfl, List.subset_append_right [blocks.2.2, blocks.2.1, blocks.1] _, .inl rfl⟩

theorem embeds_returned : Embeds (commentOn body (.return span e)) (lowerExpr body e)
    (lowerStmt body (.return span e)) :=
  ⟨fun _ value => returnValue value, rfl, fun _ => ⟨_, steers_commentOn, fun _ _ =>
    steers_returnValue.mono fun _ => ⟨rfl, List.Subset.refl _, .inl rfl⟩⟩⟩

end locations

end embeds

section turns

variable {body : Body} {x y : Fragment} {s t u : LowerState}

/-- What is made at once before a part of a fragment, and what is made behind it. -/
theorem Body.Turns.embeds (h : body.Turns (x, s) (y, t)) : ∃ (β : Type) (lead : Lower β) (v : β),
    lead s = .ok (v, t) ∧ Embeds lead (y.code body) (x.code body) := by
  cases h with
  | operand => exact ⟨_, _, (), rfl, embeds_operand⟩
  | left hop => exact ⟨_, _, (), rfl, embeds_left hop⟩
  | right hop hlead => exact ⟨_, _, _, hlead, embeds_right hop⟩
  | @first tag _ _ _ _ _ hlead => exact ⟨_, _, _, hlead, embeds_and_left tag⟩
  | @second tag _ _ _ _ _ hlead => exact ⟨_, _, _, hlead, embeds_and_right tag⟩
  | @read tag => exact ⟨_, _, (), rfl, embeds_read tag⟩
  | @measured tag => exact ⟨_, _, (), rfl, embeds_measured tag⟩
  | @size _ type _ _ _ _ _ _ harray hcomponent hlead =>
      exact ⟨_, _, _, hlead, embeds_size type harray hcomponent⟩
  | @printed _ name _ _ hcall => exact ⟨_, _, (), rfl, embeds_printed name hcall⟩
  | @function _ name _ _ _ _ hcall hsg => exact ⟨_, _, (), rfl, embeds_function name hcall hsg⟩
  | @method _ name _ _ _ _ _ _ _ _ hcall hl hsg hlead =>
      exact ⟨_, _, _, hlead, embeds_method name hcall hl hsg⟩
  | @receiver tag name _ _ _ => exact ⟨_, _, (), rfl, embeds_receiver tag name⟩
  | @handed _ name _ _ _ _ _ _ _ _ _ hcall hl hsg hlead =>
      exact ⟨_, _, _, hlead, embeds_handed name hcall hl hsg⟩
  | @object tag _ name _ => exact ⟨_, _, (), rfl, embeds_object tag name⟩
  | array => exact ⟨_, _, (), rfl, embeds_array⟩
  | index hlead => exact ⟨_, _, _, hlead, embeds_index⟩
  | argument => exact ⟨_, _, (), rfl, embeds_argument⟩
  | others hlead => exact ⟨_, _, _, hlead, embeds_others⟩
  | value hlead => exact ⟨_, _, _, hlead, embeds_value.behind _⟩
  | target hlead => exact ⟨_, _, _, hlead, embeds_target.behind _⟩
  | assigned hlead => exact ⟨_, _, _, hlead, embeds_assigned.behind _⟩
  | condition hlead => exact ⟨_, _, _, hlead, embeds_condition.behind _⟩
  | test hlead => exact ⟨_, _, _, hlead, embeds_test.behind _⟩
  | returned hlead => exact ⟨_, _, _, hlead, embeds_returned.behind _⟩
  | stmts h =>
      obtain ⟨β, lead, v, hlead, hamid⟩ := h.amid
      exact ⟨β, lead, v, hlead, embeds_of_amid hamid⟩

/-- A course leads to whatever making code turns to. -/
theorem Body.TurnsTo.midway {b : Builder} {entries targets : List Nat} {ms : List Move}
    {o : Outlook} {c : x.Result} (h : body.TurnsTo (x, s) (y, t))
    (hc : b.Course entries targets ms o) (hs : s.builder = b.makeAll ms)
    (hrun : x.code body s = .ok (c, u)) :
    ∃ a t' o', y.code body t = .ok (a, t') ∧ Midway b entries targets t t' u o o' := by
  generalize hstart : (x, s) = start at h
  induction h using Relation.ReflTransGen.head_induction_on generalizing x s ms o u with
  | refl =>
      cases hstart
      exact ⟨c, u, o, hrun, ⟨ms, hs, hc⟩, pure (), rfl, steers_pure .rfl⟩
  | @head _ z hturns _ ih =>
      cases hstart
      obtain ⟨z, r⟩ := z
      obtain ⟨β, lead, v, hlead, follow, heq, hsteers⟩ := hturns.embeds
      obtain ⟨d, hbefore, hbehind⟩ := hsteers o
      rw [heq] at hrun
      obtain ⟨v', _, hlead', hrest⟩ := Lower.of_bind hrun
      cases Except.ok.inj (hlead.symm.trans hlead')
      obtain ⟨a, r', hpart, hfollow⟩ := Lower.of_bind hrest
      obtain ⟨ms', hmade, hcourse⟩ := hbefore _ _ _ _ _ _ _ hc hs hlead
      have hr : r.builder = b.makeAll (ms ++ ms') := by
        rw [hmade, hs, Builder.makeAll_append]
      obtain ⟨a', t', o', hrun', hcourse', follow', hfollow', hbehind'⟩ := ih hcourse hr hpart rfl
      refine ⟨a', t', o', hrun', hcourse', (do follow'; let _ ← follow v a), ?_, ?_⟩
      · change (follow' t' >>= fun r => (follow v a >>= fun _ => pure ()) r.2) = _
        rw [hfollow']
        change (follow v a r' >>= fun r => Except.ok ((), r.2)) = _
        rw [hfollow]
        rfl
      · exact hbehind'.bind fun _ => (hbehind v a).bind fun _ => steers_pure .rfl

end turns

section nodes

variable {body : Body} {vars : List VarDecl} {n : Node}

mutual

/-- Making code for an expression comes to all nodes in it. -/
theorem exists_turnsTo_expr : ∀ (e : Expr) {s u : LowerState} {v : Operand},
    NodesBound body vars e.nodes → n ∈ e.nodes → lowerExpr body e s = .ok (v, u) →
    ∃ t, body.TurnsTo (.node (.expr e), s) (.node n, t)
  | .unary tag op operand, s, u, v, he, hn, hrun => by
      rcases List.mem_cons.1 hn with rfl | hn
      · exact ⟨s, .refl⟩
      obtain ⟨_, _, a, t', ⟨⟩, hpart⟩ := embeds_operand.split hrun
      obtain ⟨t, hturns⟩ := exists_turnsTo_expr operand he.tail hn hpart
      exact ⟨t, .head .operand hturns⟩
  | .binary tag op left right, s, u, v, he, hn, hrun => by
      rcases List.mem_cons.1 hn with rfl | hmem
      · exact ⟨s, .refl⟩
      obtain ⟨hleft, hright⟩ := he.tail.append
      by_cases hop : op = .and
      · subst hop
        rcases List.mem_append.1 hmem with hmem | hmem
        · obtain ⟨_, _, a, t', hlead, hpart⟩ := (embeds_and_left tag).split hrun
          obtain ⟨t, hturns⟩ := exists_turnsTo_expr left hleft hmem hpart
          exact ⟨t, .head (.first hlead) hturns⟩
        · obtain ⟨_, _, a, t', hlead, hpart⟩ := (embeds_and_right tag).split hrun
          obtain ⟨t, hturns⟩ := exists_turnsTo_expr right hright hmem hpart
          exact ⟨t, .head (.second hlead) hturns⟩
      · rcases List.mem_append.1 hmem with hmem | hmem
        · obtain ⟨_, _, a, t', ⟨⟩, hpart⟩ := (embeds_left hop).split hrun
          obtain ⟨t, hturns⟩ := exists_turnsTo_expr left hleft hmem hpart
          exact ⟨t, .head (.left hop) hturns⟩
        · obtain ⟨_, _, a, t', hlead, hpart⟩ := (embeds_right hop).split hrun
          obtain ⟨t, hturns⟩ := exists_turnsTo_expr right hright hmem hpart
          exact ⟨t, .head (.right hop hlead) hturns⟩
  | .number _ _, s, _, _, _, hn, _ | .bool _ _, s, _, _, _, hn, _ | .null _, s, _, _, _, hn, _
  | .this _, s, _, _, _, hn, _ | .newObject _ _, s, _, _, _, hn, _ => by
      obtain rfl := List.mem_singleton.1 hn
      exact ⟨s, .refl⟩
  | .read tag location, s, u, v, he, hn, hrun => by
      rcases List.mem_cons.1 hn with rfl | hn
      · exact ⟨s, .refl⟩
      obtain ⟨_, _, a, t', ⟨⟩, hpart⟩ := (embeds_read tag).split hrun
      obtain ⟨t, hturns⟩ := exists_turnsTo_location location he.tail hn hpart
      exact ⟨t, .head .read hturns⟩
  | .arrayLength tag array, s, u, v, he, hn, hrun => by
      rcases List.mem_cons.1 hn with rfl | hn
      · exact ⟨s, .refl⟩
      obtain ⟨_, _, a, t', ⟨⟩, hpart⟩ := (embeds_measured tag).split hrun
      obtain ⟨t, hturns⟩ := exists_turnsTo_expr array he.tail hn hpart
      exact ⟨t, .head .measured hturns⟩
  | .newArray tag element size, s, u, v, he, hn, hrun => by
      rcases List.mem_cons.1 hn with rfl | hn
      · exact ⟨s, .refl⟩
      obtain ⟨array, _, htype, hrest⟩ := Lower.of_bind hrun
      obtain ⟨harray, rfl⟩ := Lower.of_known htype
      obtain ⟨component, _, hknown, -⟩ := Lower.of_bind hrest
      obtain ⟨hcomponent, -⟩ := Lower.of_known hknown
      obtain ⟨_, _, a, t', hlead, hpart⟩ := (embeds_size element harray hcomponent).split hrun
      obtain ⟨t, hturns⟩ := exists_turnsTo_expr size he.tail hn hpart
      exact ⟨t, .head (.size harray hcomponent hlead) hturns⟩
  | .call tag name args, s, u, v, he, hn, hrun => by
      obtain ⟨target, hcall, htakes⟩ := he _ (List.mem_cons_self ..)
      rcases List.mem_cons.1 hn with rfl | hn
      · exact ⟨s, .refl⟩
      cases target with
      | print =>
          obtain ⟨_, _, a, t', ⟨⟩, hpart⟩ := (embeds_printed name hcall).split hrun
          have hlength : args.length ≤ [Ty.int].length := le_of_eq htakes
          obtain ⟨t, hturns⟩ := exists_turnsTo_arguments args he.tail hlength hn hpart
          exact ⟨t, .head (.printed hcall) hturns⟩
      | function decl =>
          obtain ⟨sg, hsg, hlength⟩ := htakes
          obtain ⟨_, _, a, t', ⟨⟩, hpart⟩ := (embeds_function name hcall hsg).split hrun
          obtain ⟨t, hturns⟩ := exists_turnsTo_arguments args he.tail hlength.ge hn hpart
          exact ⟨t, .head (.function hcall hsg) hturns⟩
      | method owner decl =>
          obtain ⟨layout, sg, hl, hsg, hlength⟩ := htakes
          obtain ⟨_, _, a, t', hlead, hpart⟩ := (embeds_method name hcall hl hsg).split hrun
          obtain ⟨t, hturns⟩ := exists_turnsTo_arguments args he.tail hlength.ge hn hpart
          exact ⟨t, .head (.method hcall hl hsg hlead) hturns⟩
  | .methodCall tag receiver name args, s, u, v, he, hn, hrun => by
      obtain ⟨owner, decl, hcall, layout, sg, hl, hsg, hlength⟩ := he _ (List.mem_cons_self ..)
      rcases List.mem_cons.1 hn with rfl | hn
      · exact ⟨s, .refl⟩
      obtain ⟨hreceiver, hargs⟩ := he.tail.append
      rcases List.mem_append.1 hn with hn | hn
      · obtain ⟨_, _, a, t', ⟨⟩, hpart⟩ := (embeds_receiver tag name).split hrun
        obtain ⟨t, hturns⟩ := exists_turnsTo_expr receiver hreceiver hn hpart
        exact ⟨t, .head .receiver hturns⟩
      · obtain ⟨_, _, a, t', hlead, hpart⟩ := (embeds_handed name hcall hl hsg).split hrun
        obtain ⟨t, hturns⟩ := exists_turnsTo_arguments args hargs hlength.ge hn hpart
        exact ⟨t, .head (.handed hcall hl hsg hlead) hturns⟩
termination_by structural e => e

theorem exists_turnsTo_location : ∀ (l : Location) {s u : LowerState} {v : Operand},
    NodesBound body vars l.nodes → n ∈ l.nodes → lowerLocation body l s = .ok (v, u) →
    ∃ t, body.TurnsTo (.node (.location l), s) (.node n, t)
  | .var tag name, s, _, _, _, hn, _ => by
      obtain rfl := List.mem_singleton.1 hn
      exact ⟨s, .refl⟩
  | .field tag receiver name, s, u, v, hl, hn, hrun => by
      rcases List.mem_cons.1 hn with rfl | hn
      · exact ⟨s, .refl⟩
      obtain ⟨_, _, a, t', ⟨⟩, hpart⟩ := (embeds_object tag name).split hrun
      obtain ⟨t, hturns⟩ := exists_turnsTo_expr receiver hl.tail hn hpart
      exact ⟨t, .head .object hturns⟩
  | .index tag array index, s, u, v, hl, hn, hrun => by
      rcases List.mem_cons.1 hn with rfl | hn
      · exact ⟨s, .refl⟩
      obtain ⟨harray, hindex⟩ := hl.tail.append
      rcases List.mem_append.1 hn with hn | hn
      · obtain ⟨_, _, a, t', ⟨⟩, hpart⟩ := embeds_array.split hrun
        obtain ⟨t, hturns⟩ := exists_turnsTo_expr array harray hn hpart
        exact ⟨t, .head .array hturns⟩
      · obtain ⟨_, _, a, t', hlead, hpart⟩ := embeds_index.split hrun
        obtain ⟨t, hturns⟩ := exists_turnsTo_expr index hindex hn hpart
        exact ⟨t, .head (.index hlead) hturns⟩
termination_by structural l => l

theorem exists_turnsTo_arguments : ∀ (args : List Expr) {params : List Ty} {s u : LowerState}
    {vs : List Operand}, NodesBound body vars (nodesOfArguments args) →
    args.length ≤ params.length → n ∈ nodesOfArguments args →
    lowerArguments body args params s = .ok (vs, u) →
    ∃ t, body.TurnsTo (.arguments args params, s) (.node n, t)
  | [], _, _, _, _, _, _, hn, _ => (List.not_mem_nil hn).elim
  | _ :: _, [], _, _, _, _, hlength, _, _ => absurd hlength (Nat.not_succ_le_zero _)
  | arg :: args, type :: params, s, u, vs, hargs, hlength, hn, hrun => by
      obtain ⟨harg, hargs⟩ := hargs.append
      rcases List.mem_append.1 hn with hn | hn
      · obtain ⟨_, _, a, t', ⟨⟩, hpart⟩ := embeds_argument.split hrun
        obtain ⟨t, hturns⟩ := exists_turnsTo_expr arg harg hn hpart
        exact ⟨t, .head .argument hturns⟩
      · obtain ⟨_, _, a, t', hlead, hpart⟩ := embeds_others.split hrun
        obtain ⟨t, hturns⟩ :=
          exists_turnsTo_arguments args hargs (Nat.le_of_succ_le_succ hlength) hn hpart
        exact ⟨t, .head (.others hlead) hturns⟩
termination_by structural args => args

end

mutual

/-- Making code for a statement, and for others behind it, comes to all nodes in it. -/
theorem exists_turnsTo_stmt : ∀ (x : Stmt) {rest : List Stmt} {s u : LowerState},
    NodesBound body vars x.nodes → n ∈ x.nodes → lowerStmts body (x :: rest) s = .ok ((), u) →
    ∃ t, body.TurnsTo (.stmts (x :: rest), s) (.node n, t)
  | .declare _, _, _, _, _, hn, _ => (List.not_mem_nil hn).elim
  | .eval value, rest, s, u, hx, hn, hrun => by
      obtain ⟨_, _, a, t', hlead, hpart⟩ := (embeds_value.behind rest).split hrun
      obtain ⟨t, hturns⟩ := exists_turnsTo_expr value hx hn hpart
      exact ⟨t, .head (.value hlead) hturns⟩
  | .return span value, rest, s, u, hx, hn, hrun => by
      obtain ⟨_, _, a, t', hlead, hpart⟩ := (embeds_returned.behind rest).split hrun
      obtain ⟨t, hturns⟩ := exists_turnsTo_expr value hx hn hpart
      exact ⟨t, .head (.returned hlead) hturns⟩
  | .assign span target value, rest, s, u, hx, hn, hrun => by
      obtain ⟨htarget, hvalue⟩ := hx.append
      rcases List.mem_append.1 hn with hn | hn
      · obtain ⟨_, _, a, t', hlead, hpart⟩ := (embeds_target.behind rest).split hrun
        obtain ⟨t, hturns⟩ := exists_turnsTo_location target htarget hn hpart
        exact ⟨t, .head (.target hlead) hturns⟩
      · obtain ⟨_, _, a, t', hlead, hpart⟩ := (embeds_assigned.behind rest).split hrun
        obtain ⟨t, hturns⟩ := exists_turnsTo_expr value hvalue hn hpart
        exact ⟨t, .head (.assigned hlead) hturns⟩
  | .branch span test onTrue none, rest, s, u, hx, hn, hrun => by
      obtain ⟨htest, hfirst⟩ := NodesBound.append hx
      rcases List.mem_append.1 hn with hn | hn
      · obtain ⟨_, _, a, t', hlead, hpart⟩ := (embeds_condition.behind rest).split hrun
        obtain ⟨t, hturns⟩ := exists_turnsTo_expr test htest hn hpart
        exact ⟨t, .head (.condition hlead) hturns⟩
      · obtain ⟨_, _, _, hlead, hpart⟩ := amid_onTrue.split hrun
        obtain ⟨t, hturns⟩ := exists_turnsTo_stmt onTrue hfirst hn hpart
        exact ⟨t, .head (.stmts (.onTrue hlead)) hturns⟩
  | .branch span test onTrue (some onFalse), rest, s, u, hx, hn, hrun => by
      obtain ⟨htest, harms⟩ := NodesBound.append hx
      obtain ⟨hfirst, hsecond⟩ := harms.append
      rcases List.mem_append.1 hn with hn | hn
      · obtain ⟨_, _, a, t', hlead, hpart⟩ := (embeds_condition.behind rest).split hrun
        obtain ⟨t, hturns⟩ := exists_turnsTo_expr test htest hn hpart
        exact ⟨t, .head (.condition hlead) hturns⟩
      rcases List.mem_append.1 hn with hn | hn
      · obtain ⟨_, _, _, hlead, hpart⟩ := amid_onTrue.split hrun
        obtain ⟨t, hturns⟩ := exists_turnsTo_stmt onTrue hfirst hn hpart
        exact ⟨t, .head (.stmts (.onTrue hlead)) hturns⟩
      · obtain ⟨_, _, _, hlead, hpart⟩ := amid_onFalse.split hrun
        obtain ⟨t, hturns⟩ := exists_turnsTo_stmt onFalse hsecond hn hpart
        exact ⟨t, .head (.stmts (.onFalse hlead)) hturns⟩
  | .loop span test repeated, rest, s, u, hx, hn, hrun => by
      obtain ⟨htest, hrepeated⟩ := hx.append
      rcases List.mem_append.1 hn with hn | hn
      · obtain ⟨_, _, a, t', hlead, hpart⟩ := (embeds_test.behind rest).split hrun
        obtain ⟨t, hturns⟩ := exists_turnsTo_expr test htest hn hpart
        exact ⟨t, .head (.test hlead) hturns⟩
      · obtain ⟨_, _, _, hlead, hpart⟩ := amid_repeated.split hrun
        obtain ⟨t, hturns⟩ := exists_turnsTo_stmt repeated hrepeated hn hpart
        exact ⟨t, .head (.stmts (.repeated hlead)) hturns⟩
  | .block span stmts, rest, s, u, hx, hn, hrun => by
      obtain ⟨_, _, _, hlead, hpart⟩ := amid_block.split hrun
      obtain ⟨t, hturns⟩ := exists_turnsTo_stmts stmts hx hn hpart
      exact ⟨t, .head (.stmts (.block hlead)) hturns⟩
termination_by structural x => x

theorem exists_turnsTo_stmts : ∀ (xs : List Stmt) {s u : LowerState},
    NodesBound body vars (nodesOfBody xs) → n ∈ nodesOfBody xs →
    lowerStmts body xs s = .ok ((), u) → ∃ t, body.TurnsTo (.stmts xs, s) (.node n, t)
  | [], _, _, _, hn, _ => (List.not_mem_nil hn).elim
  | x :: xs, s, u, hxs, hn, hrun => by
      obtain ⟨hx, hxs⟩ := hxs.append
      rcases List.mem_append.1 hn with hn | hn
      · exact exists_turnsTo_stmt x hx hn hrun
      · obtain ⟨_, t', hfirst, hrest⟩ := Lower.of_bind hrun
        obtain ⟨t, hturns⟩ := exists_turnsTo_stmts xs hxs hn hrest
        exact ⟨t, .head (.stmts (.behind hfirst)) hturns⟩
termination_by structural xs => xs

end

end nodes

end ObjectLang
