import Mathlib.Tactic
import ObjectLang.Proofs.Lowering.Worlds

/-!
# What is noted of two programs

The analyses of a program and of a counterpart of it note the same of every node, up to names: types
of values that stand for one type, the same variables and the same fields, and calls of the same
functions and methods. So the bodies of their functions and methods become code that is alike.
-/
namespace ObjectLang

open IR

theorem Program.Counterpart.fieldsOf {ρ : String → String} {p p' : Program}
    (h : p.Counterpart ρ p') (cls : String) : p'.fieldsOf (ρ cls) =
      (p.fieldsOf cls).map fun x => (ρ x.1, x.2.relabel (.rename ρ)) := by
  rw [Program.fieldsOf, Program.fieldsOf, h.lineage, ← List.map_reverse, List.flatMap_map,
    List.map_flatMap]
  congr 1
  funext c
  rw [ClassDecl.relabel, List.map_map, List.map_map]
  rfl

theorem forall₂_through {α β γ : Type} {R : α → β → Prop} {S : α → γ → Prop}
    {Q : β → γ → Prop} {xs : List α} {ys : List β} {zs : List γ} (h : List.Forall₂ R xs ys)
    (h' : List.Forall₂ S xs zs) (hQ : ∀ x y z, R x y → S x z → Q y z) : List.Forall₂ Q ys zs := by
  induction h generalizing zs with
  | nil =>
      cases h'
      exact .nil
  | cons hxy _ ih =>
      cases h' with
      | cons hxz h' => exact .cons (hQ _ _ _ hxy hxz) (ih h')

/-- Places of two programs at which the same is in scope. -/
structure Context.Paired (ρ : String → String) (p p' : Program) (Γ Γ' : Context) : Prop where
  counterpart : Γ.Counterpart ρ Γ'
  left : Γ.program = p
  right : Γ'.program = p'

section

variable {ρ : String → String} {p p' : Program} {body body' : Body}

/-- What is known of a node on both sides goes together. -/
abbrev Node.Paired (ρ : String → String) (p p' : Program) (body body' : Body) (n : Node) : Prop :=
  n.Related (fun w : StockPair p p' body body' => Ty.Alike (w.Structs ρ)) (StockPair.Callees ρ)
    (ValueType.Paired ρ p p' body.analysis.arrays body'.analysis.arrays) (ClassRef.Paired ρ p p')
    body.analysis.notes body'.analysis.notes body.layouts body'.layouts

variable {Γ Γ' : Context} (hΓ : Γ.Paired ρ p p' Γ')
include hΓ

omit hΓ in
/-- A written type has the same meaning on both sides. -/
theorem TypeExpr.Recorded.paired {t : TypeExpr} {a a' : ArrayTypes} {n n' : Notes}
    (h : t.Recorded a n p) (h' : (t.relabel (.rename ρ)).Recorded a' n' p') :
    t.Related (ValueType.Paired ρ p p' a a') n n' (t.relabel (.rename ρ)) := by
  intro v hv v' hv'
  obtain ⟨V, hV, hd⟩ := h
  obtain ⟨V', hV', hd'⟩ := h'
  obtain rfl := Option.some.inj (hV.symm.trans hv)
  obtain rfl := Option.some.inj (hV'.symm.trans hv')
  exact ⟨t.plain, hd, t.plain_rename ▸ hd'⟩

theorem Context.Paired.after (s : Stmt) :
    (s.after Γ).Paired ρ p p' ((s.relabel (.rename ρ)).after Γ') :=
  ⟨hΓ.counterpart.after s, (s.after_program Γ).trans hΓ.left,
    (Stmt.after_program Γ' _).trans hΓ.right⟩

/-- A node has the same type on both sides. -/
theorem Context.Paired.type {id : Nat} {typed typed' : PlainType → Prop} {a a' : ArrayTypes}
    {n n' : Notes} (h : TypeRecorded a n Γ id typed) (h' : TypeRecorded a' n' Γ' id typed')
    (ht : ∀ t t', typed t → typed' t' → t' = t.rename ρ) :
    ∀ v ∈ n.type? id, ∀ v' ∈ n'.type? id, v.Paired ρ p p' a a' v' := by
  intro v hv v' hv'
  obtain ⟨t, hty, V, hV, hd⟩ := h
  obtain ⟨t', hty', V', hV', hd'⟩ := h'
  obtain rfl := Option.some.inj (hV.symm.trans hv)
  obtain rfl := Option.some.inj (hV'.symm.trans hv')
  obtain rfl := ht t t' hty hty'
  exact ⟨t, hΓ.left ▸ hd, hΓ.right ▸ hd'⟩

theorem Context.Paired.typeOf {e : Expr} {t t' : PlainType} (h : HasType Γ e t)
    (h' : HasType Γ' (e.relabel (.rename ρ)) t') : t' = t.rename ρ := by
  have htype := h'.typeOf?
  rw [hΓ.counterpart.typeOf?, h.typeOf?] at htype
  exact (Option.some.inj htype).symm

theorem Context.Paired.typeOfLocation {l : Location} {t t' : PlainType} (h : l.HasType Γ t)
    (h' : Location.HasType Γ' (l.relabel (.rename ρ)) t') : t' = t.rename ρ := by
  have htype := h'.typeOfLocation?
  rw [hΓ.counterpart.typeOfLocation?, h.typeOfLocation?] at htype
  exact (Option.some.inj htype).symm

/-- What is known of an expression goes together, if what it calls does. -/
theorem Context.Paired.exprNode {e : Expr}
    (h : e.Recorded body.analysis.arrays body.analysis.notes Γ)
    (h' : (e.relabel (.rename ρ)).Recorded body'.analysis.arrays body'.analysis.notes Γ')
    (hcall : (Node.expr e).isCall = true →
      ∀ c ∈ body.analysis.notes.call? e.id, ∀ c' ∈ body'.analysis.notes.call? e.id,
        CallTarget.Related (fun w : StockPair p p' body body' => Ty.Alike (w.Structs ρ))
          (StockPair.Callees ρ) (ClassRef.Paired ρ p p') body.layouts body'.layouts c c') :
    Node.Paired ρ p p' body body' (.expr e) := by
  have htyped := h'.typed
  rw [e.id_rename] at htyped
  exact ⟨hΓ.type h.typed htyped fun _ _ ht ht' => hΓ.typeOf ht ht', nofun, hcall⟩

theorem Context.Paired.locationNode {l : Location}
    (h : l.Recorded body.analysis.arrays body.analysis.notes Γ)
    (h' : (l.relabel (.rename ρ)).Recorded body'.analysis.arrays body'.analysis.notes Γ')
    (hbinding : (Node.location l).isNamed = true →
      ∀ b ∈ body.analysis.notes.binding? l.id, ∀ b' ∈ body'.analysis.notes.binding? l.id,
        Binding.Related (ValueType.Paired ρ p p' body.analysis.arrays body'.analysis.arrays)
          (ClassRef.Paired ρ p p') body.analysis.notes body'.analysis.notes body.layouts
          body'.layouts b b') :
    Node.Paired ρ p p' body body' (.location l) := by
  have htyped := h'.typed
  rw [l.id_rename] at htyped
  exact ⟨hΓ.type h.typed htyped fun _ _ ht ht' => hΓ.typeOfLocation ht ht', hbinding, nofun⟩

omit hΓ in
mutual

/-- The types that are written for variables have one meaning on both sides. -/
theorem stmtLocals : ∀ {Γ Γ' : Context} (s : Stmt), Γ.Paired ρ p p' Γ' →
    s.Recorded body.analysis.arrays body.analysis.notes Γ →
    (s.relabel (.rename ρ)).Recorded body'.analysis.arrays body'.analysis.notes Γ' →
    ∀ d ∈ s.locals, d.type.Related
      (ValueType.Paired ρ p p' body.analysis.arrays body'.analysis.arrays) body.analysis.notes
      body'.analysis.notes (d.type.relabel (.rename ρ))
  | _, _, .declare _, hΓ, h, h' =>
      List.forall_mem_singleton.2 (TypeExpr.Recorded.paired (hΓ.left ▸ h) (hΓ.right ▸ h'))
  | _, _, .eval _, _, _, _ | _, _, .assign _ _ _, _, _, _ | _, _, .return _ _, _, _, _ =>
      List.forall_mem_nil _
  | _, _, .branch _ _ onTrue none, hΓ, h, h' => stmtLocals onTrue hΓ h.2 h'.2
  | _, _, .branch _ _ onTrue (some onFalse), hΓ, h, h' => List.forall_mem_append.2
      ⟨stmtLocals onTrue hΓ h.2.1 h'.2.1, stmtLocals onFalse hΓ h.2.2 h'.2.2⟩
  | _, _, .loop _ _ body, hΓ, h, h' => stmtLocals body hΓ h.2 h'.2
  | _, _, .block _ stmts, hΓ, h, h' => bodyLocals stmts hΓ h h'
termination_by structural _ _ s => s

theorem bodyLocals : ∀ {Γ Γ' : Context} (stmts : List Stmt), Γ.Paired ρ p p' Γ' →
    BodyRecorded body.analysis.arrays body.analysis.notes Γ stmts →
    BodyRecorded body'.analysis.arrays body'.analysis.notes Γ' (relabelBody (.rename ρ) stmts) →
    ∀ d ∈ localsOf stmts, d.type.Related
      (ValueType.Paired ρ p p' body.analysis.arrays body'.analysis.arrays) body.analysis.notes
      body'.analysis.notes (d.type.relabel (.rename ρ))
  | _, _, [], _, _, _ => List.forall_mem_nil _
  | _, _, s :: rest, hΓ, h, h' => List.forall_mem_append.2
      ⟨stmtLocals s hΓ h.1 h'.1, bodyLocals rest (hΓ.after s) h.2 h'.2⟩
termination_by structural _ _ stmts => stmts

end

end

namespace Twins

variable {ρ : String → String} {p p' : Program} {body body' : Body} (H : Twins ρ p p' body body')
include H

theorem classDecl {c c' : ClassRef} (hc : c.Paired ρ p p' c') :
    p'.classDecl c' = (p.classDecl c).relabel (.rename ρ) := by
  have hclass := hc.right.class? H.right.accepted.wellFormed.hierarchy
  rw [hc.name, H.counterpart.class?, hc.left.class? H.left.accepted.wellFormed.hierarchy] at hclass
  exact (Option.some.inj hclass).symm

/-- A field has one position in the objects of a class on both sides. -/
theorem fieldIndex (w : StockPair p p' body body') {c c' owner owner' : ClassRef} {d : VarDecl}
    (hc : c.Paired ρ p p' c') (howner : owner.Paired ρ p p' owner') {l l' : ClassLayout}
    (hl : body.layouts.class? c.name = some l) (hl' : body'.layouts.class? c'.name = some l') :
    l.fieldIndex? owner.name d.name.name =
      l'.fieldIndex? owner'.name (d.relabel (.rename ρ)).name.name := by
  have hstands := w.stands.layouts.layout hc.left hl
  have hstands' := w.stands'.layouts.layout hc.right hl'
  have hkeys : l'.slots.map (fun s => (s.owner, s.name)) =
      (l.slots.map fun s => (s.owner, s.name)).map (Prod.map ρ ρ) := by
    rw [hstands.keys, hstands'.keys, hc.name, H.counterpart.fieldsOf, List.map_map, List.map_map]
    rfl
  have hindex : ∀ (l : ClassLayout) (owner name : String), l.fieldIndex? owner name =
      (l.slots.map fun s => (s.owner, s.name)).findIdx? (· == (owner, name)) := by
    intro l owner name
    rw [List.findIdx?_map]
    rfl
  rw [hindex, hindex, hkeys, howner.name]
  generalize l.slots.map (fun s => (s.owner, s.name)) = keys
  rw [List.findIdx?_map]
  congr 1
  funext x
  have hinj := Prod.map_injective.2 ⟨H.counterpart.injective, H.counterpart.injective⟩
  rw [Bool.eq_iff_iff, Function.comp_apply, beq_iff_eq, beq_iff_eq]
  exact hinj.eq_iff.symm

/-- A field and the type that is written for it go together with the same field. -/
theorem field (w : StockPair p p' body body') {c c' : ClassRef} {d : VarDecl}
    (hc : c.Paired ρ p p' c') (hd : d ∈ (p.classDecl c).fields) :
    Binding.Related (ValueType.Paired ρ p p' body.analysis.arrays body'.analysis.arrays)
      (ClassRef.Paired ρ p p') body.analysis.notes body'.analysis.notes body.layouts body'.layouts
      (.field c d) (.field c' (d.relabel (.rename ρ))) := by
  refine .field hc ?_ fun e e' he l hl l' hl' i hi j hj => ?_
  · refine (H.left.accepted.recorded.fields _ hc.left.mem d hd).paired ?_
    refine H.right.accepted.recorded.fields _ hc.right.mem (d.relabel (.rename ρ)) ?_
    rw [H.classDecl hc]
    exact List.mem_map_of_mem hd
  · rw [H.fieldIndex w he hc hl hl'] at hi
    exact Option.some.inj (hi.symm.trans hj)

/-- The procedures of one function or method on both sides have types that are alike. -/
theorem signature {r r' : Routine} (hr : r.Paired ρ p p' r') {s s' : Signature}
    (hs : body.layouts.signature? r = some s) (hs' : body'.layouts.signature? r' = some s') :
    s.Related (fun w : StockPair p p' body body' => Ty.Alike (w.Structs ρ))
      (StockPair.Callees ρ) s' := by
  have hdecl : r'.decl = r.decl.relabel (.rename ρ) := by
    cases hr <;> rfl
  -- In every world the signature represents that of the declaration, on both sides.
  have hstands : ∀ w : StockPair p p' body body',
      s.Stands p body.analysis.arrays body.layouts.structs w.left.target r.decl ∧
        s'.Stands p' body'.analysis.arrays body'.layouts.structs w.right.target
          (r.decl.relabel (.rename ρ)) := by
    intro w
    cases hr with
    | @function f hf =>
        obtain ⟨_, hs₁, hleft⟩ := w.stands.layouts.functions f hf
        obtain rfl := Option.some.inj (hs.symm.trans hs₁)
        obtain ⟨_, hs₁', hright⟩ := w.stands'.layouts.functions (f.relabel (.rename ρ))
          (H.counterpart.functions.mem_iff.1 (List.mem_map_of_mem hf))
        obtain rfl := Option.some.inj (hs'.symm.trans hs₁')
        exact ⟨hleft, hright⟩
    | @method c c' f hc hf =>
        obtain ⟨l, hl, hlayout⟩ := w.stands.layouts.classes c hc.left
        obtain ⟨_, hs₁, hleft⟩ := hlayout.methods f hf
        have hf' : f.relabel (.rename ρ) ∈ (p'.classDecl c').methods := by
          rw [H.classDecl hc]
          exact List.mem_map_of_mem hf
        obtain ⟨l', hl', hlayout'⟩ := w.stands'.layouts.classes c' hc.right
        obtain ⟨_, hs₁', hright⟩ := hlayout'.methods _ hf'
        rw [Layouts.signature?, Option.elim_some, hl, Option.bind_some] at hs
        rw [Layouts.signature?, Option.elim_some, hl', Option.bind_some] at hs'
        obtain rfl := Option.some.inj (hs.symm.trans hs₁)
        obtain rfl := Option.some.inj (hs'.symm.trans hs₁')
        exact ⟨hleft, hright⟩
  refine ⟨fun w => .routine hr hs hs', fun w => ?_, fun w => ?_⟩
  · obtain ⟨hleft, hright⟩ := hstands w
    refine forall₂_through hleft.params (List.forall₂_map_left_iff.1 hright.params)
      fun d ty ty' h h' => ?_
    exact StockPair.alike_of_represents h (d.plain_rename ▸ h')
  · obtain ⟨hleft, hright⟩ := hstands w
    exact StockPair.alike_of_represents hleft.returnType
      (TypeExpr.plain_rename _ ▸ hright.returnType)

section nodes

variable {Γ Γ' : Context} (hΓ : Γ.Paired ρ p p' Γ')
include hΓ

/-- A location refers to the same variable or field on both sides. -/
theorem binding (w : StockPair p p' body body') {id : Nat} {v? : Option Variable}
    (h : BindingRecorded body.analysis.notes Γ id v?)
    (h' : BindingRecorded body'.analysis.notes Γ' id (v?.map (Variable.rename ρ)))
    (hfield : ∀ owner d, v? = some (.field owner d) →
      ∃ cls name, Γ.field? cls name = some (.field owner d)) :
    ∀ b ∈ body.analysis.notes.binding? id, ∀ b' ∈ body'.analysis.notes.binding? id,
      Binding.Related (ValueType.Paired ρ p p' body.analysis.arrays body'.analysis.arrays)
        (ClassRef.Paired ρ p p') body.analysis.notes body'.analysis.notes body.layouts
        body'.layouts b b' := by
  obtain ⟨v, rfl, b, hb, hm⟩ := h
  obtain ⟨_, hv, b', hb', hm'⟩ := h'
  intro c hc c' hc'
  obtain rfl := Option.some.inj (hb.symm.trans hc)
  obtain rfl := Option.some.inj (hb'.symm.trans hc')
  obtain rfl := Option.some.inj hv
  cases v with
  | slot d =>
      cases b with
      | field => exact hm.elim
      | «variable» e =>
          cases b' with
          | field => exact hm'.elim
          | «variable» e' =>
              obtain rfl : e = d := hm
              obtain rfl : e' = _ := hm'
              exact .variable rfl
  | field owner d =>
      cases b with
      | «variable» => exact hm.elim
      | field c e =>
          cases b' with
          | «variable» => exact hm'.elim
          | field c' e' =>
              obtain ⟨howner, rfl, rfl⟩ := hm
              obtain ⟨howner', hname, rfl⟩ := hm'
              obtain ⟨cls, name, hf⟩ := hfield _ _ rfl
              rw [hΓ.right] at howner'
              have hh := hΓ.left.symm ▸ H.left.accepted.wellFormed.hierarchy
              have hd := (Context.field?_spec hh howner hf).2.2
              rw [hΓ.left] at howner hd
              exact H.field w ⟨howner, howner', hname⟩ hd

/-- A call is one of the same function or method on both sides. -/
theorem call {id : Nat} {c? : Option Callable} (h : CallRecorded body.analysis.notes Γ id c?)
    (h' : CallRecorded body'.analysis.notes Γ' id (c?.map (Callable.rename ρ)))
    (hfunction : ∀ d, c? = some (.function d) → d ∈ Γ.program.functions)
    (hmethod : ∀ owner d, c? = some (.method owner d) →
      ∃ cls name, Γ.method? cls name = some (.method owner d)) :
    ∀ c ∈ body.analysis.notes.call? id, ∀ c' ∈ body'.analysis.notes.call? id,
      CallTarget.Related (fun w : StockPair p p' body body' => Ty.Alike (w.Structs ρ))
        (StockPair.Callees ρ) (ClassRef.Paired ρ p p') body.layouts body'.layouts c c' := by
  obtain ⟨c, rfl, target, ht, hm⟩ := h
  obtain ⟨_, hc, target', ht', hm'⟩ := h'
  intro x hx x' hx'
  obtain rfl := Option.some.inj (ht.symm.trans hx)
  obtain rfl := Option.some.inj (ht'.symm.trans hx')
  obtain rfl := Option.some.inj hc
  cases c with
  | print =>
      cases target <;> first | exact hm.elim | skip
      cases target' <;> first | exact hm'.elim | exact .print
  | function d =>
      cases target with
      | print | method => exact hm.elim
      | function e =>
          cases target' with
          | print | method => exact hm'.elim
          | function e' =>
              obtain rfl : e = d := hm
              obtain rfl : e' = _ := hm'
              have hd := hfunction _ rfl
              rw [hΓ.left] at hd
              exact .function fun s hs s' hs' => H.signature (.function hd) hs hs'
  | method owner d =>
      cases target with
      | print | function => exact hm.elim
      | method c e =>
          cases target' with
          | print | function => exact hm'.elim
          | method c' e' =>
              obtain ⟨howner, rfl, rfl⟩ := hm
              obtain ⟨howner', hname, rfl⟩ := hm'
              obtain ⟨cls, name, hf⟩ := hmethod _ _ rfl
              rw [hΓ.right] at howner'
              have hh := hΓ.left.symm ▸ H.left.accepted.wellFormed.hierarchy
              have hd := (Context.method?_spec hh howner hf).2
              rw [hΓ.left] at howner hd
              refine .method ⟨howner, howner', hname⟩ fun l hl l' hl' s hs s' hs' => ?_
              refine H.signature (.method ⟨howner, howner', hname⟩ hd) ?_ ?_
              · rw [Layouts.signature?, Option.elim_some, hl, Option.bind_some, hs]
              · rw [Layouts.signature?, Option.elim_some, hl', Option.bind_some, hs']

variable (w : StockPair p p' body body')
include w

omit H hΓ w in
mutual

/-- What is known of the nodes of an expression goes together. -/
theorem exprNodes (H : Twins ρ p p' body body') (hΓ : Γ.Paired ρ p p' Γ')
    (w : StockPair p p' body body') :
    ∀ e : Expr, e.Recorded body.analysis.arrays body.analysis.notes Γ →
    (e.relabel (.rename ρ)).Recorded body'.analysis.arrays body'.analysis.notes Γ' →
    ∀ n ∈ e.nodes, n.Paired ρ p p' body body'
  | .unary tag op operand, h, h' =>
      List.forall_mem_cons.2 ⟨hΓ.exprNode h h' nofun, exprNodes H hΓ w operand h.2 h'.2⟩
  | .binary tag op left right, h, h' =>
      List.forall_mem_cons.2 ⟨hΓ.exprNode h h' nofun, List.forall_mem_append.2
        ⟨exprNodes H hΓ w left h.2.1 h'.2.1, exprNodes H hΓ w right h.2.2 h'.2.2⟩⟩
  | .number tag value, h, h' => List.forall_mem_singleton.2 (hΓ.exprNode h h' nofun)
  | .bool tag value, h, h' => List.forall_mem_singleton.2 (hΓ.exprNode h h' nofun)
  | .null tag, h, h' => List.forall_mem_singleton.2 (hΓ.exprNode h h' nofun)
  | .this tag, h, h' => List.forall_mem_singleton.2 (hΓ.exprNode h h' nofun)
  | .newObject tag cls, h, h' => List.forall_mem_singleton.2 (hΓ.exprNode h h' nofun)
  | .read tag location, h, h' =>
      List.forall_mem_cons.2 ⟨hΓ.exprNode h h' nofun, locationNodes H hΓ w location h.2 h'.2⟩
  | .arrayLength tag array, h, h' =>
      List.forall_mem_cons.2 ⟨hΓ.exprNode h h' nofun, exprNodes H hΓ w array h.2 h'.2⟩
  | .newArray tag element size, h, h' =>
      List.forall_mem_cons.2 ⟨hΓ.exprNode h h' nofun, exprNodes H hΓ w size h.2 h'.2⟩
  | .call tag f args, h, h' => by
      refine List.forall_mem_cons.2 ⟨hΓ.exprNode h h' fun _ => ?_,
        argumentNodes H hΓ w args h.2.2 h'.2.2⟩
      refine H.call hΓ h.2.1 (hΓ.counterpart.callable? f.name ▸ h'.2.1)
        (fun _ => Context.callable?_function) fun owner d hd => ?_
      obtain ⟨cls, _, hm⟩ := Context.callable?_method hd
      exact ⟨cls, f.name, hm⟩
  | .methodCall tag receiver f args, h, h' => by
      obtain ⟨_, ⟨c, hc, hcall⟩, hreceiver, hargs⟩ := id h
      obtain ⟨_, ⟨c', hc', hcall'⟩, hreceiver', hargs'⟩ := id h'
      refine List.forall_mem_cons.2 ⟨hΓ.exprNode h h' fun _ => ?_, List.forall_mem_append.2
        ⟨exprNodes H hΓ w receiver hreceiver hreceiver', argumentNodes H hΓ w args hargs hargs'⟩⟩
      obtain rfl : c' = ρ c := PlainType.object.inj (hΓ.typeOf hc hc')
      refine H.call hΓ hcall (hΓ.counterpart.method? c f.name ▸ hcall') (fun d hd => ?_)
        fun owner d hd => ⟨c, f.name, hd⟩
      obtain ⟨_, _, heq⟩ := Option.map_eq_some_iff.1 hd
      cases heq
termination_by structural e => e

/-- What is known of the nodes of a location goes together. -/
theorem locationNodes (H : Twins ρ p p' body body') (hΓ : Γ.Paired ρ p p' Γ')
    (w : StockPair p p' body body') :
    ∀ l : Location, l.Recorded body.analysis.arrays body.analysis.notes Γ →
    (l.relabel (.rename ρ)).Recorded body'.analysis.arrays body'.analysis.notes Γ' →
    ∀ n ∈ l.nodes, n.Paired ρ p p' body body'
  | .var tag x, h, h' => by
      refine List.forall_mem_singleton.2 (hΓ.locationNode h h' fun _ => ?_)
      refine H.binding hΓ w h.2 (hΓ.counterpart.resolve? x.name ▸ h'.2) fun owner d hd => ?_
      obtain ⟨cls, _, hf⟩ := Context.resolve?_field hd
      exact ⟨cls, x.name, hf⟩
  | .field tag receiver x, h, h' => by
      obtain ⟨_, ⟨c, hc, hbinding⟩, hreceiver⟩ := id h
      obtain ⟨_, ⟨c', hc', hbinding'⟩, hreceiver'⟩ := id h'
      refine List.forall_mem_cons.2 ⟨hΓ.locationNode h h' fun _ => ?_,
        exprNodes H hΓ w receiver hreceiver hreceiver'⟩
      obtain rfl : c' = ρ c := PlainType.object.inj (hΓ.typeOf hc hc')
      exact H.binding hΓ w hbinding (hΓ.counterpart.field? c x.name ▸ hbinding')
        fun owner d hd => ⟨c, x.name, hd⟩
  | .index tag array index, h, h' =>
      List.forall_mem_cons.2 ⟨hΓ.locationNode h h' nofun, List.forall_mem_append.2
        ⟨exprNodes H hΓ w array h.2.1 h'.2.1, exprNodes H hΓ w index h.2.2 h'.2.2⟩⟩
termination_by structural l => l

theorem argumentNodes (H : Twins ρ p p' body body') (hΓ : Γ.Paired ρ p p' Γ')
    (w : StockPair p p' body body') : ∀ es : List Expr,
    ArgumentsRecorded body.analysis.arrays body.analysis.notes Γ es →
    ArgumentsRecorded body'.analysis.arrays body'.analysis.notes Γ'
      (relabelArguments (.rename ρ) es) →
    ∀ n ∈ nodesOfArguments es, n.Paired ρ p p' body body'
  | [], _, _ => List.forall_mem_nil _
  | e :: es, h, h' =>
      List.forall_mem_append.2 ⟨exprNodes H hΓ w e h.1 h'.1, argumentNodes H hΓ w es h.2 h'.2⟩
termination_by structural es => es

end

end nodes

variable (w : StockPair p p' body body')
include w

omit H w in
mutual

/-- What is known of the nodes of a statement goes together. -/
theorem stmtNodes (H : Twins ρ p p' body body') (w : StockPair p p' body body') :
    ∀ {Γ Γ' : Context} (s : Stmt), Γ.Paired ρ p p' Γ' →
    s.Recorded body.analysis.arrays body.analysis.notes Γ →
    (s.relabel (.rename ρ)).Recorded body'.analysis.arrays body'.analysis.notes Γ' →
    ∀ n ∈ s.nodes, n.Paired ρ p p' body body'
  | _, _, .declare _, _, _, _ => List.forall_mem_nil _
  | _, _, .eval value, hΓ, h, h' => H.exprNodes hΓ w value h h'
  | _, _, .assign _ target value, hΓ, h, h' => List.forall_mem_append.2
      ⟨H.locationNodes hΓ w target h.1 h'.1, H.exprNodes hΓ w value h.2 h'.2⟩
  | _, _, .branch _ test onTrue none, hΓ, h, h' => List.forall_mem_append.2
      ⟨H.exprNodes hΓ w test h.1 h'.1, stmtNodes H w onTrue hΓ h.2 h'.2⟩
  | _, _, .branch _ test onTrue (some onFalse), hΓ, h, h' => List.forall_mem_append.2
      ⟨H.exprNodes hΓ w test h.1 h'.1, List.forall_mem_append.2
        ⟨stmtNodes H w onTrue hΓ h.2.1 h'.2.1, stmtNodes H w onFalse hΓ h.2.2 h'.2.2⟩⟩
  | _, _, .loop _ test body, hΓ, h, h' => List.forall_mem_append.2
      ⟨H.exprNodes hΓ w test h.1 h'.1, stmtNodes H w body hΓ h.2 h'.2⟩
  | _, _, .return _ value, hΓ, h, h' => H.exprNodes hΓ w value h h'
  | _, _, .block _ stmts, hΓ, h, h' => bodyNodes H w stmts hΓ h h'
termination_by structural _ _ s => s

theorem bodyNodes (H : Twins ρ p p' body body') (w : StockPair p p' body body') :
    ∀ {Γ Γ' : Context} (stmts : List Stmt), Γ.Paired ρ p p' Γ' →
    BodyRecorded body.analysis.arrays body.analysis.notes Γ stmts →
    BodyRecorded body'.analysis.arrays body'.analysis.notes Γ' (relabelBody (.rename ρ) stmts) →
    ∀ n ∈ nodesOfBody stmts, n.Paired ρ p p' body body'
  | _, _, [], _, _, _ => List.forall_mem_nil _
  | _, _, s :: rest, hΓ, h, h' => List.forall_mem_append.2
      ⟨stmtNodes H w s hΓ h.1 h'.1, bodyNodes H w rest (hΓ.after s) h.2 h'.2⟩
termination_by structural _ _ stmts => stmts

end

end Twins

end ObjectLang
