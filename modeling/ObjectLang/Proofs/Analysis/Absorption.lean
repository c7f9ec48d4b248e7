import Mathlib.Data.Multiset.Basic
import Mathlib.Tactic
import ObjectLang.Proofs.Analysis.Follows

/-!
# What is open absorbs what follows

If less is known about the types of some variables, less is said: each verdict is the one that it
was, or open, and all that happens happened before. Where something open is asked for its members or
its elements no more is looked at, so some written types may be come to later or not at all; but
what is reported of them is reported only once anyway.
-/
namespace ObjectLang

/-- The second outline is the first one, or open. -/
def Outline.Blurs (o o' : Outline) : Prop :=
  o' = o ∨ o' = .any

/-- The variables of the second scope are those of the first one, with types that may be open. -/
structure ScopeOutline.Blurs (o o' : ScopeOutline) : Prop where
  function : o'.function = o.function
  returnType : o'.returnType = o.returnType
  vars : List.Forall₂ (fun x y => y.1 = x.1 ∧ x.2.Blurs y.2) o.vars o'.vars

/-- The second verdict is related to the first one, and nothing happens but what happened there. -/
structure Verdict.Absorbs {α β : Type} (R : α → β → Prop) (v : Verdict α) (w : Verdict β) :
    Prop where
  value : R v.value w.value
  events : w.events.Sublist v.events

section reports

variable {S : Setting} {known known' : List TypeExpr} {events events' : List Event}

/-- A written type is known if the analysis came to one with the same leaf. -/
def Setting.knows (known : List TypeExpr) (t : TypeExpr) : Bool :=
  known.any (·.leaf.id == t.leaf.id)

namespace Setting

theorem reports_resolve (t : TypeExpr) : S.reports known (.resolve t :: events) =
    (if knows known t then [] else S.undeclared t) ++ S.reports (t :: known) events :=
  rfl

theorem knows_cons (t u : TypeExpr) :
    knows (t :: known) u = (t.leaf.id == u.leaf.id || knows known u) :=
  List.any_cons

/-- What is reported depends on which leaves are known, and on nothing else. -/
theorem reports_congr (h : ∀ t, knows known t = knows known' t) :
    S.reports known events = S.reports known' events := by
  induction events generalizing known known' with
  | nil => rfl
  | cons e events ih =>
      cases e with
      | report d => exact congrArg (d :: ·) (ih h)
      | resolve t =>
          have hrest : S.reports (t :: known) events = S.reports (t :: known') events :=
            ih fun u => by rw [knows_cons, knows_cons, h]
          rw [reports_resolve, reports_resolve, h, hrest]

/-- Written types with one leaf are undeclared together. -/
def Coherent (S : Setting) (ts : List TypeExpr) : Prop :=
  ∀ t ∈ ts, ∀ u ∈ ts, t.leaf.id = u.leaf.id → S.undeclared t = S.undeclared u

/-- The written types that some events come to. -/
def resolved (events : List Event) : List TypeExpr :=
  Event.known [] events

theorem mem_resolved {t : TypeExpr} : t ∈ resolved events ↔ .resolve t ∈ events := by
  simp [resolved, Event.mem_known]

theorem mem_resolved_cons (e : Event) {t : TypeExpr} (h : t ∈ resolved events) :
    t ∈ resolved (e :: events) :=
  mem_resolved.2 (List.mem_cons_of_mem e (mem_resolved.1 h))

/-- Coming to a written type earlier reports no less in all. -/
theorem reports_le (t : TypeExpr)
    (h : ∀ u, .resolve u ∈ events → u.leaf.id = t.leaf.id → S.undeclared u = S.undeclared t)
    (known : List TypeExpr) : (S.reports known events : Multiset Diagnostic) ≤
      ↑((if knows known t then [] else S.undeclared t) ++ S.reports (t :: known) events) := by
  induction events generalizing known with
  | nil => exact Multiset.zero_le _
  | cons e events ih =>
      have ih := ih fun u hu => h u (List.mem_cons_of_mem _ hu)
      cases e with
      | report d =>
          have hmove : ((if knows known t then [] else S.undeclared t) ++
              S.reports (t :: known) (.report d :: events)).Perm
              (d :: ((if knows known t then [] else S.undeclared t) ++
                S.reports (t :: known) events)) := List.perm_middle
          rw [Multiset.coe_eq_coe.2 hmove]
          exact Multiset.cons_le_cons d (ih known)
      | resolve u =>
          rw [reports_resolve, reports_resolve]
          by_cases hut : u.leaf.id = t.leaf.id
          · -- The same leaf: it is reported now or was known before.
            have hknows : knows known u = knows known t := by rw [knows, knows, hut]
            have hnow : knows (t :: known) u = true := by rw [knows_cons, hut]; simp
            have hrest : S.reports (u :: t :: known) events = S.reports (u :: known) events := by
              refine reports_congr fun w => ?_
              rw [knows_cons, knows_cons, knows_cons, hut]
              cases t.leaf.id == w.leaf.id <;> rfl
            rw [hnow, if_pos rfl, List.nil_append, hrest, hknows, h u (List.mem_cons_self ..) hut]
          · have htu : (t.leaf.id == u.leaf.id) = false := beq_false_of_ne (Ne.symm hut)
            have hut' : (u.leaf.id == t.leaf.id) = false := beq_false_of_ne hut
            have hswap : S.reports (t :: u :: known) events =
                S.reports (u :: t :: known) events := by
              refine reports_congr fun w => ?_
              rw [knows_cons, knows_cons, knows_cons, knows_cons, Bool.or_left_comm]
            have hle := ih (u :: known)
            rw [knows_cons, hut', Bool.false_or, hswap] at hle
            rw [knows_cons, htu, Bool.false_or, ← Multiset.coe_add, ← Multiset.coe_add,
              ← Multiset.coe_add, add_left_comm, Multiset.coe_add (if knows known t then _ else _)]
            exact Multiset.add_le_add_left hle

/-- If less happens, no more is reported. -/
theorem reports_le_of_sublist (h : events'.Sublist events) (hc : S.Coherent (resolved events))
    (known : List TypeExpr) :
    (S.reports known events' : Multiset Diagnostic) ≤ S.reports known events := by
  induction h generalizing known with
  | slnil => exact le_rfl
  | @cons events' events e hsub ih =>
      have ih := ih fun t ht u hu => hc t (mem_resolved_cons e ht) u (mem_resolved_cons e hu)
      cases e with
      | report d => exact (ih known).trans (Multiset.le_cons_self _ d)
      | resolve t =>
          have hsame : ∀ u, .resolve u ∈ events' → u.leaf.id = t.leaf.id →
              S.undeclared u = S.undeclared t := fun u hu hid =>
            hc u (mem_resolved.2 (List.mem_cons_of_mem _ (hsub.subset hu))) t
              (mem_resolved.2 (List.mem_cons_self ..)) hid
          refine (reports_le t hsame known).trans ?_
          rw [reports_resolve, ← Multiset.coe_add, ← Multiset.coe_add]
          exact Multiset.add_le_add_left (ih (t :: known))
  | @cons_cons events' events e hsub ih =>
      have ih := ih fun t ht u hu => hc t (mem_resolved_cons e ht) u (mem_resolved_cons e hu)
      cases e with
      | report d => exact Multiset.cons_le_cons d (ih known)
      | resolve t =>
          rw [reports_resolve, reports_resolve, ← Multiset.coe_add, ← Multiset.coe_add]
          exact Multiset.add_le_add_left (ih (t :: known))

end Setting

end reports

namespace Verdict.Absorbs

variable {α β γ δ : Type} {R : α → β → Prop} {Q : γ → δ → Prop} {v : Verdict α} {w : Verdict β}

theorem pure {x : α} {y : β} (h : R x y) :
    Absorbs R (Pure.pure x : Verdict α) (Pure.pure y : Verdict β) :=
  ⟨h, .refl _⟩

theorem refl {R : α → α → Prop} (h : ∀ x, R x x) (v : Verdict α) : Absorbs R v v :=
  ⟨h _, .refl _⟩

theorem bind {k : α → Verdict γ} {l : β → Verdict δ} (h : Absorbs R v w)
    (hk : ∀ x y, R x y → Absorbs Q (k x) (l y)) : Absorbs Q (v >>= k) (w >>= l) :=
  ⟨(hk _ _ h.value).value, h.events.append (hk _ _ h.value).events⟩

/-- What is open says nothing more. -/
theorem any (v : Verdict Outline) : Absorbs Outline.Blurs v (Pure.pure .any) :=
  ⟨.inr rfl, List.nil_sublist _⟩

theorem silent (v : Verdict Unit) : Absorbs (fun _ _ => True) v (Pure.pure ()) :=
  ⟨trivial, List.nil_sublist _⟩

/-- What is asked for holds, or it is the same that is asked for. -/
theorem require {c c' : Bool} {d d' : Diagnostic} (h : c' = true ∨ c' = c ∧ d' = d) :
    Absorbs (fun _ _ => True) (Verdict.require c d) (Verdict.require c' d') := by
  rcases h with rfl | ⟨rfl, rfl⟩
  · exact silent _
  · exact refl (fun _ => trivial) _

end Verdict.Absorbs

theorem Outline.Blurs.rfl {o : Outline} : o.Blurs o :=
  .inl (Eq.refl o)

namespace Setting

open Verdict

variable (S : Setting) {current : Option String} {o o' p p' : Outline}

@[simp]
theorem isSubtype_any_left (o : Outline) : S.isSubtype .any o = true :=
  Eq.refl true

@[simp]
theorem isSubtype_any_right (o : Outline) : S.isSubtype o .any = true := by
  cases o <;> exact Eq.refl true

/-- A condition on two types holds if one of them is open, and else it is the same condition. -/
theorem absorbs_subtype (ho : o.Blurs o') (hp : p.Blurs p')
    (complaint : Outline → Outline → Diagnostic) :
    Absorbs (fun _ _ => True) (require (S.isSubtype o p) (complaint o p))
      (require (S.isSubtype o' p') (complaint o' p')) := by
  refine .require ?_
  rcases ho with rfl | rfl
  · rcases hp with rfl | rfl
    · exact .inr ⟨Eq.refl _, Eq.refl _⟩
    · exact .inl (S.isSubtype_any_right _)
  · exact .inl (S.isSubtype_any_left _)

theorem absorbs_operand (expected : Outline) {v w : Verdict Outline} (h : Absorbs Outline.Blurs v w)
    (span : Span) :
    Absorbs (fun _ _ => True) (S.operand expected v span) (S.operand expected w span) :=
  h.bind fun _ _ hfound => S.absorbs_subtype hfound .rfl fun o p => .typeMismatch p.text o.text span

theorem absorbs_comparison {v w v' w' : Verdict Outline} (hv : Absorbs Outline.Blurs v v')
    (hw : Absorbs Outline.Blurs w w') (span : Span) :
    Absorbs (fun _ _ => True) (S.comparison v w span) (S.comparison v' w' span) := by
  refine hv.bind fun l l' hl => hw.bind fun r r' hr => .require ?_
  rcases hl with rfl | rfl
  · rcases hr with rfl | rfl
    · exact .inr ⟨Eq.refl _, Eq.refl _⟩
    · exact .inl (by simp)
  · exact .inl (by simp)

theorem absorbs_requireArray (ho : o.Blurs o') (span : Span) :
    Absorbs Outline.Blurs (requireArray o span) (requireArray o' span) := by
  rcases ho with rfl | rfl
  · exact .refl (fun _ => .rfl) _
  · exact .any _

theorem absorbs_requireObject (ho : o.Blurs o') (span : Span) :
    Absorbs (fun x y => y = x ∨ y = none) (requireObject o span) (requireObject o' span) := by
  rcases ho with rfl | rfl
  · exact .refl (fun _ => .inl (Eq.refl _)) _
  · exact ⟨.inr (Eq.refl _), List.nil_sublist _⟩

theorem absorbs_applied {args args' : List Outline → Verdict Unit}
    (h : ∀ params, Absorbs (fun _ _ => True) (args params) (args' params)) (count : Nat)
    (span : Span) (callee : MethodOutline) :
    Absorbs Outline.Blurs (applied args count span callee) (applied args' count span callee) := by
  refine (Absorbs.refl (R := Eq) (fun _ => Eq.refl _) _).bind fun fits fits' hfits => ?_
  subst hfits
  refine Absorbs.bind (R := fun _ _ => True) ?_ fun _ _ _ => .pure .rfl
  cases fits with
  | true => exact h _
  | false => exact .silent _

theorem absorbs_methodApplied {args args' : List Outline → Verdict Unit}
    (h : ∀ params, Absorbs (fun _ _ => True) (args params) (args' params)) (count : Nat)
    (span : Span) (name : Ident) (cls : String) :
    Absorbs Outline.Blurs (S.methodApplied args count span name cls)
      (S.methodApplied args' count span name cls) := by
  rw [methodApplied, methodApplied]
  cases S.method? cls name.name with
  | none => exact .refl (fun _ => .rfl) _
  | some callee => exact absorbs_applied h count span callee

end Setting

section bodies

open Verdict

variable (S : Setting) (current : Option String) {o o' : ScopeOutline}

namespace ScopeOutline.Blurs

theorem refl (o : ScopeOutline) : o.Blurs o :=
  ⟨rfl, rfl, List.forall₂_same.2 fun _ _ => ⟨rfl, .rfl⟩⟩

theorem declare (h : o.Blurs o') (name : String) (type : Outline) :
    (o.declare name type).Blurs (o'.declare name type) :=
  ⟨h.function, h.returnType, .cons ⟨rfl, .rfl⟩ h.vars⟩

theorem find? (h : o.Blurs o') (name : String) :
    Option.Rel Outline.Blurs (o.find? name) (o'.find? name) := by
  obtain ⟨f, r, vars⟩ := o
  obtain ⟨f', r', vars'⟩ := o'
  obtain ⟨-, -, hvars⟩ := h
  simp only [ScopeOutline.find?] at hvars ⊢
  induction hvars with
  | nil => exact .none
  | @cons x y _ _ hxy _ ih =>
      rw [List.find?_cons, List.find?_cons, hxy.1]
      cases x.1 == name with
      | true => exact .some hxy.2
      | false => exact ih

theorem isNone_find? (h : o.Blurs o') (name : String) :
    (o'.find? name).isNone = (o.find? name).isNone := by
  have hrel := h.find? name
  generalize o.find? name = x, o'.find? name = y at hrel ⊢
  cases hrel <;> rfl

end ScopeOutline.Blurs

theorem absorbs_typeOfVariable (h : o.Blurs o') (name : Ident) :
    Absorbs Outline.Blurs (S.typeOfVariable current o name) (S.typeOfVariable current o' name) := by
  have hrel := h.find? name.name
  unfold Setting.typeOfVariable
  generalize o.find? name.name = x, o'.find? name.name = y at hrel ⊢
  cases hrel with
  | some hxy => exact .pure hxy
  | none => exact .refl (fun _ => .rfl) _

mutual

/-- The type of an expression is the one that it was, or open. -/
theorem absorbs_expr (h : o.Blurs o') : ∀ e : Expr,
    Absorbs Outline.Blurs (e.verdict S current o) (e.verdict S current o')
  | .unary _ op operand =>
      (S.absorbs_operand _ (absorbs_expr h operand) _).bind fun _ _ _ => .pure .rfl
  | .binary tag op left right => by
      rw [Expr.verdict, Expr.verdict]
      split_ifs
      · exact (S.absorbs_comparison (absorbs_expr h left) (absorbs_expr h right) _).bind
          fun _ _ _ => .pure .rfl
      · refine (S.absorbs_operand _ (absorbs_expr h left) _).bind fun _ _ _ => ?_
        exact (S.absorbs_operand _ (absorbs_expr h right) _).bind fun _ _ _ => .pure .rfl
  | .number _ _ | .bool _ _ | .null _ => .pure .rfl
  | .this _ | .newObject _ _ => .refl (fun _ => .rfl) _
  | .read _ location => absorbs_location h location
  | .arrayLength _ array =>
      (absorbs_expr h array).bind fun _ _ hfound =>
        (Setting.absorbs_requireArray hfound _).bind fun _ _ _ => .pure .rfl
  | .newArray _ element size =>
      (S.absorbs_operand _ (absorbs_expr h size) _).bind fun _ _ _ => .refl (fun _ => .rfl) _
  | .call tag name args => by
      rw [Expr.verdict, Expr.verdict]
      refine (Absorbs.refl (R := Eq) (fun _ => rfl) _).bind fun callee callee' hcallee => ?_
      subst hcallee
      cases callee with
      | none => exact .pure .rfl
      | some callee =>
          exact Setting.absorbs_applied (fun params => absorbs_arguments h args params) _ _ _
  | .methodCall tag receiver name args => by
      rw [Expr.verdict, Expr.verdict]
      refine (absorbs_expr h receiver).bind fun found found' hfound => ?_
      refine (Setting.absorbs_requireObject hfound _).bind fun cls cls' hcls => ?_
      rcases hcls with rfl | rfl
      · cases cls' with
        | none => exact .pure .rfl
        | some cls =>
            exact S.absorbs_methodApplied (fun params => absorbs_arguments h args params) _ _ _ _
      · exact .any _
termination_by structural e => e

theorem absorbs_location (h : o.Blurs o') : ∀ l : Location,
    Absorbs Outline.Blurs (l.verdict S current o) (l.verdict S current o')
  | .var _ name => absorbs_typeOfVariable S current h name
  | .field _ receiver name => by
      rw [Location.verdict, Location.verdict]
      refine (absorbs_expr h receiver).bind fun found found' hfound => ?_
      refine (Setting.absorbs_requireObject hfound _).bind fun cls cls' hcls => ?_
      rcases hcls with rfl | rfl
      · exact .refl (fun _ => .rfl) _
      · exact .any _
  | .index _ array index => by
      rw [Location.verdict, Location.verdict]
      refine (absorbs_expr h array).bind fun found found' hfound => ?_
      refine (Setting.absorbs_requireArray hfound _).bind fun type type' htype => ?_
      refine (S.absorbs_operand _ (absorbs_expr h index) _).bind fun _ _ _ => .pure ?_
      rcases htype with rfl | rfl
      · exact .rfl
      · exact .inr rfl
termination_by structural l => l

theorem absorbs_arguments (h : o.Blurs o') : ∀ (args : List Expr) (params : List Outline),
    Absorbs (fun _ _ => True) (verdictOfArguments S current o args params)
      (verdictOfArguments S current o' args params)
  | [], _ => .silent _
  | _ :: _, [] => .silent _
  | arg :: args, _ :: params =>
      (S.absorbs_operand _ (absorbs_expr h arg) _).bind fun _ _ _ =>
        absorbs_arguments h args params
termination_by structural args => args

end

theorem absorbs_condition (h : o.Blurs o') (construct : Conditional) (e : Expr) :
    Absorbs (fun _ _ => True) (S.condition current o construct e)
      (S.condition current o' construct e) :=
  (absorbs_expr S current h e).bind fun _ _ hfound =>
    S.absorbs_subtype hfound .rfl fun o _ => .invalidCondition construct o.text e.span

mutual

/-- The scope behind a statement has the types that it had, or open ones. -/
theorem absorbs_stmt : ∀ (s : Stmt) {o o' : ScopeOutline}, o.Blurs o' →
    Absorbs ScopeOutline.Blurs (s.verdict S current o) (s.verdict S current o')
  | .declare decl, o, o', h => by
      rw [Stmt.verdict, Stmt.verdict, Setting.declaration, Setting.declaration,
        h.isNone_find?, h.function]
      refine (Absorbs.refl (R := fun _ _ => True) (fun _ => trivial) _).bind fun _ _ _ => ?_
      refine (Absorbs.refl (R := Eq) (fun _ => rfl) _).bind fun type type' htype => ?_
      subst htype
      exact .pure (h.declare _ _)
  | .eval value, _, _, h => (absorbs_expr S current h value).bind fun _ _ _ => .pure h
  | .assign _ target value, _, _, h => by
      refine Absorbs.bind (R := fun _ _ => True) ?_ fun _ _ _ => .pure h
      refine (absorbs_location S current h target).bind fun expected expected' hexpected => ?_
      refine (absorbs_expr S current h value).bind fun found found' hfound => ?_
      exact S.absorbs_subtype hfound hexpected fun o p => .invalidAssignment p.text o.text _
  | .branch _ condition onTrue none, _, _, h =>
      (absorbs_condition S current h .branch condition).bind fun _ _ _ =>
        (absorbs_stmt onTrue h).bind fun _ _ _ => .pure h
  | .branch _ condition onTrue (some onFalse), _, _, h =>
      (absorbs_condition S current h .branch condition).bind fun _ _ _ =>
        (absorbs_stmt onTrue h).bind fun _ _ _ =>
          (absorbs_stmt onFalse h).bind fun _ _ _ => .pure h
  | .loop _ condition body, _, _, h =>
      (absorbs_condition S current h .loop condition).bind fun _ _ _ =>
        (absorbs_stmt body h).bind fun _ _ _ => .pure h
  | .return span value, _, _, h => by
      refine Absorbs.bind (R := fun _ _ => True) ?_ fun _ _ _ => .pure h
      refine (absorbs_expr S current h value).bind fun found found' hfound => ?_
      rw [h.returnType]
      exact S.absorbs_subtype hfound .rfl fun o p => .invalidReturn p.text o.text span
  | .block _ body, _, _, h => (absorbs_body body h).bind fun _ _ _ => .pure h
termination_by structural s => s

theorem absorbs_body : ∀ (body : List Stmt) {o o' : ScopeOutline}, o.Blurs o' →
    Absorbs (fun _ _ => True) (verdictOfBody S current o body) (verdictOfBody S current o' body)
  | [], _, _, _ => .silent _
  | s :: rest, _, _, h => (absorbs_stmt s h).bind fun _ _ h => absorbs_body rest h
termination_by structural body => body

end

end bodies

end ObjectLang
