import Mathlib.Tactic
import ObjectLang.Proofs.Analysis.Chains
import ObjectLang.Proofs.Analysis.Keeping

/-!
# Types that were asked for

In the course of an analysis array types are asked for by their components, and the meanings of
written types by the nodes that they are written at. Whatever is asked for in which order, and
whatever else is found out in between, two types that were obtained are the same exactly if they
have one outline: the numbers of array types and the names of classes say as much as the whole
structure.
-/
namespace ObjectLang

variable {t : ClassTable} {f g : Findings} {Ts : List ValueType}

/-- The types that were obtained in an analysis over a class table up to some time, the latest
first, and what is known then. -/
inductive Obtained (t : ClassTable) : Findings → List ValueType → Prop
  | start {f : Findings} : f.arrays = {} → (∀ id, f.notes.typeExpr? id = none) → Obtained t f []
  | basic {f : Findings} {Ts : List ValueType} {T : ValueType} : Obtained t f Ts →
      T ∈ [.int, .bool, .null, .any] → Obtained t f (T :: Ts)
  | object {f : Findings} {Ts : List ValueType} {c : ClassRef} : Obtained t f Ts → c ∈ t.classes →
      Obtained t f (.object c :: Ts)
  | component {f : Findings} {Ts : List ValueType} {i : Nat} {T : ValueType} : Obtained t f Ts →
      .array i T ∈ Ts → Obtained t f (T :: Ts)
  | arrayOf {f : Findings} {Ts : List ValueType} {T : ValueType} : Obtained t f Ts → T ∈ Ts →
      Obtained t ((Check.arrayOf T).after f) ((Check.arrayOf T).value f :: Ts)
  | resolve {f : Findings} {Ts : List ValueType} (e : TypeExpr) : Obtained t f Ts →
      Obtained t ((checkType t e).after f) ((checkType t e).value f :: Ts)
  /-- Something else is found out: what is reported, and what is noted of other nodes. -/
  | aside {f g : Findings} {Ts : List ValueType} : Obtained t f Ts → g.arrays = f.arrays →
      (∀ id, g.notes.typeExpr? id = f.notes.typeExpr? id) → Obtained t g Ts

/-- Array types were handed out once for each component, and the meanings of written types are made
of them. -/
structure Findings.Regular (t : ClassTable) (f : Findings) : Prop where
  arrays : f.arrays.Regular t
  meanings : ∀ id T, f.notes.typeExpr? id = some T → T.Belongs t f.arrays

/-- A part of the analysis gives a type that is made of what was handed out by then. -/
structure Gives (t : ClassTable) (m : Check ValueType) (f : Findings) : Prop where
  regular : (m.after f).Regular t
  within : f.arrays.Within (m.after f).arrays
  belongs : (m.value f).Belongs t (m.after f).arrays

namespace Findings.Regular

variable (hf : f.Regular t)
include hf

theorem of_eq (harrays : g.arrays = f.arrays)
    (hnotes : ∀ id, g.notes.typeExpr? id = f.notes.typeExpr? id) : g.Regular t := by
  refine ⟨harrays ▸ hf.arrays, fun id T hT => ?_⟩
  rw [hnotes] at hT
  exact harrays ▸ hf.meanings id T hT

theorem gives_pure {T : ValueType} (hT : T.Belongs t f.arrays) : Gives t (pure T) f :=
  ⟨hf, .rfl, hT⟩

theorem gives_arrayOf (ht : t.Closed) {T : ValueType} (hT : T.Belongs t f.arrays) :
    Gives t (Check.arrayOf T) f := by
  obtain ⟨hwithin, hregular, hbelongs, _⟩ := ArrayTypes.arrayOf_regular ht hf.arrays hT
  exact ⟨⟨hregular, fun id U hU => (hf.meanings id U hU).mono hwithin⟩, hwithin, hbelongs⟩

/-- A written type has the meaning that was noted, or else one that is found and noted now. -/
theorem gives_of_newMeaning {e : TypeExpr} (hnew : Gives t (Check.newMeaning t e) f) :
    Gives t (checkType t e) f := by
  cases hT : f.notes.typeExpr? e.id with
  | some T =>
      have hrun := Check.checkType_of_noted t hT
      refine ⟨?_, ?_, ?_⟩ <;> simp only [Check.value, Check.after, hrun]
      · exact hf
      · exact .rfl
      · exact hf.meanings e.id T hT
  | none =>
      have hrun := Check.checkType_of_new t hT
      refine ⟨?_, ?_, ?_⟩ <;> simp only [Check.value, Check.after, hrun]
      · refine ⟨hnew.regular.arrays, fun id U hU => ?_⟩
        have hU := (Check.typeExpr?_insert _ _ _ _).symm.trans hU
        split_ifs at hU
        · obtain rfl := Option.some.inj hU
          exact hnew.belongs
        · exact hnew.regular.meanings id U hU
      · exact hnew.within
      · exact hnew.belongs

theorem gives_checkType (ht : t.Closed) (e : TypeExpr) : Gives t (checkType t e) f := by
  induction e generalizing f with
  | int => exact hf.gives_of_newMeaning (hf.gives_pure .int)
  | bool => exact hf.gives_of_newMeaning (hf.gives_pure .bool)
  | named tag name =>
      refine hf.gives_of_newMeaning ?_
      rw [Check.newMeaning]
      cases hc : t.find? name.name with
      | some c => exact hf.gives_pure (.object (List.mem_of_find?_eq_some hc))
      | none => exact ⟨hf.of_eq rfl fun _ => rfl, .rfl, .any⟩
  | array tag component ih =>
      have hcomponent := ih hf
      have harray := hcomponent.regular.gives_arrayOf ht hcomponent.belongs
      exact hf.gives_of_newMeaning
        ⟨harray.regular, hcomponent.within.trans harray.within, harray.belongs⟩

end Findings.Regular

/-- All types that were obtained are made of classes and of array types that were handed out. -/
theorem Obtained.belongs (ht : t.Closed) (h : Obtained t f Ts) :
    f.Regular t ∧ ∀ T ∈ Ts, T.Belongs t f.arrays := by
  induction h with
  | start harrays hnotes =>
      refine ⟨⟨harrays ▸ ArrayTypes.regular_empty t, fun id T hT => ?_⟩, List.forall_mem_nil _⟩
      exact nomatch (hnotes id).symm.trans hT
  | basic _ hT ih =>
      refine ⟨ih.1, List.forall_mem_cons.2 ⟨?_, ih.2⟩⟩
      simp only [List.mem_cons, List.not_mem_nil, or_false] at hT
      rcases hT with rfl | rfl | rfl | rfl
      · exact .int
      · exact .bool
      · exact .null
      · exact .any
  | object _ hc ih => exact ⟨ih.1, List.forall_mem_cons.2 ⟨.object hc, ih.2⟩⟩
  | component _ hT ih => exact ⟨ih.1, List.forall_mem_cons.2 ⟨(ih.2 _ hT).component, ih.2⟩⟩
  | arrayOf _ hT ih =>
      have hgives := ih.1.gives_arrayOf ht (ih.2 _ hT)
      exact ⟨hgives.regular,
        List.forall_mem_cons.2 ⟨hgives.belongs, fun U hU => (ih.2 U hU).mono hgives.within⟩⟩
  | resolve e _ ih =>
      have hgives := ih.1.gives_checkType ht e
      exact ⟨hgives.regular,
        List.forall_mem_cons.2 ⟨hgives.belongs, fun U hU => (ih.2 U hU).mono hgives.within⟩⟩
  | aside _ harrays hnotes ih => exact ⟨ih.1.of_eq harrays hnotes, harrays ▸ ih.2⟩

/-- Of the types that were obtained, those are the same that have one outline. -/
theorem Obtained.same_iff (ht : t.Closed) (h : Obtained t f Ts) {T U : ValueType} (hT : T ∈ Ts)
    (hU : U ∈ Ts) : T.same U = true ↔ T.outline = U.outline :=
  have hall := h.belongs ht
  (hall.2 T hT).same_iff ht hall.1.arrays (hall.2 U hU)

end ObjectLang
