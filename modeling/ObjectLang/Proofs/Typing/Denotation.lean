import Mathlib.Tactic
import ObjectLang.Analysis.Findings
import ObjectLang.Proofs.Typing.Lineage

/-!
# What value types stand for

A value type of the analysis stands for a type of the language if its classes are faithful and its
array types have the numbers that were handed out for their components. As long as each component
got one number, two value types are the same exactly if they stand for the same type, and subtyping
of value types is subtyping by the rules.
-/
namespace ObjectLang

variable {p : Program}

/-- A value type stands for a type of the language, where `arrays` gives the components. -/
inductive ValueType.Denotes (p : Program) (arrays : ArrayTypes) : ValueType → PlainType → Prop
  | int : Denotes p arrays .int .int
  | bool : Denotes p arrays .bool .bool
  | null : Denotes p arrays .null .null
  | array {id : Nat} {c : ValueType} {t : PlainType} : arrays.components[id]? = some c →
      Denotes p arrays c t → Denotes p arrays (.array id c) (.array t)
  | object {c : ClassRef} {name : String} : c.Faithful p → c.name = name →
      Denotes p arrays (.object c) (.object name)

namespace ArrayTypes

/-- All components stand for types, none of them for that of `null`, and for different ones. -/
structure Canonical (p : Program) (a : ArrayTypes) : Prop where
  denotes : ∀ (i : Nat) (c : ValueType), a.components[i]? = some c →
    ∃ t, c.Denotes p a t ∧ t ≠ .null
  inj : ∀ (i j : Nat) (c d : ValueType) (t : PlainType),
    a.components[i]? = some c → a.components[j]? = some d →
    c.Denotes p a t → d.Denotes p a t → i = j

/-- The first table is a part of the second. -/
def Within (a b : ArrayTypes) : Prop :=
  ∀ (i : Nat) (c : ValueType), a.components[i]? = some c → b.components[i]? = some c

theorem Within.rfl {a : ArrayTypes} : a.Within a :=
  fun _ _ h => h

theorem Within.trans {a b c : ArrayTypes} (h : a.Within b) (h' : b.Within c) : a.Within c :=
  fun i t ht => h' i t (h i t ht)

theorem within_push (a : ArrayTypes) (c : ValueType) : a.Within ⟨a.components.push c⟩ := by
  intro i d hd
  have hi := (Array.getElem?_eq_some_iff.1 hd).1
  rw [Array.getElem?_push_lt hi]
  simpa [Array.getElem?_eq_getElem hi] using hd

end ArrayTypes

namespace ValueType.Denotes

open ArrayTypes

variable {a b : ArrayTypes} {T U : ValueType} {t u : PlainType}

theorem mono (h : T.Denotes p a t) (hab : a.Within b) : T.Denotes p b t := by
  induction h with
  | int => exact .int
  | bool => exact .bool
  | null => exact .null
  | array hc _ ih => exact .array (hab _ _ hc) ih
  | object hc hn => exact .object hc hn

theorem functional (h : T.Denotes p a t) : T.Denotes p a u → t = u := by
  induction h generalizing u with
  | int | bool | null => intro h; cases h; rfl
  | array _ _ ih => intro h; cases h with | array _ h => rw [ih h]
  | object _ hn => intro h; cases h with | object _ hn' => rw [← hn, hn']

theorem injective (hp : p.Hierarchy) (ha : a.Canonical p) (h : T.Denotes p a t) :
    U.Denotes p a t → T = U := by
  induction h generalizing U with
  | int | bool | null => intro h; cases h; rfl
  | array hc hd ih =>
      intro h
      cases h with
      | array hc' hd' =>
          rw [ha.inj _ _ _ _ _ hc hc' hd hd', ih hd']
  | object hc hn =>
      intro h
      cases h with
      | object hc' hn' => rw [hc.unique hp hc' (hn.trans hn'.symm)]

/-- Value types that stand for types are the same exactly if these are. -/
theorem same_iff (hp : p.Hierarchy) (ha : a.Canonical p) (hT : T.Denotes p a t)
    (hU : U.Denotes p a u) : T.same U = true ↔ t = u := by
  constructor
  · intro h
    cases hT with
    | int | bool | null => cases hU <;> first | rfl | simp [same] at h
    | array hc hd =>
        cases hU with
        | array hc' hd' =>
            simp only [same, beq_iff_eq] at h
            subst h
            rw [hc] at hc'
            cases hc'
            rw [hd.functional hd']
        | _ => simp [same] at h
    | object hc hn =>
        cases hU with
        | object hc' hn' =>
            simp only [same, ClassRef.same, beq_iff_eq] at h
            rw [← hn, ← hn', h]
        | _ => simp [same] at h
  · rintro rfl
    rw [hT.injective hp ha hU]
    cases U <;> simp [same, ClassRef.same]

/-- Subtyping of value types is subtyping by the rules. -/
theorem isSubtype_iff (hp : p.Hierarchy) (ha : a.Canonical p) (hT : T.Denotes p a t)
    (hU : U.Denotes p a u) : T.isSubtype U = true ↔ p.Subtype t u := by
  constructor
  · intro h
    cases hT with
    | int | bool => cases hU <;> first | exact .refl _ | simp [isSubtype] at h
    | null =>
        cases hU with
        | null => exact .refl _
        | array _ _ => exact .nullArray _
        | object _ _ => exact .nullObject _
        | _ => simp [isSubtype] at h
    | array hc hd =>
        cases hU with
        | array hc' hd' =>
            simp only [isSubtype, beq_iff_eq] at h
            subst h
            rw [hc] at hc'
            cases hc'
            rw [hd.functional hd']
            exact .refl _
        | _ => simp [isSubtype] at h
    | object hc hn =>
        cases hU with
        | object hc' hn' =>
            subst hn hn'
            exact .object ((hc.isSubclass_iff hp).1 h)
        | _ => simp [isSubtype] at h
  · intro h
    cases h with
    | refl =>
        rw [hT.injective hp ha hU]
        cases hU with
        | object hc hn => exact (hc.isSubclass_iff hp).2 .refl
        | _ => simp [isSubtype]
    | nullArray =>
        cases hT
        cases hU
        rfl
    | nullObject =>
        cases hT
        cases hU
        rfl
    | object hb =>
        cases hT with
        | object hc hn =>
            cases hU with
            | object hc' hn' =>
                subst hn hn'
                exact (hc.isSubclass_iff hp).2 hb

theorem known (h : T.Denotes p a t) : t.Known p := by
  induction h with
  | int | bool | null => trivial
  | array _ _ ih => exact ih
  | object hc hn => exact hn ▸ hc.declares

end ValueType.Denotes

namespace ArrayTypes

open ValueType

variable {a : ArrayTypes} {c : ValueType} {t : PlainType}

/-- A new component keeps the table canonical if no other stands for the same type. -/
theorem Canonical.push (ha : a.Canonical p) (hc : c.Denotes p a t) (ht : t ≠ .null)
    (hnew : ∀ (i : Nat) (d : ValueType), a.components[i]? = some d → ¬ d.Denotes p a t) :
    Canonical p ⟨a.components.push c⟩ := by
  have hw := a.within_push c
  have hcase : ∀ (i : Nat) (d : ValueType), (a.components.push c)[i]? = some d →
      a.components[i]? = some d ∨ i = a.components.size ∧ d = c := by
    intro i d hd
    rw [Array.getElem?_push] at hd
    split_ifs at hd with hi
    · exact .inr ⟨hi, (Option.some.inj hd).symm⟩
    · exact .inl hd
  have hdown : ∀ (i : Nat) (d : ValueType) (u : PlainType), a.components[i]? = some d →
      d.Denotes p ⟨a.components.push c⟩ u →
      d.Denotes p a u := by
    intro i d u hd hu
    obtain ⟨u', hu', _⟩ := ha.denotes i d hd
    rwa [← (hu'.mono hw).functional hu]
  constructor
  · intro i d hd
    rcases hcase i d hd with hd | ⟨_, rfl⟩
    · obtain ⟨u, hu, hne⟩ := ha.denotes i d hd
      exact ⟨u, hu.mono hw, hne⟩
    · exact ⟨t, hc.mono hw, ht⟩
  · intro i j d e u hd he hdu heu
    rcases hcase i d hd with hd' | ⟨rfl, rfl⟩
    · have hdt := hdown i d u hd' hdu
      rcases hcase j e he with he' | ⟨rfl, rfl⟩
      · exact ha.inj i j d e u hd' he' hdt (hdown j e u he' heu)
      · rw [heu.functional (hc.mono hw)] at hdt
        exact (hnew i d hd' hdt).elim
    · rcases hcase j e he with he' | ⟨rfl, _⟩
      · rw [hdu.functional (hc.mono hw)] at heu
        exact (hnew j e he' (hdown j e t he' heu)).elim
      · rfl

/-- The array type with a component stands for the arrays of what the component stands for. -/
theorem arrayOf_spec (hp : p.Hierarchy) (ha : a.Canonical p) (hc : c.Denotes p a t)
    (ht : t ≠ .null) :
    (a.arrayOf c).2.Canonical p ∧ a.Within (a.arrayOf c).2 ∧
      (a.arrayOf c).1.Denotes p (a.arrayOf c).2 (.array t) := by
  rw [arrayOf]
  cases hf : a.components.findIdx? (·.same c) with
  | some id =>
      obtain ⟨hid, hsame, _⟩ := Array.findIdx?_eq_some_iff_getElem.1 hf
      have hget := Array.getElem?_eq_getElem hid
      obtain ⟨u, hu, _⟩ := ha.denotes id _ hget
      have hut : u = t := (hu.same_iff hp ha hc).1 hsame
      subst hut
      simp only [hget, Option.getD_some]
      exact ⟨ha, .rfl, .array hget hu⟩
  | none =>
      have hnew : ∀ (i : Nat) (d : ValueType), a.components[i]? = some d → ¬ d.Denotes p a t := by
        intro i d hd hdt
        have hmem := Array.mem_of_getElem? hd
        have := Array.findIdx?_eq_none_iff.1 hf d hmem
        rw [(hdt.same_iff hp ha hc).2 rfl] at this
        cases this
      have hw := a.within_push c
      refine ⟨ha.push hc ht hnew, hw, .array ?_ (hc.mono hw)⟩
      exact Array.getElem?_push_size

end ArrayTypes
end ObjectLang
