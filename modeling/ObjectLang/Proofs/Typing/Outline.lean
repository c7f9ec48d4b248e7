import Mathlib.Tactic
import ObjectLang.Analysis.ClassTable
import ObjectLang.Proofs.Typing.Denotation

/-!
# Outlines of value types

A value type carries positions of declarations and numbers of array types, which depend on the order
in which a program is written. Its outline has only the names of classes. Whatever a program is
like, its value types are known by their outlines as long as class names differ and each component
got one number, and what is said about types in diagnostics is said about outlines.
-/
namespace ObjectLang

/-- A value type without positions and numbers. -/
inductive Outline where
  | int
  | bool
  | null
  | any
  | array (component : Outline)
  | object (cls : String)
deriving DecidableEq

namespace Outline

def text : Outline → String
  | .int => "int"
  | .bool => "boolean"
  | .null => "null"
  | .any => "any"
  | .array component => component.text ++ "[]"
  | .object cls => cls

/-- Subtyping, where `isSubclass` says which class is another one or below it. -/
def isSubtype (isSubclass : String → String → Bool) : Outline → Outline → Bool
  | .any, _ | _, .any => true
  | .int, .int | .bool, .bool | .null, .null => true
  | .null, .array _ | .null, .object _ => true
  | .array o, .array o' => o == o'
  | .object c, .object d => isSubclass c d
  | _, _ => false

end Outline

def ValueType.outline : ValueType → Outline
  | .int => .int
  | .bool => .bool
  | .null => .null
  | .any => .any
  | .array _ component => .array component.outline
  | .object cls => .object cls.name

@[simp]
theorem ValueType.text_outline (V : ValueType) : V.outline.text = V.text := by
  induction V with
  | array i V ih => exact congrArg (· ++ "[]") ih
  | _ => rfl

/-- The table has no two classes of one name, and the ancestors of its classes are in it. -/
structure ClassTable.Closed (t : ClassTable) : Prop where
  nodup : (t.classes.map ClassRef.name).Nodup
  ancestors : ∀ c ∈ t.classes, ∀ d ∈ c.ancestors, d ∈ t.classes

/-- Whether the table has a class of the first name that is below one of the second, or the same. -/
def ClassTable.isSubclass (t : ClassTable) (c d : String) : Bool :=
  (t.find? c).any fun c => c.ancestors.any (·.name == d)

namespace ClassTable.Closed

variable {t : ClassTable} (h : t.Closed) {c d : ClassRef}
include h

theorem eq_of_name (hc : c ∈ t.classes) (hd : d ∈ t.classes) (hn : c.name = d.name) : c = d :=
  List.inj_on_of_nodup_map h.nodup hc hd hn

theorem find?_eq (hc : c ∈ t.classes) : t.find? c.name = some c := by
  cases hf : t.find? c.name with
  | none => exact (List.find?_eq_none.1 hf c hc (by simp)).elim
  | some d =>
      have hd : d.name = c.name := by simpa using List.find?_some hf
      rw [h.eq_of_name (List.mem_of_find?_eq_some hf) hc hd]

theorem isSubclass_eq (hc : c ∈ t.classes) : t.isSubclass c.name d.name = c.isSubclass d := by
  rw [ClassTable.isSubclass, h.find?_eq hc]
  rfl

end ClassTable.Closed

/-- The nested array types of a value type all have numbers below a bound. -/
def ValueType.Below (n : Nat) : ValueType → Prop
  | .array i V => i < n ∧ V.Below i
  | .int | .bool | .null | .any | .object _ => True

/-- A value type is made of classes of a table and of array types that were handed out. -/
inductive ValueType.Belongs (t : ClassTable) (a : ArrayTypes) : ValueType → Prop
  | int : Belongs t a .int
  | bool : Belongs t a .bool
  | null : Belongs t a .null
  | any : Belongs t a .any
  | array {i : Nat} {V : ValueType} : a.components[i]? = some V → Belongs t a V →
      Belongs t a (.array i V)
  | object {c : ClassRef} : c ∈ t.classes → Belongs t a (.object c)

/-- Components are made of earlier ones, and no two have one outline. -/
structure ArrayTypes.Regular (t : ClassTable) (a : ArrayTypes) : Prop where
  belongs : ∀ (i : Nat) (V : ValueType), a.components[i]? = some V → V.Belongs t a
  below : ∀ (i : Nat) (V : ValueType), a.components[i]? = some V → V.Below i
  inj : ∀ (i j : Nat) (V W : ValueType), a.components[i]? = some V → a.components[j]? = some W →
    V.outline = W.outline → i = j

theorem ValueType.Below.mono {m n : Nat} {V : ValueType} (h : V.Below m) (hmn : m ≤ n) :
    V.Below n := by
  cases V with
  | array i V => exact ⟨h.1.trans_le hmn, h.2⟩
  | _ => trivial

namespace ValueType.Belongs

variable {t : ClassTable} {a b : ArrayTypes} {V W : ValueType}

theorem mono (h : V.Belongs t a) (hab : a.Within b) : V.Belongs t b := by
  induction h with
  | int => exact .int
  | bool => exact .bool
  | null => exact .null
  | any => exact .any
  | array hi _ ih => exact .array (hab _ _ hi) ih
  | object hc => exact .object hc

theorem component {i : Nat} (h : (ValueType.array i V).Belongs t a) : V.Belongs t a := by
  cases h with | array _ h => exact h

theorem numbers_below (h : V.Belongs t a) (ha : a.Regular t) : V.Below a.components.size := by
  cases h with
  | array hi _ => exact ⟨(Array.getElem?_eq_some_iff.1 hi).1, ha.below _ _ hi⟩
  | _ => trivial

variable (ht : t.Closed) (ha : a.Regular t)
include ht ha

/-- Value types are known by their outlines. -/
theorem eq_of_outline (hV : V.Belongs t a) (hW : W.Belongs t a) (h : V.outline = W.outline) :
    V = W := by
  induction hV generalizing W with
  | array hi _ ih =>
      cases hW with
      | array hj hW =>
          have ho := Outline.array.inj h
          rw [ha.inj _ _ _ _ hi hj ho, ih hW ho]
      | _ => exact Outline.noConfusion h
  | object hc =>
      cases hW with
      | object hd => rw [ht.eq_of_name hc hd (Outline.object.inj h)]
      | _ => exact Outline.noConfusion h
  | _ => cases hW <;> first | rfl | exact Outline.noConfusion h

theorem same_iff (hV : V.Belongs t a) (hW : W.Belongs t a) :
    V.same W = true ↔ V.outline = W.outline := by
  constructor
  · intro h
    cases hV with
    | array hi _ =>
        cases hW with
        | array hj _ =>
            simp only [same, beq_iff_eq] at h
            subst h
            obtain rfl := Option.some.inj (hi.symm.trans hj)
            rfl
        | _ => exact Bool.noConfusion h
    | object _ =>
        cases hW with
        | object _ => exact congrArg Outline.object (by simpa [same, ClassRef.same] using h)
        | _ => exact Bool.noConfusion h
    | _ => cases hW <;> first | rfl | exact Bool.noConfusion h
  · intro h
    rw [hV.eq_of_outline ht ha hW h]
    cases W <;> simp [same, ClassRef.same]

/-- Whether a value type is a subtype of another one is seen from their outlines. -/
theorem isSubtype_eq (hV : V.Belongs t a) (hW : W.Belongs t a) :
    V.isSubtype W = V.outline.isSubtype t.isSubclass W.outline := by
  cases hV with
  | array hi hV =>
      cases hW with
      | array hj hW =>
          rw [Bool.eq_iff_iff]
          simp only [isSubtype, outline, Outline.isSubtype, beq_iff_eq]
          constructor
          · rintro rfl
            rw [Option.some.inj (hi.symm.trans hj)]
          · exact ha.inj _ _ _ _ hi hj
      | _ => rfl
  | object hc =>
      cases hW with
      | object hd => exact (ht.isSubclass_eq hc).symm
      | _ => rfl
  | _ => cases hW <;> rfl

end ValueType.Belongs

namespace ArrayTypes

variable {t : ClassTable} {a : ArrayTypes} {V : ValueType}

theorem regular_empty (t : ClassTable) : Regular t {} :=
  ⟨by simp, by simp, by simp⟩

/-- A component of a new outline keeps a table regular. -/
theorem Regular.push (ha : a.Regular t) (hV : V.Belongs t a)
    (hnew : ∀ (i : Nat) (W : ValueType), a.components[i]? = some W → W.outline ≠ V.outline) :
    Regular t ⟨a.components.push V⟩ := by
  have hw := a.within_push V
  have hcase : ∀ (i : Nat) (W : ValueType), (a.components.push V)[i]? = some W →
      a.components[i]? = some W ∨ i = a.components.size ∧ W = V := by
    intro i W hW
    rw [Array.getElem?_push] at hW
    split_ifs at hW with hi
    · exact .inr ⟨hi, (Option.some.inj hW).symm⟩
    · exact .inl hW
  refine ⟨fun i W hW => ?_, fun i W hW => ?_, fun i j W X hW hX ho => ?_⟩
  · rcases hcase i W hW with hW | ⟨_, rfl⟩
    · exact (ha.belongs i W hW).mono hw
    · exact hV.mono hw
  · rcases hcase i W hW with hW | ⟨rfl, rfl⟩
    · exact ha.below i W hW
    · exact hV.numbers_below ha
  · rcases hcase i W hW with hW' | ⟨rfl, rfl⟩ <;> rcases hcase j X hX with hX' | ⟨rfl, rfl⟩
    · exact ha.inj i j W X hW' hX' ho
    · exact (hnew i W hW' ho).elim
    · exact (hnew j X hX' ho.symm).elim
    · rfl

/-- The array type with a component has the outline that it should, and the table stays regular. -/
theorem arrayOf_regular (ht : t.Closed) (ha : a.Regular t) (hV : V.Belongs t a) :
    a.Within (a.arrayOf V).2 ∧ (a.arrayOf V).2.Regular t ∧
      (a.arrayOf V).1.Belongs t (a.arrayOf V).2 ∧
        (a.arrayOf V).1.outline = .array V.outline := by
  unfold arrayOf
  cases hf : a.components.findIdx? (·.same V) with
  | some i =>
      obtain ⟨hi, hsame, _⟩ := Array.findIdx?_eq_some_iff_getElem.1 hf
      have hget : a.components[i]? = some a.components[i] := Array.getElem?_eq_getElem hi
      have hW := ha.belongs i _ hget
      have ho := (hW.same_iff ht ha hV).1 hsame
      simp only [hget, Option.getD_some]
      exact ⟨.rfl, ha, .array hget hW, congrArg Outline.array ho⟩
  | none =>
      have hnew : ∀ (i : Nat) (W : ValueType), a.components[i]? = some W →
          W.outline ≠ V.outline := by
        intro i W hW ho
        obtain ⟨hi, rfl⟩ := Array.getElem?_eq_some_iff.1 hW
        have hno := Array.findIdx?_eq_none_iff.1 hf _ (Array.getElem_mem hi)
        rw [((ha.belongs i _ hW).same_iff ht ha hV).2 ho] at hno
        exact Bool.noConfusion hno
      exact ⟨a.within_push V, ha.push hV hnew,
        .array (by simp) (hV.mono (a.within_push V)), rfl⟩

end ArrayTypes

end ObjectLang
