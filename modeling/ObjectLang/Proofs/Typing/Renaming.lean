import Mathlib.Tactic
import ObjectLang.Proofs.Tree.Renaming
import ObjectLang.Typing.ValueType

/-!
# Types with other names

Classes with other names have the positions and the superclasses that they had. If different names
stay different, types are the same or below each other exactly if they were, and an array type has
the number that it had.
-/
namespace ObjectLang

variable {ρ : String → String}

namespace ClassRef

def rename (ρ : String → String) : ClassRef → ClassRef
  | .root name decl => .root (ρ name) decl
  | .derived name decl superclass => .derived (ρ name) decl (superclass.rename ρ)

variable (c d : ClassRef)

@[simp]
theorem name_rename : (c.rename ρ).name = ρ c.name := by
  cases c <;> rfl

@[simp]
theorem decl_rename : (c.rename ρ).decl = c.decl := by
  cases c <;> rfl

@[simp]
theorem superclass?_rename : (c.rename ρ).superclass? = c.superclass?.map (·.rename ρ) := by
  cases c <;> rfl

@[simp]
theorem ancestors_rename : (c.rename ρ).ancestors = c.ancestors.map (·.rename ρ) := by
  induction c with
  | root => rfl
  | derived name decl superclass ih => exact congrArg _ ih

variable (hρ : ρ.Injective)
include hρ

theorem same_rename : (c.rename ρ).same (d.rename ρ) = c.same d := by
  rw [same, same, name_rename, name_rename, hρ.beq_eq]

theorem isSubclass_rename : (c.rename ρ).isSubclass (d.rename ρ) = c.isSubclass d := by
  rw [isSubclass, isSubclass, ancestors_rename, List.any_map]
  exact congrArg _ (funext fun x => x.same_rename d hρ)

end ClassRef

namespace ValueType

def rename (ρ : String → String) : ValueType → ValueType
  | .int => .int
  | .bool => .bool
  | .null => .null
  | .any => .any
  | .array id component => .array id (component.rename ρ)
  | .object cls => .object (cls.rename ρ)

variable (t u : ValueType)

@[simp]
theorem component?_rename : (t.rename ρ).component? = t.component?.map (·.rename ρ) := by
  cases t <;> rfl

variable (hρ : ρ.Injective)
include hρ

theorem same_rename : (t.rename ρ).same (u.rename ρ) = t.same u := by
  cases t <;> cases u <;> first | rfl | exact ClassRef.same_rename _ _ hρ

theorem isSubtype_rename : (t.rename ρ).isSubtype (u.rename ρ) = t.isSubtype u := by
  cases t <;> cases u <;> first | rfl | exact ClassRef.isSubclass_rename _ _ hρ

theorem isEquivalent_rename : (t.rename ρ).isEquivalent (u.rename ρ) = t.isEquivalent u := by
  rw [isEquivalent, isEquivalent, t.isSubtype_rename u hρ, u.isSubtype_rename t hρ]

end ValueType

namespace ArrayTypes

def rename (ρ : String → String) (a : ArrayTypes) : ArrayTypes :=
  ⟨a.components.map (·.rename ρ)⟩

/-- An array type with a renamed component has the number that the other one has. -/
theorem arrayOf_rename (hρ : ρ.Injective) (a : ArrayTypes) (c : ValueType) :
    (a.rename ρ).arrayOf (c.rename ρ) =
      ((a.arrayOf c).1.rename ρ, (a.arrayOf c).2.rename ρ) := by
  have hfind : (a.rename ρ).components.findIdx? (·.same (c.rename ρ)) =
      a.components.findIdx? (·.same c) := by
    rw [rename, Array.findIdx?_map]
    exact congrArg (Array.findIdx? · a.components) (funext fun t => t.same_rename c hρ)
  rw [arrayOf, arrayOf, hfind]
  cases a.components.findIdx? (·.same c) with
  | none => simp [rename, ValueType.rename]
  | some id =>
      cases hc : a.components[id]? <;> simp [rename, ValueType.rename, hc]

end ArrayTypes

end ObjectLang
