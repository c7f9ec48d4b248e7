import Mathlib.Tactic
import ObjectLang.Proofs.Layout.Building
import ObjectLang.Proofs.Typing.Outline

/-!
# What types become stays

What a type becomes in the code does not depend on when it is asked for: array types keep their
structs, so asking again gives the same type and changes nothing. This holds of all types whose
array types are made of earlier ones, in any program.
-/
namespace ObjectLang

open IR

variable {structs : ClassStructs} {T T' : Target} {V : ValueType} {ty : Ty}

/-- A type is the same from now on, whenever it is asked for. -/
def Target.Settles (T : Target) (structs : ClassStructs) (V : ValueType) (ty : Ty) : Prop :=
  ∀ T' : Target, T.arrays <+: T'.arrays → lowerType structs V T' = (ty, T')

theorem Target.Settles.mono (h : T.Settles structs V ty) (hT : T.arrays <+: T'.arrays) :
    T'.Settles structs V ty :=
  fun _ hT' => h _ (hT.trans hT')

/-- An array type has a layout from now on. -/
theorem Target.array?_of_prefix {layout : ArrayLayout} (h : T.array? V = some layout)
    (hT : T.arrays <+: T'.arrays) : T'.array? V = some layout := by
  obtain ⟨more, hmore⟩ := hT
  obtain ⟨x, hx, rfl⟩ := Option.map_eq_some_iff.1 h
  rw [Target.array?, ← hmore, List.find?_append, hx]
  rfl

theorem arrayWith_run (V : ValueType) (element : Build Ty) (T : Target) :
    arrayWith V element T = match T.array? V with
      | some layout => (layout, T)
      | none => (element T).2.addArray V (element T).1 := by
  change (match T.array? V with
    | some layout => pure layout
    | none => do
      let element ← element
      modifyGet (·.addArray V element) : Build ArrayLayout) T = _
  cases T.array? V <;> rfl

theorem lowerType_array (i : Nat) (V : ValueType) (T : Target) :
    lowerType structs (.array i V) T =
      ((arrayWith V (lowerType structs V) T).1.pointerType,
        (arrayWith V (lowerType structs V) T).2) :=
  rfl

/-- All types keep what was there. -/
theorem leads_lowerType (structs : ClassStructs) (V : ValueType) (T : Target) :
    T.Leads (lowerType structs V T).2 := by
  induction V generalizing T with
  | array i V ih =>
      rw [lowerType_array, arrayWith_run]
      cases T.array? V with
      | some layout => exact .rfl
      | none => exact (ih T).trans (Target.leads_addArray _ _ _)
  | object c =>
      rw [lowerType]
      cases structs.find? c.name <;> exact .rfl
  | _ => exact .rfl

/-- What a type becomes has a size that no struct has a say in. -/
theorem flat_lowerType (structs : ClassStructs) (V : ValueType) (T : Target) :
    (lowerType structs V T).1.Flat := by
  cases V with
  | object c =>
      rw [lowerType]
      cases structs.find? c.name <;> exact fun _ _ _ => rfl
  | _ => exact fun _ _ _ => rfl

/-- An array type that is new has no layout among those that come with its component. -/
theorem array?_parts (hV : ∃ n, V.Below n) (hnone : T.array? V = none)
    (hparts : ∀ x ∈ T'.arrays, x ∈ T.arrays ∨ ∃ i W, V = .array i W ∧ x.1.Below i) :
    T'.array? V = none := by
  rw [Target.array?, Option.map_eq_none_iff, List.find?_eq_none] at hnone ⊢
  intro x hx
  rcases hparts x hx with hx | ⟨i, W, rfl, hbelow⟩
  · exact hnone x hx
  · intro hsame
    cases hx1 : x.1 with
    | array j X =>
        rw [hx1] at hsame hbelow
        have hji : j = i := by simpa [ValueType.same] using hsame
        exact hbelow.1.ne hji
    | _ =>
        rw [hx1] at hsame
        exact Bool.noConfusion hsame

/-- A type is settled when it was asked for. The array types that are new are parts of it. -/
theorem settles_lowerType {n : Nat} (hV : V.Below n) (T : Target) :
    (lowerType structs V T).2.Settles structs V (lowerType structs V T).1 ∧
      ∀ x ∈ (lowerType structs V T).2.arrays, x ∈ T.arrays ∨
        ∃ i W, V = .array i W ∧ x.1.Below i := by
  induction V generalizing n T with
  | array i V ih =>
      obtain ⟨_, hparts⟩ := ih hV.2 T
      rw [lowerType_array, arrayWith_run]
      cases hlayout : T.array? V with
      | some layout =>
          refine ⟨fun T' hT => ?_, fun x hx => .inl hx⟩
          rw [lowerType_array, arrayWith_run, Target.array?_of_prefix hlayout hT]
      | none =>
          have hnone := array?_parts ⟨i, hV.2⟩ hlayout hparts
          have hself : ((lowerType structs V T).2.addArray V (lowerType structs V T).1).2.array? V =
              some ((lowerType structs V T).2.addArray V (lowerType structs V T).1).1 := by
            rw [Target.array?, Option.map_eq_none_iff] at hnone
            have hsame : V.same V = true := by cases V <;> simp [ValueType.same, ClassRef.same]
            simp [Target.array?, Target.addArray, List.find?_append, hnone, hsame]
          refine ⟨fun T' hT => ?_, fun x hx => ?_⟩
          · rw [lowerType_array, arrayWith_run, Target.array?_of_prefix hself hT]
          · rcases List.mem_append.1 hx with hx | hx
            · refine (hparts x hx).imp_right ?_
              rintro ⟨j, W, rfl, hbelow⟩
              exact ⟨i, _, rfl, hbelow.mono hV.2.1.le⟩
            · rw [List.mem_singleton.1 hx]
              exact .inr ⟨i, V, rfl, hV.2⟩
  | object c =>
      have hrun : ∃ ty, ∀ T, lowerType structs (.object c) T = (ty, T) := by
        cases h : structs.find? c.name <;> exact ⟨_, fun T => by rw [lowerType, h]; rfl⟩
      obtain ⟨ty, hrun⟩ := hrun
      rw [hrun]
      exact ⟨fun T' _ => hrun T', fun x hx => .inl hx⟩
  | _ => exact ⟨fun _ _ => rfl, fun x hx => .inl hx⟩

end ObjectLang
