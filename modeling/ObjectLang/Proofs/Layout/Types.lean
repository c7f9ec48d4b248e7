import Mathlib.Tactic
import ObjectLang.Layout.Types
import ObjectLang.Proofs.IR.Types
import ObjectLang.Proofs.Machine.Offsets
import ObjectLang.Proofs.Semantics.Store
import ObjectLang.Proofs.Typing.Denotation

/-!
# How the code represents types

A type of the code represents a type of the language: objects and arrays are pointers to structs.
Each array type that was asked for has a struct with the length and the elements. What was given
for a type stays right while more structs and procedures are added.
-/
namespace ObjectLang

open IR

/-- More structs and array types may have come, and those that were there have stayed. -/
structure Target.Keeps (T T' : Target) : Prop where
  structs : ∀ (id : Nat) (s : Struct), T.module.structs[id]? = some s →
    T'.module.structs[id]? = some s
  arrays : T.arrays <+: T'.arrays

/-- The procedures that were there have stayed too. -/
structure Target.Leads (T T' : Target) : Prop extends T.Keeps T' where
  procedures : ∀ (id : Nat) (p : Procedure), T.module.procedures[id]? = some p →
    T'.module.procedures[id]? = some p

theorem Target.Keeps.rfl {T : Target} : T.Keeps T :=
  ⟨fun _ _ h => h, List.prefix_refl _⟩

theorem Target.Keeps.trans {T T' T'' : Target} (h : T.Keeps T') (h' : T'.Keeps T'') : T.Keeps T'' :=
  ⟨fun id s hs => h'.structs id s (h.structs id s hs), h.arrays.trans h'.arrays⟩

theorem Target.Leads.rfl {T : Target} : T.Leads T :=
  ⟨.rfl, fun _ _ h => h⟩

theorem Target.Leads.trans {T T' T'' : Target} (h : T.Leads T') (h' : T'.Leads T'') : T.Leads T'' :=
  ⟨h.toKeeps.trans h'.toKeeps, fun id p hp => h'.procedures id p (h.procedures id p hp)⟩

theorem Target.Leads.grows {T T' : Target} (h : T.Leads T') : T.module.Grows T'.module := by
  refine ⟨h.structs, fun id i hi => ?_⟩
  obtain ⟨q, hq, rfl⟩ := Option.map_eq_some_iff.1 hi
  rw [Module.interface?, h.procedures id q hq]
  exact Eq.refl _

/-- A type of the code represents a type of the language. -/
inductive Represents (p : Program) (a : ArrayTypes) (structs : ClassStructs) (T : Target) :
    PlainType → Ty → Prop
  | int : Represents p a structs T .int .int
  | bool : Represents p a structs T .bool .bool
  | null : Represents p a structs T .null .null
  | object {c : String} {id : Nat} : structs.find? c = some id →
      Represents p a structs T (.object c) (.pointer (.struct id))
  | array {V : ValueType} {layout : ArrayLayout} {t : PlainType} : (V, layout) ∈ T.arrays →
      V.Denotes p a t → Represents p a structs T (.array t) layout.pointerType

/-- The array types that were asked for have the structs that they need, each of them one. A struct
is called after its class, or after the component of its array type. -/
structure Target.Sound (p : Program) (a : ArrayTypes) (structs : ClassStructs) (T : Target) :
    Prop where
  struct : ∀ (V : ValueType) (layout : ArrayLayout), (V, layout) ∈ T.arrays →
    ∃ t name, (V.Denotes p a t ∧ t ≠ .null) ∧ Represents p a structs T t layout.element ∧
      T.module.structs[layout.struct]? = some ⟨name, ArrayLayout.fields layout.element⟩
  unique : ∀ (V V' : ValueType) (layout layout' : ArrayLayout) (t : PlainType),
    (V, layout) ∈ T.arrays → (V', layout') ∈ T.arrays → V.Denotes p a t → V'.Denotes p a t →
      layout = layout'
  named : ∀ (i : Nat) (s : Struct), T.module.structs[i]? = some s →
    (∃ c : ClassRef, c.Faithful p ∧ s.name = c.name ∧ structs.find? c.name = some i) ∨
      ∃ V layout, (V, layout) ∈ T.arrays ∧ layout.struct = i ∧ s.name = "array_" ++ V.fragment

variable {p : Program} {a : ArrayTypes} {structs : ClassStructs} {T T' : Target} {t : PlainType}
  {ty : Ty}

namespace Represents

theorem mono (h : Represents p a structs T t ty) (hT : T.arrays <+: T'.arrays) :
    Represents p a structs T' t ty := by
  cases h with
  | int => exact .int
  | bool => exact .bool
  | null => exact .null
  | object hc => exact .object hc
  | array hm hd => exact .array (hT.subset hm) hd

theorem flat (h : Represents p a structs T t ty) : ty.Flat := by
  cases h <;> exact fun _ _ _ => rfl

theorem size (h : Represents p a structs T t ty) : ty.size = t.size := by
  cases h <;> rfl

theorem size_pos (h : Represents p a structs T t ty) : 0 < ty.size := by
  cases h <;> exact Nat.succ_pos _

/-- A type has one representation. -/
theorem functional {ty' : Ty} (h : Represents p a structs T t ty) (hT : T.Sound p a structs)
    (h' : Represents p a structs T t ty') : ty = ty' := by
  cases h with
  | int | bool | null =>
      cases h'
      rfl
  | object hc =>
      cases h' with
      | object hc' => rw [Option.some.inj (hc.symm.trans hc')]
  | array hm hd =>
      cases h' with
      | array hm' hd' => rw [hT.unique _ _ _ _ _ hm hm' hd hd']

/-- The arrays that have a representation do not hold `null` alone. -/
theorem component_ne_null (h : Represents p a structs T (.array t) ty) (hT : T.Sound p a structs) :
    t ≠ .null := by
  cases h with
  | array hm hd =>
      obtain ⟨u, name, ⟨hu, hne⟩, _⟩ := hT.struct _ _ hm
      exact hd.functional hu ▸ hne

end Represents

/-- The fields of an array struct have sizes of their own. -/
theorem ArrayLayout.fields_flat {element : Ty} (h : element.Flat) :
    ∀ f ∈ ArrayLayout.fields element, f.type.Flat := by
  intro f hf
  rcases List.mem_cons.1 hf with rfl | hf
  · exact fun _ _ _ => rfl
  · rw [List.mem_singleton.1 hf]
    exact Ty.flat_array h

namespace Target

/-- Another struct for an array type. -/
theorem leads_addArray (T : Target) (V : ValueType) (element : Ty) :
    T.Leads (T.addArray V element).2 := by
  refine ⟨⟨fun id s hs => ?_, List.prefix_append _ _⟩, fun _ _ h => h⟩
  have hid := (Array.getElem?_eq_some_iff.1 hs).1
  simp only [addArray, Module.addStruct]
  rw [Array.getElem?_push_lt hid]
  exact (Array.getElem?_eq_getElem hid).symm.trans hs

theorem Sound.addArray (h : T.Sound p a structs) {V : ValueType} {element : Ty}
    (hV : V.Denotes p a t) (ht : t ≠ .null) (helement : Represents p a structs T t element)
    (hnew : ∀ x ∈ T.arrays, ¬ x.1.Denotes p a t) :
    (T.addArray V element).2.Sound p a structs ∧
      Represents p a structs (T.addArray V element).2 (.array t)
        (T.addArray V element).1.pointerType := by
  have hleads := T.leads_addArray V element
  have hmem : (V, (T.addArray V element).1) ∈ (T.addArray V element).2.arrays :=
    List.mem_append_right _ (List.mem_singleton_self _)
  refine ⟨⟨fun U layout hm => ?_, fun U U' layout layout' u hm hm' hd hd' => ?_, fun i s hs => ?_⟩,
    .array hmem hV⟩
  · rcases List.mem_append.1 hm with hm | hm
    · obtain ⟨u, name, hd, hr, hs⟩ := h.struct U layout hm
      exact ⟨u, name, hd, hr.mono hleads.arrays, hleads.structs _ _ hs⟩
    · obtain ⟨rfl, rfl⟩ := Prod.mk.inj (List.mem_singleton.1 hm)
      refine ⟨t, "array_" ++ U.fragment, ⟨hV, ht⟩, helement.mono hleads.arrays, ?_⟩
      simp [Target.addArray, Module.addStruct]
  · have hone : ∀ {W : ValueType} {l : ArrayLayout}, (W, l) ∈ T.arrays → W.Denotes p a u →
        ¬ V.Denotes p a u := fun hm hd hVu => hnew _ hm (hV.functional hVu ▸ hd)
    rcases List.mem_append.1 hm with hU | hU <;> rcases List.mem_append.1 hm' with hU' | hU'
    · exact h.unique U U' layout layout' u hU hU' hd hd'
    · obtain ⟨rfl, rfl⟩ := Prod.mk.inj (List.mem_singleton.1 hU')
      exact (hone hU hd hd').elim
    · obtain ⟨rfl, rfl⟩ := Prod.mk.inj (List.mem_singleton.1 hU)
      exact (hone hU' hd' hd).elim
    · rw [(Prod.mk.inj (List.mem_singleton.1 hU)).2, (Prod.mk.inj (List.mem_singleton.1 hU')).2]
  · simp only [Target.addArray, Module.addStruct, Array.getElem?_push] at hs
    split_ifs at hs with hi
    · obtain rfl := Option.some.inj hs
      exact .inr ⟨V, _, hmem, hi.symm, rfl⟩
    · refine (h.named i s hs).imp_right ?_
      rintro ⟨U, layout, hm, hrest⟩
      exact ⟨U, layout, List.mem_append_left _ hm, hrest⟩

/-- One more procedure. -/
theorem leads_addProcedure (T : Target) (q : Procedure) : T.Leads (T.addProcedure q).2 := by
  refine ⟨⟨fun _ _ h => h, List.prefix_refl _⟩, fun id p hp => ?_⟩
  have hid := (Array.getElem?_eq_some_iff.1 hp).1
  simp only [addProcedure, Module.addProcedure]
  rw [Array.getElem?_push_lt hid]
  exact (Array.getElem?_eq_getElem hid).symm.trans hp

theorem getElem?_addProcedure (T : Target) (q : Procedure) :
    (T.addProcedure q).2.module.procedures[(T.addProcedure q).1]? = some q := by
  simp [addProcedure, Module.addProcedure]

theorem Sound.addProcedure (h : T.Sound p a structs) (q : Procedure) :
    (T.addProcedure q).2.Sound p a structs := by
  refine ⟨fun V layout hm => ?_, h.unique, h.named⟩
  obtain ⟨t, name, hd, hr, hs⟩ := h.struct V layout hm
  exact ⟨t, name, hd, hr.mono (List.prefix_refl _), hs⟩

end Target

theorem arrayWith_eq (V : ValueType) (element : Build Ty) (T : Target) :
    arrayWith V element T =
      (T.array? V).elim ((element T).2.addArray V (element T).1) fun layout => (layout, T) := by
  simp only [arrayWith, bind, StateT.bind, get, getThe, MonadStateOf.get, StateT.get, pure]
  cases T.array? V <;> rfl

section lower

variable (hh : p.Hierarchy) (ha : a.Canonical p)
include hh ha

/-- An array type gets the layout that it has, or else a new one. -/
theorem arrayWith_spec {V : ValueType} (hV : V.Denotes p a t) (ht : t ≠ .null) {element : Build Ty}
    (hT : T.Sound p a structs)
    (helement : T.Leads (element T).2 ∧ (element T).2.Sound p a structs ∧
      Represents p a structs (element T).2 t (element T).1)
    (hsmaller : ∀ x ∈ (element T).2.arrays, x ∈ T.arrays ∨
      ∃ u, x.1.Denotes p a u ∧ sizeOf u < sizeOf t) :
    T.Leads (arrayWith V element T).2 ∧ (arrayWith V element T).2.Sound p a structs ∧
      (∃ U, (U, (arrayWith V element T).1) ∈ (arrayWith V element T).2.arrays ∧
        U.Denotes p a t) ∧
      ∀ x ∈ (arrayWith V element T).2.arrays, x ∈ T.arrays ∨
        ∃ u, x.1.Denotes p a u ∧ sizeOf u ≤ sizeOf t := by
  rw [arrayWith_eq, Target.array?]
  cases hf : T.arrays.find? (·.1.same V) with
  | some x =>
      obtain ⟨U, layout⟩ := x
      have hm := List.mem_of_find?_eq_some hf
      obtain ⟨u, name, ⟨hd, _⟩, _⟩ := hT.struct U layout hm
      have hsame : U.same V = true := by simpa using List.find?_some hf
      obtain rfl : u = t := (hd.same_iff hh ha hV).1 hsame
      exact ⟨.rfl, hT, ⟨U, hm, hd⟩, fun _ hx => .inl hx⟩
  | none =>
      obtain ⟨hleads, hsound, hr⟩ := helement
      have hnew : ∀ x ∈ (element T).2.arrays, ¬ x.1.Denotes p a t := by
        intro x hx hd
        rcases hsmaller x hx with hx | ⟨u, hu, hlt⟩
        · exact List.find?_eq_none.1 hf x hx ((hd.same_iff hh ha hV).2 rfl)
        · rw [hd.functional hu] at hlt
          exact Nat.lt_irrefl _ hlt
      obtain ⟨hsound', _⟩ := hsound.addArray hV ht hr hnew
      refine ⟨hleads.trans (Target.leads_addArray _ _ _), hsound',
        ⟨V, List.mem_append_right _ (List.mem_singleton_self _), hV⟩, fun x hx => ?_⟩
      rcases List.mem_append.1 hx with hx | hx
      · exact (hsmaller x hx).imp_right fun hd => hd.imp fun _ h => ⟨h.1, Nat.le_of_lt h.2⟩
      · rw [List.mem_singleton.1 hx]
        exact .inr ⟨t, hV, le_rfl⟩

variable (hstructs : ∀ c : ClassRef, c.Faithful p → ∃ id, structs.find? c.name = some id)
include hstructs

/-- What a type of values becomes represents the type that it stands for. The array types that are
new are parts of it. -/
theorem lowerType_parts {V : ValueType} (hV : V.Denotes p a t) (hT : T.Sound p a structs) :
    (T.Leads (lowerType structs V T).2 ∧ (lowerType structs V T).2.Sound p a structs ∧
      Represents p a structs (lowerType structs V T).2 t (lowerType structs V T).1) ∧
      ∀ x ∈ (lowerType structs V T).2.arrays, x ∈ T.arrays ∨
        ∃ u, x.1.Denotes p a u ∧ sizeOf u < sizeOf t := by
  induction hV with
  | int => exact ⟨⟨.rfl, hT, .int⟩, fun _ hx => .inl hx⟩
  | bool => exact ⟨⟨.rfl, hT, .bool⟩, fun _ hx => .inl hx⟩
  | null => exact ⟨⟨.rfl, hT, .null⟩, fun _ hx => .inl hx⟩
  | @object c name hc hn =>
      obtain ⟨id, hid⟩ := hstructs c hc
      have hrun : lowerType structs (.object c) T = (.pointer (.struct id), T) := by
        simp only [lowerType, hid]
        rfl
      rw [hrun]
      exact ⟨⟨.rfl, hT, .object (hn ▸ hid)⟩, fun _ hx => .inl hx⟩
  | @array i V t hi hd ih =>
      obtain ⟨_, hd', hne⟩ := ha.denotes _ _ hi
      obtain rfl := hd.functional hd'
      have hrun : lowerType structs (.array i V) T =
          ((arrayWith V (lowerType structs V) T).1.pointerType,
            (arrayWith V (lowerType structs V) T).2) := rfl
      obtain ⟨hleads, hsound, ⟨U, hm, hU⟩, hparts⟩ := arrayWith_spec hh ha hd hne hT ih.1 ih.2
      rw [hrun]
      refine ⟨⟨hleads, hsound, .array hm hU⟩, fun x hx => (hparts x hx).imp_right ?_⟩
      rintro ⟨u, hu, hle⟩
      refine ⟨u, hu, ?_⟩
      rw [PlainType.array.sizeOf_spec]
      omega

theorem lowerType_spec {V : ValueType} (hV : V.Denotes p a t) (hT : T.Sound p a structs) :
    T.Leads (lowerType structs V T).2 ∧ (lowerType structs V T).2.Sound p a structs ∧
      Represents p a structs (lowerType structs V T).2 t (lowerType structs V T).1 :=
  (lowerType_parts hh ha hstructs hV hT).1

theorem arrayLayout_spec {V : ValueType} (hV : V.Denotes p a t) (ht : t ≠ .null)
    (hT : T.Sound p a structs) :
    T.Leads (arrayLayout structs V T).2 ∧ (arrayLayout structs V T).2.Sound p a structs ∧
      ∃ U, (U, (arrayLayout structs V T).1) ∈ (arrayLayout structs V T).2.arrays ∧
        U.Denotes p a t := by
  obtain ⟨hleads, hsound, hmem, _⟩ := arrayWith_spec hh ha hV ht hT
    (lowerType_spec hh ha hstructs hV hT) (lowerType_parts hh ha hstructs hV hT).2
  exact ⟨hleads, hsound, hmem⟩

end lower

section procedures

variable (structs : ClassStructs)

/-- What a type becomes brings no procedures. -/
theorem procedures_arrayWith {V : ValueType} {element : Build Ty} {T : Target}
    (h : (element T).2.module.procedures = T.module.procedures) :
    (arrayWith V element T).2.module.procedures = T.module.procedures := by
  rw [arrayWith_eq]
  cases T.array? V with
  | some layout => rfl
  | none => exact h

theorem procedures_lowerType (V : ValueType) (T : Target) :
    (lowerType structs V T).2.module.procedures = T.module.procedures := by
  induction V generalizing T with
  | array i V ih => exact procedures_arrayWith (ih T)
  | object c =>
      rw [lowerType]
      cases structs.find? c.name <;> rfl
  | _ => rfl

theorem procedures_arrayLayout (V : ValueType) (T : Target) :
    (arrayLayout structs V T).2.module.procedures = T.module.procedures :=
  procedures_arrayWith (procedures_lowerType structs V T)

end procedures

end ObjectLang
