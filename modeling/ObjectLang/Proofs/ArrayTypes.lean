import Mathlib.Tactic
import ObjectLang.Proofs.Allocation
import ObjectLang.Proofs.Analysis.Requests
import ObjectLang.Proofs.Layout.Settled
import ObjectLang.Proofs.Lowering.Requests
import ObjectLang.Proofs.Names

/-!
# Array types are canonical

Each component has one array type in an analysis, one struct in the code and, if arrays with it are
made, one allocator. The number of an array type is found by its component, the struct by the
number, and the allocator by the number again; that each of the tables has one entry for one
structure rests on the table before it.
-/
namespace ObjectLang

open IR

section outlines

variable {p : Program} {a : ArrayTypes} {V W : ValueType} {t u : PlainType}

/-- A type of the language as an outline. -/
def PlainType.outline : PlainType → Outline
  | .int => .int
  | .bool => .bool
  | .null => .null
  | .array t => .array t.outline
  | .object c => .object c

theorem PlainType.outline_inj (h : t.outline = u.outline) : t = u := by
  induction t generalizing u with
  | array t ih =>
      cases u with
      | array u => rw [ih (Outline.array.inj h)]
      | _ => cases h
  | object c =>
      cases u with
      | object d => rw [Outline.object.inj h]
      | _ => cases h
  | _ => cases u <;> first | rfl | cases h

theorem ValueType.Denotes.outline (h : V.Denotes p a t) : V.outline = t.outline := by
  induction h with
  | int | bool | null => rfl
  | array _ _ ih => exact congrArg Outline.array ih
  | object _ hn => exact congrArg Outline.object hn

theorem ValueType.Denotes.outline_eq_iff (hV : V.Denotes p a t) (hW : W.Denotes p a u) :
    V.outline = W.outline ↔ t = u := by
  rw [hV.outline, hW.outline]
  exact ⟨PlainType.outline_inj, congrArg _⟩

end outlines

section structs

variable {p : Program} {a : ArrayTypes} {structs : ClassStructs} {T T' : Target} {t u : PlainType}
  {ty : Ty}

/-- No struct of a class is one of an array type. -/
def ClassStructs.Apart (structs : ClassStructs) (T : Target) : Prop :=
  ∀ name id, structs.find? name = some id → ∀ x ∈ T.arrays, x.2.struct ≠ id

/-- The second field of an array is no field of an object. -/
theorem ClassLayout.Filled.struct_ne {l : ClassLayout} {c : ClassRef} {x : ValueType × ArrayLayout}
    (h : l.Filled p a structs T c) (hT : T.Sound p a structs) (hx : x ∈ T.arrays) :
    x.2.struct ≠ l.struct := by
  intro heq
  obtain ⟨fields, hs, hfields⟩ := h.fields
  obtain ⟨t, name, _, _, hs'⟩ := hT.struct x.1 x.2 hx
  rw [heq] at hs'
  obtain ⟨_, rfl⟩ := Struct.mk.inj (Option.some.inj (hs.symm.trans hs'))
  obtain ⟨_, _, _, hrest, _⟩ := List.forall₂_cons_right_iff.1 hfields
  obtain ⟨y, _, hdata, _⟩ := List.forall₂_cons_right_iff.1 hrest
  generalize y.2.plain = u at hdata
  cases hdata

theorem Represents.of_pointer {id : Nat} (h : Represents p a structs T t (.pointer (.struct id))) :
    (∃ c, t = .object c ∧ structs.find? c = some id) ∨
      ∃ V layout u, t = .array u ∧ (V, layout) ∈ T.arrays ∧ layout.struct = id ∧
        V.Denotes p a u := by
  generalize hty : Ty.pointer (.struct id) = ty at h
  cases h with
  | object hc =>
      cases hty
      exact .inl ⟨_, rfl, hc⟩
  | @array V layout u hm hd =>
      cases hty
      exact .inr ⟨V, layout, u, rfl, hm, rfl, hd⟩
  | _ => cases hty

variable (hT : T.Sound p a structs)
include hT

/-- The entry of the table that an array type is represented by. -/
theorem Represents.mem_arrays (hh : p.Hierarchy) (ha : a.Canonical p) {V : ValueType}
    {layout : ArrayLayout} (hV : V.Denotes p a t)
    (h : Represents p a structs T (.array t) layout.pointerType)
    (helement : Represents p a structs T t layout.element) : (V, layout) ∈ T.arrays := by
  rcases h.of_pointer with ⟨c, heq, _⟩ | ⟨W, l, u, heq, hm, hstruct, hW⟩
  · cases heq
  · obtain rfl := PlainType.array.inj heq
    obtain rfl := hW.injective hh ha hV
    obtain ⟨u, _, ⟨hu, _⟩, hr, _⟩ := hT.struct W l hm
    obtain rfl := hu.functional hV
    obtain ⟨struct, element⟩ := layout
    obtain ⟨struct', element'⟩ := l
    obtain rfl : struct' = struct := hstruct
    obtain rfl : element' = element := hr.functional hT helement
    exact hm

variable (hd : structs.Distinct p) (hapart : structs.Apart T)
include hd hapart

/-- What represents two types represents one: a struct is that of one class or of one component. -/
theorem Represents.injective (ht : Represents p a structs T t ty)
    (hu : Represents p a structs T u ty) : t = u := by
  induction t generalizing u ty with
  | int | bool | null =>
      cases ht
      cases hu
      rfl
  | object c =>
      cases ht with
      | @object _ id hc =>
          rcases hu.of_pointer with ⟨c', rfl, hc'⟩ | ⟨V, layout, _, rfl, hm, hstruct, _⟩
          · rw [hd.injective _ _ _ hc hc']
          · exact (hapart _ _ hc _ hm hstruct).elim
  | array t ih =>
      cases ht with
      | @array V layout _ hm hV =>
          rcases hu.of_pointer with ⟨c, rfl, hc⟩ | ⟨W, layout', u, rfl, hm', hstruct, hW⟩
          · exact (hapart _ _ hc _ hm rfl).elim
          · obtain ⟨t', _, ⟨ht', _⟩, hr, hs⟩ := hT.struct V layout hm
            obtain ⟨u', _, ⟨hu', _⟩, hr', hs'⟩ := hT.struct W layout' hm'
            obtain rfl := ht'.functional hV
            obtain rfl := hu'.functional hW
            rw [hstruct] at hs'
            have hfields := (Struct.mk.inj (Option.some.inj (hs.symm.trans hs'))).2
            simp only [ArrayLayout.fields, List.cons.injEq, Field.mk.injEq, Ty.array.injEq,
              true_and, and_true] at hfields
            rw [ih hr (hfields ▸ hr')]

end structs

section canonical

/-- A struct is that of the arrays with a component. -/
def Target.HasArrayStruct (T : Target) (component : Outline) (k : Nat) : Prop :=
  ∃ x ∈ T.arrays, x.1.outline = component ∧ x.2.struct = k

/-- A procedure has the code that makes the arrays with a component, in their struct. -/
def Target.HasAllocator (T : Target) (component : Outline) (id : Nat) : Prop :=
  ∃ x ∈ T.arrays, x.1.outline = component ∧ T.module.procedures[id]? =
    some (allocatorCode x.1 x.2.pointerType x.2 (T.module.sizeOf x.2.element))

/-- Arrays with a component are made somewhere in a program. -/
def Program.MakesArrays (p : Program) (component : Outline) : Prop :=
  ∃ d ∈ p.bodies, ∃ tag element size,
    .expr (.newArray tag element size) ∈ nodesOfBody d.body ∧ element.plain.outline = component

/-- The array types of an analysed program are canonical in its code: they become the same struct
exactly if their components have one outline, whenever they are asked for, and one outline has one
struct, and one allocator if arrays with it are made. -/
structure Program.CanonicalArrays (p : Program) (a : Analysis) (structs : ClassStructs)
    (T : Target) : Prop where
  lowered : ∀ i V, (ValueType.array i V).Belongs a.classes a.arrays →
    ∃ k, (lowerType structs (.array i V) T).1 = .pointer (.struct k) ∧
      (lowerType structs (.array i V) T).2.HasArrayStruct V.outline k
  same : ∀ i j V W, (ValueType.array i V).Belongs a.classes a.arrays →
    (ValueType.array j W).Belongs a.classes a.arrays →
      ((lowerType structs (.array i V) T).1 =
          (lowerType structs (.array j W) (lowerType structs (.array i V) T).2).1 ↔
        V.outline = W.outline)
  /-- What an array type became at an earlier time, it is at the end. -/
  settled : ∀ T₀ i V, (ValueType.array i V).Belongs a.classes a.arrays →
    (lowerType structs (.array i V) T₀).2.arrays <+: T.arrays →
      lowerType structs (.array i V) T = ((lowerType structs (.array i V) T₀).1, T)
  kinds : ∀ k < T.module.structs.size,
    (∃ c ∈ a.classes.classes, structs.find? c.name = some k) ∨ ∃ o, T.HasArrayStruct o k
  apart : ∀ o k, T.HasArrayStruct o k → ∀ name, structs.find? name ≠ some k
  struct_iff : ∀ o o' k k', T.HasArrayStruct o k → T.HasArrayStruct o' k' → (k = k' ↔ o = o')
  allocator : ∀ o, p.MakesArrays o → ∃ id, T.HasAllocator o id
  allocator_iff : ∀ o o' id id', T.HasAllocator o id → T.HasAllocator o' id' → (id = id' ↔ o = o')
  /-- There are no other allocators. -/
  allocators : ∀ id component returnType layout elementSize, T.module.procedures[id]? =
    some (allocatorCode component returnType layout elementSize) →
      ∃ o, T.HasAllocator o id ∧ p.MakesArrays o

variable {p : Program} {body : Body} {routines : List (Routine × Signature)} {s : LowerState}
  {T : Target} {V W : ValueType} {i j : Nat}

/-- Array types that were handed out for an accepted program stand for types of the language. -/
theorem ValueType.Belongs.exists_denotes {t : ClassTable} {a : ArrayTypes} (ha : a.Canonical p)
    (h : (ValueType.array i V).Belongs t a) :
    ∃ t, V.Denotes p a t ∧ (ValueType.array i V).Denotes p a (.array t) := by
  cases h with
  | array hi _ =>
      obtain ⟨t, ht, _⟩ := ha.denotes i V hi
      exact ⟨t, ht, .array hi ht⟩

namespace Program.Compiled

variable (h : p.Compiled body routines s)
include h

theorem apart (hT : s.target.Leads T)
    (hsound : T.Sound p body.analysis.arrays body.layouts.structs) :
    body.layouts.structs.Apart T := by
  intro name id hid x hx
  obtain ⟨T₀, h₀⟩ := h.built
  obtain ⟨c, hc, rfl⟩ := h₀.distinct.faithful name id hid
  obtain ⟨l, _, hfilled⟩ := h.done.classes c hc
  obtain rfl := Option.some.inj (hid.symm.trans hfilled.struct)
  exact (hfilled.leads hT).struct_ne hsound hx

/-- What an array type becomes when it is asked for. -/
theorem represents_lowerType (hsound : T.Sound p body.analysis.arrays body.layouts.structs)
    {t : PlainType} (hV : (ValueType.array i V).Denotes p body.analysis.arrays (.array t)) :
    T.Leads (lowerType body.layouts.structs (.array i V) T).2 ∧
      (lowerType body.layouts.structs (.array i V) T).2.Sound p body.analysis.arrays
        body.layouts.structs ∧
      Represents p body.analysis.arrays body.layouts.structs
        (lowerType body.layouts.structs (.array i V) T).2 (.array t)
        (lowerType body.layouts.structs (.array i V) T).1 := by
  obtain ⟨T₀, h₀⟩ := h.built
  exact lowerType_spec h.prepared.accepted.wellFormed.hierarchy h.prepared.accepted.arrays
    h₀.structs hV hsound

theorem represents_injective (hT : s.target.Leads T)
    (hsound : T.Sound p body.analysis.arrays body.layouts.structs) {t u : PlainType} {ty : Ty}
    (ht : Represents p body.analysis.arrays body.layouts.structs T t ty)
    (hu : Represents p body.analysis.arrays body.layouts.structs T u ty) : t = u := by
  obtain ⟨T₀, h₀⟩ := h.built
  exact ht.injective hsound h₀.distinct (h.apart hT hsound) hu

section types

variable (hV : (ValueType.array i V).Belongs body.analysis.classes body.analysis.arrays)
include hV

theorem lowerType_pointer :
    ∃ k, (lowerType body.layouts.structs (.array i V) s.target).1 = .pointer (.struct k) ∧
      (lowerType body.layouts.structs (.array i V) s.target).2.HasArrayStruct V.outline k := by
  obtain ⟨t, ht, harray⟩ := hV.exists_denotes h.prepared.accepted.arrays
  obtain ⟨_, hsound, hr⟩ := h.represents_lowerType h.done.target harray
  have hpointer : (lowerType body.layouts.structs (.array i V) s.target).1 =
      .pointer (.struct (arrayWith V (lowerType body.layouts.structs V) s.target).1.struct) := by
    rw [lowerType_array]
    rfl
  refine ⟨_, hpointer, ?_⟩
  rw [hpointer] at hr
  rcases hr.of_pointer with ⟨_, heq, _⟩ | ⟨W, layout, u, heq, hm, hstruct, hW⟩
  · cases heq
  · obtain rfl := PlainType.array.inj heq
    exact ⟨_, hm, (hW.outline_eq_iff ht).2 rfl, hstruct⟩

theorem lowerType_same
    (hW : (ValueType.array j W).Belongs body.analysis.classes body.analysis.arrays) :
    (lowerType body.layouts.structs (.array i V) s.target).1 =
        (lowerType body.layouts.structs (.array j W)
          (lowerType body.layouts.structs (.array i V) s.target).2).1 ↔
      V.outline = W.outline := by
  obtain ⟨t, ht, harray⟩ := hV.exists_denotes h.prepared.accepted.arrays
  obtain ⟨u, hu, harray'⟩ := hW.exists_denotes h.prepared.accepted.arrays
  obtain ⟨hleads, hsound, hr⟩ := h.represents_lowerType h.done.target harray
  obtain ⟨hleads', hsound', hr'⟩ := h.represents_lowerType hsound harray'
  have hr := hr.mono hleads'.arrays
  rw [ht.outline_eq_iff hu]
  constructor
  · intro heq
    rw [heq] at hr
    exact PlainType.array.inj (h.represents_injective (hleads.trans hleads') hsound' hr hr')
  · rintro rfl
    exact hr.functional hsound' hr'

end types

/-- Two entries of the table of array types are for one struct exactly if they are for one
component. -/
theorem arrays_struct_iff {x y : ValueType × ArrayLayout} (hx : x ∈ s.target.arrays)
    (hy : y ∈ s.target.arrays) : x.2.struct = y.2.struct ↔ x.1.outline = y.1.outline := by
  obtain ⟨t, _, ⟨ht, _⟩, _⟩ := h.done.target.struct x.1 x.2 hx
  obtain ⟨u, _, ⟨hu, _⟩, _⟩ := h.done.target.struct y.1 y.2 hy
  rw [ht.outline_eq_iff hu]
  constructor
  · intro heq
    refine PlainType.array.inj (h.represents_injective .rfl h.done.target (.array hx ht) ?_)
    rw [ArrayLayout.pointerType, heq]
    exact .array hy hu
  · rintro rfl
    rw [h.done.target.unique _ _ _ _ _ hx hy ht hu]

/-- An allocator that was asked for has its code. -/
theorem hasAllocator {x : ValueType × Nat} (hx : x ∈ s.allocators) :
    s.target.HasAllocator x.1.outline x.2 := by
  obtain ⟨t, layout, _, ht, harray, hr, _, hcode⟩ := h.done.makes x hx List.not_mem_nil
  have hm := harray.mem_arrays h.done.target h.prepared.accepted.wellFormed.hierarchy
    h.prepared.accepted.arrays ht hr
  exact ⟨_, hm, rfl, hcode⟩

/-- The allocators are those that were asked for. -/
theorem hasAllocator_iff {o : Outline} {id : Nat} :
    s.target.HasAllocator o id ↔ ∃ x ∈ s.allocators, x.1.outline = o ∧ x.2 = id := by
  constructor
  · rintro ⟨y, hy, rfl, hcode⟩
    obtain ⟨x, hx, rfl⟩ := h.exists_of_allocatorCode hcode
    obtain ⟨z, hz, houtline, hcode'⟩ := h.hasAllocator hx
    have hlayout := layout_of_allocatorCode (Option.some.inj (hcode.symm.trans hcode'))
    refine ⟨x, hx, ?_, rfl⟩
    rw [← houtline, (h.arrays_struct_iff hy hz).1 (congrArg ArrayLayout.struct hlayout)]
  · rintro ⟨x, hx, rfl, rfl⟩
    exact h.hasAllocator hx

/-- Two allocators are one exactly if they are for one component. -/
theorem allocators_iff {x y : ValueType × Nat} (hx : x ∈ s.allocators) (hy : y ∈ s.allocators) :
    x.2 = y.2 ↔ x.1.outline = y.1.outline := by
  constructor
  · intro heq
    rw [h.done.eq_of_allocator hx hy heq]
  · intro houtline
    obtain ⟨t, _, _, ht, _⟩ := h.done.makes x hx List.not_mem_nil
    obtain ⟨u, _, _, hu, _⟩ := h.done.makes y hy List.not_mem_nil
    obtain rfl := (ht.outline_eq_iff hu).1 houtline
    rw [h.done.distinct.eq h.prepared.accepted.wellFormed.hierarchy h.prepared.accepted.arrays hx hy
      ht hu]

end Program.Compiled

section made

variable {printName : String} (ha : p.Accepted printName (p.analyze printName)) {d : FunctionDecl}
include ha

theorem Program.Accepted.begins (hd : d ∈ p.bodies) :
    ∃ env start, p.Begins printName env d start := by
  rcases List.mem_append.1 hd with hd | hd
  · obtain ⟨c, hc, hd⟩ := List.mem_flatMap.1 hd
    exact p.exists_begins_of_method ha.wellFormed.hierarchy hc hd
  · exact p.exists_begins_of_function hd

/-- The type of a new array that is noted is that of the arrays with the component that is
written. -/
theorem Program.Accepted.newArray (hd : d ∈ p.bodies) {tag : Tag} {element : TypeExpr} {size : Expr}
    (hn : .expr (.newArray tag element size) ∈ nodesOfBody d.body) :
    ∃ i V, (p.analyze printName).notes.type? tag.id = some (.array i V) ∧
      V.Denotes p (p.analyze printName).arrays element.plain := by
  have he := ha.wellFormed.ended ha.ids
  obtain ⟨env, start, hbegins⟩ := ha.begins hd
  obtain ⟨current, hsettled, hreach⟩ := hbegins.settled ha.ids ha.wellFormed
  obtain ⟨scope, f, hcomes⟩ := hreach _ hn
  obtain ⟨⟨locals, _, hfine⟩, _⟩ := hsettled scope _ f hcomes
  obtain ⟨u, hu, T, hT, hdenotes⟩ := hfine.recorded.typed
  rw [he.notes, he.arrays]
  cases hu with
  | newArray =>
      cases hdenotes with
      | array _ hV => exact ⟨_, _, hT, hV⟩

/-- An allocator is asked for the component that is written where an array is made. -/
theorem Program.Accepted.exists_mem_madeAt (hd : d ∈ p.bodies) {tag : Tag} {element : TypeExpr}
    {size : Expr} (hn : .expr (.newArray tag element size) ∈ nodesOfBody d.body) :
    ∃ V ∈ madeAt (p.analyze printName).notes (nodesOfBody d.body),
      V.Denotes p (p.analyze printName).arrays element.plain := by
  obtain ⟨i, V, hT, hV⟩ := ha.newArray hd hn
  exact ⟨V, List.mem_filterMap.2 ⟨_, hn, Option.bind_eq_some_iff.2 ⟨_, hT, rfl⟩⟩, hV⟩

/-- Whatever component an allocator is asked for is written where an array is made. -/
theorem Program.Accepted.of_mem_madeAt (hd : d ∈ p.bodies)
    (hV : V ∈ madeAt (p.analyze printName).notes (nodesOfBody d.body)) :
    ∃ tag element size, .expr (.newArray tag element size) ∈ nodesOfBody d.body ∧
      V.Denotes p (p.analyze printName).arrays element.plain := by
  obtain ⟨n, hn, hV⟩ := List.mem_filterMap.1 hV
  obtain ⟨tag, element, size, rfl⟩ := Node.exists_of_made? hV
  obtain ⟨i, W, hT, hW⟩ := ha.newArray hd hn
  obtain ⟨U, hU, hcomponent⟩ := Option.bind_eq_some_iff.1 hV
  obtain rfl := Option.some.inj (hU.symm.trans hT)
  obtain rfl := Option.some.inj hcomponent
  exact ⟨tag, element, size, hn, hW⟩

end made

/-- In the end there are allocators for just the components of the arrays that are made. -/
theorem Program.Compiled.makesArrays_iff {options : CompileOptions} (h : p.Compiled body routines s)
    (ha : body.analysis = p.analyze options.printFunction) (hoptions : body.options = options)
    (hrun : lowerProgram body p { target := T } = .ok ((), s)) {o : Outline} :
    p.MakesArrays o ↔ ∃ x ∈ s.allocators, x.1.outline = o := by
  have haccepted := h.prepared.accepted
  rw [ha, hoptions] at haccepted
  have hlayouts := h.done.layouts
  rw [ha] at hlayouts
  have hnoted := Program.noted haccepted hlayouts
  have hbound : ∀ d ∈ p.bodies, ∃ vars, NodesBound body vars (nodesOfBody d.body) := by
    intro d hd
    refine ⟨d.params ++ localsOf d.body, ?_⟩
    rw [NodesBound, ha]
    rcases List.mem_append.1 hd with hd | hd
    · obtain ⟨c, hc, hd⟩ := List.mem_flatMap.1 hd
      exact (hnoted.methods c hc d hd).bound
    · exact (hnoted.functions d hd).bound
  have hgrants := asks_lowerProgram h.prepared hbound _ _ _ hrun
  have hmem : ∀ V, V ∈ (p.loweringOrder body.analysis.classes.classes).flatMap (fun r =>
      madeAt body.analysis.notes (nodesOfBody r.decl.body)) ↔
        ∃ d ∈ p.bodies, V ∈ madeAt (p.analyze options.printFunction).notes
          (nodesOfBody d.body) := by
    intro V
    rw [List.mem_flatMap, ← ha]
    constructor
    · rintro ⟨r, hr, hV⟩
      exact ⟨r.decl, h.prepared.mem_bodies_iff.2 ⟨r, hr, rfl⟩, hV⟩
    · rintro ⟨d, hd, hV⟩
      obtain ⟨r, hr, rfl⟩ := h.prepared.mem_bodies_iff.1 hd
      exact ⟨r, hr, hV⟩
  constructor
  · rintro ⟨d, hd, tag, element, size, hn, rfl⟩
    obtain ⟨V, hV, hdenotes⟩ := haccepted.exists_mem_madeAt hd hn
    obtain ⟨x, hx, hsame⟩ := hgrants.answered V ((hmem V).2 ⟨d, hd, hV⟩)
    obtain ⟨t, _, _, ht, _⟩ := h.done.makes x hx List.not_mem_nil
    rw [ha] at ht
    obtain rfl := (ht.same_iff haccepted.wellFormed.hierarchy haccepted.arrays hdenotes).1 hsame
    exact ⟨x, hx, ht.outline⟩
  · rintro ⟨x, hx, rfl⟩
    obtain ⟨d, hd, hV⟩ := (hmem x.1).1 ((hgrants.new x hx).resolve_left List.not_mem_nil)
    obtain ⟨tag, element, size, hn, hdenotes⟩ := haccepted.of_mem_madeAt hd hV
    exact ⟨d, hd, tag, element, size, hn, hdenotes.outline.symm⟩

/-- The array types of a compiled program are canonical. -/
theorem Program.Compiled.canonicalArrays {options : CompileOptions}
    (h : p.Compiled body routines s) (hp : p.ids.Nodup)
    (ha : body.analysis = p.analyze options.printFunction) (hoptions : body.options = options)
    (hrun : lowerProgram body p { target := T } = .ok ((), s)) :
    p.CanonicalArrays body.analysis body.layouts.structs s.target where
  lowered i V hV := h.lowerType_pointer hV
  same i j V W hV hW := h.lowerType_same hV hW
  settled T₀ i V hV hprefix := by
    have hregular := (p.judged hp options.printFunction).arrays
    rw [← ha] at hregular
    have hclasses : body.analysis.classes = p.classTable := ha ▸ rfl
    rw [hclasses] at hV
    exact (settles_lowerType (hV.numbers_below hregular) T₀).1 s.target hprefix
  kinds k hk := by
    obtain ⟨st, hst⟩ : ∃ st, s.target.module.structs[k]? = some st :=
      ⟨_, Array.getElem?_eq_getElem hk⟩
    rcases h.done.target.named k st hst with ⟨c, hc, _, hfind⟩ | ⟨V, layout, hm, rfl, _⟩
    · exact .inl ⟨c, h.prepared.accepted.mem_classes hc, hfind⟩
    · exact .inr ⟨_, _, hm, rfl, rfl⟩
  apart := by
    rintro _ _ ⟨x, hx, rfl, rfl⟩ name hfind
    exact h.apart .rfl h.done.target name _ hfind x hx rfl
  struct_iff := by
    rintro _ _ _ _ ⟨x, hx, rfl, rfl⟩ ⟨y, hy, rfl, rfl⟩
    exact h.arrays_struct_iff hx hy
  allocator o ho := by
    obtain ⟨x, hx, rfl⟩ := (h.makesArrays_iff ha hoptions hrun).1 ho
    exact ⟨x.2, h.hasAllocator hx⟩
  allocator_iff o o' id id' ho ho' := by
    obtain ⟨x, hx, rfl, rfl⟩ := h.hasAllocator_iff.1 ho
    obtain ⟨y, hy, rfl, rfl⟩ := h.hasAllocator_iff.1 ho'
    exact h.allocators_iff hx hy
  allocators id component returnType layout elementSize hid := by
    obtain ⟨x, hx, rfl⟩ := h.exists_of_allocatorCode hid
    exact ⟨_, h.hasAllocator hx, (h.makesArrays_iff ha hoptions hrun).2 ⟨x, hx, rfl⟩⟩

/-- Of the types that are obtained in an analysis those are the same that have one structure, and
the array types of an accepted program are canonical in its code. -/
theorem arrayTypes_canonical :
    (∀ (decls : List ClassDecl) (f : Findings) (Ts : List ValueType),
      Obtained (ClassTable.build decls).1 f Ts → ∀ T ∈ Ts, ∀ U ∈ Ts,
        (T.same U = true ↔ T.outline = U.outline)) ∧
    ∀ (source : String) (options : CompileOptions) (p : Program),
      Program.ofText source = .ok p → (p.analyze options.printFunction).isAccepted = true →
        ∃ layouts s, p.lowered (p.analyze options.printFunction) options = .ok (layouts, s) ∧
          compile source options = .ok s.target.module ∧
          p.CanonicalArrays (p.analyze options.printFunction) layouts.structs s.target := by
  refine ⟨fun decls f Ts h T hT U hU => h.same_iff ClassTable.closed_build hT hU,
    fun source options p hp ha => ?_⟩
  have hids := (p.numbered_ofText hp).nodup
  obtain ⟨body, routines, s, hanalysis, hoptions, hcompiled, hlowered, hrun⟩ :=
    (Program.accepted_of_ids hids ha).lowered
  have hmodule : compile source options = p.compile options := by
    rw [compile, hp]
    rfl
  refine ⟨body.layouts, s, hlowered, ?_, ?_⟩
  · rw [hmodule, Program.compile, if_pos ha, p.lower_eq, hlowered]
    rfl
  · rw [← hanalysis]
    exact hcompiled.canonicalArrays hids hanalysis hoptions hrun

/-- A program that makes arrays of two types. -/
def nestingText : String :=
  "int main() { int[][] a; a = new int[2][]; a[0] = new int[1]; return 0; }"

/-- An array type that is asked for twice, and a program that makes arrays of two types. -/
theorem arrayTypes_canonical_numbers :
    (∃ f, Obtained (ClassTable.build []).1 f [.array 0 .int, .array 0 .int, .int] ∧
      ((ValueType.array 0 .int).same (.array 0 .int) = true ↔
        (ValueType.array 0 .int).outline = (ValueType.array 0 .int).outline)) ∧
    ∃ p layouts s, Program.ofText nestingText = .ok p ∧
      (p.analyze "printInt").isAccepted = true ∧
        p.lowered (p.analyze "printInt") {} = .ok (layouts, s) ∧
        p.CanonicalArrays (p.analyze "printInt") layouts.structs s.target := by
  constructor
  · have hstart : Obtained (ClassTable.build []).1 {} [] := .start rfl fun _ => rfl
    have harray := (hstart.basic (T := .int) (by simp)).arrayOf (T := .int) (by simp)
    have htwice := harray.resolve (.array ⟨0, default⟩ (.int ⟨1, default⟩))
    have hvalue : (checkType (ClassTable.build []).1
        (.array ⟨0, default⟩ (.int ⟨1, default⟩))).value
        ((Check.arrayOf .int).after {}) = .array 0 .int := by decide +kernel
    have hnumber : (Check.arrayOf .int).value {} = .array 0 .int := by decide +kernel
    rw [hvalue, hnumber] at htwice
    exact ⟨_, htwice, arrayTypes_canonical.1 _ _ _ htwice _ (by simp) _ (by simp)⟩
  · obtain ⟨p, hp, ha⟩ := exists_ok_of_any (r := Program.ofText nestingText)
      (f := fun p => (p.analyze "printInt").isAccepted) (by decide +kernel)
    obtain ⟨layouts, s, hlowered, _, hcanonical⟩ := arrayTypes_canonical.2 _ {} p hp ha
    exact ⟨p, layouts, s, hp, ha, hlowered, hcanonical⟩

end canonical

end ObjectLang
