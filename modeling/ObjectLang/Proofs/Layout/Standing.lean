import Mathlib.Tactic
import ObjectLang.Layout.Basic
import ObjectLang.Proofs.Layout.Types
import ObjectLang.Proofs.Semantics.Fields

/-!
# Layouts that stand for a program

What the making of code relies on: each class has a struct with a field for every field of its
objects, in their order, and each function and method has a procedure with types that represent
those of its signature.
-/
namespace ObjectLang

open IR

/-- A signature represents that of a function. -/
structure Signature.Stands (p : Program) (a : ArrayTypes) (structs : ClassStructs) (T : Target)
    (f : FunctionDecl) (s : Signature) : Prop where
  params : List.Forall₂ (fun d ty => Represents p a structs T d.plain ty) f.params s.params
  returnType : Represents p a structs T f.returnType.plain s.returnType

/-- The layout of a class has the fields of its objects and its own methods. -/
structure ClassLayout.Stands (p : Program) (a : ArrayTypes) (structs : ClassStructs) (T : Target)
    (c : ClassRef) (l : ClassLayout) : Prop where
  name : l.name = c.name
  struct : structs.find? c.name = some l.struct
  keys : l.slots.map (fun s => (s.owner, s.name)) = (p.fieldsOf c.name).map Program.fieldKey
  fields : ∃ name fields, T.module.structs[l.struct]? = some ⟨name, fields⟩ ∧
    List.Forall₂ (fun x f => Represents p a structs T x.2.plain f.type) (p.fieldsOf c.name) fields
  methods : ∀ d ∈ (p.classDecl c).methods, ∃ s, l.method? d.name.name = some s ∧
    s.Stands p a structs T d

/-- All classes and functions have their layouts. -/
structure Layouts.Stands (p : Program) (a : ArrayTypes) (T : Target) (l : Layouts) : Prop where
  classes : ∀ c : ClassRef, c.Faithful p →
    ∃ layout, l.class? c.name = some layout ∧ layout.Stands p a l.structs T c
  functions : ∀ f ∈ p.functions, ∃ s, l.function? f.name.name = some s ∧ s.Stands p a l.structs T f

/-- Each struct is that of one class of the program. -/
structure ClassStructs.Distinct (p : Program) (structs : ClassStructs) : Prop where
  faithful : ∀ (name : String) (id : Nat), structs.find? name = some id →
    ∃ c : ClassRef, c.Faithful p ∧ c.name = name
  injective : ∀ (name name' : String) (id : Nat), structs.find? name = some id →
    structs.find? name' = some id → name = name'

/-- The procedures of constructors, methods and functions have the types of their signatures; the
receiver is the first parameter of a method. -/
structure Layouts.Interfaces (p : Program) (m : Module) (l : Layouts) : Prop where
  constructors : ∀ (c : ClassRef) (layout : ClassLayout), c.Faithful p →
    l.class? c.name = some layout →
      m.interface? layout.constructor = some ⟨[], layout.pointerType⟩
  methods : ∀ (c : ClassRef) (layout : ClassLayout) (d : FunctionDecl) (s : Signature),
    c.Faithful p → l.class? c.name = some layout → d ∈ (p.classDecl c).methods →
      layout.method? d.name.name = some s →
        m.interface? s.procedure = some ⟨layout.pointerType :: s.params, s.returnType⟩
  functions : ∀ (f : FunctionDecl) (s : Signature), f ∈ p.functions →
    l.function? f.name.name = some s → m.interface? s.procedure = some ⟨s.params, s.returnType⟩

section

/-- In related lists every entry on the right has one on the left. -/
theorem exists_of_mem_right {α β : Type} {R : α → β → Prop} {xs : List α} {ys : List β}
    (h : List.Forall₂ R xs ys) {y : β} (hy : y ∈ ys) : ∃ x ∈ xs, R x y := by
  induction h with
  | nil => cases hy
  | cons hxy _ ih =>
      rcases List.mem_cons.1 hy with rfl | hy
      · exact ⟨_, List.mem_cons_self .., hxy⟩
      · obtain ⟨x, hx, hr⟩ := ih hy
        exact ⟨x, List.mem_cons_of_mem _ hx, hr⟩

variable {p : Program} {a : ArrayTypes} {structs : ClassStructs} {T T' : Target}

theorem Signature.Stands.mono {f : FunctionDecl} {s : Signature} (h : s.Stands p a structs T f)
    (hT : T.Keeps T') : s.Stands p a structs T' f :=
  ⟨h.params.imp fun _ _ hr => hr.mono hT.arrays, h.returnType.mono hT.arrays⟩

theorem ClassLayout.Stands.mono {c : ClassRef} {l : ClassLayout} (h : l.Stands p a structs T c)
    (hT : T.Keeps T') : l.Stands p a structs T' c := by
  refine ⟨h.name, h.struct, h.keys, ?_, fun d hd => ?_⟩
  · obtain ⟨name, fields, hs, hfields⟩ := h.fields
    exact ⟨name, fields, hT.structs _ _ hs, hfields.imp fun _ _ hr => hr.mono hT.arrays⟩
  · obtain ⟨s, hs, hstands⟩ := h.methods d hd
    exact ⟨s, hs, hstands.mono hT⟩

theorem Layouts.Stands.mono {l : Layouts} (h : l.Stands p a T) (hT : T.Keeps T') :
    l.Stands p a T' := by
  refine ⟨fun c hc => ?_, fun f hf => ?_⟩
  · obtain ⟨layout, hl, hstands⟩ := h.classes c hc
    exact ⟨layout, hl, hstands.mono hT⟩
  · obtain ⟨s, hs, hstands⟩ := h.functions f hf
    exact ⟨s, hs, hstands.mono hT⟩

theorem Layouts.Interfaces.mono {l : Layouts} {m m' : Module} (h : l.Interfaces p m)
    (hm : m.Grows m') : l.Interfaces p m' :=
  ⟨fun c layout hc hl => hm.interfaces _ _ (h.constructors c layout hc hl),
    fun c layout d s hc hl hd hs => hm.interfaces _ _ (h.methods c layout d s hc hl hd hs),
    fun f s hf hs => hm.interfaces _ _ (h.functions f s hf hs)⟩

theorem Layouts.Stands.layout {l : Layouts} (h : l.Stands p a T) {c : ClassRef}
    (hc : c.Faithful p) {cl : ClassLayout} (hl : l.class? c.name = some cl) :
    cl.Stands p a l.structs T c := by
  obtain ⟨cl', hl', hstands⟩ := h.classes c hc
  rwa [Option.some.inj (hl.symm.trans hl')]

/-- Every class has a struct. -/
theorem Layouts.Stands.exists_struct {l : Layouts} (h : l.Stands p a T) (c : ClassRef)
    (hc : c.Faithful p) : ∃ id, l.structs.find? c.name = some id := by
  obtain ⟨layout, _, hstands⟩ := h.classes c hc
  exact ⟨_, hstands.struct⟩

section injective

variable {l : Layouts} (h : l.Stands p a T) (hd : l.structs.Distinct p)
  (hT : T.Sound p a l.structs)
include h hd hT

/-- No struct is that of a class and that of an array type, which has its elements in it. -/
theorem Layouts.Stands.struct_ne {name : String} {id : Nat} (hid : l.structs.find? name = some id)
    {V : ValueType} {layout : ArrayLayout} (hm : (V, layout) ∈ T.arrays) : layout.struct ≠ id := by
  rintro rfl
  obtain ⟨c, hc, rfl⟩ := hd.faithful _ _ hid
  obtain ⟨cl, _, hstands⟩ := h.classes c hc
  obtain ⟨_, fields, hs, hfields⟩ := hstands.fields
  obtain ⟨_, _, _, _, hs'⟩ := hT.struct V layout hm
  rw [Option.some.inj (hstands.struct.symm.trans hid), hs'] at hs
  obtain rfl : _ = fields := congrArg Struct.fields (Option.some.inj hs)
  obtain ⟨x, _, hr⟩ := exists_of_mem_right hfields
    (List.mem_cons_of_mem _ (List.mem_singleton_self _))
  generalize x.2.plain = t at hr
  cases hr

/-- A type of the code represents one type of the program. -/
theorem Layouts.Stands.injective {t t' : PlainType} {ty : Ty}
    (ht : Represents p a l.structs T t ty) (ht' : Represents p a l.structs T t' ty) : t = t' := by
  induction t generalizing t' ty with
  | int | bool | null =>
      cases ht
      cases ht'
      rfl
  | object c =>
      cases ht with
      | @object _ id hid =>
          generalize hty : Ty.pointer (.struct id) = ty at ht'
          cases ht' with
          | object hid' =>
              cases hty
              rw [hd.injective _ _ _ hid hid']
          | array hm _ =>
              cases hty
              exact (h.struct_ne hd hT hid hm rfl).elim
          | _ => cases hty
  | array t ih =>
      cases ht with
      | @array V layout _ hm hV =>
          generalize hty : layout.pointerType = ty at ht'
          cases ht' with
          | object hid' =>
              cases hty
              exact (h.struct_ne hd hT hid' hm rfl).elim
          | @array V' layout' u hm' hV' =>
              obtain ⟨_, _, ⟨hV₁, _⟩, hr, hs⟩ := hT.struct V layout hm
              obtain ⟨_, _, ⟨hV₁', _⟩, hr', hs'⟩ := hT.struct V' layout' hm'
              obtain rfl := hV.functional hV₁
              obtain rfl := hV'.functional hV₁'
              have hstruct : layout.struct = layout'.struct := by
                injection hty with hty
                injection hty
              rw [hstruct, hs'] at hs
              have hfields := congrArg Struct.fields (Option.some.inj hs)
              have helement : layout'.element = layout.element := by
                simpa [ArrayLayout.fields] using hfields
              rw [ih hr (helement ▸ hr')]
          | _ => cases hty

end injective

namespace ClassLayout.Stands

variable {c : ClassRef} {l : ClassLayout} (h : l.Stands p a structs T c)
include h

theorem represents : Represents p a structs T (.object c.name) l.pointerType :=
  .object h.struct

/-- A field of the objects has a position in the layout, where the struct has a field for it. -/
theorem fieldIndex? {owner : String} {d : VarDecl} (hd : (owner, d) ∈ p.fieldsOf c.name)
    (hnodup : ((p.fieldsOf c.name).map Program.fieldKey).Nodup) :
    ∃ k, l.fieldIndex? owner d.name.name = some k ∧
      (p.fieldsOf c.name)[k]? = some (owner, d) := by
  have hkey : (owner, d.name.name) ∈ l.slots.map fun s => (s.owner, s.name) := by
    rw [h.keys]
    exact List.mem_map.2 ⟨_, hd, rfl⟩
  obtain ⟨slot, hslot, heq⟩ := List.mem_map.1 hkey
  have hsome : (l.fieldIndex? owner d.name.name).isSome := by
    rw [ClassLayout.fieldIndex?, List.findIdx?_isSome, List.any_eq_true]
    refine ⟨slot, hslot, ?_⟩
    obtain ⟨howner, hname⟩ := Prod.mk.inj heq
    simp [howner, hname]
  obtain ⟨k, hk⟩ := Option.isSome_iff_exists.1 hsome
  refine ⟨k, hk, ?_⟩
  obtain ⟨hlt, hfound, _⟩ := List.findIdx?_eq_some_iff_getElem.1 hk
  simp only [Bool.and_eq_true, beq_iff_eq] at hfound
  have hgetkey : ((p.fieldsOf c.name).map Program.fieldKey)[k]? = some (owner, d.name.name) := by
    rw [← h.keys, List.getElem?_map, List.getElem?_eq_getElem hlt]
    simp [hfound]
  rw [List.getElem?_map, Option.map_eq_some_iff] at hgetkey
  obtain ⟨x, hx, hkey⟩ := hgetkey
  rw [hx, List.inj_on_of_nodup_map hnodup (List.mem_of_getElem? hx) hd hkey]

/-- The fields of the struct of a class have types that represent those of the program. -/
theorem represents_field {s : Struct} (hs : T.module.structs[l.struct]? = some s) :
    ∀ f ∈ s.fields, ∃ t, Represents p a structs T t f.type := by
  obtain ⟨name, fields, hs', hfields⟩ := h.fields
  obtain rfl := Option.some.inj (hs'.symm.trans hs)
  intro f hf
  obtain ⟨x, _, hr⟩ := exists_of_mem_right hfields hf
  exact ⟨_, hr⟩

/-- The struct of a class, with sizes and offsets of the objects of the class. -/
theorem exists_struct : ∃ s : Struct, T.module.structs[l.struct]? = some s ∧
    (∀ f ∈ s.fields, f.type.Flat) ∧ fieldBytes s.fields = p.objectSize c.name ∧
      ∀ (k : Nat) (owner : String) (d : VarDecl), (p.fieldsOf c.name)[k]? = some (owner, d) →
        ∃ f, s.fields[k]? = some f ∧ Represents p a structs T d.plain f.type ∧
          fieldBytes (s.fields.take k) = p.offsetAt c.name k := by
  obtain ⟨name, fields, hs, hfields⟩ := h.fields
  have hsizes : (fields.map fun f => f.type.size) =
      (p.fieldsOf c.name).map fun x => x.2.plain.size := by
    have hrel : List.Forall₂ (fun (f : Field) (x : String × VarDecl) =>
        f.type.size = x.2.plain.size) fields (p.fieldsOf c.name) :=
      hfields.flip.imp fun _ _ hr => hr.size
    rw [← List.forall₂_eq_eq_eq]
    exact List.forall₂_map_left_iff.2 (List.forall₂_map_right_iff.2 hrel)
  refine ⟨⟨name, fields⟩, hs, fun f hf => ?_, ?_, fun k owner d hk => ?_⟩
  · obtain ⟨_, hr⟩ := h.represents_field hs f hf
    exact hr.flat
  · rw [fieldBytes, Program.objectSize, hsizes]
  · obtain ⟨hlt, hget⟩ := List.getElem?_eq_some_iff.1 hk
    have hlt' : k < fields.length := hfields.length_eq ▸ hlt
    have hr := hfields.get hlt hlt'
    simp only [List.get_eq_getElem, hget] at hr
    refine ⟨fields[k], List.getElem?_eq_getElem hlt', hr, ?_⟩
    rw [fieldBytes_take, Program.offsetAt, hsizes]

end ClassLayout.Stands

end

end ObjectLang
