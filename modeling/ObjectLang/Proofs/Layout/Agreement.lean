import Mathlib.Tactic
import ObjectLang.Proofs.Layout.Laid

/-!
# Classes agree on their slots

The struct of a class starts with the struct of each of its ancestors, so that a field stands at one
place in all objects that have it, whichever of their classes they are seen as. This holds of the
accepted classes of any program that was read, also of one with duplicate fields, hidden fields, or
cycles that were cut.
-/
namespace ObjectLang

open IR

namespace Layouts

/-- The struct of a class. -/
def struct? (L : Layouts) (m : Module) (cls : String) : Option Struct :=
  (L.class? cls).bind fun l => m.structs[l.struct]?

/-- The position of a field in the objects of a class. -/
def slot? (L : Layouts) (cls owner name : String) : Option Nat :=
  (L.class? cls).bind fun l => l.fieldIndex? owner name

/-- How many bytes stand before a field in the objects of a class. -/
def offset? (L : Layouts) (m : Module) (cls owner name : String) : Option Nat :=
  (L.class? cls).bind fun l => (l.fieldIndex? owner name).bind (m.fieldOffset? l.struct)

/-- The fields of a struct stand one behind the other, from its first byte up to its end. -/
structure Packed (m : Module) (struct : Nat) (fields : List IR.Field) : Prop where
  consecutive : ∃ start : Nat → Nat, start 0 = 0 ∧
    (∀ i f, fields[i]? = some f → m.fieldOffset? struct i = some (start i) ∧
      start (i + 1) = start i + m.sizeOf f.type) ∧
    start fields.length = m.sizeOf (.struct struct)
  disjoint : ∀ i j f b b', i < j → fields[i]? = some f → m.fieldOffset? struct i = some b →
    m.fieldOffset? struct j = some b' → b + m.sizeOf f.type ≤ b'

/-- The accepted classes of a program agree on their slots. -/
structure Agree (L : Layouts) (p : Program) (a : Analysis) (T : Target) : Prop where
  /-- The struct of a class starts with that of each ancestor. -/
  inherits : ∀ c ∈ a.classes.classes, ∀ d ∈ c.ancestors, ∃ s t,
    L.struct? T.module c.name = some s ∧ L.struct? T.module d.name = some t ∧ t.fields <+: s.fields
  /-- A name that a class or an ancestor declares has one slot, at the place where its owner has it,
  of the type that its first declaration becomes. -/
  slots : ∀ c ∈ a.classes.classes, ∀ o ∈ c.ancestors, ∀ name d,
    (p.classDecl o).field? name = some d → ∃ l s k b f V, L.class? c.name = some l ∧
      (l.slots.countP fun slot => slot.owner == o.name && slot.name == name) = 1 ∧
      L.slot? c.name o.name name = some k ∧ L.slot? o.name o.name name = some k ∧
      L.offset? T.module c.name o.name name = some b ∧
      L.offset? T.module o.name o.name name = some b ∧
      T.module.structs[l.struct]? = some s ∧ s.fields[k]? = some f ∧
      a.notes.typeExpr? d.type.id = some V ∧ lowerType L.structs V T = (f.type, T)
  /-- A name that two of them declare has two slots. -/
  hidden : ∀ c ∈ a.classes.classes, ∀ o ∈ c.ancestors, ∀ o' ∈ c.ancestors, o ≠ o' → ∀ name,
    ((p.classDecl o).field? name).isSome → ((p.classDecl o').field? name).isSome →
      L.slot? c.name o.name name ≠ L.slot? c.name o'.name name
  /-- No two slots have one name, and the slots fill the struct without gaps. -/
  structs : ∀ c ∈ a.classes.classes, ∃ l s, L.class? c.name = some l ∧
    T.module.structs[l.struct]? = some s ∧ s.fields.length = l.slots.length ∧
      (s.fields.map IR.Field.name).Nodup ∧ Packed T.module l.struct s.fields

end Layouts

section packed

variable {m : Module} {struct : Nat} {s : Struct}

theorem Layouts.packed_of_flat (hs : m.structs[struct]? = some s)
    (hflat : ∀ f ∈ s.fields, f.type.Flat) : Packed m struct s.fields := by
  have hoffset : ∀ i, i < s.fields.length →
      m.fieldOffset? struct i = some (fieldBytes (s.fields.take i)) :=
    fun i hi => fieldOffset?_eq hs hflat hi
  have hnext : ∀ i f, s.fields[i]? = some f →
      fieldBytes (s.fields.take (i + 1)) = fieldBytes (s.fields.take i) + m.sizeOf f.type := by
    intro i f hf
    obtain ⟨hi, rfl⟩ := List.getElem?_eq_some_iff.1 hf
    rw [List.take_succ_eq_append_getElem hi, fieldBytes, List.map_append, List.sum_append,
      sizeOf_flat (hflat _ (List.getElem_mem hi))]
    simp [fieldBytes]
  refine ⟨⟨fun i => fieldBytes (s.fields.take i), rfl, fun i f hf => ?_, ?_⟩,
    fun i j f b b' hij hf hb hb' => ?_⟩
  · exact ⟨hoffset i (List.getElem?_eq_some_iff.1 hf).1, hnext i f hf⟩
  · simp only [List.take_length, sizeOf_struct hs hflat]
  · have hj : j < s.fields.length := by
      by_contra hj
      simp only [Module.fieldOffset?, Module.measureOffset, hs, if_neg hj] at hb'
      cases hb'
    rw [hoffset i (hij.trans hj)] at hb
    rw [hoffset j hj] at hb'
    rw [← Option.some.inj hb, ← Option.some.inj hb', ← hnext i f hf, fieldBytes_take,
      fieldBytes_take]
    exact sum_take_le hij

end packed

section agree

variable {p : Program} {notes : Notes} {structs : ClassStructs} {T : Target} {c d : ClassRef}
  {l k : ClassLayout}

namespace ClassLayout.Laid

/-- What stands in the struct at the place of a slot. -/
theorem exists_field (h : l.Laid p notes structs T c) {i : Nat} {slot : FieldSlot}
    (hi : l.slots[i]? = some slot) : ∃ s f, T.module.structs[l.struct]? = some s ∧
      s.fields[i]? = some f ∧
      T.module.fieldOffset? l.struct i = some (fieldBytes (s.fields.take i)) ∧
      lowerType structs slot.type T = (f.type, T) := by
  have hs := h.getElem?_struct
  obtain ⟨hlt, hget⟩ := List.getElem?_eq_some_iff.1 hi
  have hlength : i < ((slotNames l.slots).zipWith IR.Field.mk
      (l.slots.map (FieldSlot.lowered structs T))).length := by
    rw [List.length_zipWith, length_slotNames, List.length_map, Nat.min_self]
    exact hlt
  refine ⟨_, _, hs, List.getElem?_eq_getElem hlength, fieldOffset?_eq hs (h.flat hs) hlength, ?_⟩
  rw [List.getElem_zipWith, List.getElem_map, hget]
  exact (h.lowerType_eq (List.mem_of_getElem? hi)).1

end ClassLayout.Laid

/-- The struct of a class starts with that of an ancestor. -/
theorem fields_prefix {slots more : List FieldSlot} (h : slots <+: more) :
    (slotNames slots).zipWith IR.Field.mk (slots.map (FieldSlot.lowered structs T)) <+:
      (slotNames more).zipWith IR.Field.mk (more.map (FieldSlot.lowered structs T)) := by
  obtain ⟨names, hnames⟩ := slotNames_prefix h
  obtain ⟨rest, rfl⟩ := h
  rw [← hnames, List.map_append, List.zipWith_append]
  · exact List.prefix_append _ _
  · rw [length_slotNames, List.length_map]

/-- The first place of something stays the first one when more comes behind. -/
theorem findIdx?_of_prefix {α : Type} {xs ys : List α} {f : α → Bool} {i : Nat} (h : xs <+: ys)
    (hi : xs.findIdx? f = some i) : ys.findIdx? f = some i := by
  obtain ⟨more, rfl⟩ := h
  rw [List.findIdx?_append, hi]
  rfl

/-- Whether a slot is that of a field of a class. -/
def FieldSlot.isOf (owner name : String) (slot : FieldSlot) : Bool :=
  slot.owner == owner && slot.name == name

section keys

variable {slots : List FieldSlot} (h : (slots.map fun s => (s.owner, s.name)).Nodup)
  {slot : FieldSlot}
include h

/-- A slot is found by its key. -/
theorem exists_findIdx? (hslot : slot ∈ slots) :
    ∃ i, slots.findIdx? (FieldSlot.isOf slot.owner slot.name) = some i ∧ slots[i]? = some slot := by
  cases hi : slots.findIdx? (FieldSlot.isOf slot.owner slot.name) with
  | none =>
      have hno := List.findIdx?_eq_none_iff.1 hi slot hslot
      simp [FieldSlot.isOf] at hno
  | some i =>
      obtain ⟨hlt, hkey, _⟩ := List.findIdx?_eq_some_iff_getElem.1 hi
      refine ⟨i, rfl, ?_⟩
      rw [List.getElem?_eq_getElem hlt, List.inj_on_of_nodup_map h (List.getElem_mem hlt) hslot]
      simpa [FieldSlot.isOf] using hkey

theorem countP_isOf (hslot : slot ∈ slots) :
    slots.countP (FieldSlot.isOf slot.owner slot.name) = 1 := by
  have hcount := List.count_eq_one_of_mem h (List.mem_map_of_mem hslot)
  rwa [List.count, List.countP_map] at hcount

end keys

end agree

section program

variable {p : Program} {printName : String} {a : Analysis} {L : Layouts} {T : Target}
  {c d o : ClassRef}

theorem Program.Judged.nodup_ancestors (ha : p.Judged printName a) (hc : c ∈ a.classes.classes) :
    (c.ancestors.map ClassRef.name).Nodup := by
  rw [ha.classes] at hc
  exact ClassTable.nodup_ancestors_build hc

theorem Program.Judged.mem_of_mem_ancestors (ha : p.Judged printName a)
    (hc : c ∈ a.classes.classes) (hd : d ∈ c.ancestors) : d ∈ a.classes.classes := by
  rw [ha.classes] at hc ⊢
  exact p.mem_classTable_of_mem_ancestors hc hd

theorem Program.Judged.slots_prefix (ha : p.Judged printName a) (hc : c ∈ a.classes.classes)
    (hd : d ∈ c.ancestors) : p.slots a.notes d <+: p.slots a.notes c :=
  Program.slots_prefix (ha.nodup_ancestors hc) hd

/-- A field has its slot in the layout of a class below its owner, and in that of its owner. -/
structure FieldPlaced (p : Program) (a : Analysis) (L : Layouts) (T : Target) (c o : ClassRef)
    (name : String) (d : VarDecl) (i : Nat) (l k : ClassLayout) : Prop where
  class? : L.class? c.name = some l
  laid : l.Laid p a.notes L.structs T c
  owner? : L.class? o.name = some k
  laidOwner : k.Laid p a.notes L.structs T o
  index : l.fieldIndex? o.name name = some i
  indexOwner : k.fieldIndex? o.name name = some i
  slot : l.slots[i]? = some (slotOf a.notes o.name d)
  slotOwner : k.slots[i]? = some (slotOf a.notes o.name d)
  once : l.slots.countP (FieldSlot.isOf o.name name) = 1

theorem Layouts.Laid.placed (ha : p.Judged printName a) (h : L.Laid p a T)
    (hc : c ∈ a.classes.classes) (ho : o ∈ c.ancestors) {name : String} {d : VarDecl}
    (hd : (p.classDecl o).field? name = some d) :
    ∃ i l k, FieldPlaced p a L T c o name d i l k := by
  have ho' := ha.mem_of_mem_ancestors hc ho
  obtain ⟨l, hl, hlaid⟩ := h.classes c hc
  obtain ⟨k, hk, hlaid'⟩ := h.classes o ho'
  obtain rfl : d.name.name = name := by simpa using List.find?_some hd
  have hbefore := ha.slots_prefix hc ho
  have hmem : slotOf a.notes o.name d ∈ p.slots a.notes o :=
    Program.slotOf_mem (ha.nodup_ancestors ho') (ClassRef.mem_ancestors_self o) hd
  obtain ⟨i, hi, hget⟩ := exists_findIdx? (Program.nodup_keys (ha.nodup_ancestors ho')) hmem
  refine ⟨i, l, k, hl, hlaid, hk, hlaid', ?_, ?_, ?_, ?_, ?_⟩
  · rw [ClassLayout.fieldIndex?, hlaid.slots]
    exact findIdx?_of_prefix hbefore hi
  · rw [ClassLayout.fieldIndex?, hlaid'.slots]
    exact hi
  · rw [hlaid.slots]
    obtain ⟨more, hmore⟩ := hbefore
    rw [← hmore, List.getElem?_append_left (List.getElem?_eq_some_iff.1 hget).1]
    exact hget
  · rw [hlaid'.slots]
    exact hget
  · rw [hlaid.slots]
    exact countP_isOf (Program.nodup_keys (ha.nodup_ancestors hc)) (hbefore.subset hmem)

/-- The struct of a class starts with that of each ancestor. -/
theorem Layouts.Laid.inherits (ha : p.Judged printName a) (h : L.Laid p a T)
    (hc : c ∈ a.classes.classes) (hd : d ∈ c.ancestors) : ∃ s t,
      L.struct? T.module c.name = some s ∧ L.struct? T.module d.name = some t ∧
        t.fields <+: s.fields := by
  obtain ⟨l, hl, hlaid⟩ := h.classes c hc
  obtain ⟨k, hk, hlaid'⟩ := h.classes d (ha.mem_of_mem_ancestors hc hd)
  refine ⟨_, _, by rw [struct?, hl, Option.bind_some, hlaid.getElem?_struct],
    by rw [struct?, hk, Option.bind_some, hlaid'.getElem?_struct], fields_prefix ?_⟩
  rw [hlaid.slots, hlaid'.slots]
  exact ha.slots_prefix hc hd

/-- Owners and names of slots are words. -/
theorem isWord_slots (hw : ∀ c ∈ p.classes, IsWord c.name.name ∧ ∀ d ∈ c.fields, IsWord d.name.name)
    (hc : c ∈ p.classTable.classes) :
    ∀ s ∈ p.slots a.notes c, IsWord s.owner ∧ IsWord s.name := by
  intro s hs
  rw [Program.slots_eq (ClassTable.nodup_ancestors_build hc)] at hs
  obtain ⟨o, ho, hs⟩ := List.mem_flatMap.1 hs
  obtain ⟨d, hd, rfl⟩ := List.mem_map.1 hs
  obtain ⟨hget, hname⟩ := ClassTable.classDecl_build
    (p.mem_classTable_of_mem_ancestors hc (List.mem_reverse.1 ho))
  obtain ⟨howner, hfields⟩ := hw _ (List.mem_of_getElem? hget)
  exact ⟨hname ▸ howner, hfields d (firsts_subset _ _ hd)⟩

/-- Classes that are laid out agree on their slots. -/
theorem Layouts.Laid.agree
    (hw : ∀ c ∈ p.classes, IsWord c.name.name ∧ ∀ d ∈ c.fields, IsWord d.name.name)
    (ha : p.Judged printName a) (h : L.Laid p a T) : L.Agree p a T where
  inherits c hc d hd := h.inherits ha hc hd
  slots c hc o ho name d hd := by
    obtain ⟨i, l, k, hx⟩ := h.placed ha hc ho hd
    obtain ⟨s, f, hs, hf, hb, hlower⟩ := hx.laid.exists_field hx.slot
    obtain ⟨t, g, ht, hg, hb', _⟩ := hx.laidOwner.exists_field hx.slotOwner
    have hoffset : fieldBytes (t.fields.take i) = fieldBytes (s.fields.take i) := by
      obtain ⟨s', t', hs', ht', more, hmore⟩ := h.inherits ha hc ho
      rw [struct?, hx.class?, Option.bind_some, hs] at hs'
      rw [struct?, hx.owner?, Option.bind_some, ht] at ht'
      obtain rfl := Option.some.inj hs'
      obtain rfl := Option.some.inj ht'
      rw [← hmore, List.take_append_of_le_length (List.getElem?_eq_some_iff.1 hg).1.le]
    have hdecl : d ∈ (p.classDecl o).fields := List.mem_of_find?_eq_some hd
    obtain ⟨V, hV⟩ := Option.isSome_iff_exists.1 (ha.resolved d.type
      (Program.mem_resolved_of_field (ha.classes ▸ ha.mem_of_mem_ancestors hc ho) hdecl))
    refine ⟨l, s, i, fieldBytes (s.fields.take i), f, V, hx.class?, hx.once, ?_, ?_, ?_, ?_,
      hs, hf, hV, ?_⟩
    · rw [slot?, hx.class?, Option.bind_some, hx.index]
    · rw [slot?, hx.owner?, Option.bind_some, hx.indexOwner]
    · rw [offset?, hx.class?, Option.bind_some, hx.index, Option.bind_some, hb]
    · rw [offset?, hx.owner?, Option.bind_some, hx.indexOwner, Option.bind_some, hb', hoffset]
    · rw [slotOf, hV] at hlower
      exact hlower
  hidden c hc o ho o' ho' hne name hname hname' heq := by
    obtain ⟨d, hd⟩ := Option.isSome_iff_exists.1 hname
    obtain ⟨d', hd'⟩ := Option.isSome_iff_exists.1 hname'
    obtain ⟨i, l, k, hx⟩ := h.placed ha hc ho hd
    obtain ⟨j, l', k', hx'⟩ := h.placed ha hc ho' hd'
    obtain rfl := Option.some.inj (hx.class?.symm.trans hx'.class?)
    rw [slot?, slot?, hx.class?, Option.bind_some, Option.bind_some, hx.index, hx'.index] at heq
    obtain rfl := Option.some.inj heq
    have howner := congrArg FieldSlot.owner (Option.some.inj (hx.slot.symm.trans hx'.slot))
    have hclosed : a.classes.Closed := ha.classes ▸ ClassTable.closed_build
    exact hne (hclosed.eq_of_name (ha.mem_of_mem_ancestors hc ho)
      (ha.mem_of_mem_ancestors hc ho') howner)
  structs c hc := by
    obtain ⟨l, hl, hlaid⟩ := h.classes c hc
    have hs := hlaid.getElem?_struct
    refine ⟨l, _, hl, hs, ?_, ?_, packed_of_flat hs (hlaid.flat hs)⟩
    · simp [length_slotNames]
    · have hnames : ((slotNames l.slots).zipWith IR.Field.mk
          (l.slots.map (FieldSlot.lowered L.structs T))).map IR.Field.name = slotNames l.slots := by
        refine List.ext_getElem (by simp [length_slotNames]) fun i _ _ => ?_
        simp
      rw [hnames, hlaid.slots]
      exact nodup_slotNames (Program.nodup_keys (ha.nodup_ancestors hc))
        (isWord_slots hw (ha.classes ▸ hc))

end program

/-- The layouts of any program that was read have one for each class. -/
theorem Layouts.laid_of_ofText {source : String} {p : Program}
    (h : Program.ofText source = .ok p) (printName : String) :
    ((Layouts.build p (p.analyze printName)).run {}).1.Laid p (p.analyze printName)
      ((Layouts.build p (p.analyze printName)).run {}).2 := by
  have ha := p.judged (p.numbered_ofText h).nodup printName
  refine laid_build (ha.classes ▸ ClassTable.closed_build) (fun c hc s hs => ?_) {}
  rw [ha.classes] at hc
  rw [Program.slots_eq (ClassTable.nodup_ancestors_build hc)] at hs
  obtain ⟨o, ho, hs⟩ := List.mem_flatMap.1 hs
  obtain ⟨d, hd, rfl⟩ := List.mem_map.1 hs
  have ho' := p.mem_classTable_of_mem_ancestors hc (List.mem_reverse.1 ho)
  have ht : d.type ∈ p.typeExprs := Check.written_classDecl ho'
    (List.mem_append_left _ (List.mem_map_of_mem (firsts_subset _ _ hd)))
  cases hV : (p.analyze printName).notes.typeExpr? d.type.id with
  | none => exact ⟨0, by rw [slotOf, hV]; trivial⟩
  | some V =>
      refine ⟨(p.analyze printName).arrays.components.size, ?_⟩
      rw [slotOf, hV]
      exact (ha.meanings _ ht V hV).belongs.numbers_below ha.arrays

/-- The layouts of any program that was read: its classes agree on their slots. -/
theorem Layouts.build_agree {source : String} {p : Program} (h : Program.ofText source = .ok p)
    (printName : String) :
    ((Layouts.build p (p.analyze printName)).run {}).1.Agree p (p.analyze printName)
      ((Layouts.build p (p.analyze printName)).run {}).2 :=
  (Layouts.laid_of_ofText h printName).agree (Program.isWord_ofText h)
    (p.judged (p.numbered_ofText h).nodup printName)

/-- A program that is rejected for a duplicate field, and whose second class hides a field. -/
def hiddenText : String :=
  "class A { int x; int x; } class B extends A { A[] x; } int main() { return 0; }"

theorem Layouts.build_agree_hidden : ∃ p, Program.ofText hiddenText = .ok p ∧
    (p.analyze "printInt").isAccepted = false ∧
      ((Layouts.build p (p.analyze "printInt")).run {}).1.slot? "B" "B" "x" = some 1 ∧
        ((Layouts.build p (p.analyze "printInt")).run {}).1.Agree p (p.analyze "printInt")
          ((Layouts.build p (p.analyze "printInt")).run {}).2 := by
  obtain ⟨p, hp, hread⟩ := exists_ok_of_any (r := Program.ofText hiddenText) (f := fun p =>
    !(p.analyze "printInt").isAccepted &&
      ((Layouts.build p (p.analyze "printInt")).run {}).1.slot? "B" "B" "x" == some 1)
    (by decide +kernel)
  obtain ⟨haccepted, hslot⟩ := Bool.and_eq_true_iff.1 hread
  exact ⟨p, hp, by simpa using haccepted, eq_of_beq hslot, Layouts.build_agree hp "printInt"⟩

end ObjectLang
