import Mathlib.Tactic
import ObjectLang.Proofs.Layout.Settled
import ObjectLang.Proofs.Layout.Slots

/-!
# The layouts of any program

Whatever is wrong with a program, each accepted class has a struct whose fields are its slots, each
of the type that the type of the slot becomes; and nothing that comes later changes the struct.
-/
namespace ObjectLang

open IR

section leads

variable {α β : Type}

/-- A part of the making of code keeps what was there. -/
def Build.Leads (x : Build α) : Prop :=
  ∀ T : Target, T.Leads (x T).2

theorem Build.leads_pure (a : α) : Build.Leads (pure a) :=
  fun _ => .rfl

theorem Build.Leads.bind {x : Build α} {f : α → Build β} (hx : Build.Leads x)
    (hf : ∀ a, Build.Leads (f a)) : Build.Leads (x >>= f) :=
  fun T => (hx T).trans (hf _ _)

theorem Build.leads_mapM {f : α → Build β} (hf : ∀ a, Build.Leads (f a)) (l : List α) :
    Build.Leads (l.mapM f) := by
  induction l with
  | nil =>
      rw [List.mapM_nil]
      exact Build.leads_pure _
  | cons a l ih =>
      rw [List.mapM_cons]
      exact (hf a).bind fun _ => ih.bind fun _ => Build.leads_pure _

theorem leads_declareProcedure (notes : Notes) (structs : ClassStructs) (name : String)
    (receiver : Option Ty) (f : FunctionDecl) :
    Build.Leads (declareProcedure notes structs name receiver f) := by
  refine (Build.leads_mapM (fun _ => leads_lowerType structs _) _).bind fun params => ?_
  refine Build.Leads.bind (leads_lowerType structs _) fun returnType => ?_
  refine Build.Leads.bind (fun T => ?_) fun _ => Build.leads_pure _
  exact Target.leads_addProcedure _ _

theorem leads_layoutMethods (a : Analysis) (structs : ClassStructs) (c : ClassRef)
    (l : ClassLayout) : Build.Leads (layoutMethods a structs c l) :=
  (Build.leads_mapM (fun _ => (leads_declareProcedure _ _ _ _ _).bind fun _ =>
    Build.leads_pure _) _).bind fun _ => Build.leads_pure _

end leads

variable {p : Program} {notes : Notes} {structs : ClassStructs} {T T' : Target} {c : ClassRef}
  {l : ClassLayout}

/-- The struct of a class has a field for each slot, of the type that the type of the slot becomes
whenever it is asked for, and the constructor of the class is the one for this struct. -/
structure ClassLayout.Laid (p : Program) (notes : Notes) (structs : ClassStructs) (T : Target)
    (c : ClassRef) (l : ClassLayout) : Prop where
  name : l.name = c.name
  struct : structs.find? c.name = some l.struct
  slots : l.slots = p.slots notes c
  fields : ∃ types, T.module.structs[l.struct]? =
      some ⟨c.name, (slotNames l.slots).zipWith IR.Field.mk types⟩ ∧
    List.Forall₂ (fun s ty => T.Settles structs s.type ty ∧ ty.Flat) l.slots types
  constructor : T.module.procedures[l.constructor]? = some (constructorOf T.module c.name l.struct)

/-- What the type of a slot is in the code. -/
def FieldSlot.lowered (structs : ClassStructs) (T : Target) (s : FieldSlot) : Ty :=
  (lowerType structs s.type T).1

namespace ClassLayout.Laid

/-- Asking again for the type of a slot changes nothing. -/
theorem lowerType_eq (h : l.Laid p notes structs T c) {s : FieldSlot} (hs : s ∈ l.slots) :
    lowerType structs s.type T = (s.lowered structs T, T) ∧ (s.lowered structs T).Flat := by
  obtain ⟨types, _, htypes⟩ := h.fields
  obtain ⟨ty, _, hsettles, hflat⟩ := exists_of_mem_right htypes.flip hs
  rw [FieldSlot.lowered, hsettles T (List.prefix_refl _)]
  exact ⟨rfl, hflat⟩

theorem getElem?_struct (h : l.Laid p notes structs T c) :
    T.module.structs[l.struct]? = some ⟨c.name, (slotNames l.slots).zipWith IR.Field.mk
      (l.slots.map (FieldSlot.lowered structs T))⟩ := by
  obtain ⟨types, hs, htypes⟩ := h.fields
  have htypesEq : types = l.slots.map (FieldSlot.lowered structs T) := by
    rw [← List.forall₂_eq_eq_eq, List.forall₂_map_right_iff]
    exact htypes.flip.imp fun ty s h => by rw [FieldSlot.lowered, h.1 T (List.prefix_refl _)]
  rw [hs, htypesEq]

/-- The fields of the struct have sizes that no struct has a say in. -/
theorem flat {s : Struct} (h : l.Laid p notes structs T c)
    (hs : T.module.structs[l.struct]? = some s) : ∀ f ∈ s.fields, f.type.Flat := by
  obtain rfl := Option.some.inj (hs.symm.trans h.getElem?_struct)
  intro f hf
  obtain ⟨i, hi, rfl⟩ := List.getElem_of_mem hf
  rw [List.getElem_zipWith, List.getElem_map]
  exact (h.lowerType_eq (List.getElem_mem _)).2

end ClassLayout.Laid

theorem ClassLayout.Laid.mono (h : l.Laid p notes structs T c)
    (hstruct : ∀ s, T.module.structs[l.struct]? = some s → T'.module.structs[l.struct]? = some s)
    (harrays : T.arrays <+: T'.arrays)
    (hprocedures : ∀ q, T.module.procedures[l.constructor]? = some q →
      T'.module.procedures[l.constructor]? = some q) : l.Laid p notes structs T' c := by
  obtain ⟨types, hs, htypes⟩ := h.fields
  refine ⟨h.name, h.struct, h.slots, ⟨types, hstruct _ hs,
    htypes.imp fun _ _ h => ⟨h.1.mono harrays, h.2⟩⟩, ?_⟩
  rw [hprocedures _ h.constructor, constructorOf_congr hs (hstruct _ hs) (h.flat hs)]

theorem ClassLayout.Laid.leads (h : l.Laid p notes structs T c) (hT : T.Leads T') :
    l.Laid p notes structs T' c :=
  h.mono (hT.structs _) hT.arrays (hT.procedures _)

/-- All classes have structs of their names, and those that are done are laid out. -/
structure ClassesLaid (p : Program) (notes : Notes) (structs : ClassStructs)
    (classes done : List ClassRef) (layouts : List ClassLayout) (T : Target) : Prop where
  declared : ∀ c ∈ classes, ∃ id fields, structs.find? c.name = some id ∧
    T.module.structs[id]? = some ⟨c.name, fields⟩
  laid : List.Forall₂ (ClassLayout.Laid p notes structs T) done layouts

theorem ClassesLaid.leads {classes done : List ClassRef} {layouts : List ClassLayout}
    (h : ClassesLaid p notes structs classes done layouts T) (hT : T.Leads T') :
    ClassesLaid p notes structs classes done layouts T' := by
  refine ⟨fun c hc => ?_, h.laid.imp fun _ _ hl => hl.leads hT⟩
  obtain ⟨id, fields, hid, hs⟩ := h.declared c hc
  exact ⟨id, fields, hid, hT.structs _ _ hs⟩

/-- The types of some slots. -/
theorem builds_settled {slots : List FieldSlot} (h : ∀ s ∈ slots, ∃ n, s.type.Below n)
    (T : Target) : Builds (slots.mapM fun s => lowerType structs s.type) T fun types T' =>
      T.Leads T' ∧ List.Forall₂ (fun (s : FieldSlot) ty => T'.Settles structs s.type ty ∧ ty.Flat)
        slots types := by
  refine builds_mapM (I := fun (done : List FieldSlot) types T' => T.Leads T' ∧
    List.Forall₂ (fun (s : FieldSlot) ty => T'.Settles structs s.type ty ∧ ty.Flat) done types)
    (fun done s rest types T₁ hl hI => ?_) ⟨.rfl, .nil⟩
  obtain ⟨n, hn⟩ := h s (hl ▸ List.mem_append_right _ (List.mem_cons_self ..))
  have hleads := leads_lowerType structs s.type T₁
  refine ⟨hI.1.trans hleads, List.rel_append (hI.2.imp fun _ _ h =>
    ⟨h.1.mono hleads.arrays, h.2⟩) (.cons ⟨?_, flat_lowerType _ _ _⟩ .nil)⟩
  exact (settles_lowerType hn T₁).1

/-- One more class is laid out. -/
theorem builds_laid {classes done : List ClassRef} {layouts : List ClassLayout}
    (hc : c ∈ classes) (hslots : ∀ s ∈ p.slots notes c, ∃ n, s.type.Below n)
    (hdone : ∀ d ∈ done, d.name ≠ c.name)
    (h : ClassesLaid p notes structs classes done layouts T) :
    Builds (layoutClass p notes structs c) T fun l T' =>
      ClassesLaid p notes structs classes (done ++ [c]) (layouts ++ [l]) T' := by
  obtain ⟨struct, fields, hstruct, hs⟩ := h.declared c hc
  rw [layoutClass_eq hstruct]
  refine (builds_settled hslots T).bind fun types T₁ hsettled => ?_
  obtain ⟨hleads, htypes⟩ := hsettled
  have h₁ := h.leads hleads
  have hs₁ := hleads.structs _ _ hs
  obtain ⟨fields', hfields⟩ : ∃ fields', fields' =
    (slotNames (p.slots notes c)).zipWith IR.Field.mk types := ⟨_, rfl⟩
  rw [← hfields]
  have hself : (T₁.setFields struct fields').module.structs[struct]? = some ⟨c.name, fields'⟩ :=
    Target.structs_setFields hs₁
  have hother : ∀ (id : Nat) (s : Struct), s.name ≠ c.name → T₁.module.structs[id]? = some s →
      (T₁.setFields struct fields').module.structs[id]? = some s := fun _ _ hne =>
    Target.structs_setFields_of_ne hs₁ fun heq => hne (congrArg Struct.name heq)
  have hpush := Target.leads_addProcedure (T₁.setFields struct fields')
    (constructorOf (T₁.setFields struct fields').module c.name struct)
  have hself' := hpush.structs _ _ hself
  refine ⟨fun d hd => ?_, List.rel_append ?_
    (.cons ⟨rfl, hstruct, rfl, ⟨types, hfields ▸ hself', ?_⟩, ?_⟩ .nil)⟩
  · obtain ⟨id, dfields, hfind, hid⟩ := h₁.declared d hd
    by_cases hname : d.name = c.name
    · rw [hname]
      exact ⟨struct, fields', hstruct, hpush.structs _ _ hself⟩
    · exact ⟨id, dfields, hfind, hpush.structs _ _ (hother _ _ hname hid)⟩
  · refine ((List.forall₂_and_left ..).2 ⟨hdone, h₁.laid⟩).imp fun d l hd => ?_
    obtain ⟨hne, hl⟩ := hd
    refine hl.mono (fun s hs => ?_) hpush.arrays fun q hq => hpush.procedures _ q hq
    obtain ⟨_, hs', _⟩ := hl.fields
    obtain rfl := Option.some.inj (hs'.symm.trans hs)
    exact hpush.structs _ _ (hother _ _ hne hs)
  · exact htypes.imp fun _ _ h => ⟨h.1.mono hpush.arrays, h.2⟩
  · have hflat : ∀ f ∈ fields', f.type.Flat := by
      rw [hfields]
      intro f hf
      obtain ⟨i, hi, rfl⟩ := List.getElem_of_mem hf
      rw [List.getElem_zipWith]
      obtain ⟨_, _, _, hflat⟩ := exists_of_mem_right htypes (List.getElem_mem _)
      exact hflat
    exact (Target.getElem?_addProcedure _ _).trans
      (congrArg some (constructorOf_congr hself hself' hflat))

/-- The layouts of a program have one for each class of the table, as it should be. -/
structure Layouts.Laid (p : Program) (a : Analysis) (L : Layouts) (T : Target) : Prop where
  structs : L.structs.map Prod.fst = a.classes.classes.map ClassRef.name
  classes : ∀ c ∈ a.classes.classes, ∃ l, L.class? c.name = some l ∧
    l.Laid p a.notes L.structs T c

/-- The layouts of any program. -/
theorem laid_build {a : Analysis} (ha : a.classes.Closed)
    (hslots : ∀ c ∈ a.classes.classes, ∀ s ∈ p.slots a.notes c, ∃ n, s.type.Below n)
    (T : Target) : Builds (Layouts.build p a) T fun L T' => L.Laid p a T' := by
  refine (builds_declareStructs a.classes.classes T).bind fun structs T₁ hstructs => ?_
  have hstart : ClassesLaid p a.notes structs a.classes.classes [] [] T₁ := by
    refine ⟨fun c hc => ?_, .nil⟩
    obtain ⟨id, hid, hs⟩ := hstructs.find? hc
    exact ⟨id, [], hid, hs⟩
  refine (builds_mapM (I := ClassesLaid p a.notes structs a.classes.classes)
    (fun done c rest layouts T₂ hl hI => ?_) hstart).bind fun bare T₂ hbare => ?_
  · have hc : c ∈ a.classes.classes := hl ▸ List.mem_append_right _ (List.mem_cons_self ..)
    refine builds_laid hc (hslots c hc) (fun d hd hname => ?_) hI
    have hnodup := ha.nodup
    rw [hl, List.map_append, List.nodup_append'] at hnodup
    refine hnodup.2.2 (List.mem_map_of_mem hd) ?_
    rw [hname]
    exact List.mem_map_of_mem (List.mem_cons_self ..)
  refine (builds_mapM (I := fun done layouts T₃ => T₂.Leads T₃ ∧
    List.Forall₂ (fun (x : ClassRef × ClassLayout) l => l.Laid p a.notes structs T₃ x.1) done
      layouts) (fun done x rest layouts T₃ hl hI => ?_) ⟨.rfl, .nil⟩).bind
        fun classes T₃ ⟨_, hclasses⟩ => ?_
  · have hx : x.2.Laid p a.notes structs T₂ x.1 :=
      List.forall₂_zip hbare.laid (hl ▸ List.mem_append_right _ (List.mem_cons_self ..))
    have hleads := leads_layoutMethods a structs x.1 x.2 T₃
    refine ⟨hI.1.trans hleads, List.rel_append (hI.2.imp fun _ _ h => h.leads hleads)
      (.cons ?_ .nil)⟩
    obtain ⟨hname, hstruct, hslots, hfields, hconstructor⟩ := (hx.leads hI.1).leads hleads
    exact ⟨hname, hstruct, hslots, hfields, hconstructor⟩
  refine Builds.bind (Q := fun _ T₄ => T₃.Leads T₄) ?_ fun functions T₄ hleads => ?_
  · exact Build.leads_mapM (fun _ => (leads_declareProcedure _ _ _ _ _).bind fun _ =>
      Build.leads_pure _) _ T₃
  · refine ⟨hstructs.names, fun c hc => ?_⟩
    have hlaid : List.Forall₂ (fun c (l : ClassLayout) => l.Laid p a.notes structs T₄ c)
        a.classes.classes classes := by
      have hfst : (a.classes.classes.zip bare).map Prod.fst = a.classes.classes :=
        List.map_fst_zip hbare.laid.length_eq.le
      rw [← hfst, List.forall₂_map_left_iff]
      exact hclasses.imp fun _ _ h => h.leads hleads
    have hfind := Option.Fits.find? (f := fun d => d.name == c.name)
      (g := fun l => l.name == c.name)
      (hlaid.imp fun d l h => ⟨by rw [h.name], h⟩)
    have hself : a.classes.classes.find? (fun d => d.name == c.name) = some c := ha.find?_eq hc
    rw [hself] at hfind
    cases hl : classes.find? (fun l => l.name == c.name) with
    | none =>
        rw [hl] at hfind
        exact hfind.elim
    | some l =>
        rw [hl] at hfind
        exact ⟨l, hl, hfind⟩

end ObjectLang
