import Mathlib.Tactic
import ObjectLang.Proofs.Analysis.Acceptance
import ObjectLang.Proofs.Layout.Constructors
import ObjectLang.Proofs.Layout.Standing

/-!
# Building layouts

What the layouts of an accepted program are made of, step by step: a struct for each class, still
without fields; then the fields of one class after the other, with its constructor; then a procedure
without blocks for each method and each function.
-/
namespace ObjectLang

open IR

section builds

variable {α β : Type}

/-- Building from a target on gives a value and a target as told. -/
def Builds (x : Build α) (T : Target) (Q : α → Target → Prop) : Prop :=
  Q (x T).1 (x T).2

variable {x : Build α} {T : Target} {Q Q' : α → Target → Prop}

theorem Builds.mono (h : Builds x T Q) (hQ : ∀ a T', Q a T' → Q' a T') : Builds x T Q' :=
  hQ _ _ h

theorem Builds.bind {f : α → Build β} {R : β → Target → Prop} (h : Builds x T Q)
    (hf : ∀ a T', Q a T' → Builds (f a) T' R) : Builds (x >>= f) T R :=
  hf _ _ h

theorem builds_pure {a : α} (h : Q a T) : Builds (pure a) T Q :=
  h

/-- What is built for each of some things, one after the other: each step goes on with what the
steps before it have kept. -/
theorem builds_mapM {f : α → Build β} {l : List α} {I : List α → List β → Target → Prop}
    (hf : ∀ done a rest bs T, l = done ++ a :: rest → I done bs T →
      Builds (f a) T fun b T' => I (done ++ [a]) (bs ++ [b]) T')
    (h : I [] [] T) : Builds (l.mapM f) T fun bs T' => I l bs T' := by
  have hall : ∀ (rest done : List α) (bs : List β) (T : Target), l = done ++ rest →
      I done bs T → Builds (rest.mapM f) T fun cs T' => I l (bs ++ cs) T' := by
    intro rest
    induction rest with
    | nil =>
        intro done bs T hl hI
        rw [List.mapM_nil]
        rw [List.append_nil] at hl
        refine builds_pure ?_
        rwa [List.append_nil, hl]
    | cons a rest ih =>
        intro done bs T hl hI
        rw [List.mapM_cons]
        refine (hf done a rest bs T hl hI).bind fun b T' hb => ?_
        refine (ih (done ++ [a]) (bs ++ [b]) T' (by simpa using hl) hb).bind fun cs T'' hcs => ?_
        exact builds_pure (by simpa using hcs)
  simpa using hall l [] [] T rfl h

end builds

section skeletons

/-- A procedure without blocks, whose parameters have some types. -/
structure IR.Procedure.Bare (name : String) (types : List Ty) (returnType : Ty) (q : Procedure) :
    Prop where
  name : q.name = name
  params : q.params = List.range types.length
  temps : q.temps.toList.map Temp.type = types
  blocks : q.blocks = #[]
  returnType : q.returnType = returnType

namespace IR.Procedure.Bare

variable {name : String} {types : List Ty} {returnType : Ty} {q : Procedure}

theorem newParam (h : Procedure.Bare name types returnType q) (param : String) (type : Ty) :
    Procedure.Bare name (types ++ [type]) returnType (q.newParam param type).2 := by
  have hsize : q.temps.size = types.length := by
    rw [← h.temps, List.length_map, Array.length_toList]
  refine ⟨h.name, ?_, ?_, h.blocks, h.returnType⟩
  · simp [Procedure.newParam, Procedure.newNamedTemp, h.params, hsize, List.range_succ]
  · simp [Procedure.newParam, Procedure.newNamedTemp, h.temps]

theorem newParams {β : Type} (namesOf : β → String) (ps : List (β × Ty)) :
    ∀ {types : List Ty} {q : Procedure}, Procedure.Bare name types returnType q →
      Procedure.Bare name (types ++ ps.map Prod.snd) returnType
        (ps.foldl (fun q (x, type) => (q.newParam (namesOf x) type).2) q) := by
  induction ps with
  | nil =>
      intro types q h
      simpa using h
  | cons x ps ih =>
      intro types q h
      have := ih (h.newParam (namesOf x.1) x.2)
      simpa using this

variable (h : Procedure.Bare name types returnType q)
include h

theorem size : q.temps.size = types.length := by
  rw [← h.temps, List.length_map, Array.length_toList]

theorem nodup_params : q.params.Nodup := by
  rw [h.params]
  exact List.nodup_range

theorem params_lt : ∀ t ∈ q.params, t < q.temps.size := by
  rw [h.params, h.size]
  exact fun t ht => List.mem_range.1 ht

theorem typeOf? (id : Nat) : q.typeOf? (.temp id) = types[id]? := by
  rw [Procedure.typeOf?, ← h.temps, List.getElem?_map, Array.getElem?_toList]

theorem interface : q.interface = ⟨types, returnType⟩ := by
  have hparams : (q.params.map fun id => (q.temps[id]?.map Temp.type).getD .void) = types := by
    rw [h.params]
    refine List.ext_getElem (by simp) fun i _ hi => ?_
    have htype := h.typeOf? i
    rw [Procedure.typeOf?, List.getElem?_eq_getElem hi] at htype
    simp [htype]
  rw [Procedure.interface, hparams, h.returnType]

end IR.Procedure.Bare

end skeletons

section slots

variable {p : Program} {notes : Notes} {arrays : ArrayTypes}

/-- The slot of a field. -/
def fieldSlot (notes : Notes) (x : String × VarDecl) : FieldSlot :=
  ⟨x.1, x.2.name.name, (notes.typeExpr? x.2.type.id).getD .any⟩

/-- Fields of a class with different names get slots behind those of other classes. -/
theorem foldl_addSlot {owner : String} (ds : List VarDecl) :
    ∀ slots : List FieldSlot, (ds.map (·.name.name)).Nodup →
      (∀ slot ∈ slots, slot.owner = owner → slot.name ∉ ds.map (·.name.name)) →
      ds.foldl (addSlot notes owner) slots =
        slots ++ ds.map fun d => fieldSlot notes (owner, d) := by
  induction ds with
  | nil => simp
  | cons d ds ih =>
      intro slots hnodup hnew
      obtain ⟨hd, hnodup⟩ := List.nodup_cons.1 hnodup
      have hadd : addSlot notes owner slots d = slots ++ [fieldSlot notes (owner, d)] := by
        rw [addSlot, if_neg]
        · rfl
        · rw [List.any_eq_true]
          rintro ⟨slot, hslot, heq⟩
          simp only [Bool.and_eq_true, beq_iff_eq] at heq
          exact hnew slot hslot heq.1 (heq.2 ▸ List.mem_cons_self ..)
      rw [List.foldl_cons, hadd, ih _ hnodup]
      · simp
      · intro slot hslot howner hm
        rcases List.mem_append.1 hslot with hslot | hslot
        · exact hnew slot hslot howner (List.mem_cons_of_mem _ hm)
        · rw [List.mem_singleton.1 hslot] at hm
          exact hd hm

/-- The objects of a class have a slot for each field, in their order. -/
theorem slots_faithful (notes : Notes) (hh : p.Hierarchy)
    (hf : ∀ c ∈ p.classes, (c.fields.map (·.name.name)).Nodup) {c : ClassRef} :
    c.Faithful p → p.slots notes c = (p.fieldsOf c.name).map (fieldSlot notes) := by
  have hfields : ∀ {c : ClassRef}, c.Faithful p →
      (p.classDecl c).fields.map (fun d => fieldSlot notes (c.name, d)) =
        ((p.classDecl c).fields.map fun d => ((p.classDecl c).name.name, d)).map
          (fieldSlot notes) := by
    intro c hc
    rw [List.map_map, hc.classDecl_name]
    rfl
  induction c with
  | root name i =>
      intro hc
      have hlineage := hc.lineage hh
      rw [ClassRef.ancestors, List.map_singleton] at hlineage
      rw [Program.slots, foldl_addSlot _ _ (hf _ hc.mem) (by simp), Program.fieldsOf, hlineage]
      exact (hfields hc).trans (by simp)
  | derived name i superclass ih =>
      intro hc
      have hs := hc.of_superclass rfl
      have hlineage := hc.lineage hh
      rw [ClassRef.ancestors, List.map_cons, ← hs.lineage hh] at hlineage
      have hall : p.fieldsOf (ClassRef.derived name i superclass).name =
          p.fieldsOf superclass.name ++ (p.classDecl (.derived name i superclass)).fields.map
            fun d => ((p.classDecl (.derived name i superclass)).name.name, d) := by
        rw [Program.fieldsOf, hlineage, List.reverse_cons, List.flatMap_append,
          List.flatMap_singleton]
        rfl
      rw [Program.slots, ih hs, foldl_addSlot _ _ (hf _ hc.mem), hall, List.map_append]
      · exact congrArg _ (hfields hc)
      · -- No field of an ancestor has the class as its owner.
        intro slot hslot howner
        obtain ⟨x, hx, rfl⟩ := List.mem_map.1 hslot
        obtain ⟨decl, hdecl, hx⟩ := List.mem_flatMap.1 hx
        obtain ⟨d, _, rfl⟩ := List.mem_map.1 hx
        have hname : decl.name.name = name := howner
        rw [List.mem_reverse, hs.lineage hh] at hdecl
        obtain ⟨super, hsuper, rfl⟩ := List.mem_map.1 hdecl
        rw [(hs.of_mem_ancestors hsuper).classDecl_name] at hname
        have hnodup := hc.nodup_ancestors hh
        rw [ClassRef.ancestors, List.map_cons, List.nodup_cons] at hnodup
        have hmem := List.mem_map_of_mem (f := ClassRef.name) hsuper
        rw [hname] at hmem
        exact (hnodup.1 hmem).elim

end slots

section structs

/-- The structs of some classes are there, still without fields. -/
structure StructsDeclared (T : Target) (done : List ClassRef) (structs : ClassStructs)
    (T' : Target) : Prop where
  procedures : T'.module.procedures = T.module.procedures
  arrays : T'.arrays = T.arrays
  names : structs.map Prod.fst = done.map ClassRef.name
  empty : ∀ x ∈ structs, T'.module.structs[x.2]? = some ⟨x.1, []⟩
  new : ∀ (i : Nat) (s : Struct), T'.module.structs[i]? = some s →
    T.module.structs[i]? = some s ∨ (s.name, i) ∈ structs

/-- Each class gets a struct of its name. -/
theorem builds_declareStructs (classes : List ClassRef) (T : Target) :
    Builds (declareStructs classes) T (StructsDeclared T classes) := by
  refine builds_mapM (I := StructsDeclared T) (fun done c _ structs T' _ hI => ?_)
    ⟨rfl, rfl, rfl, by simp, fun _ _ => .inl⟩
  refine ⟨hI.procedures, hI.arrays, ?_, fun x hx => ?_, fun i s hs => ?_⟩
  · rw [List.map_append, List.map_append, hI.names]
    rfl
  · rcases List.mem_append.1 hx with hx | hx
    · have hget := hI.empty x hx
      have hlt := (Array.getElem?_eq_some_iff.1 hget).1
      exact (Array.getElem?_push_lt hlt).trans ((Array.getElem?_eq_getElem hlt).symm.trans hget)
    · rw [List.mem_singleton.1 hx]
      exact Array.getElem?_push_size
  · have hpush : (T'.module.structs.push ⟨c.name, []⟩)[i]? = some s := hs
    rw [Array.getElem?_push] at hpush
    split_ifs at hpush with hi
    · obtain rfl := Option.some.inj hpush
      exact .inr (List.mem_append_right _ (List.mem_singleton.2 (Prod.ext rfl hi)))
    · exact (hI.new i s hpush).imp_right (List.mem_append_left _)

theorem StructsDeclared.find? {T T' : Target} {classes : List ClassRef} {structs : ClassStructs}
    (h : StructsDeclared T classes structs T') {c : ClassRef} (hc : c ∈ classes) :
    ∃ id, structs.find? c.name = some id ∧ T'.module.structs[id]? = some ⟨c.name, []⟩ := by
  have hmem : c.name ∈ structs.map Prod.fst := by
    rw [h.names]
    exact List.mem_map_of_mem hc
  obtain ⟨x, hx, hname⟩ := List.mem_map.1 hmem
  obtain ⟨y, hy⟩ := Option.isSome_iff_exists.1
    (List.find?_isSome (p := fun x : String × Nat => x.1 == c.name).2 ⟨x, hx, by simp [hname]⟩)
  have hyname : y.1 = c.name := by simpa using List.find?_some hy
  refine ⟨y.2, by rw [ClassStructs.find?, hy]; rfl, ?_⟩
  rw [h.empty y (List.mem_of_find?_eq_some hy), hyname]

/-- No two classes have one struct. -/
theorem StructsDeclared.injective {T T' : Target} {classes : List ClassRef}
    {structs : ClassStructs} (h : StructsDeclared T classes structs T') {name name' : String}
    {id : Nat} (hid : structs.find? name = some id) (hid' : structs.find? name' = some id) :
    name = name' := by
  have hstruct : ∀ {name}, structs.find? name = some id →
      T'.module.structs[id]? = some ⟨name, []⟩ := by
    intro name hid
    obtain ⟨x, hx, rfl⟩ := Option.map_eq_some_iff.1 hid
    have hname : x.1 = name := by simpa using List.find?_some hx
    exact hname ▸ h.empty x (List.mem_of_find?_eq_some hx)
  exact congrArg Struct.name (Option.some.inj ((hstruct hid).symm.trans (hstruct hid')))

/-- Only classes have structs. -/
theorem StructsDeclared.exists_of_find? {T T' : Target} {classes : List ClassRef}
    {structs : ClassStructs} (h : StructsDeclared T classes structs T') {name : String} {id : Nat}
    (hid : structs.find? name = some id) : ∃ c ∈ classes, c.name = name := by
  obtain ⟨x, hx, rfl⟩ := Option.map_eq_some_iff.1 hid
  have hname : x.1 = name := by simpa using List.find?_some hx
  have hmem := List.mem_map_of_mem (f := Prod.fst) (List.mem_of_find?_eq_some hx)
  rw [h.names, hname] at hmem
  exact List.mem_map.1 hmem

/-- Each struct is that of a class. -/
theorem StructsDeclared.find?_of_new {T T' : Target} {classes : List ClassRef}
    {structs : ClassStructs} (h : StructsDeclared T classes structs T')
    (hnodup : (classes.map ClassRef.name).Nodup) (hT : ∀ s ∈ T.module.structs, False) {i : Nat}
    {s : Struct} (hs : T'.module.structs[i]? = some s) :
    ∃ c ∈ classes, s.name = c.name ∧ structs.find? c.name = some i := by
  have hmem := (h.new i s hs).resolve_left fun hi => hT s (Array.mem_of_getElem? hi)
  have hname := List.mem_map_of_mem (f := Prod.fst) hmem
  rw [h.names] at hname
  obtain ⟨c, hc, hname⟩ := List.mem_map.1 hname
  obtain ⟨id, hfind, _⟩ := h.find? hc
  obtain ⟨x, hx, rfl⟩ := Option.map_eq_some_iff.1 hfind
  have hxname : x.1 = c.name := by simpa using List.find?_some hx
  have heq : x = (s.name, i) := List.inj_on_of_nodup_map (h.names ▸ hnodup)
    (List.mem_of_find?_eq_some hx) hmem (hxname.trans hname)
  exact ⟨c, hc, hname.symm, hfind.trans (congrArg (some ·.2) heq)⟩

end structs

section classes

variable {p : Program} {printName : String} {arrays : ArrayTypes} {notes : Notes}
  {structs : ClassStructs} {T T' : Target} {c : ClassRef} {l : ClassLayout}

/-- The struct of a class has the fields of its objects, and the class has its constructor. -/
structure ClassLayout.Filled (p : Program) (arrays : ArrayTypes) (structs : ClassStructs)
    (T : Target) (c : ClassRef) (l : ClassLayout) : Prop where
  name : l.name = c.name
  struct : structs.find? c.name = some l.struct
  keys : l.slots.map (fun s => (s.owner, s.name)) = (p.fieldsOf c.name).map Program.fieldKey
  fields : ∃ fields, T.module.structs[l.struct]? = some ⟨c.name, fields⟩ ∧
    List.Forall₂ (fun x f => Represents p arrays structs T x.2.plain f.type) (p.fieldsOf c.name)
      fields
  constructor : T.module.procedures[l.constructor]? = some (constructorOf T.module c.name l.struct)

namespace ClassLayout.Filled

theorem stands (h : l.Filled p arrays structs T c) (hmethods : ∀ d ∈ (p.classDecl c).methods,
    ∃ s, l.method? d.name.name = some s ∧ s.Stands p arrays structs T d) :
    l.Stands p arrays structs T c := by
  obtain ⟨fields, hs, hfields⟩ := h.fields
  exact ⟨h.name, h.struct, h.keys, ⟨_, fields, hs, hfields⟩, hmethods⟩

/-- The fields of the struct have sizes that no struct has a say in. -/
theorem flat {s : Struct} (h : l.Filled p arrays structs T c)
    (hs : T.module.structs[l.struct]? = some s) : ∀ f ∈ s.fields, f.type.Flat := by
  obtain ⟨fields, hs', hfields⟩ := h.fields
  obtain rfl := Option.some.inj (hs'.symm.trans hs)
  intro f hf
  obtain ⟨_, _, hr⟩ := exists_of_mem_right hfields hf
  exact hr.flat

/-- What is there of a class stays if its struct and its constructor do. -/
theorem mono (h : l.Filled p arrays structs T c)
    (hstructs : ∀ s, T.module.structs[l.struct]? = some s → T'.module.structs[l.struct]? = some s)
    (harrays : T.arrays <+: T'.arrays)
    (hprocedures : ∀ q, T.module.procedures[l.constructor]? = some q →
      T'.module.procedures[l.constructor]? = some q) : l.Filled p arrays structs T' c := by
  obtain ⟨fields, hs, hfields⟩ := h.fields
  refine ⟨h.name, h.struct, h.keys, ⟨fields, hstructs _ hs, hfields.imp fun _ _ hr =>
    hr.mono harrays⟩, ?_⟩
  rw [hprocedures _ h.constructor, constructorOf_congr hs (hstructs _ hs) (h.flat hs)]

theorem withMethods {methods : List (String × Signature)} (h : l.Filled p arrays structs T c) :
    ClassLayout.Filled p arrays structs T c { l with methods } :=
  ⟨h.name, h.struct, h.keys, h.fields, h.constructor⟩

theorem leads (h : l.Filled p arrays structs T c) (hT : T.Leads T') :
    l.Filled p arrays structs T' c :=
  h.mono (hT.structs _) hT.arrays (hT.procedures _)

end ClassLayout.Filled

/-- The classes `done` have their structs and constructors; all others have structs without
fields. -/
structure ClassesFilled (p : Program) (arrays : ArrayTypes) (structs : ClassStructs)
    (done : List ClassRef) (layouts : List ClassLayout) (T : Target) : Prop where
  sound : T.Sound p arrays structs
  declared : ∀ c : ClassRef, c.Faithful p → ∃ id fields, structs.find? c.name = some id ∧
    T.module.structs[id]? = some ⟨c.name, fields⟩ ∧ (c ∉ done → fields = [])
  filled : List.Forall₂ (ClassLayout.Filled p arrays structs T) done layouts
  constructors : layouts.map ClassLayout.constructor = List.range done.length
  size : T.module.procedures.size = done.length

/-- What is done for some classes stays while types are lowered. -/
theorem ClassesFilled.leads {done : List ClassRef} {layouts : List ClassLayout}
    (h : ClassesFilled p arrays structs done layouts T) (hT : T.Leads T')
    (hsound : T'.Sound p arrays structs)
    (hprocedures : T'.module.procedures = T.module.procedures) :
    ClassesFilled p arrays structs done layouts T' := by
  refine ⟨hsound, fun c hc => ?_, h.filled.imp fun _ _ hl => hl.leads hT, h.constructors,
    (congrArg Array.size hprocedures).trans h.size⟩
  obtain ⟨id, fields, hfind, hs, hnil⟩ := h.declared c hc
  exact ⟨id, fields, hfind, hT.structs _ _ hs, hnil⟩

/-- What a type becomes that has its meaning noted. -/
theorem builds_type (hh : p.Hierarchy) (ha : arrays.Canonical p)
    (hstructs : ∀ c : ClassRef, c.Faithful p → ∃ id, structs.find? c.name = some id)
    {t : TypeExpr} (ht : t.Recorded arrays notes p) (hT : T.Sound p arrays structs) :
    Builds (lowerType structs ((notes.typeExpr? t.id).getD .any)) T fun ty T' => T.Leads T' ∧
      T'.Sound p arrays structs ∧ T'.module.procedures = T.module.procedures ∧
      Represents p arrays structs T' t.plain ty := by
  obtain ⟨V, hnote, hV⟩ := ht
  rw [hnote]
  obtain ⟨hleads, hsound, hr⟩ := lowerType_spec hh ha hstructs hV hT
  exact ⟨hleads, hsound, procedures_lowerType _ V T, hr⟩

/-- The types of some declarations. -/
theorem builds_types (hh : p.Hierarchy) (ha : arrays.Canonical p)
    (hstructs : ∀ c : ClassRef, c.Faithful p → ∃ id, structs.find? c.name = some id)
    (ds : List VarDecl) (hds : ∀ d ∈ ds, d.type.Recorded arrays notes p)
    (hT : T.Sound p arrays structs) :
    Builds (ds.mapM fun d => lowerType structs ((notes.typeExpr? d.type.id).getD .any)) T
      fun types T' => T.Leads T' ∧ T'.Sound p arrays structs ∧
        T'.module.procedures = T.module.procedures ∧
        List.Forall₂ (fun d ty => Represents p arrays structs T' d.plain ty) ds types := by
  refine builds_mapM (I := fun (done : List VarDecl) types T' => T.Leads T' ∧
    T'.Sound p arrays structs ∧ T'.module.procedures = T.module.procedures ∧
    List.Forall₂ (fun d ty => Represents p arrays structs T' d.plain ty) done types)
    (fun done d rest types T₁ hl hI => ?_) ⟨.rfl, hT, rfl, .nil⟩
  have hd : d ∈ ds := hl ▸ List.mem_append_right _ (List.mem_cons_self ..)
  obtain ⟨hleads, hsound, hprocedures, htypes⟩ := hI
  refine (builds_type hh ha hstructs (hds d hd) hsound).mono fun ty T₂ hz => ?_
  obtain ⟨hleads', hsound', hprocedures', hr⟩ := hz
  refine ⟨hleads.trans hleads', hsound', hprocedures'.trans hprocedures, ?_⟩
  exact List.rel_append (htypes.imp fun _ _ h => h.mono hleads'.arrays) (.cons hr .nil)

/-- The types of some slots. -/
theorem builds_slotTypes (hh : p.Hierarchy) (ha : arrays.Canonical p)
    (hstructs : ∀ c : ClassRef, c.Faithful p → ∃ id, structs.find? c.name = some id)
    (xs : List (String × VarDecl)) (hxs : ∀ x ∈ xs, x.2.type.Recorded arrays notes p)
    (hT : T.Sound p arrays structs) :
    Builds ((xs.map (fieldSlot notes)).mapM fun slot => lowerType structs slot.type) T
      fun types T' => T.Leads T' ∧ T'.Sound p arrays structs ∧
        T'.module.procedures = T.module.procedures ∧
        List.Forall₂ (fun x ty => Represents p arrays structs T' x.2.plain ty) xs types := by
  have h := builds_types hh ha hstructs (xs.map Prod.snd) (List.forall_mem_map.2 hxs) hT
  rw [List.mapM_map] at h ⊢
  refine h.mono fun types T' hz => ?_
  obtain ⟨hleads, hsound, hprocedures, htypes⟩ := hz
  rw [List.forall₂_map_left_iff] at htypes
  exact ⟨hleads, hsound, hprocedures, htypes⟩

/-- The code with the fields of a struct set. -/
def Target.setFields (T : Target) (struct : Nat) (fields : List IR.Field) : Target :=
  { T with module.structs := T.module.structs.modify struct fun s => { s with fields } }

namespace Target

variable {struct : Nat} {s : Struct} (hs : T.module.structs[struct]? = some s)
  {fields : List IR.Field}
include hs

theorem structs_setFields :
    (T.setFields struct fields).module.structs[struct]? = some { s with fields } := by
  rw [setFields, Array.getElem?_modify, if_pos rfl, hs, Option.map_some]

/-- All other structs stay as they are. -/
theorem structs_setFields_of_ne {id : Nat} {s' : Struct} (hne : s' ≠ s)
    (hid : T.module.structs[id]? = some s') :
    (T.setFields struct fields).module.structs[id]? = some s' := by
  rw [setFields, Array.getElem?_modify, if_neg, hid]
  rintro rfl
  exact hne (Option.some.inj (hid.symm.trans hs))

end Target

/-- Laying out a class whose struct is there. -/
theorem layoutClass_eq {struct : Nat} (hstruct : structs.find? c.name = some struct) :
    layoutClass p notes structs c = (do
      let types ← (p.slots notes c).mapM fun slot => lowerType structs slot.type
      let fields := (slotNames (p.slots notes c)).zipWith IR.Field.mk types
      modify fun t => t.setFields struct fields
      let constructor ← modifyGet fun t => t.addProcedure (constructorOf t.module c.name struct)
      return { name := c.name, struct, slots := p.slots notes c, constructor }) := by
  rw [layoutClass, hstruct]
  rfl

/-- The struct of one more class is filled, and the class gets its constructor. -/
theorem builds_layoutClass (hp : p.WellFormed printName) (ha : arrays.Canonical p)
    (hfields : ∀ c ∈ p.classes, ∀ x ∈ c.fields, x.type.Recorded arrays notes p)
    {done : List ClassRef} {layouts : List ClassLayout} (hc : c.Faithful p) (hnew : c ∉ done)
    (hdone : ∀ d ∈ done, d.Faithful p ∧ d ≠ c) (h : ClassesFilled p arrays structs done layouts T) :
    Builds (layoutClass p notes structs c) T fun l T' =>
      l.methods = [] ∧ ClassesFilled p arrays structs (done ++ [c]) (layouts ++ [l]) T' := by
  have hh := hp.hierarchy
  have hstructs : ∀ c : ClassRef, c.Faithful p → ∃ id, structs.find? c.name = some id := by
    intro c hc
    obtain ⟨id, _, hid, _⟩ := h.declared c hc
    exact ⟨id, hid⟩
  have hslots := slots_faithful notes hh hp.fieldNames hc
  obtain ⟨struct, nofields, hstruct, hs, hnil⟩ := h.declared c hc
  obtain rfl := hnil hnew
  have hrecorded : ∀ x ∈ p.fieldsOf c.name, x.2.type.Recorded arrays notes p := by
    intro x hx
    obtain ⟨decl, hdecl, hx⟩ := List.mem_flatMap.1 hx
    obtain ⟨d, hd, rfl⟩ := List.mem_map.1 hx
    exact hfields decl (Program.mem_classes_of_mem_lineage (List.mem_reverse.1 hdecl)) d hd
  rw [layoutClass_eq hstruct, hslots]
  refine (builds_slotTypes hh ha hstructs _ hrecorded h.sound).bind fun types T₁ hz => ?_
  obtain ⟨hleads, hsound, hprocedures, htypes⟩ := hz
  have h₁ := h.leads hleads hsound hprocedures
  have hs₁ : T₁.module.structs[struct]? = some ⟨c.name, []⟩ := hleads.structs _ _ hs
  obtain ⟨fields, hfieldsEq⟩ : ∃ fields, fields = (slotNames ((p.fieldsOf c.name).map
    (fieldSlot notes))).zipWith IR.Field.mk types := ⟨_, rfl⟩
  have hrepresents : List.Forall₂ (fun x f => Represents p arrays structs T₁ x.2.plain f.type)
      (p.fieldsOf c.name) fields := by
    have htypesEq : fields.map IR.Field.type = types := by
      have hlength := htypes.length_eq
      rw [hfieldsEq]
      refine List.ext_getElem (by simp [slotNames, hlength]) fun i _ _ => ?_
      simp
    rw [← htypesEq] at htypes
    exact List.forall₂_map_right_iff.1 htypes
  have hself : (T₁.setFields struct fields).module.structs[struct]? = some ⟨c.name, fields⟩ :=
    Target.structs_setFields hs₁
  have hother : ∀ (id : Nat) (s : Struct), s.name ≠ c.name ∨ s.fields ≠ [] →
      T₁.module.structs[id]? = some s →
      (T₁.setFields struct fields).module.structs[id]? = some s := by
    intro id s hne
    refine Target.structs_setFields_of_ne hs₁ ?_
    rintro rfl
    simp at hne
  have hpush := Target.leads_addProcedure (T₁.setFields struct fields)
    (constructorOf (T₁.setFields struct fields).module c.name struct)
  obtain ⟨T₃, hT₃⟩ : ∃ T₃, T₃ = ((T₁.setFields struct fields).addProcedure
    (constructorOf (T₁.setFields struct fields).module c.name struct)).2 := ⟨_, rfl⟩
  let l : ClassLayout :=
    ⟨c.name, struct, (p.fieldsOf c.name).map (fieldSlot notes), T₁.module.procedures.size, []⟩
  suffices hfinal : ClassesFilled p arrays structs (done ++ [c]) (layouts ++ [l]) T₃ by
    subst hT₃ hfieldsEq
    exact ⟨rfl, hfinal⟩
  rw [← hT₃] at hpush
  refine ⟨?_, fun d hd => ?_, ?_, ?_, ?_⟩
  · rw [hT₃]
    refine Target.Sound.addProcedure (T := T₁.setFields struct fields)
      ⟨fun V layout hm => ?_, hsound.unique, fun i s hs => ?_⟩ _
    · obtain ⟨t, name, hd, hr, hstruct⟩ := hsound.struct V layout hm
      exact ⟨t, name, hd, hr.mono (List.prefix_refl _),
        hother _ _ (.inr (List.cons_ne_nil _ _)) hstruct⟩
    · rw [Target.setFields, Array.getElem?_modify] at hs
      split_ifs at hs
      · obtain ⟨s', hs', rfl⟩ := Option.map_eq_some_iff.1 hs
        exact hsound.named i s' hs'
      · exact hsound.named i s hs
  · obtain ⟨id, dfields, hfind, hid, hnil'⟩ := h₁.declared d hd
    by_cases hname : d.name = c.name
    · obtain rfl := hd.unique hh hc hname
      exact ⟨struct, fields, hstruct, hpush.structs _ _ hself, fun hd => (hd (by simp)).elim⟩
    · refine ⟨id, dfields, hfind, hpush.structs _ _ (hother _ _ (.inl hname) hid),
        fun hd => hnil' fun hm => hd ?_⟩
      exact List.mem_append_left _ hm
  · refine List.rel_append ?_ (.cons ⟨rfl, hstruct, ?_, ⟨fields, hpush.structs _ _ hself,
      hrepresents.imp fun _ _ hr => hr.mono hpush.arrays⟩, ?_⟩ .nil)
    · refine ((List.forall₂_and_left ..).2 ⟨hdone, h₁.filled⟩).imp fun d l ⟨⟨hd, hne⟩, hl⟩ => ?_
      refine hl.mono (fun s hs => ?_) hpush.arrays fun q hq => hpush.procedures _ q hq
      obtain ⟨dfields, hs', _⟩ := hl.fields
      obtain rfl := Option.some.inj (hs'.symm.trans hs)
      exact hpush.structs _ _ (hother _ _ (.inl fun hname => hne (hd.unique hh hc hname)) hs)
    · rw [List.map_map]
      exact List.map_congr_left fun _ _ => rfl
    · have hflat : ∀ f ∈ fields, f.type.Flat := by
        intro f hf
        obtain ⟨_, _, hr⟩ := exists_of_mem_right hrepresents hf
        exact hr.flat
      rw [← constructorOf_congr hself (hpush.structs _ _ hself) hflat, hT₃]
      exact Target.getElem?_addProcedure _ _
  · rw [List.map_append, h₁.constructors, List.map_singleton, List.length_append,
      List.length_singleton, List.range_succ, ← h₁.size]
  · rw [List.length_append, List.length_singleton, ← h₁.size, hT₃]
    exact Array.size_push _

end classes

end ObjectLang
