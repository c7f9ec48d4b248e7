import Mathlib.Tactic
import ObjectLang.Proofs.Layout.Building
import ObjectLang.Proofs.Parsing.Identities

/-!
# Procedures for functions and methods

Layouts have a procedure for each method of each class and for each function, one behind the other
and behind the constructors. Each is still without blocks, and has the parameters and the types of
its signature. What the layouts of an accepted program look like follows from that.
-/
namespace ObjectLang

open IR

/-- A function, or a method of a class. -/
structure Routine where
  owner : Option ClassRef
  decl : FunctionDecl

/-- The type of references to the objects of a class. -/
def ClassStructs.pointerType (structs : ClassStructs) (cls : String) : Ty :=
  .pointer (.struct ((structs.find? cls).getD 0))

namespace Routine

/-- The name of the procedure. -/
def name (r : Routine) : String :=
  r.owner.elim r.decl.name.name fun c => c.name ++ "_" ++ r.decl.name.name

/-- The type of the receiver. -/
def receiver (structs : ClassStructs) (r : Routine) : Option Ty :=
  r.owner.map fun c => structs.pointerType c.name

/-- How the layouts tell the procedure of a method or a function. -/
def entry (x : Routine × Signature) : String × Signature :=
  (x.1.decl.name.name, x.2)

/-- The procedure of a routine is there, still without blocks. -/
structure Declared (p : Program) (arrays : ArrayTypes) (structs : ClassStructs) (T : Target)
    (r : Routine) (s : Signature) : Prop where
  stands : s.Stands p arrays structs T r.decl
  procedure : ∃ q, T.module.procedures[s.procedure]? = some q ∧
    Procedure.Bare r.name ((r.receiver structs).toList ++ s.params) s.returnType q

theorem Declared.mono {p : Program} {arrays : ArrayTypes} {structs : ClassStructs} {T T' : Target}
    {r : Routine} {s : Signature} (h : r.Declared p arrays structs T s) (hT : T.Leads T') :
    r.Declared p arrays structs T' s := by
  obtain ⟨q, hq, hbare⟩ := h.procedure
  exact ⟨h.stands.mono hT.toKeeps, q, hT.procedures _ _ hq, hbare⟩

end Routine

/-- The methods that a class has in a table. -/
def MemberTable.methodsOf (t : MemberTable) (c : ClassRef) : List TypedMethod :=
  (t.of? c).elim [] ClassMembers.methods

/-- The methods of a class. -/
def Program.methodsOf (p : Program) (c : ClassRef) : List Routine :=
  (p.classDecl c).methods.map (Routine.mk (some c))

/-- The methods of some classes, and all functions. -/
def Program.routines (p : Program) (classes : List ClassRef) : List Routine :=
  classes.flatMap p.methodsOf ++ p.functions.map (Routine.mk none)

/-- A program has a function or a method. -/
def Routine.Belongs (p : Program) (r : Routine) : Prop :=
  match r.owner with
  | none => r.decl ∈ p.functions
  | some c => c.Faithful p ∧ r.decl ∈ (p.classDecl c).methods

/-- The procedure of a function or a method. -/
def Layouts.signature? (l : Layouts) (r : Routine) : Option Signature :=
  r.owner.elim (l.function? r.decl.name.name) fun c =>
    (l.class? c.name).bind (·.method? r.decl.name.name)

/-- Some routines have their procedures, which came one after the other from `first` on. -/
structure RoutinesDeclared (p : Program) (arrays : ArrayTypes) (structs : ClassStructs)
    (first : Nat) (routines : List (Routine × Signature)) (T : Target) : Prop where
  sound : T.Sound p arrays structs
  declared : ∀ x ∈ routines, x.1.Declared p arrays structs T x.2
  ids : routines.map (·.2.procedure) = List.range' first routines.length
  size : T.module.procedures.size = first + routines.length

/-- The procedure that a routine with some receiver and parameters gets. -/
theorem exists_bare (name : String) (receiver : Option Ty) {params : List VarDecl}
    {types : List Ty} (hlength : types.length ≤ params.length) (returnType : Ty) :
    ∃ q, q = (params.zip types).foldl
        (fun q (param, type) => (q.newParam param.name.name type).2)
        (receiver.elim ({ name, returnType } : Procedure)
          fun type => (Procedure.newParam { name, returnType } "this" type).2) ∧
      Procedure.Bare name (receiver.toList ++ types) returnType q := by
  refine ⟨_, rfl, ?_⟩
  have hnone : Procedure.Bare name [] returnType { name, returnType } := ⟨rfl, rfl, rfl, rfl, rfl⟩
  have hstart : Procedure.Bare name receiver.toList returnType (receiver.elim
      ({ name, returnType } : Procedure)
        fun type => (Procedure.newParam { name, returnType } "this" type).2) := by
    cases receiver with
    | none => exact hnone
    | some type => exact hnone.newParam "this" type
  have hall := hstart.newParams (fun d : VarDecl => d.name.name) (params.zip types)
  rwa [List.map_snd_zip hlength] at hall

section declaring

variable {p : Program} {arrays : ArrayTypes} {notes : Notes} {structs : ClassStructs}
  {first : Nat} {routines : List (Routine × Signature)} {T : Target}
  (hh : p.Hierarchy) (ha : arrays.Canonical p)
  (hstructs : ∀ c : ClassRef, c.Faithful p → ∃ id, structs.find? c.name = some id)
include hh ha hstructs

/-- One more routine gets its procedure. -/
theorem builds_declareProcedure {r : Routine}
    (hreturn : r.decl.returnType.Recorded arrays notes p)
    (hparams : ∀ d ∈ r.decl.params, d.type.Recorded arrays notes p)
    (h : RoutinesDeclared p arrays structs first routines T) :
    Builds (declareProcedure notes structs r.name (r.receiver structs) r.decl) T fun s T' =>
      T.Leads T' ∧ RoutinesDeclared p arrays structs first (routines ++ [(r, s)]) T' := by
  refine (builds_types hh ha hstructs _ hparams h.sound).bind fun types T₁ hz => ?_
  obtain ⟨hleads₁, hsound₁, hprocedures₁, htypes⟩ := hz
  refine Builds.bind (builds_type hh ha hstructs hreturn hsound₁) fun returnType T₂ hz => ?_
  obtain ⟨hleads₂, hsound₂, hprocedures₂, hr⟩ := hz
  obtain ⟨q, hq, hbare⟩ := exists_bare r.name (r.receiver structs) htypes.length_eq.ge returnType
  have hleads₃ := Target.leads_addProcedure T₂ q
  have hid : (T₂.addProcedure q).1 = first + routines.length := by
    rw [← h.size, ← hprocedures₁, ← hprocedures₂]
    rfl
  have hleads := (hleads₁.trans hleads₂).trans hleads₃
  suffices hfinal : RoutinesDeclared p arrays structs first
      (routines ++ [(r, ⟨(T₂.addProcedure q).1, types, returnType⟩)]) (T₂.addProcedure q).2 by
    subst hq
    exact ⟨hleads, hfinal⟩
  refine ⟨hsound₂.addProcedure q, fun x hx => ?_, ?_, ?_⟩
  · rcases List.mem_append.1 hx with hx | hx
    · exact (h.declared x hx).mono hleads
    · rw [List.mem_singleton.1 hx]
      refine ⟨⟨?_, hr.mono hleads₃.arrays⟩, q, Target.getElem?_addProcedure T₂ q, hbare⟩
      exact htypes.imp fun _ _ hd => hd.mono (hleads₂.trans hleads₃).arrays
  · rw [List.map_append, h.ids, List.length_append, List.length_singleton,
      ← List.range'_append_1, List.map_singleton, hid]
    rfl
  · rw [List.length_append, List.length_singleton, ← Nat.add_assoc, ← h.size, ← hprocedures₁,
      ← hprocedures₂]
    exact Array.size_push _

/-- Some functions, or methods of one class, get their procedures. -/
theorem builds_declareAll (owner : Option ClassRef) (ds : List FunctionDecl)
    (hds : ∀ d ∈ ds, d.returnType.Recorded arrays notes p ∧
      ∀ x ∈ d.params, x.type.Recorded arrays notes p)
    (h : RoutinesDeclared p arrays structs first routines T) :
    Builds (ds.mapM fun d => do
        let s ← declareProcedure notes structs (Routine.mk owner d).name
          ((Routine.mk owner d).receiver structs) d
        return (d.name.name, s)) T
      fun es T' => T.Leads T' ∧ ∃ new : List (Routine × Signature),
        new.map Prod.fst = ds.map (Routine.mk owner) ∧ es = new.map Routine.entry ∧
          RoutinesDeclared p arrays structs first (routines ++ new) T' := by
  refine builds_mapM (I := fun done es T' => T.Leads T' ∧ ∃ new : List (Routine × Signature),
    new.map Prod.fst = done.map (Routine.mk owner) ∧ es = new.map Routine.entry ∧
      RoutinesDeclared p arrays structs first (routines ++ new) T')
    (fun done d rest es T₁ hl hI => ?_) ⟨.rfl, [], rfl, rfl, by rwa [List.append_nil]⟩
  have hd : d ∈ ds := hl ▸ List.mem_append_right _ (List.mem_cons_self ..)
  obtain ⟨hleads, new, hnew, rfl, hdeclared⟩ := hI
  refine (builds_declareProcedure hh ha hstructs (r := ⟨owner, d⟩) (hds d hd).1 (hds d hd).2
    hdeclared).bind fun s T₂ hz => builds_pure ?_
  refine ⟨hleads.trans hz.1, new ++ [(⟨owner, d⟩, s)], ?_, ?_, ?_⟩
  · rw [List.map_append, hnew, List.map_append]
    rfl
  · rw [List.map_append]
    rfl
  · rw [← List.append_assoc]
    exact hz.2

/-- The methods of a class get their procedures. -/
theorem builds_layoutMethods {a : Analysis} {c : ClassRef} {l : ClassLayout}
    (hnotes : a.notes = notes) (hl : l.pointerType = structs.pointerType c.name)
    (hdecls : (a.members.methodsOf c).map TypedMethod.decl = (p.classDecl c).methods)
    (hds : ∀ d ∈ (p.classDecl c).methods, d.returnType.Recorded arrays notes p ∧
      ∀ x ∈ d.params, x.type.Recorded arrays notes p)
    (h : RoutinesDeclared p arrays structs first routines T) :
    Builds (layoutMethods a structs c l) T fun l' T' => T.Leads T' ∧
      ∃ new : List (Routine × Signature), new.map Prod.fst = p.methodsOf c ∧
        l' = { l with methods := new.map Routine.entry } ∧
          RoutinesDeclared p arrays structs first (routines ++ new) T' := by
  have hall := builds_declareAll hh ha hstructs (some c) (p.classDecl c).methods hds h
  rw [← hdecls, List.mapM_map, ← hnotes] at hall
  have hrun : layoutMethods a structs c l = (do
      let methods ← (a.members.methodsOf c).mapM ((fun d => do
        let s ← declareProcedure a.notes structs (Routine.mk (some c) d).name
          ((Routine.mk (some c) d).receiver structs) d
        return (d.name.name, s)) ∘ TypedMethod.decl)
      return { l with methods }) := by
    rw [layoutMethods, hl]
    rfl
  rw [hrun]
  refine hall.bind fun es T₁ hz => builds_pure ?_
  obtain ⟨hleads, new, hnew, rfl, hdeclared⟩ := hz
  refine ⟨hleads, new, ?_, rfl, hdeclared⟩
  rw [hnew, hdecls]
  rfl

end declaring

section tables

variable {p : Program} {printName : String} {a : Analysis}

namespace Program.Accepted

variable (ha : p.Accepted printName a)
include ha

theorem faithful {c : ClassRef} (hc : c ∈ a.classes.classes) : c.Faithful p := by
  rw [ha.classes] at hc
  exact ClassTable.faithful_of_mem_build ha.wellFormed.hierarchy hc

theorem find?_class {c : ClassRef} (hc : c.Faithful p) : a.classes.find? c.name = some c := by
  rw [ha.classes]
  exact (ClassTable.find?_build ha.wellFormed.hierarchy).2 ⟨hc, rfl⟩

theorem mem_classes {c : ClassRef} (hc : c.Faithful p) : c ∈ a.classes.classes :=
  List.mem_of_find?_eq_some (ha.find?_class hc)

theorem belongs {r : Routine} (hr : r ∈ p.routines a.classes.classes) : r.Belongs p := by
  rcases List.mem_append.1 hr with hr | hr
  · obtain ⟨c, hc, hr⟩ := List.mem_flatMap.1 hr
    obtain ⟨d, hd, rfl⟩ := List.mem_map.1 hr
    exact ⟨ha.faithful hc, hd⟩
  · obtain ⟨d, hd, rfl⟩ := List.mem_map.1 hr
    exact hd

theorem map_classDecl : a.classes.classes.map p.classDecl = p.classes := by
  rw [ha.classes]
  exact ClassTable.map_classDecl_build ha.wellFormed.hierarchy

theorem nodup_classNames : (a.classes.classes.map ClassRef.name).Nodup := by
  have hnames := congrArg (List.map fun c : ClassDecl => c.name.name) ha.map_classDecl
  rw [List.map_map] at hnames
  have hmap : a.classes.classes.map ClassRef.name = p.classes.map (·.name.name) := by
    rw [← hnames]
    exact List.map_congr_left fun c hc => (ha.faithful hc).classDecl_name.symm
  rw [hmap]
  exact ha.wellFormed.hierarchy.names

/-- The members of a class have the methods that the class declares. -/
theorem map_decl {c : ClassRef} (hc : c.Faithful p) :
    (a.members.methodsOf c).map TypedMethod.decl = (p.classDecl c).methods := by
  obtain ⟨own, hown, hmethods⟩ := ha.members c hc
  rw [MemberTable.methodsOf, hown, ← List.forall₂_eq_eq_eq, List.forall₂_map_left_iff]
  exact hmethods.methods.imp fun _ _ hm => hm.decl

end Program.Accepted

/-- All functions and methods are different, since their declarations have identities. -/
theorem Program.nodup_routines (ha : p.Accepted printName a) :
    (p.routines a.classes.classes).Nodup := by
  have hsublist : ∀ ds : List FunctionDecl,
      (ds.map (·.id)).Sublist (ds.flatMap FunctionDecl.ids) := by
    intro ds
    rw [List.map_eq_flatMap]
    exact List.Sublist.flatMap_right _ fun d _ => List.singleton_sublist.2 (List.mem_cons_self ..)
  have hmethods : ((a.classes.classes.flatMap p.methodsOf).map (·.decl.id)).Sublist
      (p.classes.flatMap ClassDecl.ids) := by
    rw [← ha.map_classDecl, List.map_flatMap, List.flatMap_map]
    refine List.Sublist.flatMap_right _ fun c _ => ?_
    rw [Program.methodsOf, List.map_map]
    exact ((hsublist _).trans (List.sublist_append_right ..)).trans (List.sublist_cons_self ..)
  have hall : ((p.routines a.classes.classes).map (·.decl.id)).Sublist p.ids := by
    rw [Program.routines, List.map_append, List.map_map]
    exact hmethods.append (hsublist _)
  exact (hall.nodup ha.ids).of_map _

end tables

section building

variable {p : Program} {printName : String} {a : Analysis} {l : Layouts} {T : Target}
  {routines : List (Routine × Signature)}

/-- A routine is found under its name among those of one owner, if their names differ. -/
theorem find?_entry {new : List (Routine × Signature)}
    (hnodup : (new.map (·.1.decl.name.name)).Nodup) {x : Routine × Signature} (hx : x ∈ new) :
    ((new.map Routine.entry).find? (·.1 == x.1.decl.name.name)).map Prod.snd = some x.2 := by
  have hpred : ((·.1 == x.1.decl.name.name) ∘ Routine.entry : Routine × Signature → Bool) =
      fun y => y.1.decl.name.name == x.1.decl.name.name := rfl
  obtain ⟨y, hy⟩ : ∃ y, new.find? (fun y => y.1.decl.name.name == x.1.decl.name.name) = some y :=
    Option.isSome_iff_exists.1 (List.find?_isSome.2 ⟨x, hx, beq_self_eq_true _⟩)
  have hname : y.1.decl.name.name = x.1.decl.name.name := by simpa using List.find?_some hy
  have heq : y = x := List.inj_on_of_nodup_map hnodup (List.mem_of_find?_eq_some hy) hx hname
  rw [List.find?_map, hpred, hy, heq]
  rfl

/-- The layouts of a program, with the procedures that they tell: first the constructors of the
classes, then those of the routines. -/
structure Layouts.Built (p : Program) (a : Analysis) (l : Layouts)
    (routines : List (Routine × Signature)) (T : Target) : Prop where
  structs : ∀ c : ClassRef, c.Faithful p → ∃ id, l.structs.find? c.name = some id
  classes : ∀ c : ClassRef, c.Faithful p →
    ∃ layout, l.class? c.name = some layout ∧ layout.Filled p a.arrays l.structs T c
  order : routines.map Prod.fst = p.routines a.classes.classes
  signatures : ∀ x ∈ routines, l.signature? x.1 = some x.2
  declared : RoutinesDeclared p a.arrays l.structs a.classes.classes.length routines T
  constructors : ∀ id < a.classes.classes.length, ∃ (c : ClassRef) (layout : ClassLayout),
    c.Faithful p ∧ l.class? c.name = some layout ∧ layout.constructor = id
  constructor_lt : ∀ (name : String) (layout : ClassLayout), l.class? name = some layout →
    layout.constructor < a.classes.classes.length
  distinct : l.structs.Distinct p

namespace Layouts.Built

theorem mem_functions (h : l.Built p a routines T) {f : FunctionDecl} (hf : f ∈ p.functions) :
    ∃ s, (⟨none, f⟩, s) ∈ routines := by
  have hmem : Routine.mk none f ∈ p.routines a.classes.classes :=
    List.mem_append_right _ (List.mem_map_of_mem hf)
  rw [← h.order] at hmem
  obtain ⟨⟨r, s⟩, hx, rfl⟩ := List.mem_map.1 hmem
  exact ⟨s, hx⟩

theorem mem_methods (h : l.Built p a routines T) (ha : p.Accepted printName a) {c : ClassRef}
    (hc : c.Faithful p) {f : FunctionDecl} (hf : f ∈ (p.classDecl c).methods) :
    ∃ s, (⟨some c, f⟩, s) ∈ routines := by
  have hmem : Routine.mk (some c) f ∈ p.routines a.classes.classes :=
    List.mem_append_left _ (List.mem_flatMap.2 ⟨c, ha.mem_classes hc, List.mem_map_of_mem hf⟩)
  rw [← h.order] at hmem
  obtain ⟨⟨r, s⟩, hx, rfl⟩ := List.mem_map.1 hmem
  exact ⟨s, hx⟩

/-- The layouts stand for the program. -/
theorem stands (h : l.Built p a routines T) (ha : p.Accepted printName a) :
    l.Stands p a.arrays T := by
  refine ⟨fun c hc => ?_, fun f hf => ?_⟩
  · obtain ⟨layout, hlayout, hfilled⟩ := h.classes c hc
    refine ⟨layout, hlayout, hfilled.stands fun d hd => ?_⟩
    obtain ⟨s, hs⟩ := h.mem_methods ha hc hd
    have hsignature := h.signatures _ hs
    rw [Layouts.signature?, Option.elim_some, hlayout, Option.bind_some] at hsignature
    exact ⟨s, hsignature, (h.declared.declared _ hs).stands⟩
  · obtain ⟨s, hs⟩ := h.mem_functions hf
    exact ⟨s, h.signatures _ hs, (h.declared.declared _ hs).stands⟩

/-- The procedures have the types that the layouts tell. -/
theorem interfaces (h : l.Built p a routines T) (ha : p.Accepted printName a) :
    l.Interfaces p T.module := by
  refine ⟨fun c layout hc hlayout => ?_, fun c layout d s hc hlayout hd hs => ?_,
    fun f s hf hs => ?_⟩
  · obtain ⟨layout', hlayout', hfilled⟩ := h.classes c hc
    obtain rfl := Option.some.inj (hlayout.symm.trans hlayout')
    obtain ⟨fields, hfields, _⟩ := hfilled.fields
    rw [Module.interface?, hfilled.constructor, constructorOf_eq c.name hfields]
    rfl
  · obtain ⟨s', hs'⟩ := h.mem_methods ha hc hd
    obtain ⟨layout', hlayout', hfilled⟩ := h.classes c hc
    obtain rfl := Option.some.inj (hlayout.symm.trans hlayout')
    have hsignature := h.signatures _ hs'
    rw [Layouts.signature?, Option.elim_some, hlayout, Option.bind_some, hs] at hsignature
    obtain rfl := Option.some.inj hsignature
    obtain ⟨q, hq, hbare⟩ := (h.declared.declared _ hs').procedure
    have hpointer : l.structs.pointerType c.name = layout.pointerType := by
      rw [ClassStructs.pointerType, hfilled.struct]
      rfl
    rw [Module.interface?, hq, Option.map_some, hbare.interface]
    simp only [Routine.receiver, Option.map_some, Option.toList_some, List.singleton_append,
      hpointer]
  · obtain ⟨s', hs'⟩ := h.mem_functions hf
    obtain rfl := Option.some.inj (hs.symm.trans (h.signatures _ hs'))
    obtain ⟨q, hq, hbare⟩ := (h.declared.declared _ hs').procedure
    rw [Module.interface?, hq, Option.map_some, hbare.interface]
    rfl

end Layouts.Built

/-- A class whose methods have their procedures. -/
structure ClassLayout.Complete (p : Program) (arrays : ArrayTypes) (structs : ClassStructs)
    (routines : List (Routine × Signature)) (T : Target) (c : ClassRef) (l : ClassLayout) :
    Prop where
  filled : l.Filled p arrays structs T c
  methods : ∃ new ⊆ routines, new.map Prod.fst = p.methodsOf c ∧
    l.methods = new.map Routine.entry

theorem ClassLayout.Complete.mono {arrays : ArrayTypes} {structs : ClassStructs}
    {more : List (Routine × Signature)} {T' : Target} {c : ClassRef} {l : ClassLayout}
    (h : l.Complete p arrays structs routines T c) (hmore : routines ⊆ more) (hT : T.Leads T') :
    l.Complete p arrays structs more T' c := by
  obtain ⟨new, hsubset, hnew, hmethods⟩ := h.methods
  exact ⟨h.filled.leads hT, new, fun x hx => hmore (hsubset hx), hnew, hmethods⟩

/-- The classes get their structs and their constructors. -/
theorem builds_classes (ha : p.Accepted printName a) {structs : ClassStructs}
    (h : StructsDeclared {} a.classes.classes structs T) :
    Builds (a.classes.classes.mapM (layoutClass p a.notes structs)) T
      (ClassesFilled p a.arrays structs a.classes.classes) := by
  have hh := ha.wellFormed.hierarchy
  have hfaithful : ∀ c ∈ a.classes.classes, c.Faithful p := fun c hc => ha.faithful hc
  have hnodup : a.classes.classes.Nodup := ha.nodup_classNames.of_map _
  refine builds_mapM (fun done c rest layouts T' hl hI => ?_) ⟨⟨?_, ?_, ?_⟩, ?_, .nil, rfl, ?_⟩
  · rw [hl] at hnodup hfaithful
    have hnew : c ∉ done := fun hm =>
      (List.nodup_middle.1 hnodup).notMem (List.mem_append_left _ hm)
    refine (builds_layoutClass ha.wellFormed ha.arrays ha.recorded.fields (hfaithful c (by simp))
      hnew (fun d hd => ⟨hfaithful d (List.mem_append_left _ hd), fun heq => hnew (heq ▸ hd)⟩)
      hI).mono fun _ _ hz => hz.2
  · rw [h.arrays]
    exact nofun
  · rw [h.arrays]
    exact nofun
  · intro i s hs
    obtain ⟨c, hc, hname, hfind⟩ := h.find?_of_new ha.nodup_classNames nofun hs
    exact .inl ⟨c, hfaithful c hc, hname, hfind⟩
  · intro c hc
    obtain ⟨id, hid, hs⟩ := h.find? (ha.mem_classes hc)
    exact ⟨id, [], hid, hs, fun _ => rfl⟩
  · rw [h.procedures]
    rfl

/-- The methods of all classes get their procedures. -/
theorem builds_methods (ha : p.Accepted printName a) {structs : ClassStructs}
    {layouts : List ClassLayout}
    (h : ClassesFilled p a.arrays structs a.classes.classes layouts T) :
    Builds ((a.classes.classes.zip layouts).mapM fun x => layoutMethods a structs x.1 x.2) T
      fun complete T' => ∃ routines : List (Routine × Signature),
        routines.map Prod.fst = a.classes.classes.flatMap p.methodsOf ∧
        RoutinesDeclared p a.arrays structs a.classes.classes.length routines T' ∧
        List.Forall₂ (fun c l => l.Complete p a.arrays structs routines T' c) a.classes.classes
          complete ∧
        complete.map ClassLayout.constructor = List.range a.classes.classes.length := by
  have hh := ha.wellFormed.hierarchy
  have hstructs : ∀ c : ClassRef, c.Faithful p → ∃ id, structs.find? c.name = some id := by
    intro c hc
    obtain ⟨id, _, hid, _⟩ := h.declared c hc
    exact ⟨id, hid⟩
  have hlength := h.filled.length_eq
  refine (builds_mapM (I := fun done complete T' => T.Leads T' ∧
      ∃ routines : List (Routine × Signature),
        routines.map Prod.fst = (done.map Prod.fst).flatMap p.methodsOf ∧
        RoutinesDeclared p a.arrays structs a.classes.classes.length routines T' ∧
        List.Forall₂ (fun x l => l.Complete p a.arrays structs routines T' x.1) done complete ∧
        complete.map ClassLayout.constructor = done.map (·.2.constructor))
    (fun done x rest complete T₁ hl hI => ?_)
    ⟨.rfl, [], rfl, ⟨h.sound, nofun, rfl, h.size⟩, .nil, rfl⟩).mono fun complete T' hI => ?_
  · obtain ⟨c, l⟩ := x
    obtain ⟨hleads, routines, horder, hdeclared, hcomplete, hconstructors⟩ := hI
    have hmem : (c, l) ∈ a.classes.classes.zip layouts :=
      hl ▸ List.mem_append_right _ (List.mem_cons_self ..)
    have hfilled : l.Filled p a.arrays structs T c := (List.forall₂_iff_zip.1 h.filled).2 hmem
    have hc : c.Faithful p := ha.faithful (List.of_mem_zip hmem).1
    have hpointer : l.pointerType = structs.pointerType c.name := by
      rw [ClassStructs.pointerType, hfilled.struct]
      rfl
    refine (builds_layoutMethods hh ha.arrays hstructs rfl hpointer (ha.map_decl hc)
      (fun d hd => ?_) hdeclared).mono fun l' T₂ hz => ?_
    · have hr := ha.recorded.methods _ hc.mem d hd
      exact ⟨hr.returnType, hr.params⟩
    obtain ⟨hleads', new, hnew, rfl, hdeclared'⟩ := hz
    refine ⟨hleads.trans hleads', routines ++ new, ?_, hdeclared', ?_, ?_⟩
    · simp [horder, hnew]
    · refine List.rel_append (hcomplete.imp fun _ _ hx =>
        hx.mono (List.subset_append_left _ _) hleads') (.cons ⟨?_, new,
          List.subset_append_right _ _, hnew, rfl⟩ .nil)
      exact (hfilled.leads (hleads.trans hleads')).withMethods
    · simp [hconstructors]
  · obtain ⟨_, routines, horder, hdeclared, hcomplete, hconstructors⟩ := hI
    rw [List.map_fst_zip hlength.le] at horder
    refine ⟨routines, horder, hdeclared, ?_, ?_⟩
    · rw [← List.map_fst_zip hlength.le, List.forall₂_map_left_iff]
      exact hcomplete
    · have hsnd := congrArg (List.map ClassLayout.constructor) (List.map_snd_zip hlength.ge)
      rw [List.map_map] at hsnd
      exact hconstructors.trans (hsnd.trans h.constructors)

/-- The layouts of an accepted program stand for it. -/
theorem builds_layouts (ha : p.Accepted printName a) :
    Builds (Layouts.build p a) {} fun l T => ∃ routines, l.Built p a routines T := by
  have hh := ha.wellFormed.hierarchy
  refine (builds_declareStructs _ _).bind fun structs T₁ h₁ => ?_
  refine (builds_classes ha h₁).bind fun layouts T₂ h₂ => ?_
  have hstructs : ∀ c : ClassRef, c.Faithful p → ∃ id, structs.find? c.name = some id := by
    intro c hc
    obtain ⟨id, _, hid, _⟩ := h₂.declared c hc
    exact ⟨id, hid⟩
  refine (builds_methods ha h₂).bind fun classes T₃ hz => ?_
  obtain ⟨methods, hmethods, h₃, hcomplete, hconstructors⟩ := hz
  have hall := builds_declareAll hh ha.arrays hstructs none p.functions
    (fun d hd => ⟨(ha.recorded.functions d hd).returnType, (ha.recorded.functions d hd).params⟩) h₃
  have hfunctions : a.functions.functions = p.functions := by rw [ha.functions]
  rw [hfunctions]
  refine hall.bind fun functions T₄ hz => builds_pure ?_
  obtain ⟨hleads, new, hnew, rfl, h₄⟩ := hz
  have hfaithful : ∀ c ∈ a.classes.classes, c.Faithful p := fun c hc => ha.faithful hc
  -- A class is found among those that were laid out as it is found in the table.
  have hclass : ∀ c : ClassRef, c.Faithful p → ∃ layout, (List.find? (·.name == c.name) classes) =
      some layout ∧ layout.Complete p a.arrays structs methods T₃ c := by
    intro c hc
    have hrel := rel_find? (q := (·.name == c.name)) (r := (·.name == c.name))
      (fun (c : ClassRef) (l : ClassLayout) hl => by rw [hl.filled.name]) hcomplete
    rw [show List.find? (·.name == c.name) a.classes.classes =
      some c from ha.find?_class hc] at hrel
    generalize List.find? (·.name == c.name) classes = found at hrel
    cases hrel with
    | some h => exact ⟨_, rfl, h⟩
  refine ⟨methods ++ new, hstructs, fun c hc => ?_, ?_, fun x hx => ?_, h₄, fun id hid => ?_,
    fun name layout hl => ?_, ⟨fun _ _ hid => ?_, fun _ _ _ => h₁.injective⟩⟩
  · obtain ⟨layout, hlayout, hl⟩ := hclass c hc
    exact ⟨layout, hlayout, hl.filled.leads hleads⟩
  · rw [List.map_append, hmethods, hnew, Program.routines]
  · rcases List.mem_append.1 hx with hx | hx
    · -- The procedures of a class are among those of all methods, which all differ.
      have hr : x.1 ∈ a.classes.classes.flatMap p.methodsOf := hmethods ▸ List.mem_map_of_mem hx
      obtain ⟨c, hc, hr⟩ := List.mem_flatMap.1 hr
      obtain ⟨d, hd, hr⟩ := List.mem_map.1 hr
      have hfaithful := hfaithful c hc
      obtain ⟨layout, hlayout, hl⟩ := hclass c hfaithful
      obtain ⟨own, hsubset, hown, heq⟩ := hl.methods
      have hmem : x.1 ∈ own.map Prod.fst := by
        rw [hown, ← hr]
        exact List.mem_map_of_mem hd
      obtain ⟨y, hy, hyx⟩ := List.mem_map.1 hmem
      have hxy : y = x := List.inj_on_of_nodup_map
        (hmethods ▸ (List.nodup_append'.1 (p.nodup_routines ha)).1) (hsubset hy) hx hyx
      have hnames : (own.map (·.1.decl.name.name)).Nodup := by
        have hmap := congrArg (List.map fun r : Routine => r.decl.name.name) hown
        rw [Program.methodsOf, List.map_map, List.map_map] at hmap
        exact hmap ▸ ha.wellFormed.methodNames _ hfaithful.mem
      have hfind := find?_entry hnames (hxy ▸ hy)
      rw [Layouts.signature?, ← hr, Option.elim_some]
      simp only [Layouts.class?, hlayout, Option.bind_some, ClassLayout.method?, heq]
      rw [← hfind, ← hr]
    · have hr : x.1 ∈ p.functions.map (Routine.mk none) := hnew ▸ List.mem_map_of_mem hx
      obtain ⟨d, hd, hr⟩ := List.mem_map.1 hr
      have hnames : (new.map (·.1.decl.name.name)).Nodup := by
        have hmap := congrArg (List.map fun r : Routine => r.decl.name.name) hnew
        rw [List.map_map, List.map_map] at hmap
        exact hmap ▸ ha.wellFormed.functionNames
      have hfind := find?_entry hnames hx
      rw [Layouts.signature?, ← hr, Option.elim_none, Layouts.function?, ← hfind, ← hr]
  · have hmem : id ∈ classes.map ClassLayout.constructor := by
      rw [hconstructors]
      exact List.mem_range.2 hid
    obtain ⟨layout, hlayout, rfl⟩ := List.mem_map.1 hmem
    obtain ⟨c, hc, hl⟩ := exists_of_mem_right hcomplete hlayout
    obtain ⟨layout', hfind, hl'⟩ := hclass c (hfaithful c hc)
    have hnames : (classes.map ClassLayout.name).Nodup := by
      have hmap : a.classes.classes.map ClassRef.name = classes.map ClassLayout.name := by
        rw [← List.forall₂_eq_eq_eq, List.forall₂_map_left_iff, List.forall₂_map_right_iff]
        exact hcomplete.imp fun _ _ hl => hl.filled.name.symm
      rw [← hmap]
      exact ha.nodup_classNames
    have heq : layout' = layout := List.inj_on_of_nodup_map hnames
      (List.mem_of_find?_eq_some hfind) hlayout (hl'.filled.name.trans hl.filled.name.symm)
    exact ⟨c, layout', hfaithful c hc, hfind, congrArg _ heq⟩
  · have hmem := List.mem_map_of_mem (f := ClassLayout.constructor) (List.mem_of_find?_eq_some hl)
    rw [hconstructors] at hmem
    exact List.mem_range.1 hmem
  · obtain ⟨c, hc, hname⟩ := h₁.exists_of_find? hid
    exact ⟨c, hfaithful c hc, hname⟩

end building

end ObjectLang
