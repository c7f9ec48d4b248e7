import Mathlib.Tactic
import ObjectLang.Compile
import ObjectLang.Proofs.Lowering.Allocators
import ObjectLang.Proofs.Lowering.Filling

/-!
# Code for programs

The procedures of a program are filled one after the other: first those of the functions and the
methods, and then those that make arrays, which were asked for meanwhile. At any time each procedure
either waits, still without blocks, or has its code, and filling one leaves all others as they are.
In the end every procedure of the module is a constructor, the code of a function or a method, or
one that makes arrays.
-/
namespace ObjectLang

open IR

section progress

variable (p : Program) (body : Body)

/-- A procedure has the code of a routine. -/
def Routine.Coded (r : Routine) (s : LowerState) (id : Nat) : Prop :=
  ∃ s₁ s₂, r.Made p body s₁ s₂ ∧ s₂.target.Keeps s.target ∧
    s₂.target.module.Grows s.target.module ∧ s₂.allocators <+: s.allocators ∧
      s.target.module.procedures[id]? = some s₂.builder.procedure

/-- A procedure waits to become the one that makes arrays with a component. -/
def AllocatorWaits (T : Target) (component : ValueType) (id : Nat) : Prop :=
  ∃ t, component.Denotes p body.analysis.arrays t ∧
    ∃ returnType, T.module.procedures[id]? = some (allocatorSkeleton component returnType) ∧
      Represents p body.analysis.arrays body.layouts.structs T (.array t) returnType

/-- A procedure has the code that makes arrays with a component. -/
def AllocatorCoded (T : Target) (component : ValueType) (id : Nat) : Prop :=
  ∃ t layout name, component.Denotes p body.analysis.arrays t ∧
    Represents p body.analysis.arrays body.layouts.structs T (.array t) layout.pointerType ∧
    Represents p body.analysis.arrays body.layouts.structs T t layout.element ∧
    T.module.structs[layout.struct]? = some ⟨name, ArrayLayout.fields layout.element⟩ ∧
    T.module.procedures[id]? = some (allocatorCode component layout.pointerType layout
      (T.module.sizeOf layout.element))

/-- What holds while the procedures of a program are filled: the routines `rest` and the allocators
`waiting` are still without code, and all others have theirs. -/
structure Program.Progress (routines : List (Routine × Signature)) (rest : List Routine)
    (waiting : List (ValueType × Nat)) (s : LowerState) : Prop where
  layouts : body.layouts.Stands p body.analysis.arrays s.target
  interfaces : body.layouts.Interfaces p s.target.module
  target : s.target.Sound p body.analysis.arrays body.layouts.structs
  classes : ∀ c : ClassRef, c.Faithful p → ∃ layout, body.layouts.class? c.name = some layout ∧
    layout.Filled p body.analysis.arrays body.layouts.structs s.target c
  bare : ∀ x ∈ routines, x.1 ∈ rest →
    x.1.Declared p body.analysis.arrays body.layouts.structs s.target x.2
  coded : ∀ x ∈ routines, x.1 ∉ rest → x.1.Coded p body s x.2.procedure
  waits : ∀ x ∈ s.allocators, x ∈ waiting → AllocatorWaits p body s.target x.1 x.2
  makes : ∀ x ∈ s.allocators, x ∉ waiting → AllocatorCoded p body s.target x.1 x.2
  ids : s.allocators.map Prod.snd = List.range'
    (body.analysis.classes.classes.length + routines.length) s.allocators.length
  size : s.target.size =
    body.analysis.classes.classes.length + routines.length + s.allocators.length
  distinct : s.Distinct

end progress

section keeping

variable {p : Program} {body : Body} {T T' : Target} {component : ValueType} {id i : Nat}
  {q : Procedure}

theorem AllocatorWaits.leads (h : AllocatorWaits p body T component i) (hT : T.Leads T') :
    AllocatorWaits p body T' component i := by
  obtain ⟨t, ht, returnType, hp, hr⟩ := h
  exact ⟨t, ht, returnType, hT.procedures _ _ hp, hr.mono hT.arrays⟩

theorem AllocatorWaits.fills (h : AllocatorWaits p body T component i) (hT : T.Fills id q T')
    (hi : i ≠ id) : AllocatorWaits p body T' component i := by
  obtain ⟨t, ht, returnType, hp, hr⟩ := h
  exact ⟨t, ht, returnType, hT.others _ _ hi hp, hr.mono hT.arrays⟩

theorem AllocatorCoded.fills (h : AllocatorCoded p body T component i) (hT : T.Fills id q T')
    (hi : i ≠ id) : AllocatorCoded p body T' component i := by
  obtain ⟨t, layout, name, ht, hr', hr, hs, hp⟩ := h
  refine ⟨t, layout, name, ht, hr'.mono hT.arrays, hr.mono hT.arrays, hT.structs _ _ hs, ?_⟩
  rw [hT.others _ _ hi hp, sizeOf_flat hr.flat, sizeOf_flat hr.flat]

/-- The code of a routine stays while other procedures are filled and more is added. -/
theorem Routine.Coded.mono {r : Routine} {s s' : LowerState} (h : r.Coded p body s i)
    (hkeeps : s.target.Keeps s'.target) (hgrows : s.target.module.Grows s'.target.module)
    (hallocators : s.allocators <+: s'.allocators)
    (hprocedure : ∀ q, s.target.module.procedures[i]? = some q →
      s'.target.module.procedures[i]? = some q) : r.Coded p body s' i := by
  obtain ⟨s₁, s₂, hmade, hk, hg, ha, hq⟩ := h
  refine ⟨s₁, s₂, hmade, hk.trans hkeeps, ⟨fun _ _ hs => hgrows.structs _ _ (hg.structs _ _ hs),
    fun _ _ hi => hgrows.interfaces _ _ (hg.interfaces _ _ hi)⟩, ha.trans hallocators,
    hprocedure _ hq⟩

theorem Routine.Declared.fills {arrays : ArrayTypes} {structs : ClassStructs} {r : Routine}
    {sg : Signature} (h : r.Declared p arrays structs T sg) (hT : T.Fills id q T')
    (hi : sg.procedure ≠ id) : r.Declared p arrays structs T' sg := by
  obtain ⟨q', hq', hbare⟩ := h.procedure
  exact ⟨h.stands.mono hT.toKeeps, q', hT.others _ _ hi hq', hbare⟩

theorem ClassLayout.Filled.fills {arrays : ArrayTypes} {structs : ClassStructs} {c : ClassRef}
    {l : ClassLayout} (h : l.Filled p arrays structs T c) (hT : T.Fills id q T')
    (hi : l.constructor ≠ id) : l.Filled p arrays structs T' c :=
  h.mono (hT.structs _) hT.arrays fun p hp => hT.others _ p hi hp

end keeping

section steps

variable {p : Program} {body : Body} {routines : List (Routine × Signature)} {rest : List Routine}
  {waiting : List (ValueType × Nat)} {s s' : LowerState} {T₀ : Target}

/-- Making code leaves all procedures as they are; the allocators that were asked for wait. -/
theorem Program.Progress.leads (h : p.Progress body routines rest waiting s)
    (htarget : s.target.Leads s'.target)
    (hsound : s'.target.Sound p body.analysis.arrays body.layouts.structs)
    (hdeclares : s.Declares s') {new : List (ValueType × Nat)}
    (hallocators : s'.allocators = s.allocators ++ new)
    (hnew : ∀ x ∈ new, AllocatorWaits p body s'.target x.1 x.2) :
    p.Progress body routines rest (waiting ++ new) s' := by
  obtain ⟨k, hsize, hids, hdistinct⟩ := hdeclares
  have hlength := congrArg List.length hids
  simp only [List.length_map, List.length_append, List.length_range'] at hlength
  refine ⟨h.layouts.mono htarget.toKeeps, h.interfaces.mono htarget.grows, hsound,
    fun c hc => ?_, fun x hx hm => (h.bare x hx hm).mono htarget, fun x hx hm => ?_,
    fun x hx hm => ?_, fun x hx hm => ?_, ?_, ?_, hdistinct h.distinct⟩
  · obtain ⟨layout, hl, hfilled⟩ := h.classes c hc
    exact ⟨layout, hl, hfilled.leads htarget⟩
  · exact (h.coded x hx hm).mono htarget.toKeeps htarget.grows
      (hallocators ▸ List.prefix_append ..) (htarget.procedures _)
  · rw [hallocators] at hx
    rcases List.mem_append.1 hm with hm | hm
    · rcases List.mem_append.1 hx with hx | hx
      · exact (h.waits x hx hm).leads htarget
      · exact hnew x hx
    · exact hnew x hm
  · rw [hallocators] at hx
    rw [List.mem_append, not_or] at hm
    obtain ⟨t, layout, name, ht, hr', hr, hs, hp⟩ :=
      h.makes x ((List.mem_append.1 hx).resolve_right hm.2) hm.1
    refine ⟨t, layout, name, ht, hr'.mono htarget.arrays, hr.mono htarget.arrays,
      htarget.structs _ _ hs, ?_⟩
    rw [htarget.procedures _ _ hp, sizeOf_flat hr.flat, sizeOf_flat hr.flat]
  · rw [hids, h.ids, h.size, hlength, List.range'_append_1]
  · rw [hsize, h.size, hlength, Nat.add_assoc]

/-- One procedure was filled, and all others are as they were. -/
theorem Program.Progress.fills (h : p.Progress body routines rest waiting s)
    (h₀ : body.layouts.Built p body.analysis routines T₀) {id : Nat} {q : Procedure} {T : Target}
    (hT : s.target.Fills id q T) (hsound : T.Sound p body.analysis.arrays body.layouts.structs)
    (hsize : T.size = s.target.size) (hid : body.analysis.classes.classes.length ≤ id)
    {rest' : List Routine} {waiting' : List (ValueType × Nat)}
    (hrest : ∀ x ∈ routines, x.2.procedure ≠ id ∧ (x.1 ∈ rest ↔ x.1 ∈ rest') ∨
      x.1 ∉ rest' ∧ x.1.Coded p body { s with target := T } x.2.procedure)
    (hwaiting : ∀ x ∈ s.allocators, x.2 ≠ id ∧ (x ∈ waiting ↔ x ∈ waiting') ∨
      x ∉ waiting' ∧ AllocatorCoded p body T x.1 x.2) :
    p.Progress body routines rest' waiting' { s with target := T } := by
  refine ⟨h.layouts.mono hT.toKeeps, h.interfaces.mono hT.grows, hsound, fun c hc => ?_,
    fun x hx hm => ?_, fun x hx hm => ?_, fun x hx hm => ?_, fun x hx hm => ?_, h.ids,
    hsize.trans h.size, h.distinct⟩
  · obtain ⟨layout, hl, hfilled⟩ := h.classes c hc
    refine ⟨layout, hl, hfilled.fills hT fun heq => ?_⟩
    have := h₀.constructor_lt _ _ hl
    omega
  · rcases hrest x hx with ⟨hne, hiff⟩ | ⟨hm', _⟩
    · exact (h.bare x hx (hiff.2 hm)).fills hT hne
    · exact absurd hm hm'
  · rcases hrest x hx with ⟨hne, hiff⟩ | ⟨_, hcoded⟩
    · exact (h.coded x hx fun hm' => hm (hiff.1 hm')).mono hT.toKeeps hT.grows
        (List.prefix_refl _) fun q hq => hT.others _ q hne hq
    · exact hcoded
  · rcases hwaiting x hx with ⟨hne, hiff⟩ | ⟨hm', _⟩
    · exact (h.waits x hx (hiff.2 hm)).fills hT hne
    · exact absurd hm hm'
  · rcases hwaiting x hx with ⟨hne, hiff⟩ | ⟨_, hcoded⟩
    · exact (h.makes x hx fun hm' => hm (hiff.1 hm')).fills hT hne
    · exact hcoded

section numbers

variable (h₀ : body.layouts.Built p body.analysis routines T₀)
include h₀

theorem Layouts.Built.procedure_mem {x : Routine × Signature} (hx : x ∈ routines) :
    body.analysis.classes.classes.length ≤ x.2.procedure ∧
      x.2.procedure < body.analysis.classes.classes.length + routines.length := by
  have hmem := List.mem_map_of_mem (f := fun x : Routine × Signature => x.2.procedure) hx
  rwa [h₀.declared.ids, List.mem_range'_1] at hmem

theorem Layouts.Built.eq_of_procedure {x y : Routine × Signature} (hx : x ∈ routines)
    (hy : y ∈ routines) (hxy : x.2.procedure = y.2.procedure) : x = y := by
  refine List.inj_on_of_nodup_map (f := fun x : Routine × Signature => x.2.procedure) ?_ hx hy hxy
  rw [h₀.declared.ids]
  exact List.nodup_range'

theorem Layouts.Built.eq_of_routine (hp : p.Prepared body) {x y : Routine × Signature}
    (hx : x ∈ routines) (hy : y ∈ routines) (hxy : x.1 = y.1) : x = y :=
  List.inj_on_of_nodup_map (h₀.order ▸ p.nodup_routines hp.accepted) hx hy hxy

end numbers

theorem Program.Progress.le_allocator (h : p.Progress body routines rest waiting s)
    {x : ValueType × Nat} (hx : x ∈ s.allocators) :
    body.analysis.classes.classes.length + routines.length ≤ x.2 := by
  have hmem := List.mem_map_of_mem (f := Prod.snd) hx
  rw [h.ids, List.mem_range'_1] at hmem
  exact hmem.1

theorem Program.Progress.eq_of_allocator (h : p.Progress body routines rest waiting s)
    {x y : ValueType × Nat} (hx : x ∈ s.allocators) (hy : y ∈ s.allocators) (hxy : x.2 = y.2) :
    x = y := by
  refine List.inj_on_of_nodup_map (f := Prod.snd) ?_ hx hy hxy
  rw [h.ids]
  exact List.nodup_range'

end steps

section lowering

variable {p : Program} {body : Body} {routines : List (Routine × Signature)} {rest : List Routine}
  {waiting : List (ValueType × Nat)} {s : LowerState} {T₀ : Target}

/-- Code for a function or a method. -/
def lowerRoutine (body : Body) (r : Routine) : Lower Unit :=
  match r.owner with
  | none => lowerFunction body r.decl
  | some c => lowerMethod body c r.decl

theorem does_lowerRoutine_of_fill {r : Routine} {sg : Signature} {Q : Unit → LowerState → Prop}
    (hsignature : body.layouts.signature? r = some sg)
    (h : Does (fillProcedure sg.procedure "entry" (lowerBody body r.owner.isSome r.decl)) s Q) :
    Does (lowerRoutine body r) s Q := by
  obtain ⟨owner, decl⟩ := r
  cases owner with
  | none => exact Does.seq (does_known hsignature h)
  | some c =>
      obtain ⟨layout, hlayout, hmethod⟩ := Option.bind_eq_some_iff.1 hsignature
      exact Does.seq (does_known hlayout (Does.seq (does_known hmethod h)))

/-- One more routine gets its code. -/
theorem does_lowerRoutine (hp : p.Prepared body)
    (h₀ : body.layouts.Built p body.analysis routines T₀) {r : Routine} {sg : Signature}
    (hx : (r, sg) ∈ routines) (hnew : r ∉ rest)
    (h : p.Progress body routines (r :: rest) s.allocators s) :
    Does (lowerRoutine body r) s fun _ s' => p.Progress body routines rest s'.allocators s' := by
  have hproper : r.Proper p body := by
    refine hp.proper ?_
    rw [← h₀.order]
    exact List.mem_map_of_mem (f := Prod.fst) hx
  have hdeclared := h.bare (r, sg) hx (List.mem_cons_self ..)
  obtain ⟨q, hq, hbare⟩ := hdeclared.procedure
  refine does_lowerRoutine_of_fill (h₀.signatures _ hx) (does_fillProcedure hq ?_)
  refine (does_routine hp hproper hbare hdeclared.stands h.layouts h.interfaces h.target
    fun x hx => h.waits x hx hx).mono fun _ s₂ hmade => ?_
  obtain ⟨xs, hfinishes⟩ := hmade.finishes
  have hleads := hfinishes.leads
  obtain ⟨new, hallocators⟩ := hleads.allocators
  have h₂ : p.Progress body routines (r :: rest) s₂.allocators s₂ := by
    rw [← hallocators]
    exact h.leads hleads.target hfinishes.stage.target hleads.declares hallocators.symm
      fun x hx => hfinishes.stage.allocators x (hallocators ▸ List.mem_append_right _ hx)
  have hfills : s₂.target.Fills sg.procedure s₂.builder.procedure
      (s₂.target.setProcedure sg.procedure s₂.builder.procedure) :=
    Target.Leads.rfl.fills (hleads.target.procedures _ _ hq)
      (hleads.procedure.interface hbare.params_lt)
  refine h₂.fills h₀ hfills (hfinishes.stage.target.setProcedure _ _)
    (Target.size_setProcedure ..) (h₀.procedure_mem hx).1 (fun y hy => ?_) fun y hy =>
      .inl ⟨?_, Iff.rfl⟩
  · by_cases hyx : y.2.procedure = sg.procedure
    · obtain rfl := h₀.eq_of_procedure hy hx hyx
      exact .inr ⟨hnew, _, s₂, hmade, hfills.toKeeps, hfills.grows, List.prefix_refl _,
        hfills.filled⟩
    · refine .inl ⟨hyx, List.mem_cons.trans (or_iff_right fun hr => hyx ?_)⟩
      rw [h₀.eq_of_routine hp hy hx hr]
  · have := h₂.le_allocator hy
    have := (h₀.procedure_mem hx).2
    simp only at this
    omega

/-- One more procedure that makes arrays gets its code. -/
theorem does_lowerAllocator (hp : p.Prepared body)
    (h₀ : body.layouts.Built p body.analysis routines T₀) {x : ValueType × Nat}
    (hx : x ∈ s.allocators) (hnew : x ∉ waiting)
    (h : p.Progress body routines [] (x :: waiting) s) :
    Does (lowerAllocator body x.1 x.2) s fun _ s' =>
      s'.allocators = s.allocators ∧ p.Progress body routines [] waiting s' := by
  obtain ⟨t, ht, returnType, hskeleton, hr⟩ := h.waits x hx (List.mem_cons_self ..)
  obtain ⟨hleads, hsound, U, hm, hU⟩ := arrayLayout_spec hp.accepted.wellFormed.hierarchy
    hp.accepted.arrays h₀.structs ht (hr.component_ne_null h.target) h.target
  have hprocedures := procedures_arrayLayout body.layouts.structs x.1 s.target
  obtain ⟨T₁, hT₁⟩ : ∃ T₁, T₁ = (arrayLayout body.layouts.structs x.1 s.target).2 := ⟨_, rfl⟩
  obtain ⟨layout, hlayout⟩ : ∃ layout,
    layout = (arrayLayout body.layouts.structs x.1 s.target).1 := ⟨_, rfl⟩
  rw [← hT₁] at hleads hsound hm hprocedures
  rw [← hlayout] at hm
  obtain ⟨t', name, ⟨hU', _⟩, helement, hstruct⟩ := hsound.struct U layout hm
  obtain rfl := hU.functional hU'
  obtain rfl := (hr.mono hleads.arrays).functional hsound (.array hm hU)
  -- The layout was there before, so no procedure is new.
  obtain ⟨code, hcode⟩ : ∃ b, b = buildAllocator
    (Builder.start (allocatorSkeleton x.1 layout.pointerType) "init") (.temp 0) layout
      (T₁.module.sizeOf layout.element) := ⟨_, rfl⟩
  have h₁ : p.Progress body routines [] (x :: waiting)
      { s with target := T₁, builder := code } := by
    have hstep : p.Progress body routines [] (x :: waiting ++ [])
        { s with target := T₁, builder := code } := by
      refine h.leads hleads hsound ?_ ?_ nofun
      · exact .none (congrArg Array.size hprocedures) rfl
      · exact (List.append_nil _).symm
    rwa [List.append_nil] at hstep
  unfold lowerAllocator
  refine Does.seq (does_onTarget ?_)
  rw [← hT₁, ← hlayout]
  refine Does.seq (does_get (Does.seq (does_get ?_)))
  refine Does.seq (does_known (hleads.procedures _ _ hskeleton) (Does.seq (does_known rfl ?_)))
  refine does_fillProcedure (hleads.procedures _ _ hskeleton) (does_perform ?_)
  suffices hfinal : p.Progress body routines [] waiting
      { s with target := T₁.setProcedure x.2 code.procedure, builder := code } by
    subst hcode
    exact ⟨rfl, hfinal⟩
  have hcodeProcedure : code.procedure = allocatorCode x.1 layout.pointerType layout
      (T₁.module.sizeOf layout.element) := congrArg Builder.procedure hcode
  have hinterface : code.procedure.interface =
      (allocatorSkeleton x.1 layout.pointerType).interface := by
    rw [hcodeProcedure, allocatorCode_eq]
    rfl
  have hfills : T₁.Fills x.2 code.procedure (T₁.setProcedure x.2 code.procedure) :=
    Target.Leads.rfl.fills (hleads.procedures _ _ hskeleton) hinterface
  refine h₁.fills h₀ hfills (hsound.setProcedure _ _) (Target.size_setProcedure ..)
    ((Nat.le_add_right ..).trans (h.le_allocator hx)) (fun y hy => .inl ⟨?_, Iff.rfl⟩)
    fun y hy => ?_
  · have := h.le_allocator hx
    have := (h₀.procedure_mem hy).2
    omega
  · by_cases hyx : y.2 = x.2
    · obtain rfl := h.eq_of_allocator hy hx hyx
      refine .inr ⟨hnew, t, layout, name, ht, hr.mono (hleads.arrays.trans hfills.arrays),
        helement.mono hfills.arrays,
        hfills.structs _ _ hstruct, ?_⟩
      rw [hfills.filled, hcodeProcedure, sizeOf_flat helement.flat, sizeOf_flat helement.flat]
    · refine .inl ⟨hyx, List.mem_cons.trans (or_iff_right fun hxy => hyx ?_)⟩
      rw [hxy]

end lowering

section whole

variable {p : Program} {body : Body} {routines : List (Routine × Signature)} {T₀ : Target}

/-- The order in which functions and methods get their code. -/
def Program.loweringOrder (p : Program) (classes : List ClassRef) : List Routine :=
  (p.functions.filter (·.name.name != mainName)).map (Routine.mk none) ++
    (classes.flatMap p.methodsOf ++ (p.function? mainName).toList.map (Routine.mk none))

theorem forM_flatMap {α β : Type} (f : β → Lower PUnit) (g : α → List β) (l : List α) :
    forM (l.flatMap g) f = forM l fun a => forM (g a) f := by
  induction l with
  | nil => rfl
  | cons a l ih => rw [List.flatMap_cons, List.forM_append, ih, List.forM_cons]

theorem forM_congr {α : Type} {f g : α → Lower PUnit} {l : List α} (h : ∀ a ∈ l, f a = g a) :
    forM l f = forM l g := by
  induction l with
  | nil => rfl
  | cons a l ih =>
      rw [List.forall_mem_cons] at h
      rw [List.forM_cons, List.forM_cons, h.1, ih h.2]

/-- Code for a program is code for its routines and then for the procedures that make arrays. -/
theorem lowerProgram_eq (hp : p.Prepared body) : lowerProgram body p = (do
    (p.loweringOrder body.analysis.classes.classes).forM (lowerRoutine body)
    (← get).allocators.forM fun x => lowerAllocator body x.1 x.2) := by
  have hfunctions : body.analysis.functions.functions = p.functions := by
    rw [hp.accepted.functions]
  have hmethods : body.analysis.classes.classes.forM (fun c =>
      ((body.analysis.members.of? c).elim [] ClassMembers.methods).forM fun method =>
        lowerMethod body c method.decl) =
      (body.analysis.classes.classes.flatMap p.methodsOf).forM (lowerRoutine body) := by
    simp only [List.forM_eq_forM]
    rw [forM_flatMap]
    refine forM_congr fun c hc => ?_
    rw [Program.methodsOf, List.forM_map, ← hp.accepted.map_decl (hp.accepted.faithful hc),
      List.forM_map]
    rfl
  rw [lowerProgram, hmethods, hfunctions, Program.loweringOrder]
  simp only [List.forM_eq_forM, List.forM_append, List.forM_map, bind_assoc]
  rfl

/-- A function of a name is the only one, if names differ. -/
theorem filter_function {ds : List FunctionDecl} (h : (ds.map (·.name.name)).Nodup)
    (name : String) : ds.filter (·.name.name == name) =
      (ds.find? (·.name.name == name)).toList := by
  induction ds with
  | nil => rfl
  | cons d ds ih =>
      obtain ⟨hd, hnodup⟩ := List.nodup_cons.1 h
      by_cases hname : d.name.name = name
      · have hnone : ds.filter (·.name.name == name) = [] := by
          rw [List.filter_eq_nil_iff]
          intro d' hd' heq
          exact hd (List.mem_map.2 ⟨d', hd', (beq_iff_eq.1 heq).trans hname.symm⟩)
        rw [List.filter_cons_of_pos (by simpa using hname), hnone,
          List.find?_cons_of_pos (by simpa using hname)]
        rfl
      · rw [List.filter_cons_of_neg (by simpa using hname), ih hnodup,
          List.find?_cons_of_neg (by simpa using hname)]

/-- All functions and methods get their code, each of them once. -/
theorem Program.loweringOrder_perm (h : (p.functions.map (·.name.name)).Nodup)
    (classes : List ClassRef) : (p.loweringOrder classes).Perm (p.routines classes) := by
  have hsplit := List.filter_append_perm (fun f : FunctionDecl => f.name.name != mainName)
    p.functions
  have hrest : (fun f : FunctionDecl => !(f.name.name != mainName)) =
      fun f => f.name.name == mainName := by
    funext f
    simp [bne]
  rw [hrest, filter_function h] at hsplit
  refine (List.perm_append_comm_assoc ..).trans (List.Perm.append_left _ ?_)
  rw [← List.map_append]
  exact hsplit.map _

/-- At first no procedure of a routine has code. -/
theorem Program.Progress.start (ha : p.Accepted body.options.printFunction body.analysis)
    (h₀ : body.layouts.Built p body.analysis routines T₀) :
    p.Progress body routines (p.loweringOrder body.analysis.classes.classes) []
      { target := T₀ } := by
  refine ⟨h₀.stands ha, h₀.interfaces ha, h₀.declared.sound, h₀.classes,
    fun x hx _ => h₀.declared.declared x hx, fun x hx hm => ?_, nofun, nofun, rfl,
    h₀.declared.size, List.Pairwise.nil⟩
  rw [(p.loweringOrder_perm ha.wellFormed.functionNames _).mem_iff, ← h₀.order] at hm
  exact absurd (List.mem_map_of_mem hx) hm

/-- In the end all procedures have their code. -/
theorem does_lowerProgram (hp : p.Prepared body)
    (h₀ : body.layouts.Built p body.analysis routines T₀) :
    Does (lowerProgram body p) { target := T₀ } fun _ s => p.Progress body routines [] [] s := by
  have hperm := p.loweringOrder_perm hp.accepted.wellFormed.functionNames
    body.analysis.classes.classes
  have hnodup := hperm.nodup_iff.2 (p.nodup_routines hp.accepted)
  rw [lowerProgram_eq hp]
  refine Does.bind (does_forM (I := fun rest s => p.Progress body routines rest s.allocators s)
    (fun r rest s hsuffix h => ?_) (.start hp.accepted h₀)) fun _ s h => ?_
  · have hmem : r ∈ routines.map Prod.fst := by
      rw [h₀.order, ← hperm.mem_iff]
      exact hsuffix.subset (List.mem_cons_self ..)
    obtain ⟨⟨r, sg⟩, hx, rfl⟩ := List.mem_map.1 hmem
    exact does_lowerRoutine hp h₀ hx (List.nodup_cons.1 (hsuffix.sublist.nodup hnodup)).1 h
  · refine Does.seq (does_get ?_)
    have hids : s.allocators.Nodup := by
      refine List.Nodup.of_map Prod.snd ?_
      rw [h.ids]
      exact List.nodup_range'
    refine (does_forM (I := fun waiting s' => s'.allocators = s.allocators ∧
      p.Progress body routines [] waiting s') (fun x waiting s' hsuffix h => ?_) ⟨rfl, h⟩).mono
        fun _ _ h => h.2
    obtain ⟨hsame, h⟩ := h
    rw [← hsame]
    refine does_lowerAllocator hp h₀ ?_ (List.nodup_cons.1 (hsuffix.sublist.nodup hids)).1 h
    exact hsame ▸ hsuffix.subset (List.mem_cons_self ..)

/-- Every procedure is a constructor, that of a routine, or one that makes arrays. -/
theorem Program.Progress.procedures {rest : List Routine} {waiting : List (ValueType × Nat)}
    {s : LowerState} (h : p.Progress body routines rest waiting s)
    (h₀ : body.layouts.Built p body.analysis routines T₀) {id : Nat} (hid : id < s.target.size) :
    (∃ (c : ClassRef) (layout : ClassLayout), c.Faithful p ∧
      body.layouts.class? c.name = some layout ∧ layout.constructor = id) ∨
    (∃ x ∈ routines, x.2.procedure = id) ∨ ∃ x ∈ s.allocators, x.2 = id := by
  rw [h.size] at hid
  rcases Nat.lt_or_ge id body.analysis.classes.classes.length with hlt | hge
  · exact .inl (h₀.constructors id hlt)
  rcases Nat.lt_or_ge id (body.analysis.classes.classes.length + routines.length) with hlt | hge'
  · have hmem : id ∈ routines.map (·.2.procedure) := by
      rw [h₀.declared.ids, List.mem_range'_1]
      exact ⟨hge, hlt⟩
    obtain ⟨x, hx, rfl⟩ := List.mem_map.1 hmem
    exact .inr (.inl ⟨x, hx, rfl⟩)
  · have hmem : id ∈ s.allocators.map Prod.snd := by
      rw [h.ids, List.mem_range'_1]
      exact ⟨hge', hid⟩
    obtain ⟨x, hx, rfl⟩ := List.mem_map.1 hmem
    exact .inr (.inr ⟨x, hx, rfl⟩)

end whole

section compiling

/-- What is known of a compiled program: what it was made from, and how its procedures look. -/
structure Program.Compiled (p : Program) (body : Body) (routines : List (Routine × Signature))
    (s : LowerState) : Prop where
  prepared : p.Prepared body
  built : ∃ T₀, body.layouts.Built p body.analysis routines T₀
  done : p.Progress body routines [] [] s

/-- Every function and method of a compiled program has a procedure with its code. -/
theorem Program.Compiled.exists_coded {p : Program} {body : Body}
    {routines : List (Routine × Signature)} {s : LowerState} {r : Routine}
    (h : p.Compiled body routines s) (hr : r.Belongs p) :
    ∃ sg, body.layouts.signature? r = some sg ∧ r.Coded p body s sg.procedure := by
  obtain ⟨T₀, h₀⟩ := h.built
  obtain ⟨sg, hx⟩ : ∃ sg, (r, sg) ∈ routines := by
    obtain ⟨owner, decl⟩ := r
    cases owner with
    | none => exact h₀.mem_functions hr
    | some c => exact h₀.mem_methods h.prepared.accepted hr.1 hr.2
  exact ⟨sg, h₀.signatures _ hx, h.done.coded _ hx List.not_mem_nil⟩

/-- What the procedures of a compiled program are: the constructors of its classes, the code of its
functions and methods, and those that make arrays. -/
inductive Program.HasProcedure (p : Program) (body : Body) (routines : List (Routine × Signature))
    (s : LowerState) : Nat → Procedure → Prop
  | constructor {c : ClassRef} {l : ClassLayout} {fields : List Field} : c.Faithful p →
      body.layouts.class? c.name = some l →
      s.target.module.structs[l.struct]? = some ⟨c.name, fields⟩ →
      List.Forall₂ (fun x f => Represents p body.analysis.arrays body.layouts.structs s.target
        x.2.plain f.type) (p.fieldsOf c.name) fields →
      p.HasProcedure body routines s l.constructor
        (constructorCode c.name l.struct (s.target.module.sizeOf (.struct l.struct)) fields)
  | routine {x : Routine × Signature} {q : Procedure} : x ∈ routines → x.1.Belongs p →
      x.1.Coded p body s x.2.procedure →
      s.target.module.procedures[x.2.procedure]? = some q →
      p.HasProcedure body routines s x.2.procedure q
  | allocator {x : ValueType × Nat} {t : PlainType} {layout : ArrayLayout} {name : String} :
      x ∈ s.allocators →
      Represents p body.analysis.arrays body.layouts.structs s.target t layout.element →
      s.target.module.structs[layout.struct]? = some ⟨name, ArrayLayout.fields layout.element⟩ →
      p.HasProcedure body routines s x.2 (allocatorCode x.1 layout.pointerType layout
        (s.target.module.sizeOf layout.element))

/-- Every procedure of a compiled program is one of these. -/
theorem Program.Compiled.hasProcedure {p : Program} {body : Body}
    {routines : List (Routine × Signature)} {s : LowerState} (h : p.Compiled body routines s)
    {id : Nat} {q : Procedure} (hq : s.target.module.procedures[id]? = some q) :
    p.HasProcedure body routines s id q := by
  obtain ⟨T₀, h₀⟩ := h.built
  rcases h.done.procedures h₀ (Array.getElem?_eq_some_iff.1 hq).1 with
    ⟨c, l, hc, hl, rfl⟩ | ⟨x, hx, rfl⟩ | ⟨x, hx, rfl⟩
  · obtain ⟨l', hl', hfilled⟩ := h.done.classes c hc
    obtain rfl := Option.some.inj (hl.symm.trans hl')
    obtain ⟨fields, hs, hfields⟩ := hfilled.fields
    obtain rfl := Option.some.inj (hfilled.constructor.symm.trans hq)
    rw [constructorOf_eq c.name hs]
    exact .constructor hc hl hs hfields
  · have hbelongs := h.prepared.accepted.belongs (h₀.order ▸ List.mem_map_of_mem (f := Prod.fst) hx)
    exact .routine hx hbelongs (h.done.coded x hx List.not_mem_nil) hq
  · obtain ⟨t, layout, name, _, _, hr, hs, hcode⟩ := h.done.makes x hx List.not_mem_nil
    obtain rfl := Option.some.inj (hcode.symm.trans hq)
    exact .allocator hx hr hs

/-- The layouts of an analysed program, and the state in which making its code ends. -/
def Program.lowered (p : Program) (a : Analysis) (options : CompileOptions) :
    Except MissingFact (Layouts × LowerState) := do
  let (layouts, target) := (Layouts.build p a).run {}
  let ((), s) ← (lowerProgram { analysis := a, layouts, options } p).run { target }
  return (layouts, s)

theorem Program.lower_eq (p : Program) (a : Analysis) (options : CompileOptions) :
    p.lower a options = (p.lowered a options).map fun x => x.2.target.module := by
  let run := (lowerProgram { analysis := a, layouts := (Layouts.build p a {}).1, options } p).run
    { target := (Layouts.build p a {}).2 }
  have hlower : p.lower a options = (do let r ← run; return r.2.target.module) := rfl
  have hlowered : p.lowered a options =
      (do let r ← run; return ((Layouts.build p a {}).1, r.2)) := rfl
  rw [hlower, hlowered]
  cases run <;> rfl

/-- Making code for an accepted program misses no fact. -/
theorem Program.Accepted.lowered {p : Program} {options : CompileOptions} {a : Analysis}
    (ha : p.Accepted options.printFunction a) : ∃ body routines s, body.analysis = a ∧
      body.options = options ∧ p.Compiled body routines s ∧
      p.lowered a options = .ok (body.layouts, s) ∧
      lowerProgram body p { target := (Layouts.build p a {}).2 } = .ok ((), s) := by
  obtain ⟨routines, h₀⟩ := builds_layouts ha
  let body : Body :=
    { analysis := a, layouts := (Layouts.build p a {}).1, options }
  have hp : p.Prepared body := ⟨ha, rfl, rfl⟩
  obtain ⟨_, s, hs, hdone⟩ := does_lowerProgram hp h₀
  refine ⟨body, routines, s, rfl, rfl, ⟨hp, ⟨_, h₀⟩, hdone⟩, ?_, hs⟩
  have hrun : p.lowered a options = (do
      let r ← (lowerProgram body p).run { target := (Layouts.build p a {}).2 }
      return (body.layouts, r.2)) := rfl
  rw [hrun, StateT.run, hs]
  rfl

theorem Program.Accepted.lower {p : Program} {options : CompileOptions} {a : Analysis}
    (ha : p.Accepted options.printFunction a) : ∃ body routines s, body.analysis = a ∧
      body.options = options ∧ p.Compiled body routines s ∧
      p.lower a options = .ok s.target.module := by
  obtain ⟨body, routines, s, ha, hoptions, hcompiled, hlowered, _⟩ := ha.lowered
  refine ⟨body, routines, s, ha, hoptions, hcompiled, ?_⟩
  rw [p.lower_eq, hlowered]
  rfl

variable {source : String} {options : CompileOptions} {p : Program} {m : Module}

/-- An accepted program has a module. -/
theorem Program.exists_compile (hp : p.ids.Nodup)
    (ha : (p.analyze options.printFunction).isAccepted = true) : ∃ body routines s,
      body.options = options ∧ p.Compiled body routines s ∧
        p.compile options = .ok s.target.module := by
  obtain ⟨body, routines, s, _, hoptions, hcompiled, hlower⟩ :=
    (Program.accepted_of_ids hp ha).lower
  refine ⟨body, routines, s, hoptions, hcompiled, ?_⟩
  rw [Program.compile, if_pos ha, hlower]
  rfl

/-- The text of an accepted program has a module. -/
theorem compile_of_isAccepted (hp : Program.ofText source = .ok p)
    (ha : (p.analyze options.printFunction).isAccepted = true) : ∃ body routines s,
      body.options = options ∧ p.Compiled body routines s ∧
      compile source options = .ok s.target.module := by
  obtain ⟨body, routines, s, hoptions, hcompiled, hm⟩ :=
    p.exists_compile (p.numbered_ofText hp).nodup ha
  refine ⟨body, routines, s, hoptions, hcompiled, ?_⟩
  rw [compile, hp]
  exact hm

/-- A text that has a module is the text of an accepted program. -/
theorem exists_of_compile (h : compile source options = .ok m) : ∃ p body routines s,
    Program.ofText source = .ok p ∧ (p.analyze options.printFunction).isAccepted = true ∧
      body.options = options ∧ p.Compiled body routines s ∧ s.target.module = m := by
  cases hp : Program.ofText source with
  | error errors =>
      rw [compile, hp] at h
      cases h
  | ok p =>
      have hsource : compile source options = p.compile options := by
        rw [compile, hp]
        rfl
      have ha : (p.analyze options.printFunction).isAccepted = true := by
        by_contra hn
        rw [hsource, Program.compile, if_neg hn] at h
        cases h
      obtain ⟨body, routines, s, hoptions, hcompiled, hm⟩ := compile_of_isAccepted hp ha
      exact ⟨p, body, routines, s, rfl, ha, hoptions, hcompiled, Except.ok.inj (hm.symm.trans h)⟩

/-- A text is that of an accepted program with a certain function if it is found to be so. -/
theorem exists_function_of_any (source : String) (f : FunctionDecl → Bool)
    (h : (Program.ofText source).toOption.any (fun p =>
      (p.analyze "printInt").isAccepted && p.functions.any f) = true) :
    ∃ p d, Program.ofText source = .ok p ∧ (p.analyze "printInt").isAccepted = true ∧
      Routine.Belongs p ⟨none, d⟩ ∧ f d = true := by
  obtain ⟨p, hp, hread⟩ := exists_ok_of_any h
  obtain ⟨ha, hfunctions⟩ := Bool.and_eq_true_iff.1 hread
  obtain ⟨d, hd, hf⟩ := List.any_eq_true.1 hfunctions
  exact ⟨p, d, hp, ha, hd, hf⟩

/-- A program with a class, an array, a loop and calls. -/
def summingText : String :=
  "class A \x7b int x; int sum(int[] b) \x7b int i; " ++
    "while (i < b.length) { x = x + b[i]; i = i + 1; } return x; \x7d \x7d " ++
    "int main() { int[] b; b = new int[2]; b[1] = 5; return new A().sum(b); }"

theorem exists_summing : ∃ p, Program.ofText summingText = .ok p ∧
    (p.analyze "printInt").isAccepted = true :=
  exists_ok_of_any (by decide +kernel)

theorem exists_compile_summing : ∃ m, compile summingText {} = .ok m := by
  obtain ⟨p, hp, ha⟩ := exists_summing
  obtain ⟨_, _, s, -, -, hm⟩ := @compile_of_isAccepted _ {} _ hp ha
  exact ⟨_, hm⟩

end compiling

end ObjectLang
