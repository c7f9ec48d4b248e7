import Mathlib.Tactic
import ObjectLang.Lowering.Programs
import ObjectLang.Proofs.Layout.Routines
import ObjectLang.Proofs.Lowering.Bodies
import ObjectLang.Proofs.Lowering.Tracks

/-!
# Filling procedures

A procedure that has no blocks yet gets its code: the builder starts with it, and what was built
takes its place. All other procedures stay, and so do its name and its types. The code of a function
or a method is made from a stage that the procedure starts with.
-/
namespace ObjectLang

open IR

section filling

/-- A procedure took the place of another one of the same types. -/
structure Target.Fills (T : Target) (id : Nat) (q : Procedure) (T' : Target) : Prop
    extends T.Keeps T' where
  grows : T.module.Grows T'.module
  others : ∀ (i : Nat) (p : Procedure), i ≠ id → T.module.procedures[i]? = some p →
    T'.module.procedures[i]? = some p
  filled : T'.module.procedures[id]? = some q

/-- The types of a procedure stay while it is built. -/
theorem IR.Procedure.Within.interface {p q : Procedure} (h : p.Within q)
    (hparams : ∀ t ∈ p.params, t < p.temps.size) : q.interface = p.interface := by
  rw [Procedure.interface, Procedure.interface, h.params, h.returnType]
  refine congrArg (Interface.mk · p.returnType) (List.map_congr_left fun t ht => ?_)
  have hget := Array.getElem?_eq_getElem (hparams t ht)
  rw [hget, h.temps _ _ hget]

theorem Target.Leads.fills {T T₁ : Target} {id : Nat} {p q : Procedure} (h : T.Leads T₁)
    (hp : T.module.procedures[id]? = some p) (hq : q.interface = p.interface) :
    T.Fills id q (T₁.setProcedure id q) := by
  have hid := h.procedures _ _ hp
  have hlt := (Array.getElem?_eq_some_iff.1 hid).1
  have hfilled : (T₁.setProcedure id q).module.procedures[id]? = some q := by
    simp [Target.setProcedure, hlt]
  have hothers : ∀ (i : Nat) (p : Procedure), i ≠ id → T.module.procedures[i]? = some p →
      (T₁.setProcedure id q).module.procedures[i]? = some p := by
    intro i p hi hp
    rw [Target.setProcedure, Array.getElem?_setIfInBounds, if_neg hi.symm]
    exact h.procedures _ _ hp
  refine ⟨⟨h.structs, h.arrays⟩, ⟨h.structs, fun i x hx => ?_⟩, hothers, hfilled⟩
  obtain ⟨p', hp', rfl⟩ := Option.map_eq_some_iff.1 hx
  rw [Module.interface?]
  by_cases hi : i = id
  · subst hi
    obtain rfl := Option.some.inj (hp'.symm.trans hp)
    rw [hfilled, Option.map_some, hq]
  · rw [hothers i p' hi hp', Option.map_some]

theorem Target.Sound.setProcedure {p : Program} {arrays : ArrayTypes} {structs : ClassStructs}
    {T : Target} (h : T.Sound p arrays structs) (id : Nat) (q : Procedure) :
    (T.setProcedure id q).Sound p arrays structs := by
  refine ⟨fun V layout hm => ?_, h.unique, h.named⟩
  obtain ⟨t, name, hd, hr, hs⟩ := h.struct V layout hm
  exact ⟨t, name, hd, hr.mono (List.prefix_refl _), hs⟩

theorem Target.size_setProcedure (T : Target) (id : Nat) (q : Procedure) :
    (T.setProcedure id q).size = T.size :=
  Array.size_setIfInBounds

/-- A procedure is filled with what is built from its start. -/
theorem does_fillProcedure {s : LowerState} {id : Nat} {entry : String} {q : Procedure}
    {build : Lower Unit} {Q : Unit → LowerState → Prop}
    (hq : s.target.module.procedures[id]? = some q)
    (h : Does build { s with builder := Builder.start q entry } fun _ s' =>
      Q ⟨⟩ { s' with target := s'.target.setProcedure id s'.builder.procedure }) :
    Does (fillProcedure id entry build) s Q := by
  unfold fillProcedure
  refine Does.seq (does_get ?_)
  refine Does.seq (does_known hq ?_)
  refine Does.seq (does_modify ?_)
  exact h.bind fun _ s' hQ => does_modify hQ

end filling

section starting

variable {q : Procedure} {m : Module}

/-- The builder is at the start of a procedure that has no blocks yet. -/
theorem ready_start (hq : q.blocks = #[]) (entry : String) :
    (Builder.start q entry).Ready m [] := by
  have hblocks := Builder.blocks_start entry hq
  have hcurrent : (Builder.start q entry).current = some 0 := by
    rw [Builder.current_start, hq]
    rfl
  have hone : ∀ (i : Nat) (c : Block), (Builder.start q entry).procedure.blocks[i]? = some c →
      i = 0 ∧ c = ⟨entry, [], none⟩ := by
    intro i c hc
    rw [hblocks] at hc
    cases i with
    | zero => exact ⟨rfl, (Option.some.inj hc).symm⟩
    | succ i => cases hc
  refine ⟨by rw [hblocks]; exact Nat.one_pos, fun i c hc => ?_, fun i hi => ?_,
    List.forall_mem_nil _, List.nodup_nil, fun i c hc hi => absurd (hone i c hc).1 hi,
    fun i c hc => ?_⟩
  · obtain ⟨rfl, rfl⟩ := hone i c hc
    simp [hcurrent]
  · rw [hcurrent] at hi
    obtain rfl := Option.some.inj hi
    exact ⟨by rw [hblocks]; exact Nat.one_pos, List.not_mem_nil⟩
  · obtain ⟨_, rfl⟩ := hone i c hc
    exact ⟨List.forall_mem_nil _, fun t ht => by cases ht⟩

end starting

namespace Routine

variable (r : Routine)

/-- The class that a routine is a method of. -/
def current : Option String :=
  r.owner.map ClassRef.name

/-- The temporaries of the parameters; that of the receiver comes before them. -/
def temps : List Nat :=
  List.range' r.owner.toList.length r.decl.params.length

/-- What the code of a routine is made from. -/
def job (p : Program) (body : Body) : Job where
  program := p
  printName := body.options.printFunction
  body := { body with this := r.owner.map fun _ => 0 }
  result := r.decl.returnType.plain
  current := r.current

/-- The place where its body starts. -/
def context (p : Program) (body : Body) : Context :=
  r.decl.context p body.options.printFunction r.current

/-- The procedure of a routine was filled: it was without blocks, and its code has been made. -/
structure Made (p : Program) (body : Body) (s s' : LowerState) : Prop where
  start : ∃ q types returnType, Procedure.Bare r.name types returnType q ∧
    types.length = r.owner.toList.length + r.decl.params.length ∧
    s.builder = Builder.start q "entry"
  finishes : ∃ xs, (r.job p body).Finishes (r.context p body) r.decl r.temps xs s s'
  disciplined : s'.builder.procedure.Disciplined
  stage : (r.job p body).Stage [] s
  typed : ∀ x ∈ r.temps.zip r.decl.params, (r.job p body).Typed s (.temp x.1) x.2.plain
  ran : lowerBody body r.owner.isSome r.decl s = .ok ((), s')

end Routine

/-- What is known of the body that the routines of a program have in common. -/
structure Program.Prepared (p : Program) (body : Body) : Prop where
  accepted : p.Accepted body.options.printFunction body.analysis
  this : body.this = none
  slots : body.slots = []

/-- What is known of the routines of a program. -/
structure Routine.Proper (p : Program) (body : Body) (r : Routine) : Prop where
  owner : ∀ c, r.owner = some c → c.Faithful p
  wellFormed : r.decl.WellFormed p body.options.printFunction r.current
  recorded : r.decl.Recorded body.analysis.arrays body.analysis.notes
    (p.place body.options.printFunction r.current)
  ids : r.decl.ids.Nodup

section routines

variable {p : Program} {body : Body} {r : Routine} {sg : Signature} {s : LowerState}

theorem Program.Prepared.proper (h : p.Prepared body)
    (hr : r ∈ p.routines body.analysis.classes.classes) : r.Proper p body := by
  have ha := h.accepted
  have hbelongs := ha.belongs hr
  obtain ⟨owner, d⟩ := r
  cases owner with
  | some c =>
      obtain ⟨hf, hd⟩ : c.Faithful p ∧ d ∈ (p.classDecl c).methods := hbelongs
      have hcurrent : (Routine.mk (some c) d).current = some (p.classDecl c).name.name :=
        congrArg some hf.classDecl_name.symm
      have hids : (p.classDecl c).ids.Nodup :=
        (List.nodup_flatMap.1 (List.nodup_append'.1 ha.ids).1).1 _ hf.mem
      refine ⟨?_, ?_, ?_, ?_⟩
      · rintro c' ⟨⟩
        exact hf
      · exact hcurrent ▸ ha.wellFormed.methods _ hf.mem d hd
      · exact hcurrent ▸ ha.recorded.methods _ hf.mem d hd
      · exact (List.nodup_flatMap.1 (List.nodup_append'.1 (List.nodup_cons.1 hids).2).2.1).1 d hd
  | none =>
      have hd : d ∈ p.functions := hbelongs
      exact ⟨nofun, ha.wellFormed.functions d hd, ha.recorded.functions d hd,
        (List.nodup_flatMap.1 (List.nodup_append'.1 ha.ids).2.1).1 d hd⟩

section making

variable {q : Procedure} {structs : ClassStructs}
  (hq : Procedure.Bare r.name ((r.receiver structs).toList ++ sg.params) sg.returnType q)
  (hlength : sg.params.length = r.decl.params.length)
include hlength

theorem length_start : ((r.receiver structs).toList ++ sg.params).length =
    r.owner.toList.length + r.decl.params.length := by
  rw [List.length_append, hlength, Routine.receiver]
  cases r.owner <;> rfl

include hq

theorem temps_start : (if r.owner.isSome then q.params.tail else q.params) = r.temps := by
  rw [hq.params, length_start hlength, Routine.temps, List.range_eq_range']
  cases r.owner with
  | none => simp
  | some c => simp [Nat.add_comm 1, List.range'_succ]

theorem this_start : (if r.owner.isSome then q.params.head? else none) =
    r.owner.map fun _ => 0 := by
  rw [hq.params, length_start hlength, List.range_eq_range']
  cases r.owner with
  | none => rfl
  | some c => simp [Nat.add_comm 1, List.range'_succ]

end making

section making

variable {q : Procedure} (hp : p.Prepared body) (hr : r.Proper p body)
  (hq : Procedure.Bare r.name ((r.receiver body.layouts.structs).toList ++ sg.params)
    sg.returnType q)
  (hs : sg.Stands p body.analysis.arrays body.layouts.structs s.target r.decl)
include hq hs

/-- The parameters of a routine have the types that its procedure starts with. -/
theorem typed_start : ∀ x ∈ r.temps.zip r.decl.params, (r.job p body).Typed
    { s with builder := Builder.start q "entry" } (.temp x.1) x.2.plain := by
  intro x hx
  obtain ⟨i, hi, hget⟩ := List.mem_iff_getElem.1 hx
  rw [List.length_zip] at hi
  have hlength := hs.params.length_eq
  have hi' : i < r.decl.params.length := by omega
  have hfst : x.1 = (r.receiver body.layouts.structs).toList.length + i := by
    have hcount : (r.receiver body.layouts.structs).toList.length = r.owner.toList.length := by
      rw [Routine.receiver]
      cases r.owner <;> rfl
    rw [← hget, List.getElem_zip, hcount]
    simp [Routine.temps]
  have hsnd : x.2 = r.decl.params[i] := by
    simp only [← hget, List.getElem_zip]
  refine ⟨sg.params[i], (hq.typeOf? x.1).trans ?_, ?_⟩
  · rw [hfst, List.getElem?_append_right (Nat.le_add_right ..), Nat.add_sub_cancel_left]
    exact List.getElem?_eq_getElem _
  · rw [hsnd]
    exact hs.params.get (by omega) (by omega)

variable (hlayouts : body.layouts.Stands p body.analysis.arrays s.target)
  (hinterfaces : body.layouts.Interfaces p s.target.module)
  (htarget : s.target.Sound p body.analysis.arrays body.layouts.structs)
  (hallocators : ∀ x ∈ s.allocators, ∃ t, (r.job p body).Allocates s.target x.1 x.2 t)
include hp hr hlayouts hinterfaces htarget hallocators

/-- The start of the procedure of a routine is a stage. -/
theorem stage_start : (r.job p body).Stage [] { s with builder := Builder.start q "entry" } where
  wellFormed := hp.accepted.wellFormed
  canonical := hp.accepted.arrays
  fieldTypes := hp.accepted.recorded.fields
  layouts := hlayouts
  interfaces := hinterfaces
  target := htarget
  allocators := hallocators
  builder := ready_start hq.blocks "entry"
  result := hq.returnType ▸ hs.returnType
  slotTypes dest type hd := by
    rw [slots_start hq.blocks] at hd
    cases hd
  receiver c hc := by
    obtain ⟨c, howner, rfl⟩ := Option.map_eq_some_iff.1 hc
    obtain ⟨id, hid⟩ := hlayouts.exists_struct c (hr.owner c howner)
    refine ⟨0, by simp [Routine.job, howner], .pointer (.struct id), ?_, .object hid⟩
    refine (hq.typeOf? 0).trans ?_
    simp [Routine.receiver, howner, ClassStructs.pointerType, hid]
  slots := hp.slots
  vars := nofun
  ids := List.nodup_nil
  temps := List.nodup_nil

/-- The code of a body is made from a procedure without blocks. -/
theorem does_lowerBody : Does (lowerBody body r.owner.isSome r.decl)
    { s with builder := Builder.start q "entry" } fun _ s' =>
      (∃ xs, (r.job p body).Finishes (r.context p body) r.decl r.temps xs
        { s with builder := Builder.start q "entry" } s') ∧
      s'.builder.procedure.Disciplined := by
  have hlength := hs.params.length_eq.symm
  have hstage := stage_start hp hr hq hs hlayouts hinterfaces htarget hallocators
  have hbody := does_body (f := r.decl) (Γ := r.context p body) hstage rfl
    ⟨rfl, rfl, rfl, nofun⟩ rfl (List.length_range' .. : r.temps.length = _)
      (typed_start hq hs) hr.ids
    hr.wellFormed.body hr.recorded.body hr.wellFormed.returns
  rw [lowerBody_eq]
  refine Does.seq (does_get ?_)
  have hparams : (Builder.start q "entry").procedure.params = q.params := rfl
  simp only [hparams, temps_start hq hlength, this_start hq hlength]
  have htemps := temps_start hq hlength
  have hthis := this_start (r := r) hq hlength
  have hsupplies := Builder.Supplies.start hq.blocks hq.params_lt "entry"
  refine (hbody.and fun a s' heq => tracks_body ?_ ?_ _ a s' hsupplies heq).mono fun _ s' hz =>
    ⟨hz.1, hz.2.disciplined⟩
  · intro t ht
    change t ∈ r.temps at ht
    rw [← htemps] at ht
    split at ht
    · exact List.mem_of_mem_tail ht
    · exact ht
  · intro t ht
    change (r.owner.map fun _ => 0) = some t at ht
    rw [← hthis] at ht
    split at ht
    · exact List.mem_of_head? ht
    · cases ht

/-- The code of a routine is made from its procedure without blocks. -/
theorem does_routine : Does (lowerBody body r.owner.isSome r.decl)
    { s with builder := Builder.start q "entry" } fun _ s' =>
      r.Made p body { s with builder := Builder.start q "entry" } s' := by
  have hmade := does_lowerBody hp hr hq hs hlayouts hinterfaces htarget hallocators
  refine (hmade.and fun _ s' hran => hran).mono fun _ s' hz => ?_
  exact ⟨⟨q, _, _, hq, length_start hs.params.length_eq.symm, rfl⟩, hz.1.1, hz.1.2,
    stage_start hp hr hq hs hlayouts hinterfaces htarget hallocators, typed_start hq hs, hz.2⟩

end making

end routines

end ObjectLang
