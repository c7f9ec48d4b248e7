import Mathlib.Tactic
import ObjectLang.Proofs.IR.Definitions
import ObjectLang.Proofs.Machine.Memory
import ObjectLang.Proofs.Machine.Shape

/-!
# What activations keep

A frame is one activation of a procedure. Where each temporary is assigned by one instruction at
most, the slots that a frame has taken stay where they are, in allocations of their own: no two
slots share one, be they of one frame or of two. And while an activation goes on from one place of
its procedure to another, through blocks that were made between them, a temporary that was assigned
before keeps its value, whatever is called on the way.
-/
namespace ObjectLang.IR

section once

variable {is js : List Instruction} {i j : Instruction} {q : Procedure} {b c : Block} {n k t : Nat}

theorem not_mem_dests_of_append (h : (destsOf (is ++ js)).Nodup) (hi : i ∈ is)
    (hdest : i.dest? = some t) (hj : j ∈ js) : j.dest? ≠ some t := by
  rw [destsOf_append, List.nodup_append'] at h
  exact fun heq => h.2.2 (mem_destsOf.2 ⟨i, hi, hdest⟩) (mem_destsOf.2 ⟨j, hj, heq⟩)

theorem eq_of_nodup_dests (h : (destsOf is).Nodup) (hi : i ∈ is) (hj : j ∈ is)
    (hdest : i.dest? = some t) (hdest' : j.dest? = some t) : i = j := by
  obtain ⟨before, behind, rfl⟩ := List.mem_iff_append.1 hi
  rcases List.mem_append.1 hj with hj | hj
  · rw [destsOf_append, List.nodup_append'] at h
    exact absurd (mem_destsOf.2 ⟨i, List.mem_cons_self, hdest⟩)
      (h.2.2 (mem_destsOf.2 ⟨j, hj, hdest'⟩))
  · rcases List.mem_cons.1 hj with rfl | hj
    · rfl
    · rw [List.append_cons] at h
      exact absurd hdest' (not_mem_dests_of_append h (List.mem_append_right _
        (List.mem_singleton_self i)) hdest hj)

namespace Procedure.Disciplined

variable (h : q.Disciplined)
include h

theorem nodup_block (hb : q.blocks[n]? = some b) : (destsOf b.instructions).Nodup :=
  (List.nodup_flatMap.1 h.once).1 b (Array.mem_toList_iff.2 (Array.mem_of_getElem? hb))

/-- Two blocks assign different temporaries. -/
theorem dest_ne_of_ne (hb : q.blocks[n]? = some b) (hc : q.blocks[k]? = some c) (hne : n ≠ k)
    (hi : i ∈ b.instructions) (hdest : i.dest? = some t) (hj : j ∈ c.instructions) :
    j.dest? ≠ some t := by
  intro hdest'
  have hpairwise := List.pairwise_iff_getElem.1 (List.nodup_flatMap.1 h.once).2
  obtain ⟨hn, rfl⟩ := Array.getElem?_eq_some_iff.1 hb
  obtain ⟨hk, rfl⟩ := Array.getElem?_eq_some_iff.1 hc
  have hi' := mem_destsOf.2 ⟨i, hi, hdest⟩
  have hj' := mem_destsOf.2 ⟨j, hj, hdest'⟩
  rcases Nat.lt_or_gt_of_ne hne with hlt | hlt
  · exact hpairwise n k hn hk hlt hi' hj'
  · exact hpairwise k n hk hn hlt hj' hi'

/-- What the code of a procedure assigns is not one of its slots, and each slot is taken once. -/
theorem eq_of_slot {type : Ty} (hslot : .alloca t type ∈ q.slots) (hb : q.blocks[n]? = some b)
    (hi : i ∈ b.instructions) (hdest : i.dest? = some t) : i = .alloca t type := by
  rw [Procedure.slots] at hslot
  cases hc : q.blocks[0]? with
  | none =>
      rw [hc] at hslot
      cases hslot
  | some c =>
      rw [hc, Option.elim_some] at hslot
      have hmem : Instruction.alloca t type ∈ c.instructions := List.takeWhile_subset _ hslot
      by_cases hn : n = 0
      · subst hn
        obtain rfl := Option.some.inj (hb.symm.trans hc)
        exact eq_of_nodup_dests (h.nodup_block hb) hi hmem hdest rfl
      · exact absurd rfl (h.dest_ne_of_ne hb hc hn hi hdest hmem)

theorem not_slot (hb : q.blocks[n]? = some b) (hi : i ∈ b.instructions)
    (halloca : i.isAlloca = false) (hdest : i.dest? = some t) (type : Ty) :
    .alloca t type ∉ q.slots := by
  intro hslot
  rw [h.eq_of_slot hslot hb hi hdest] at halloca
  cases halloca

end Procedure.Disciplined

end once

end ObjectLang.IR

namespace ObjectLang.Machine

open IR

variable {m : Module} {s u : State} {f g : Frame} {memory memory' : Memory} {t t' id : Nat}

section effects

variable {α β : Type}

/-- A computation that succeeds does so in both of its parts. -/
theorem exists_of_bind {r : Except Fault α} {k : α → Except Fault β} {b : β}
    (h : (r >>= k) = .ok b) : ∃ a, r = .ok a ∧ k a = .ok b := by
  cases r with
  | error fault => cases h
  | ok a => exact ⟨a, rfl, h⟩

theorem eq_of_counted {r : Except Breakdown α} {a : α} (h : counted r = .ok a) : r = .ok a := by
  cases r with
  | error cause => cases h
  | ok b =>
      cases h
      rfl

/-- Allocations keep their sizes, and there may be more of them. -/
def Memory.Grows (memory memory' : Memory) : Prop :=
  ∀ id size, memory.sizeAt? id = some size → memory'.sizeAt? id = some size

theorem Memory.grows_allocate (memory : Memory) (size : Nat) :
    memory.Grows (memory.allocate size).2 := fun _ _ h =>
  (Memory.sizeAt?_congr (Memory.allocations_allocate_of_lt (Memory.lt_count_of_sizeAt? h))).trans h

theorem Memory.grows_put (memory : Memory) (a : Address) (v : Value) :
    memory.Grows (memory.put a v) :=
  fun _ _ h => Memory.sizeAt?_put.trans h

/-- What one step does to the frames of a run. -/
inductive Effect (m : Module) : State → State → Prop
  /-- An instruction that takes no slot and calls nothing assigns its temporary, if it has one. -/
  | plain {output output' : Array Int32} {p : Procedure} {block : Nat} {i : Instruction}
      {rest : List Instruction} {temps temps' : Array (Option Value)}
      {callers : List (Nat × Frame)} {memory memory' : Memory} : i.isAlloca = false →
      (∀ t, i.dest? ≠ some t → temps'[t]? = temps[t]?) → temps'.size = temps.size →
      memory.Grows memory' →
      Effect m ⟨⟨memory, output⟩, ⟨p, block, i :: rest, temps⟩, callers⟩
        ⟨⟨memory', output'⟩, ⟨p, block, rest, temps'⟩, callers⟩
  | slot {output : Array Int32} {p : Procedure} {block dest size : Nat} {type : Ty}
      {rest : List Instruction} {temps : Array (Option Value)} {callers : List (Nat × Frame)}
      {memory : Memory} : m.measure Profile.overflow.word type = .ok size →
      Effect m ⟨⟨memory, output⟩, ⟨p, block, .alloca dest type :: rest, temps⟩, callers⟩
        ⟨⟨(memory.allocate size).2, output⟩,
          ⟨p, block, rest, temps.setIfInBounds dest (some (.pointer (some ⟨memory.count, 0⟩)))⟩,
          callers⟩
  | call {w : World} {p : Procedure} {block dest callee : Nat} {args : List Operand}
      {rest : List Instruction} {temps : Array (Option Value)} {callers : List (Nat × Frame)}
      {values : List Value} {g : Frame} : enter m callee values = .ok g →
      Effect m ⟨w, ⟨p, block, .call dest callee args :: rest, temps⟩, callers⟩
        ⟨w, g, (dest, ⟨p, block, rest, temps⟩) :: callers⟩
  | goto {w : World} {p : Procedure} {block target : Nat} {temps : Array (Option Value)}
      {callers : List (Nat × Frame)} {b b' : Block} {t : Terminator} :
      p.blocks[block]? = some b → b.terminator = some t → target ∈ t.successors →
      p.blocks[target]? = some b' →
      Effect m ⟨w, ⟨p, block, [], temps⟩, callers⟩
        ⟨w, ⟨p, target, b'.instructions, temps⟩, callers⟩
  | leave {w : World} {f caller : Frame} {dest : Nat} {v : Value} {callers : List (Nat × Frame)} :
      f.todo = [] → Effect m ⟨w, f, (dest, caller) :: callers⟩ ⟨w, caller.set dest v, callers⟩

variable {output : Array Int32} {p : Procedure} {block : Nat} {rest : List Instruction}
  {temps : Array (Option Value)} {callers : List (Nat × Frame)} {i : Instruction} {action : Action}

theorem getElem?_assign {dest : Nat} {v : Option Value} (h : some dest ≠ some t) :
    (temps.setIfInBounds dest v)[t]? = temps[t]? := by
  rw [Array.getElem?_setIfInBounds, if_neg fun heq => h (congrArg some heq)]

theorem effect_of_instruction
    (haction : instructionAction m memory ⟨p, block, i :: rest, temps⟩ i = .ok action)
    (hu : State.perform ⟨⟨memory, output⟩, ⟨p, block, i :: rest, temps⟩, callers⟩ action =
      .running u) : Effect m ⟨⟨memory, output⟩, ⟨p, block, i :: rest, temps⟩, callers⟩ u := by
  cases i with
  | alloc dest size =>
      obtain ⟨n, -, haction⟩ := exists_of_bind haction
      split at haction
      · cases haction
      · cases haction
        cases hu
        exact .plain rfl (fun _ h => getElem?_assign h) Array.size_setIfInBounds
          (memory.grows_allocate _)
  | alloca dest type =>
      obtain ⟨size, hsize, haction⟩ := exists_of_bind haction
      cases haction
      cases hu
      exact .slot (eq_of_counted hsize)
  | bitcast | elementPtr | binary =>
      obtain ⟨_, -, haction⟩ := exists_of_bind haction
      cases haction
      cases hu
      exact .plain rfl (fun _ h => getElem?_assign h) Array.size_setIfInBounds fun _ _ h => h
  | load =>
      obtain ⟨_, -, haction⟩ := exists_of_bind haction
      obtain ⟨_, -, haction⟩ := exists_of_bind haction
      cases haction
      cases hu
      exact .plain rfl (fun _ h => getElem?_assign h) Array.size_setIfInBounds fun _ _ h => h
  | store =>
      obtain ⟨_, -, haction⟩ := exists_of_bind haction
      obtain ⟨_, -, haction⟩ := exists_of_bind haction
      obtain ⟨_, -, haction⟩ := exists_of_bind haction
      cases haction
      cases hu
      exact .plain rfl (fun _ _ => rfl) rfl (memory.grows_put _ _)
  | call =>
      obtain ⟨_, -, haction⟩ := exists_of_bind haction
      obtain ⟨_, hg, haction⟩ := exists_of_bind haction
      cases haction
      cases hu
      exact .call hg
  | print =>
      obtain ⟨_, -, haction⟩ := exists_of_bind haction
      cases haction
      cases hu
      exact .plain rfl (fun _ _ => rfl) rfl fun _ _ h => h
  | comment =>
      cases haction
      cases hu
      exact .plain rfl (fun _ _ => rfl) rfl fun _ _ h => h

theorem effect_of_goto {w : World} {b : Block} {t : Terminator} {target : Nat}
    (hb : p.blocks[block]? = some b) (ht : b.terminator = some t) (htarget : target ∈ t.successors)
    (haction : gotoAction ⟨p, block, [], temps⟩ target = .ok action)
    (hu : State.perform ⟨w, ⟨p, block, [], temps⟩, callers⟩ action = .running u) :
    Effect m ⟨w, ⟨p, block, [], temps⟩, callers⟩ u := by
  rw [gotoAction] at haction
  split at haction
  · next b' hb' =>
    cases haction
    cases hu
    exact .goto hb ht htarget hb'
  · cases haction

theorem effect_of_step (h : step m s = .running u) : Effect m s u := by
  obtain ⟨⟨memory, output⟩, ⟨p, block, todo, temps⟩, callers⟩ := s
  rw [step] at h
  split at h
  · next action haction =>
    cases todo with
    | cons i rest => exact effect_of_instruction haction h
    | nil =>
        change terminatorAction _ (p.blocks[block]?.bind Block.terminator) = _ at haction
        cases ht : p.blocks[block]?.bind Block.terminator with
        | none =>
            rw [ht] at haction
            cases haction
        | some t =>
            rw [ht] at haction
            obtain ⟨b, hb, ht⟩ := Option.bind_eq_some_iff.1 ht
            cases t with
            | jump target => exact effect_of_goto hb ht (List.mem_singleton_self _) haction h
            | branch condition onTrue onFalse =>
                obtain ⟨v, -, haction⟩ := exists_of_bind haction
                split at haction
                · exact effect_of_goto hb ht (List.mem_cons_self ..) haction h
                · exact effect_of_goto hb ht (by simp [Terminator.successors]) haction h
                · cases haction
            | ret x =>
                obtain ⟨v, -, haction⟩ := exists_of_bind haction
                cases haction
                cases callers with
                | nil => cases h
                | cons caller callers =>
                    cases h
                    exact .leave rfl
            | halt message => cases haction
  · cases h

end effects

section slots

/-- A frame has taken a slot, and it is an allocation. -/
structure Frame.Owns (f : Frame) (t id : Nat) : Prop where
  taken : ∃ type, .alloca t type ∈ f.procedure.slots ∧ .alloca t type ∉ f.todo
  temp : f.temps[t]? = some (some (.pointer (some ⟨id, 0⟩)))

/-- The slots that a frame has taken are allocations of their own. -/
structure Frame.Housed (m : Module) (memory : Memory) (f : Frame) : Prop where
  size : f.temps.size = f.procedure.temps.size
  slots : ∀ t type, .alloca t type ∈ f.procedure.slots → .alloca t type ∉ f.todo →
    ∃ id size, f.Owns t id ∧ memory.sizeAt? id = some size ∧
      m.measure Profile.overflow.word type = .ok size
  apart : ∀ t t' id, f.Owns t id → f.Owns t' id → t = t'

/-- The frames of a state, the one that runs first. -/
def State.frames (s : State) : List Frame :=
  s.frame :: s.callers.map Prod.snd

/-- The slots of all frames are allocations of their own, and no frame waits for a slot. -/
structure State.Housed (m : Module) (s : State) : Prop where
  frames : ∀ f ∈ s.frames, f.Housed m s.world.memory
  apart : s.frames.Pairwise fun f g => ∀ t t' id, f.Owns t id → ¬ g.Owns t' id
  waiting : ∀ c ∈ s.callers, ∀ type, .alloca c.1 type ∉ c.2.procedure.slots

/-- A frame goes on in its procedure, and the slots that it has taken then are where they were. -/
structure Frame.Continues (f g : Frame) : Prop where
  procedure : g.procedure = f.procedure
  size : g.temps.size = f.temps.size
  slots : ∀ t type, .alloca t type ∈ f.procedure.slots → .alloca t type ∉ g.todo →
    .alloca t type ∉ f.todo ∧ g.temps[t]? = f.temps[t]?

theorem Frame.Continues.owns (h : f.Continues g) (hg : g.Owns t id) : f.Owns t id := by
  obtain ⟨⟨type, hslot, htodo⟩, htemp⟩ := hg
  rw [h.procedure] at hslot
  obtain ⟨htodo', heq⟩ := h.slots t type hslot htodo
  exact ⟨⟨type, hslot, htodo'⟩, heq ▸ htemp⟩

theorem Frame.Continues.housed (h : f.Continues g) (hf : f.Housed m memory)
    (hm : memory.Grows memory') : g.Housed m memory' := by
  refine ⟨by rw [h.size, h.procedure, hf.size], fun t type hslot htodo => ?_,
    fun t t' id ht ht' => hf.apart t t' id (h.owns ht) (h.owns ht')⟩
  have hslot' := hslot
  rw [h.procedure] at hslot
  obtain ⟨htodo', heq⟩ := h.slots t type hslot htodo
  obtain ⟨id, size, howns, hsize, hmeasure⟩ := hf.slots t type hslot htodo'
  exact ⟨id, size, ⟨⟨type, hslot', htodo⟩, heq.trans howns.temp⟩, hm id _ hsize, hmeasure⟩

theorem Frame.continues_refl (f : Frame) : f.Continues f :=
  ⟨rfl, rfl, fun _ _ _ htodo => ⟨htodo, rfl⟩⟩

/-- What a frame owns exists. -/
theorem Frame.Housed.lt_count (h : f.Housed m memory) (hf : f.Owns t id) : id < memory.count := by
  obtain ⟨type, hslot, htodo⟩ := hf.taken
  obtain ⟨id', size, howns, hsize, _⟩ := h.slots t type hslot htodo
  have heq := howns.temp.symm.trans hf.temp
  simp only [Option.some.injEq, Value.pointer.injEq, Address.mk.injEq, and_true] at heq
  exact heq ▸ Memory.lt_count_of_sizeAt? hsize

/-- The running frame goes on, and all others wait as before. -/
theorem State.Housed.continue (h : s.Housed m) (hf : s.frame.Continues u.frame)
    (hcallers : u.callers = s.callers) (hm : s.world.memory.Grows u.world.memory) : u.Housed m := by
  obtain ⟨hframes, hapart, hwaiting⟩ := h
  obtain ⟨hframe, hrest⟩ := List.forall_mem_cons.1 hframes
  obtain ⟨hfirst, hothers⟩ := List.pairwise_cons.1 hapart
  refine ⟨?_, ?_, hcallers ▸ hwaiting⟩
  · rw [State.frames, hcallers]
    exact List.forall_mem_cons.2 ⟨hf.housed hframe hm,
      fun g hg => g.continues_refl.housed (hrest g hg) hm⟩
  · rw [State.frames, hcallers]
    exact List.pairwise_cons.2 ⟨fun g hg t t' id ht => hfirst g hg t t' id (hf.owns ht), hothers⟩

/-- A procedure that is entered stands before its entry block. -/
theorem enter_spec {callee : Nat} {values : List Value} (h : enter m callee values = .ok g) :
    g.temps.size = g.procedure.temps.size ∧
      ∃ b, g.procedure.blocks[0]? = some b ∧ g.block = 0 ∧ g.todo = b.instructions := by
  have hassign : ∀ (values : List (Nat × Value)) (f : Frame),
      let g := values.foldl (fun f x => f.set x.1 x.2) f
      g.procedure = f.procedure ∧ g.block = f.block ∧ g.todo = f.todo ∧
        g.temps.size = f.temps.size := by
    intro values
    induction values with
    | nil => exact fun _ => ⟨rfl, rfl, rfl, rfl⟩
    | cons x values ih =>
        intro f
        obtain ⟨hprocedure, hblock, htodo, hsize⟩ := ih (f.set x.1 x.2)
        exact ⟨hprocedure, hblock, htodo, hsize.trans Array.size_setIfInBounds⟩
  unfold enter at h
  split at h
  · cases h
  · next p hp =>
    split at h
    · cases h
    · split at h
      · cases h
      · next entry hentry =>
        cases h
        obtain ⟨hprocedure, hblock, htodo, hsize⟩ := hassign (p.params.zip values)
          ⟨p, 0, entry.instructions, Array.replicate p.temps.size none⟩
        exact ⟨hsize.trans (hprocedure ▸ Array.size_replicate), entry, hprocedure ▸ hentry, hblock,
          htodo⟩

/-- It has taken no slot yet. -/
theorem slots_subset_of_enter {callee : Nat} {values : List Value}
    (h : enter m callee values = .ok g) : g.procedure.slots ⊆ g.todo := by
  obtain ⟨-, b, hb, -, htodo⟩ := enter_spec h
  rw [htodo, Procedure.slots_of_getElem? hb]
  exact List.takeWhile_subset _

/-- A frame without slots that it has taken. -/
theorem Frame.housed_of_todo (hsize : f.temps.size = f.procedure.temps.size)
    (hslots : f.procedure.slots ⊆ f.todo) (memory : Memory) :
    f.Housed m memory ∧ ∀ t id, ¬ f.Owns t id := by
  have hnone : ∀ t id, ¬ f.Owns t id := by
    rintro t id ⟨⟨type, hslot, htodo⟩, -⟩
    exact htodo (hslots hslot)
  exact ⟨⟨hsize, fun t type hslot htodo => absurd (hslots hslot) htodo,
    fun t t' id ht => absurd ht (hnone t id)⟩, hnone⟩

theorem State.housed_enter {w : World} {callee : Nat} {values : List Value}
    (h : enter m callee values = .ok g) : State.Housed m ⟨w, g, []⟩ := by
  exact ⟨List.forall_mem_singleton.2
    (Frame.housed_of_todo (enter_spec h).1 (slots_subset_of_enter h) _).1,
    List.pairwise_singleton _ _, List.forall_mem_nil _⟩

section step

variable (hw : ∀ q ∈ m.procedures, q.WellTyped m) (hd : ∀ q ∈ m.procedures, q.Disciplined)
include hw hd

/-- A slot that is taken is a new allocation. -/
theorem State.Housed.slot {output : Array Int32} {p : Procedure} {block dest size : Nat} {type : Ty}
    {rest : List Instruction} {temps : Array (Option Value)} {callers : List (Nat × Frame)}
    (hmeasure : m.measure Profile.overflow.word type = .ok size)
    (hs : State.Stands m ⟨⟨memory, output⟩, ⟨p, block, .alloca dest type :: rest, temps⟩, callers⟩)
    (h : State.Housed m
      ⟨⟨memory, output⟩, ⟨p, block, .alloca dest type :: rest, temps⟩, callers⟩) :
    State.Housed m ⟨⟨(memory.allocate size).2, output⟩,
      ⟨p, block, rest, temps.setIfInBounds dest (some (.pointer (some ⟨memory.count, 0⟩)))⟩,
      callers⟩ := by
  obtain ⟨hprocedure, b, hb, htodo⟩ := hs.frame
  obtain ⟨hframes, hapart, hwaiting⟩ := h
  obtain ⟨hframe, hrest⟩ := List.forall_mem_cons.1 hframes
  obtain ⟨hfirst, hothers⟩ := List.pairwise_cons.1 hapart
  have hmem : Instruction.alloca dest type ∈ b.instructions :=
    htodo.subset (List.mem_cons_self ..)
  have hlt : dest < temps.size := by
    have hfits := ((hw p hprocedure).blocks _ b hb).2.instructions _ hmem
    exact (hfits.dest_lt rfl).trans_eq hframe.size.symm
  have hgrows := memory.grows_allocate size
  let f : Frame := ⟨p, block, .alloca dest type :: rest, temps⟩
  let g : Frame :=
    ⟨p, block, rest, temps.setIfInBounds dest (some (.pointer (some ⟨memory.count, 0⟩)))⟩
  have hself : g.temps[dest]? = some (some (.pointer (some ⟨memory.count, 0⟩))) := by
    simp [g, hlt]
  -- Another slot that is taken behind this one was taken before it.
  have hother : ∀ t type', t ≠ dest → .alloca t type' ∉ rest →
      .alloca t type' ∉ f.todo ∧ g.temps[t]? = f.temps[t]? := by
    intro t type' hne hrest
    refine ⟨List.not_mem_cons_of_ne_of_not_mem (fun heq => ?_) hrest,
      getElem?_assign fun heq => hne (Option.some.inj heq).symm⟩
    injection heq with heq
    exact hne heq
  have howns : ∀ t id, g.Owns t id → t = dest ∧ id = memory.count ∨ f.Owns t id := by
    rintro t id ⟨⟨type', hslot, hrest⟩, htemp⟩
    by_cases hne : t = dest
    · subst hne
      rw [hself] at htemp
      simp only [Option.some.injEq, Value.pointer.injEq, Address.mk.injEq, and_true] at htemp
      exact .inl ⟨rfl, htemp.symm⟩
    · obtain ⟨htodo, heq⟩ := hother t type' hne hrest
      exact .inr ⟨⟨type', hslot, htodo⟩, heq ▸ htemp⟩
  refine ⟨List.forall_mem_cons.2 ⟨⟨?_, fun t type' hslot hrest => ?_, fun t t' id ht ht' => ?_⟩,
    fun w hw => w.continues_refl.housed (hrest w hw) hgrows⟩, List.pairwise_cons.2
      ⟨fun w hw t t' id ht ht' => ?_, hothers⟩, hwaiting⟩
  · exact Array.size_setIfInBounds.trans hframe.size
  · by_cases hne : t = dest
    · subst hne
      have heq := (hd p hprocedure).eq_of_slot hslot hb hmem rfl
      injection heq with _ htype
      exact ⟨memory.count, size, ⟨⟨type', hslot, hrest⟩, hself⟩, Memory.sizeAt?_allocate,
        htype ▸ hmeasure⟩
    · obtain ⟨htodo, heq⟩ := hother t type' hne hrest
      obtain ⟨id, size', hid, hsize, hmeasure'⟩ := hframe.slots t type' hslot htodo
      exact ⟨id, size', ⟨⟨type', hslot, hrest⟩, heq.trans hid.temp⟩, hgrows id _ hsize, hmeasure'⟩
  · rcases howns t id ht with ⟨rfl, rfl⟩ | ht <;> rcases howns t' _ ht' with ⟨rfl, hid⟩ | ht'
    · rfl
    · exact absurd (hframe.lt_count ht') (Nat.lt_irrefl _)
    · exact absurd (hid ▸ hframe.lt_count ht) (Nat.lt_irrefl _)
    · exact hframe.apart t t' id ht ht'
  · rcases howns t id ht with ⟨rfl, rfl⟩ | ht
    · exact absurd ((hrest w hw).lt_count ht') (Nat.lt_irrefl _)
    · exact hfirst w hw t t' id ht ht'

/-- Every step keeps all slots in allocations of their own. -/
theorem State.Housed.step (hs : s.Stands m) (h : s.Housed m) (hu : Machine.step m s = .running u) :
    u.Housed m := by
  have heffect := effect_of_step hu
  cases heffect with
  | @plain output output' p block i rest temps temps' callers memory memory' hi htemps
    hsize hgrows =>
      obtain ⟨hprocedure, b, hb, htodo⟩ := hs.frame
      have hmem := htodo.subset (List.mem_cons_self ..)
      refine h.continue ⟨rfl, hsize, fun t type hslot hrest => ?_⟩ rfl hgrows
      refine ⟨List.not_mem_cons_of_ne_of_not_mem ?_ hrest, htemps t fun hdest => ?_⟩
      · rintro rfl
        cases hi
      · exact (hd p hprocedure).not_slot hb hmem hi hdest type hslot
  | slot hsize => exact State.Housed.slot hw hd hsize hs h
  | @call w p block dest callee args rest temps callers values g hg =>
      obtain ⟨hprocedure, b, hb, htodo⟩ := hs.frame
      have hmem := htodo.subset (List.mem_cons_self ..)
      have hnot := (hd p hprocedure).not_slot hb hmem rfl rfl
      obtain ⟨hhoused, hnone⟩ := Frame.housed_of_todo (m := m) (enter_spec hg).1
        (slots_subset_of_enter hg) w.memory
      -- The caller goes on behind the call.
      have hcaller : State.Housed m ⟨w, ⟨p, block, rest, temps⟩, callers⟩ := by
        refine h.continue ⟨rfl, rfl, fun t type hslot hrest => ?_⟩ rfl fun _ _ h => h
        exact ⟨List.not_mem_cons_of_ne_of_not_mem (by rintro ⟨⟩) hrest, rfl⟩
      exact ⟨List.forall_mem_cons.2 ⟨hhoused, hcaller.frames⟩, List.pairwise_cons.2
        ⟨fun f _ t t' id ht => absurd ht (hnone t id), hcaller.apart⟩,
        List.forall_mem_cons.2 ⟨hnot, h.waiting⟩⟩
  | goto hb ht htarget hb' =>
      exact h.continue ⟨rfl, rfl, fun _ _ _ _ => ⟨List.not_mem_nil, rfl⟩⟩ rfl fun _ _ h => h
  | @leave w f caller dest v callers htodo =>
      obtain ⟨hnot, hwaiting⟩ := List.forall_mem_cons.1 h.waiting
      have hcaller : State.Housed m ⟨w, caller, callers⟩ :=
        ⟨(List.forall_mem_cons.1 h.frames).2, (List.pairwise_cons.1 h.apart).2, hwaiting⟩
      refine hcaller.continue ⟨rfl, Array.size_setIfInBounds, fun t type hslot htodo => ?_⟩ rfl
        fun _ _ h => h
      refine ⟨htodo, getElem?_assign fun heq => ?_⟩
      exact hnot type (Option.some.inj heq ▸ hslot)

end step

end slots

section runs

variable {P Q : State → Prop} {n k : Nat} {v : State}

/-- A number of steps lead from one state to another, each of them from a state of a sort. -/
inductive Through (m : Module) (P : State → Prop) : Nat → State → State → Prop
  | refl (s : State) : Through m P 0 s s
  | head {n : Nat} {s t u : State} : P s → step m s = .running t → Through m P n t u →
      Through m P (n + 1) s u

namespace Through

theorem one (hs : P s) (h : step m s = .running u) : Through m P 1 s u :=
  .head hs h (.refl u)

theorem trans (h : Through m P n s u) (h' : Through m P k u v) : Through m P (n + k) s v := by
  induction h with
  | refl s => rwa [Nat.zero_add]
  | head hs hstep _ ih =>
      rw [Nat.add_right_comm]
      exact .head hs hstep (ih h')

theorem mono (h : Through m P n s u) (hPQ : ∀ s, P s → Q s) : Through m Q n s u := by
  induction h with
  | refl s => exact .refl s
  | head hs hstep _ ih => exact .head (hPQ _ hs) hstep ih

end Through

/-- A state that a call of some procedure comes to. -/
def Visits (m : Module) (s : State) : Prop :=
  ∃ w callee values frame n, enter m callee values = .ok frame ∧ Steps m n ⟨w, frame, []⟩ s

/-- In all states that calls come to, frames stand in their procedures and have slots of their
own. -/
theorem Visits.housed (hw : ∀ q ∈ m.procedures, q.WellTyped m)
    (hd : ∀ q ∈ m.procedures, q.Disciplined) (h : Visits m s) : s.Stands m ∧ s.Housed m := by
  obtain ⟨w, callee, values, frame, n, hframe, hsteps⟩ := h
  have hverified : ∀ q ∈ m.procedures, q.Verified m := fun q hq => (hw q hq).verified
  have hstart : State.Stands m ⟨w, frame, []⟩ := by
    obtain ⟨-, b, hb, hblock, htodo⟩ := enter_spec hframe
    exact ⟨⟨procedure_enter hframe, b, hblock ▸ hb, htodo ▸ List.suffix_rfl⟩, List.forall_mem_nil _⟩
  have hhoused : State.Housed m ⟨w, frame, []⟩ := State.housed_enter hframe
  generalize State.mk w frame [] = start at hsteps hstart hhoused
  clear hframe
  induction hsteps with
  | refl s => exact ⟨hstart, hhoused⟩
  | head hstep _ ih =>
      exact ih ((hstart.step hverified).1 _ hstep) (hhoused.step hw hd hstart hstep)

end runs

section activations

variable {q : Procedure} {region : Nat → List Instruction → Prop} {place : Frame → Prop}
  {value : Option (Option Value)} {below : List (Nat × Frame)}

/-- The activation that runs in a state goes on, and comes to a place for the first time. -/
structure State.ArrivesAt (m : Module) (place : Frame → Prop) (s u : State) : Prop where
  steps : ∃ n, Through m (fun v => s.callers <:+ v.callers ∧
    (v.callers = s.callers → ¬ place v.frame)) n s u
  callers : u.callers = s.callers
  place : place u.frame

/-- Control stays among some points of a procedure until it comes to a place, and nothing there
assigns a temporary. -/
structure Encloses (q : Procedure) (region : Nat → List Instruction → Prop)
    (place : Frame → Prop) (t : Nat) : Prop where
  instructions : ∀ (f : Frame) (i : Instruction) (rest : List Instruction), f.procedure = q →
    f.todo = i :: rest → region f.block (i :: rest) → ¬ place f →
      region f.block rest ∧ i.dest? ≠ some t
  ends : ∀ (f : Frame) (b : Block) (τ : Terminator), f.procedure = q → f.todo = [] →
    region f.block [] → ¬ place f → q.blocks[f.block]? = some b → b.terminator = some τ →
      ∀ k ∈ τ.successors, ∀ b', q.blocks[k]? = some b' → region k b'.instructions

/-- An activation is within some points of its procedure, and a temporary has a value there. It
runs, or it waits for what it has called, which does not go to that temporary. -/
inductive State.Within (q : Procedure) (region : Nat → List Instruction → Prop) (t : Nat)
    (value : Option (Option Value)) (below : List (Nat × Frame)) : State → Prop
  | running {w : World} {f : Frame} : f.procedure = q → region f.block f.todo →
      f.temps[t]? = value → Within q region t value below ⟨w, f, below⟩
  | waiting {w : World} {f g : Frame} {dest : Nat} (above : List (Nat × Frame)) :
      g.procedure = q → region g.block g.todo → g.temps[t]? = value → some dest ≠ some t →
      Within q region t value below ⟨w, f, above ++ (dest, g) :: below⟩

theorem State.Within.step (hq : Encloses q region place t) (h : s.Within q region t value below)
    (hplace : s.callers = below → ¬ place s.frame) (hu : Machine.step m s = .running u)
    (hbelow : below <:+ u.callers) : u.Within q region t value below := by
  have heffect := effect_of_step hu
  cases h with
  | running hprocedure hregion hvalue =>
      have hnot := hplace rfl
      cases heffect with
      | plain _ htemps =>
          obtain ⟨hrest, hdest⟩ := hq.instructions _ _ _ hprocedure rfl hregion hnot
          exact .running hprocedure hrest ((htemps t hdest).trans hvalue)
      | slot =>
          obtain ⟨hrest, hdest⟩ := hq.instructions _ _ _ hprocedure rfl hregion hnot
          exact .running hprocedure hrest ((getElem?_assign hdest).trans hvalue)
      | call =>
          obtain ⟨hrest, hdest⟩ := hq.instructions _ _ _ hprocedure rfl hregion hnot
          exact .waiting [] hprocedure hrest hvalue hdest
      | goto hb ht htarget hb' =>
          cases hprocedure
          exact .running rfl (hq.ends _ _ _ rfl rfl hregion hnot hb ht _ htarget _ hb') hvalue
      | leave =>
          -- The activation would be left.
          exact absurd hbelow.length_le (by simp)
  | @waiting w f g dest above hprocedure hregion hvalue hdest =>
      generalize hcallers : above ++ (dest, g) :: below = callers at heffect
      cases heffect with
      | plain | slot | goto =>
          cases hcallers
          exact .waiting _ hprocedure hregion hvalue hdest
      | call =>
          cases hcallers
          exact .waiting (_ :: above) hprocedure hregion hvalue hdest
      | leave =>
          cases above with
          | nil =>
              cases hcallers
              exact .running hprocedure hregion ((getElem?_assign hdest).trans hvalue)
          | cons c above =>
              cases hcallers
              exact .waiting _ hprocedure hregion hvalue hdest

/-- What nothing assigns on the way of an activation is the same when it arrives. -/
theorem State.ArrivesAt.keeps (h : s.ArrivesAt m place u) (hq : Encloses q region place t)
    (hprocedure : s.frame.procedure = q) (hregion : region s.frame.block s.frame.todo) :
    u.frame.temps[t]? = s.frame.temps[t]? := by
  obtain ⟨⟨n, hsteps⟩, hcallers, -⟩ := h
  suffices hwithin : u.Within q region t s.frame.temps[t]? s.callers by
    generalize s.callers = below at hcallers hwithin
    cases hwithin with
    | running _ _ hvalue => exact hvalue
    | waiting => exact absurd (congrArg List.length hcallers) (by simp; omega)
  have hstart : s.Within q region t s.frame.temps[t]? s.callers := .running hprocedure hregion rfl
  have hbelow : s.callers <:+ u.callers := hcallers ▸ List.suffix_rfl
  generalize s.frame.temps[t]? = value at hstart ⊢
  generalize s.callers = below at hsteps hstart hbelow ⊢
  clear hcallers hprocedure hregion
  induction hsteps with
  | refl s => exact hstart
  | head hs hstep hrest ih =>
      refine ih (hstart.step hq hs.2 hstep ?_) hbelow
      cases hrest with
      | refl => exact hbelow
      | head hs => exact hs.1

end activations

end ObjectLang.Machine
