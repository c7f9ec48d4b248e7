import Mathlib.Tactic
import ObjectLang.Machine.Run

/-!
# Counted steps

A run is a number of steps and then a stop, or the end of its budget. What was printed stays
printed, so a run that is cut short shows a part of what the longer run shows.
-/
namespace ObjectLang.Machine

open IR

variable {m : Module} {s t u : State}

section counting

variable [Profile]

/-- A number of steps lead from one state to another. -/
inductive Steps (m : Module) : Nat → State → State → Prop
  | refl (s : State) : Steps m 0 s s
  | head {n : Nat} {s t u : State} : step m s = .running t → Steps m n t u → Steps m (n + 1) s u

namespace Steps

theorem one (h : step m s = .running t) : Steps m 1 s t :=
  .head h (.refl t)

theorem trans {n k : Nat} (h : Steps m n s t) (h' : Steps m k t u) : Steps m (n + k) s u := by
  induction h with
  | refl s => rwa [Nat.zero_add]
  | head hs _ ih =>
      rw [Nat.add_right_comm]
      exact .head hs (ih h')

/-- A run goes on from where some of its steps lead. -/
theorem run {n : Nat} (h : Steps m n s t) (limit budget : Nat) :
    s.run m limit (n + budget) = t.run m limit budget := by
  induction h with
  | refl s => rw [Nat.zero_add]
  | head hs _ ih =>
      rw [Nat.add_right_comm, State.run, hs]
      exact ih

/-- Part of some steps. -/
theorem take {n : Nat} (h : Steps m n s t) {k : Nat} (hk : k ≤ n) :
    ∃ r, Steps m k s r ∧ Steps m (n - k) r t := by
  induction h generalizing k with
  | refl s =>
      obtain rfl := Nat.le_zero.1 hk
      exact ⟨s, .refl s, .refl s⟩
  | @head n s t u hs h ih =>
      cases k with
      | zero => exact ⟨s, .refl s, .head hs h⟩
      | succ k =>
          obtain ⟨r, hr, hr'⟩ := ih (Nat.le_of_succ_le_succ hk)
          exact ⟨r, .head hs hr, by rwa [Nat.add_sub_add_right]⟩

end Steps

/-- The state after a number of steps, if the run does not stop before. -/
def State.after? (m : Module) : Nat → State → Option State
  | 0, s => some s
  | n + 1, s =>
    match step m s with
    | .running t => t.after? m n
    | .stopped _ _ => none

theorem steps_of_after? {n : Nat} (h : s.after? m n = some t) : Steps m n s t := by
  induction n generalizing s with
  | zero =>
      cases h
      exact .refl _
  | succ n ih =>
      rw [State.after?] at h
      split at h
      · next u hu => exact .head hu (ih h)
      · cases h

end counting

/-- What an action leaves printed starts with what was printed before. -/
theorem output_perform {action : Action} (h : s.perform action = .running t) :
    s.world.output.toList <+: t.world.output.toList := by
  obtain ⟨⟨memory, output⟩, ⟨p, block, todo, temps⟩, callers⟩ := s
  cases action with
  | leave value =>
      cases callers with
      | nil => cases h
      | cons caller callers =>
          cases h
          exact List.prefix_refl _
  | print n =>
      cases h
      exact ⟨[n], by simp⟩
  | _ =>
      cases h
      exact List.prefix_refl _

theorem output_step [Profile] (h : step m s = .running t) :
    s.world.output.toList <+: t.world.output.toList := by
  rw [step] at h
  split at h
  · exact output_perform h
  · cases h

theorem Steps.output [Profile] {n : Nat} (h : Steps m n s t) :
    s.world.output.toList <+: t.world.output.toList := by
  induction h with
  | refl s => exact List.prefix_refl _
  | head hs _ ih => exact (output_step hs).trans ih

/-- The procedures that a run is in are those of the module. -/
def State.Procedures (m : Module) (s : State) : Prop :=
  s.frame.procedure ∈ m.procedures ∧ ∀ caller ∈ s.callers, caller.2.procedure ∈ m.procedures

theorem procedure_enter {callee : Nat} {args : List Value} {f : Frame}
    (h : enter m callee args = .ok f) : f.procedure ∈ m.procedures := by
  have hset : ∀ (values : List (Nat × Value)) (f : Frame),
      (values.foldl (fun f x => f.set x.1 x.2) f).procedure = f.procedure := by
    intro values
    induction values with
    | nil => exact fun _ => rfl
    | cons x values ih => exact fun f => ih (f.set x.1 x.2)
  unfold enter at h
  split at h
  · cases h
  · next p hp =>
    split at h
    · cases h
    · split at h
      · cases h
      · cases h
        exact (hset ..).symm ▸ Array.mem_of_getElem? hp

/-- Only a call enters a procedure. -/
theorem enter_of_nextAction [Profile] {memory : Memory} {f callee : Frame} {dest : Nat}
    (h : nextAction m memory f = .ok (.enter dest callee)) :
    ∃ id args, enter m id args = .ok callee := by
  rw [nextAction] at h
  split at h
  · next i _ _ =>
    cases i <;> simp only [instructionAction, bind, Except.bind, pure, Except.pure, throw, throwThe,
      MonadExceptOf.throw] at h <;> grind
  · simp only [terminatorAction, gotoAction, bind, Except.bind, pure, Except.pure, throw, throwThe,
      MonadExceptOf.throw] at h
    grind

theorem procedures_step [Profile] (hs : s.Procedures m) (h : step m s = .running t) :
    t.Procedures m := by
  obtain ⟨⟨memory, output⟩, ⟨p, block, todo, temps⟩, callers⟩ := s
  obtain ⟨hframe, hcallers⟩ := hs
  rw [step] at h
  split at h
  · next action haction =>
    cases action with
    | enter dest callee =>
        cases h
        obtain ⟨id, args, henter⟩ := enter_of_nextAction haction
        exact ⟨procedure_enter henter, List.forall_mem_cons.2 ⟨hframe, hcallers⟩⟩
    | leave value =>
        cases callers with
        | nil => cases h
        | cons caller callers =>
            cases h
            exact List.forall_mem_cons.1 hcallers
    | _ =>
        cases h
        exact ⟨hframe, hcallers⟩
  · cases h

theorem Steps.procedures [Profile] {n : Nat} (h : Steps m n s t) (hs : s.Procedures m) :
    t.Procedures m := by
  induction h with
  | refl s => exact hs
  | head h _ ih => exact ih (procedures_step hs h)

/-- A run whose budget ends within some steps is cut short. -/
theorem Steps.cutShort [Profile] {n limit budget : Nat} (h : Steps m n s t) (hb : budget ≤ n) :
    (s.run m limit budget).result = .error (.stepLimit limit) ∧
      (s.run m limit budget).world.output.toList <+: t.world.output.toList := by
  obtain ⟨r, hr, hr'⟩ := h.take hb
  have hrun := hr.run limit 0
  rw [Nat.add_zero, State.run] at hrun
  rw [hrun]
  exact ⟨rfl, hr'.output⟩

/-- A run that stops after some steps ends so if its budget goes further. -/
theorem Steps.stopped [Profile] {n limit budget : Nat} {w : World} {result : Except Fault Value}
    (h : Steps m n s t) (hs : step m t = .stopped w result) (hb : n < budget) :
    (s.run m limit budget).world = w ∧ (s.run m limit budget).result = result := by
  obtain ⟨k, rfl⟩ := Nat.exists_eq_add_of_lt hb
  rw [Nat.add_assoc, h.run, State.run, hs]
  exact ⟨rfl, rfl⟩

end ObjectLang.Machine
