import Mathlib.Tactic
import ObjectLang.Proofs.IR.Verified
import ObjectLang.Proofs.Machine.Entry
import ObjectLang.Proofs.Machine.Faults
import ObjectLang.Proofs.Machine.Steps

/-!
# Runs of verified code keep its shape

A frame of a verified module stands in a block of one of the procedures of the module, before the
last instructions of that block. Every step keeps this for the frame that is running and for all
frames that wait, so control is never at a block that does not exist or does not end, and no call
goes astray, however deep calls nest.
-/
namespace ObjectLang.Machine

open IR

variable {m : Module}

section shapely

variable {α β : Type}

/-- A computation that does not find fault with the shape of the code. -/
def Shapely (r : Except Fault α) : Prop :=
  ∀ cause, r ≠ .error (.shape cause)

theorem shapely_ok (a : α) : Shapely (.ok a) :=
  nofun

theorem Shapely.bind {r : Except Fault α} {k : α → Except Fault β} (hr : Shapely r)
    (hk : ∀ a, r = .ok a → Shapely (k a)) : Shapely (r >>= k) := by
  cases r with
  | error fault =>
      rintro cause ⟨⟩
      exact hr cause rfl
  | ok a => exact hk a rfl

theorem Raises.shapely [Profile] {r : Except Fault α} (h : Raises (Fault.Local m) r) : Shapely r :=
  fun _ hr => nomatch h _ hr

end shapely

/-- A frame stands in a block of a procedure of the module, before the last instructions there. -/
structure Frame.Stands (m : Module) (f : Frame) : Prop where
  procedure : f.procedure ∈ m.procedures
  block : ∃ b, f.procedure.blocks[f.block]? = some b ∧ f.todo <:+ b.instructions

/-- A state whose frames all stand in the module. -/
structure State.Stands (m : Module) (s : State) : Prop where
  frame : s.frame.Stands m
  callers : ∀ caller ∈ s.callers, caller.2.Stands m

/-- What an action of a frame leads to exists. -/
def Action.Exists (m : Module) (f : Frame) : Action → Prop
  | .enter _ callee => callee.Stands m
  | .goto block instructions =>
    ∃ b, f.procedure.blocks[block]? = some b ∧ b.instructions = instructions
  | .skip | .assign _ _ | .allocate _ _ | .write _ _ | .print _ | .leave _ => True

/-- A computation of an action that exists, or of a fault that is not one of shape. -/
def Sound (m : Module) (f : Frame) (r : Except Fault Action) : Prop :=
  Shapely r ∧ ∀ action, r = .ok action → action.Exists m f

section actions

variable {f : Frame} {α : Type}

theorem sound_ok {action : Action} (h : action.Exists m f) : Sound m f (.ok action) :=
  ⟨shapely_ok _, by rintro _ ⟨⟩; exact h⟩

theorem sound_error {fault : Fault} (h : ∀ cause, fault ≠ .shape cause) :
    Sound m f (.error fault) :=
  ⟨by rintro cause ⟨⟩; exact h cause rfl, nofun⟩

theorem Raises.sound [Profile] {r : Except Fault α} {k : α → Except Fault Action}
    (hr : Raises (Fault.Local m) r) (hk : ∀ a, r = .ok a → Sound m f (k a)) :
    Sound m f (r >>= k) := by
  refine ⟨hr.shapely.bind fun a ha => (hk a ha).1, fun action h => ?_⟩
  cases r with
  | error fault => cases h
  | ok a => exact (hk a rfl).2 action h

/-- A verified procedure that is called with the arguments it asks for is entered. -/
theorem sound_enter (hm : ∀ q ∈ m.procedures, q.Verified m) {callee : Nat} {q : Procedure}
    {args : List Value} (hq : m.procedures[callee]? = some q)
    (hargs : q.params.length = args.length) :
    ∃ g, enter m callee args = .ok g ∧ g.Stands m := by
  have hmem := Array.mem_of_getElem? hq
  have hentry := Array.getElem?_eq_getElem (hm q hmem).entry
  exact ⟨_, enter_eq hq hargs hentry, hmem, _, hentry, List.suffix_rfl⟩

theorem length_of_evals {args : List Operand} {values : List Value}
    (h : args.mapM f.eval = .ok values) : values.length = args.length := by
  induction args generalizing values with
  | nil =>
      cases h
      rfl
  | cons x args ih =>
      rw [List.mapM_cons] at h
      cases hx : f.eval x with
      | error fault =>
          rw [hx] at h
          cases h
      | ok v =>
          cases hrest : args.mapM f.eval with
          | error fault =>
              rw [hx, hrest] at h
              cases h
          | ok vs =>
              rw [hx, hrest] at h
              cases h
              rw [List.length_cons, ih hrest, List.length_cons]

/-- The instructions of verified code ask for nothing that does not exist. -/
theorem sound_instruction [Profile] (hm : ∀ q ∈ m.procedures, q.Verified m) (memory : Memory)
    {i : Instruction} (hi : i.Verified m f.procedure) :
    Sound m f (instructionAction m memory f i) := by
  cases i with
  | alloc dest size =>
      refine (f.raises_evalInt size).sound fun n _ => ?_
      split
      · exact sound_error nofun
      · exact sound_ok trivial
  | alloca dest type =>
      exact (raises_counted fun _ => breaks_of_measure).sound fun _ _ => sound_ok trivial
  | bitcast dest x => exact (f.raises_evalPointer x).sound fun _ _ => sound_ok trivial
  | elementPtr dest base indices =>
      exact (raises_elementAddress f base indices).sound fun _ _ => sound_ok trivial
  | load dest x =>
      exact (f.raises_evalPointer x).sound fun a _ =>
        (memory.raises_load a).sound fun _ _ => sound_ok trivial
  | store x y =>
      exact (f.raises_evalPointer x).sound fun a _ => (f.raises_eval y).sound fun _ _ =>
        (memory.raises_resolve a).sound fun _ _ => sound_ok trivial
  | binary dest op x y => exact (f.raises_compute op x y).sound fun _ _ => sound_ok trivial
  | call dest callee args =>
      obtain ⟨q, hq, hlength⟩ := hi.call dest callee args rfl
      refine (f.raises_evals args).sound fun values hvalues => ?_
      obtain ⟨g, hg, hstands⟩ := sound_enter hm hq (hlength.trans (length_of_evals hvalues).symm)
      rw [hg]
      exact sound_ok hstands
  | print x => exact (f.raises_evalInt x).sound fun _ _ => sound_ok trivial
  | comment text => exact sound_ok trivial

theorem sound_goto {block : Nat} (h : block < f.procedure.blocks.size) :
    Sound m f (gotoAction f block) := by
  have hb := Array.getElem?_eq_getElem h
  rw [gotoAction, hb]
  exact sound_ok ⟨_, hb, rfl⟩

/-- The ends of verified blocks lead to blocks that exist. -/
theorem sound_terminator {t : Terminator} (ht : t.Verified f.procedure) :
    Sound m f (terminatorAction f (some t)) := by
  cases t with
  | jump target => exact sound_goto (ht.targets target (List.mem_singleton_self _))
  | branch condition onTrue onFalse =>
      refine (f.raises_eval condition).sound fun v _ => ?_
      split
      · exact sound_goto (ht.targets onTrue (List.mem_cons_self ..))
      · exact sound_goto (ht.targets onFalse (List.mem_cons_of_mem _ (List.mem_singleton_self _)))
      · exact sound_error nofun
  | ret x => exact (f.raises_eval x).sound fun _ _ => sound_ok trivial
  | halt message => exact sound_error nofun

/-- What a frame does next exists, if the frame stands in verified code. -/
theorem Frame.Stands.sound [Profile] (h : f.Stands m) (hm : ∀ q ∈ m.procedures, q.Verified m)
    (memory : Memory) : Sound m f (nextAction m memory f) := by
  obtain ⟨b, hb, htodo⟩ := h.block
  have hverified := (hm _ h.procedure).blocks b (Array.mem_of_getElem? hb)
  rw [nextAction]
  split
  · next i rest heq =>
    exact sound_instruction hm memory
      (hverified.instructions i (htodo.subset (heq ▸ List.mem_cons_self ..)))
  · obtain ⟨t, ht, hends⟩ := hverified.ends
    rw [hb, Option.bind_some, ht]
    exact sound_terminator hends

end actions

variable {s t : State}

theorem Frame.Stands.tail {f : Frame} (h : f.Stands m) (temps : Array (Option Value)) :
    Frame.Stands m ⟨f.procedure, f.block, f.todo.tail, temps⟩ := by
  obtain ⟨b, hb, htodo⟩ := h.block
  exact ⟨h.procedure, b, hb, (List.tail_suffix _).trans htodo⟩

/-- Taking an action keeps all frames standing. -/
theorem State.Stands.perform (h : s.Stands m) {action : Action} (hex : action.Exists m s.frame)
    (ht : s.perform action = .running t) : t.Stands m := by
  obtain ⟨⟨memory, output⟩, ⟨p, block, todo, temps⟩, callers⟩ := s
  obtain ⟨hframe, hcallers⟩ := h
  cases action with
  | enter dest callee =>
      cases ht
      exact ⟨hex, List.forall_mem_cons.2 ⟨hframe.tail temps, hcallers⟩⟩
  | goto target instructions =>
      obtain ⟨b, hb, rfl⟩ := hex
      cases ht
      exact ⟨⟨hframe.procedure, b, hb, List.suffix_rfl⟩, hcallers⟩
  | leave v =>
      cases callers with
      | nil => cases ht
      | cons caller callers =>
          cases ht
          obtain ⟨hcaller, hcallers⟩ := List.forall_mem_cons.1 hcallers
          exact ⟨⟨hcaller.procedure, hcaller.block⟩, hcallers⟩
  | _ =>
      cases ht
      exact ⟨hframe.tail _, hcallers⟩

/-- A step of verified code keeps all frames standing, or stops for another reason than shape. -/
theorem State.Stands.step [Profile] (h : s.Stands m) (hm : ∀ q ∈ m.procedures, q.Verified m) :
    (∀ t, Machine.step m s = .running t → t.Stands m) ∧
      ∀ w r, Machine.step m s = .stopped w r → Shapely r := by
  obtain ⟨hshapely, hexists⟩ := h.frame.sound hm s.world.memory
  rw [Machine.step]
  split
  · next action haction =>
    refine ⟨fun t ht => h.perform (hexists action haction) ht, fun w r hstopped => ?_⟩
    obtain ⟨⟨memory, output⟩, ⟨p, block, todo, temps⟩, callers⟩ := s
    cases action with
    | leave v =>
        cases callers with
        | nil =>
            cases hstopped
            exact shapely_ok v
        | cons caller callers => cases hstopped
    | _ => cases hstopped
  · next fault hfault =>
    constructor
    · intro t ht
      cases ht
    rintro w r ⟨⟩ cause ⟨⟩
    exact hshapely cause hfault

/-- A run of verified code never finds fault with the shape of the code. -/
theorem State.Stands.run [Profile] (hm : ∀ q ∈ m.procedures, q.Verified m) (limit : Nat) :
    ∀ (budget : Nat) (s : State), s.Stands m → Shapely (s.run m limit budget).result := by
  intro budget
  induction budget with
  | zero => exact fun s _ => nofun
  | succ budget ih =>
      intro s hs
      obtain ⟨hrunning, hstopped⟩ := hs.step hm
      rw [State.run]
      split
      · next t ht => exact ih t (hrunning t ht)
      · next w r hw => exact hstopped w r hw

end ObjectLang.Machine
