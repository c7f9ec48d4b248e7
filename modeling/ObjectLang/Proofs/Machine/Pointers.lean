import Mathlib.Tactic
import ObjectLang.Proofs.Machine.Limits
import ObjectLang.Proofs.Machine.Memory

/-!
# Pointers are never forged

A pointer comes from an allocation, or from another pointer by moving within the allocation that it
names, and allocations are never given back. So whatever code runs, a pointer that is found in a
temporary, among arguments or in memory names an allocation that exists. Whether the code is well
typed does not matter: an operation that would make a pointer of something else finds a fault.
-/
namespace ObjectLang.Machine

open IR

variable {m : Module} {memory memory' : Memory} {f : Frame} {s t : State}

/-- A value that names no allocation, or one that exists. -/
def Value.Valid (memory : Memory) : Value → Prop
  | .pointer (some a) => a.allocation < memory.count
  | _ => True

/-- Cells lie within their allocations and hold valid values. -/
def Memory.Valid (memory : Memory) : Prop :=
  ∀ (id : Nat) (allocation : Allocation), memory.allocations[id]? = some allocation →
    ∀ (offset : Nat) (v : Value), allocation.cells[offset]? = some v →
      offset < allocation.size ∧ v.Valid memory

/-- Temporaries hold valid values. -/
def Frame.Valid (memory : Memory) (f : Frame) : Prop :=
  ∀ (id : Nat) (v : Value), f.temps[id]? = some (some v) → v.Valid memory

/-- A state without a forged pointer. -/
structure State.Valid (s : State) : Prop where
  memory : s.world.memory.Valid
  frame : s.frame.Valid s.world.memory
  callers : ∀ caller ∈ s.callers, caller.2.Valid s.world.memory

section growth

/-- Memory only grows, and what is valid stays so. -/
theorem Value.Valid.mono {v : Value} (h : v.Valid memory) (hle : memory.count ≤ memory'.count) :
    v.Valid memory' := by
  unfold Value.Valid at h ⊢
  split at h
  · exact h.trans_le hle
  · trivial

theorem Frame.Valid.mono (h : f.Valid memory) (hle : memory.count ≤ memory'.count) :
    f.Valid memory' :=
  fun id v hv => (h id v hv).mono hle

/-- The first byte of what is allocated is a valid place. -/
theorem Memory.valid_allocated (memory : Memory) (size : Nat) :
    (Value.pointer (some (memory.allocate size).1)).Valid (memory.allocate size).2 := by
  rw [Value.Valid, Memory.count_allocate]
  exact Nat.lt_succ_self _

theorem Memory.Valid.allocate (h : memory.Valid) (size : Nat) : (memory.allocate size).2.Valid := by
  intro id allocation hid offset v hv
  rcases Nat.lt_or_ge id memory.count with hlt | hge
  · rw [Memory.allocations_allocate_of_lt hlt] at hid
    obtain ⟨hoffset, hvalid⟩ := h id allocation hid offset v hv
    exact ⟨hoffset, hvalid.mono (by simp)⟩
  · have hnew : allocation = ⟨size, ∅⟩ := by
      simp only [Memory.allocate, Array.getElem?_push] at hid
      split at hid
      · exact (Option.some.inj hid).symm
      · rw [Array.getElem?_eq_none hge] at hid
        cases hid
    subst hnew
    simp at hv

theorem Memory.Valid.put {a : Address} {v : Value} (h : memory.Valid) (ha : memory.Covers a)
    (hv : v.Valid memory) : (memory.put a v).Valid := by
  intro id allocation hid offset w hw
  suffices hold : offset < allocation.size ∧ w.Valid memory from
    ⟨hold.1, hold.2.mono Memory.count_put.ge⟩
  by_cases hsame : id = a.allocation
  · subst hsame
    obtain ⟨size, hs, hlt⟩ := ha
    obtain ⟨old, hold, rfl⟩ := Option.map_eq_some_iff.1 hs
    simp only [Memory.put, Array.getElem?_modify, if_true, hold, Option.map_some,
      Option.some.injEq] at hid
    subst hid
    rw [Std.TreeMap.getElem?_insert] at hw
    split at hw
    · next heq =>
      obtain rfl := Nat.compare_eq_eq.1 heq
      cases hw
      exact ⟨hlt, hv⟩
    · exact h _ old hold offset w hw
  · rw [Memory.allocations_put_of_ne hsame] at hid
    exact h id allocation hid offset w hw

theorem Frame.Valid.set {v : Value} (h : f.Valid memory) (hv : v.Valid memory) (dest : Nat) :
    (f.set dest v).Valid memory := by
  intro id w hw
  rw [Frame.set, Array.getElem?_setIfInBounds] at hw
  split_ifs at hw
  · cases hw
    exact hv
  · exact h id w hw

end growth

section yields

variable {α β : Type} {Q : α → Prop} {R : β → Prop} {r : Except Fault α}

/-- A computation that meets no unknown allocation, and whose result is of a sort. -/
def Yields (Q : α → Prop) : Except Fault α → Prop
  | .ok a => Q a
  | .error fault => ∀ id, fault ≠ .access (.unknownAllocation id)

theorem Yields.bind {k : α → Except Fault β} (hr : Yields Q r) (hk : ∀ a, Q a → Yields R (k a)) :
    Yields R (r >>= k) := by
  cases r with
  | error fault => exact hr
  | ok a => exact hk a hr

theorem Frame.yields_fault (f : Frame) (cause : OperandFault) :
    Yields Q (throw (f.fault cause) : Except Fault α) := by
  rintro id ⟨⟩

end yields

section operands

variable (h : f.Valid memory)
include h

theorem Frame.Valid.eval (x : Operand) : Yields (Value.Valid memory) (f.eval x) := by
  cases x with
  | temp id =>
      rw [Frame.eval]
      split
      · next v hv => exact h id v hv
      · exact f.yields_fault _
  | _ => trivial

theorem Frame.Valid.evalInt (x : Operand) : Yields (fun _ => True) (f.evalInt x) := by
  refine (h.eval x).bind fun v _ => ?_
  cases v with
  | int n => trivial
  | _ => exact f.yields_fault _

theorem Frame.Valid.evalPointer (x : Operand) :
    Yields (fun a => (Value.pointer a).Valid memory) (f.evalPointer x) := by
  refine (h.eval x).bind fun v hv => ?_
  cases v with
  | pointer a => exact hv
  | _ => exact f.yields_fault _

/-- Operations make numbers and truth values, never pointers. -/
theorem Frame.Valid.compute (op : Operation) (x y : Operand) :
    Yields (Value.Valid memory) (f.compute op x y) := by
  cases op with
  | add | sub | mul | slt =>
      exact (h.evalInt x).bind fun _ _ => (h.evalInt y).bind fun _ _ => trivial
  | sdiv =>
      refine (h.evalInt y).bind fun n _ => ?_
      by_cases hn : n = 0
      · rw [if_pos hn]
        exact f.yields_fault _
      · rw [if_neg hn]
        exact (h.evalInt x).bind fun _ _ => trivial
  | eq => exact (h.eval x).bind fun _ _ => (h.eval y).bind fun _ _ => trivial
  | and | or =>
      refine (h.eval x).bind fun v _ => (h.eval y).bind fun w _ => ?_
      split
      · trivial
      · exact f.yields_fault _

theorem Frame.Valid.evals (args : List Operand) :
    Yields (fun vs => ∀ v ∈ vs, v.Valid memory) (args.mapM f.eval) := by
  induction args with
  | nil => exact List.forall_mem_nil _
  | cons x args ih =>
      rw [List.mapM_cons]
      exact (h.eval x).bind fun v hv => ih.bind fun vs hvs => List.forall_mem_cons.2 ⟨hv, hvs⟩

omit h in
theorem yields_counted {α : Type} (r : Except Breakdown α) :
    Yields (fun _ => True) (counted r) := by
  cases r with
  | error cause => rintro id ⟨⟩
  | ok a => trivial

theorem Frame.Valid.indexOffset [Profile] (offset : Int) (type : Ty) (indices : List Operand) :
    Yields (fun _ => True) (indexOffset m f offset type indices) := by
  induction indices generalizing offset type with
  | nil => cases type <;> trivial
  | cons index indices ih =>
      cases type with
      | struct id =>
          cases index with
          | int n =>
              refine (yields_counted _).bind fun bytes _ => ?_
              split
              · exact (yields_counted _).bind fun _ _ => ih _ _
              · exact f.yields_fault _
          | _ => exact f.yields_fault _
      | array element length =>
          exact (h.evalInt index).bind fun _ _ => (yields_counted _).bind fun _ _ => ih _ _
      | _ => exact f.yields_fault _

theorem Frame.Valid.pointerOffset [Profile] (offset : Int) (type : Ty) (indices : List Operand) :
    Yields (fun _ => True) (pointerOffset m f offset type indices) := by
  cases indices with
  | nil => trivial
  | cons index indices =>
      exact (h.evalInt index).bind fun _ _ =>
        (yields_counted _).bind fun _ _ => h.indexOffset _ _ _

/-- Indices lead from an address to another one in the same allocation. -/
theorem Frame.Valid.elementAddress [Profile] (base : Operand) (indices : List Operand) :
    Yields (fun a => (Value.pointer (some a)).Valid memory) (elementAddress m f base indices) := by
  refine (h.evalPointer base).bind fun a ha => ?_
  cases a with
  | none => rintro id ⟨⟩
  | some a =>
      cases f.procedure.typeOf? base with
      | none => exact f.yields_fault _
      | some type =>
          dsimp only
          cases type.target? with
          | none => exact f.yields_fault _
          | some target =>
              refine (h.pointerOffset _ target indices).bind fun n _ => ?_
              split
              · exact ha
              · rintro id ⟨⟩

end operands

section memory

/-- A valid pointer that can be used at all leads to a byte that exists. -/
theorem Memory.yields_resolve {a : Option Address} (ha : (Value.pointer a).Valid memory) :
    Yields memory.Covers (memory.resolve a) := by
  cases a with
  | none => rintro id ⟨⟩
  | some a =>
      have hallocation := Array.getElem?_eq_getElem ha
      rw [Memory.resolve, hallocation]
      dsimp only
      split
      · next hlt => exact ⟨_, Option.map_eq_some_iff.2 ⟨_, hallocation, rfl⟩, hlt⟩
      · rintro id ⟨⟩

theorem Memory.Valid.get? (h : memory.Valid) {a : Address} {v : Value}
    (hv : memory.get? a = some v) : v.Valid memory := by
  obtain ⟨allocation, hallocation, hcell⟩ := Option.bind_eq_some_iff.1 hv
  exact (h _ allocation hallocation _ v hcell).2

theorem Memory.Valid.load (h : memory.Valid) {a : Option Address}
    (ha : (Value.pointer a).Valid memory) : Yields (Value.Valid memory) (memory.load a) := by
  refine (Memory.yields_resolve ha).bind fun a _ => ?_
  split
  · next v hv => exact h.get? hv
  · rintro id ⟨⟩

end memory

section actions

/-- A frame that starts with valid arguments has nothing else in its temporaries. -/
theorem yields_enter (callee : Nat) {args : List Value} (hargs : ∀ v ∈ args, v.Valid memory) :
    Yields (Frame.Valid memory) (enter m callee args) := by
  have hassign : ∀ (values : List (Nat × Value)) (f : Frame), (∀ x ∈ values, x.2.Valid memory) →
      f.Valid memory → (values.foldl (fun f x => f.set x.1 x.2) f).Valid memory := by
    intro values
    induction values with
    | nil => exact fun _ _ hf => hf
    | cons x values ih =>
        intro f hvalues hf
        obtain ⟨hx, hvalues⟩ := List.forall_mem_cons.1 hvalues
        exact ih _ hvalues (hf.set hx x.1)
  rw [enter]
  split
  · rintro id ⟨⟩
  · split
    · rintro id ⟨⟩
    · split
      · rintro id ⟨⟩
      · refine hassign _ _ (fun x hx => hargs _ (List.of_mem_zip hx).2) fun id v hv => ?_
        rw [Array.getElem?_replicate] at hv
        split at hv <;> cases hv

/-- An action that forges no pointer. -/
def Action.Valid (memory : Memory) : Action → Prop
  | .assign _ v | .leave v => v.Valid memory
  | .write a v => memory.Covers a ∧ v.Valid memory
  | .enter _ callee => callee.Valid memory
  | .skip | .allocate _ _ | .print _ | .goto _ _ => True

theorem Frame.Valid.instruction [Profile] (h : f.Valid memory) (hm : memory.Valid)
    (i : Instruction) :
    Yields (Action.Valid memory) (instructionAction m memory f i) := by
  cases i with
  | alloc dest size =>
      refine (h.evalInt size).bind fun n _ => ?_
      split
      · rintro id ⟨⟩
      · trivial
  | alloca dest type => exact (yields_counted _).bind fun _ _ => trivial
  | bitcast dest x => exact (h.evalPointer x).bind fun _ ha => ha
  | elementPtr dest base indices => exact (h.elementAddress base indices).bind fun _ ha => ha
  | load dest x =>
      exact (h.evalPointer x).bind fun _ ha => (hm.load ha).bind fun _ hv => hv
  | store x y =>
      exact (h.evalPointer x).bind fun _ ha => (h.eval y).bind fun _ hv =>
        (Memory.yields_resolve ha).bind fun _ hcovers => ⟨hcovers, hv⟩
  | binary dest op x y => exact (h.compute op x y).bind fun _ hv => hv
  | call dest callee args =>
      exact (h.evals args).bind fun _ hvs => (yields_enter callee hvs).bind fun _ hf => hf
  | print x => exact (h.evalInt x).bind fun _ _ => trivial
  | comment text => trivial

theorem yields_goto (f : Frame) (block : Nat) :
    Yields (Action.Valid memory) (gotoAction f block) := by
  rw [gotoAction]
  split
  · trivial
  · rintro id ⟨⟩

theorem Frame.Valid.terminator (h : f.Valid memory) (t : Option Terminator) :
    Yields (Action.Valid memory) (terminatorAction f t) := by
  cases t with
  | none => rintro id ⟨⟩
  | some t =>
      cases t with
      | jump target => exact yields_goto f target
      | branch condition onTrue onFalse =>
          refine (h.eval condition).bind fun v _ => ?_
          split
          · exact yields_goto f onTrue
          · exact yields_goto f onFalse
          · exact f.yields_fault _
      | ret x => exact (h.eval x).bind fun _ hv => hv
      | halt message => rintro id ⟨⟩

theorem Frame.Valid.next [Profile] (h : f.Valid memory) (hm : memory.Valid) :
    Yields (Action.Valid memory) (nextAction m memory f) := by
  rw [nextAction]
  split
  · exact h.instruction hm _
  · exact h.terminator _

end actions

section runs

/-- Taking an action forges no pointer. -/
theorem State.Valid.perform (h : s.Valid) {action : Action}
    (haction : action.Valid s.world.memory) (ht : s.perform action = .running t) : t.Valid := by
  obtain ⟨⟨memory, output⟩, ⟨p, block, todo, temps⟩, callers⟩ := s
  obtain ⟨hmemory, hframe, hcallers⟩ := h
  cases action with
  | assign dest v =>
      cases ht
      exact ⟨hmemory, Frame.Valid.set (f := ⟨p, block, todo.tail, temps⟩) hframe haction dest,
        hcallers⟩
  | allocate dest size =>
      cases ht
      have hle : memory.count ≤ (memory.allocate size).2.count := by simp
      have hkept : Frame.Valid (memory.allocate size).2 ⟨p, block, todo.tail, temps⟩ :=
        fun id v hv => (hframe id v hv).mono hle
      exact ⟨hmemory.allocate size, hkept.set (memory.valid_allocated size) dest,
        fun caller hcaller => (hcallers caller hcaller).mono hle⟩
  | write a v =>
      cases ht
      have hle : memory.count ≤ (memory.put a v).count := Memory.count_put.ge
      exact ⟨hmemory.put haction.1 haction.2, fun id w hw => (hframe id w hw).mono hle,
        fun caller hcaller => (hcallers caller hcaller).mono hle⟩
  | enter dest callee =>
      cases ht
      exact ⟨hmemory, haction, List.forall_mem_cons.2 ⟨hframe, hcallers⟩⟩
  | leave v =>
      cases callers with
      | nil => cases ht
      | cons caller callers =>
          cases ht
          obtain ⟨hcaller, hcallers⟩ := List.forall_mem_cons.1 hcallers
          exact ⟨hmemory, hcaller.set haction _, hcallers⟩
  | _ =>
      cases ht
      exact ⟨hmemory, hframe, hcallers⟩

/-- A step forges no pointer, and does not stop at an unknown allocation. -/
theorem State.Valid.step [Profile] (h : s.Valid) : (∀ t, Machine.step m s = .running t → t.Valid) ∧
    ∀ w id, Machine.step m s ≠ .stopped w (.error (.access (.unknownAllocation id))) := by
  have hnext := h.frame.next (m := m) h.memory
  rw [Machine.step]
  split
  · next action haction =>
    rw [haction] at hnext
    refine ⟨fun t ht => h.perform hnext ht, fun w id hstopped => ?_⟩
    obtain ⟨⟨memory, output⟩, ⟨p, block, todo, temps⟩, callers⟩ := s
    cases action with
    | leave v => cases callers <;> cases hstopped
    | _ => cases hstopped
  · next fault hfault =>
    rw [hfault] at hnext
    refine ⟨fun t ht => (by cases ht), fun w id hstopped => ?_⟩
    injection hstopped with _ hresult
    injection hresult with heq
    exact hnext id heq

end runs

end ObjectLang.Machine
