import Mathlib.Tactic
import ObjectLang.Proofs.Lowering.Compiled
import ObjectLang.Proofs.Lowering.Quotients
import ObjectLang.Proofs.Machine.Activations
import ObjectLang.Proofs.Machine.Moves
import ObjectLang.Proofs.Simulation.Programs

/-!
# Division

Wherever a division stands in an accepted program, its code gives the quotient of what the code for
its operands has given, rounded toward zero. It halts if the divisor is zero, and never divides by
zero; the least number divided by minus one is that number, which is found without dividing. Nothing
changes on the way but the temporaries of the division and its slot.
-/
namespace ObjectLang.IR

variable {q : Procedure} {b : Block} {c n k : Nat} {before : List Instruction} {x y : Operand}
  {span : Span}

/-- Slots are taken in the first block only, so all else is code. -/
theorem Procedure.Disciplined.instructions_eq (h : q.Disciplined) (hb : q.blocks[n]? = some b)
    (hn : n ≠ 0) : b.instructions = q.code n := by
  obtain ⟨slots, code, hinstructions, -, hcode, hslots⟩ := h.slots n b hb
  rw [hslots hn, List.nil_append] at hinstructions
  rw [Procedure.code_of_getElem? hb, Block.code, hinstructions]
  exact (List.dropWhile_eq_self_iff.2 fun hpos => by simp [hcode _ (List.getElem_mem hpos)]).symm

theorem Procedure.exists_of_mem_code {i : Instruction} (hi : i ∈ q.code n) :
    ∃ b, q.blocks[n]? = some b ∧ i ∈ b.instructions := by
  rw [Procedure.code] at hi
  cases hb : q.blocks[n]? with
  | none =>
      rw [hb] at hi
      cases hi
  | some b =>
      rw [hb] at hi
      exact ⟨b, rfl, List.dropWhile_subset _ hi⟩

/-- Instructions in two places of the code assign different temporaries. -/
theorem Procedure.Disciplined.dest_ne (h : q.Disciplined) {i j : Instruction} {l t : Nat}
    (hj : j ∈ (q.code c).take l) (hi : n = c ∧ i ∈ (q.code c).drop l ∨ n ≠ c ∧ i ∈ q.code n)
    (hdest : j.dest? = some t) : i.dest? ≠ some t := by
  obtain ⟨b, hb, hmem⟩ := exists_of_mem_code (List.mem_of_mem_take hj)
  rcases hi with ⟨-, hi⟩ | ⟨hne, hi⟩
  · have hnodup : (destsOf (q.code c)).Nodup := by
      rw [code_of_getElem? hb]
      exact (h.nodup_block hb).sublist ((List.dropWhile_sublist _).filterMap _)
    rw [← List.take_append_drop l (q.code c)] at hnodup
    exact not_mem_dests_of_append hnodup hj hdest hi
  · obtain ⟨b', hb', hmem'⟩ := exists_of_mem_code hi
    exact h.dest_ne_of_ne hb hb' hne.symm hmem hdest hmem'

theorem Procedure.mem_dests {i : Instruction} {t : Nat} (hb : q.blocks[n]? = some b)
    (hi : i ∈ b.instructions) (hdest : i.dest? = some t) : t ∈ q.dests :=
  List.mem_flatMap.2 ⟨b, Array.mem_toList_iff.2 (Array.mem_of_getElem? hb),
    mem_destsOf.2 ⟨i, hi, hdest⟩⟩

/-- The temporaries of a division are assigned by its code. -/
theorem Procedure.Divides.mem_dests (h : q.Divides c before n k x y span) {t : Nat} (hle : n ≤ t)
    (hlt : t < n + 7) : t ∈ q.dests := by
  have hcode : ∀ {i : Instruction} {j : Nat}, i ∈ q.code j → i.dest? = some t → t ∈ q.dests := by
    intro i j hi hdest
    obtain ⟨b, hb, hmem⟩ := exists_of_mem_code hi
    exact Procedure.mem_dests hb hmem hdest
  obtain ⟨d, hd, rfl⟩ : ∃ d, d < 7 ∧ t = n + d := ⟨t - n, by omega, by omega⟩
  interval_cases d
  · exact hcode (h.test ▸ List.mem_append_right _ (List.mem_singleton_self _)) rfl
  · have hslot := h.slot
    rw [Procedure.slots] at hslot
    cases hb : q.blocks[0]? with
    | none =>
        rw [hb] at hslot
        cases hslot
    | some b =>
        rw [hb] at hslot
        exact Procedure.mem_dests hb (List.takeWhile_subset _ hslot) rfl
  · exact hcode (h.look ▸ List.mem_cons_self ..) rfl
  · exact hcode (h.look ▸ List.mem_cons_of_mem _ (List.mem_cons_self ..)) rfl
  · exact hcode (h.look ▸ List.mem_cons_of_mem _ (List.mem_cons_of_mem _ (List.mem_cons_self ..)))
      rfl
  · exact hcode (h.divide ▸ List.mem_cons_self ..) rfl
  · obtain ⟨rest, hrest⟩ := h.done
    exact hcode (hrest ▸ List.mem_cons_self ..) rfl

theorem Procedure.Divides.exists_block (h : q.Divides c before n k x y span) (hq : q.Disciplined)
    {j : Nat} (hj : j ≤ 3) : ∃ b, q.blocks[k + j]? = some b ∧ b.instructions = q.code (k + j) := by
  suffices hb : ∃ b, q.blocks[k + j]? = some b by
    obtain ⟨b, hb⟩ := hb
    have hpos := h.fresh
    exact ⟨b, hb, hq.instructions_eq hb (by omega)⟩
  have hends : ∀ {t}, q.terminator? (k + j) = some t → ∃ b, q.blocks[k + j]? = some b :=
    fun ht => (Procedure.terminator?_eq_some_iff.1 ht).imp fun _ => And.left
  interval_cases j
  · exact hends h.stopped
  · exact hends h.looked
  · exact hends h.divided
  · obtain ⟨rest, hrest⟩ := h.done
    cases hb : q.blocks[k + 3]? with
    | some b => exact ⟨b, rfl⟩
    | none =>
        rw [Procedure.code, hb] at hrest
        cases hrest

end ObjectLang.IR

namespace ObjectLang.Machine

open IR

section configs

variable {μ μ' μ'' : Config} {n id dest : Nat} {x y : Operand} {a b : Int32} {v : Value}

/-- The code of a division has changed temporaries of its own, but for the one that points to its
slot, and what that slot holds. -/
structure Config.Alters (n id : Nat) (μ μ' : Config) : Prop where
  output : μ'.output = μ.output
  size : μ'.temps.size = μ.temps.size
  temps : ∀ t, t < n ∨ t = n + 1 ∨ n + 7 ≤ t → μ'.temps[t]? = μ.temps[t]?
  sizes : ∀ j, μ'.memory.sizeAt? j = μ.memory.sizeAt? j
  memory : ∀ a, a.allocation ≠ id → μ'.memory.get? a = μ.memory.get? a

/-- The values of the operands of a division, and its slot. The operands are no temporaries of its
own. -/
structure Config.Presents (n id : Nat) (x y : Operand) (a b : Int32) (μ : Config) : Prop where
  size : n + 7 ≤ μ.temps.size
  slot : μ.value? (.temp (n + 1)) = some (.pointer (some ⟨id, 0⟩))
  covers : μ.memory.Covers ⟨id, 0⟩
  older : ∀ t, x = .temp t ∨ y = .temp t → t < n ∨ n + 7 ≤ t
  dividend : μ.value? x = some (.int a)
  divisor : μ.value? y = some (.int b)

namespace Config

theorem value?_congr (h : ∀ t, x = .temp t → μ'.temps[t]? = μ.temps[t]?) :
    μ'.value? x = μ.value? x := by
  cases x with
  | temp t => rw [value?, value?, h t rfl]
  | _ => rfl

theorem value?_set_of_ne (h : x ≠ .temp dest) : (μ.set dest v).value? x = μ.value? x :=
  value?_congr fun _ ht => temps_set_of_ne fun heq => h (heq ▸ ht)

theorem alters_set (hle : n ≤ dest) (hlt : dest < n + 7) (hne : dest ≠ n + 1) :
    μ.Alters n id (μ.set dest v) :=
  ⟨rfl, size_temps_set, fun t ht => temps_set_of_ne (by omega), fun _ => rfl, fun _ _ => rfl⟩

theorem alters_write : μ.Alters n id (μ.write ⟨id, 0⟩ v) :=
  ⟨rfl, rfl, fun _ _ => rfl, fun _ => Memory.sizeAt?_put,
    fun _ ha => Memory.get?_put_of_ne fun heq => ha (congrArg Address.allocation heq)⟩

theorem Alters.trans (h : μ.Alters n id μ') (h' : μ'.Alters n id μ'') : μ.Alters n id μ'' :=
  ⟨h'.output.trans h.output, h'.size.trans h.size, fun t ht => (h'.temps t ht).trans (h.temps t ht),
    fun j => (h'.sizes j).trans (h.sizes j), fun a ha => (h'.memory a ha).trans (h.memory a ha)⟩

/-- Operands and slot stay as they are. -/
theorem Presents.mono (h : μ.Presents n id x y a b) (h' : μ.Alters n id μ') :
    μ'.Presents n id x y a b := by
  have holder : ∀ {z}, (∀ t, z = .temp t → t < n ∨ n + 7 ≤ t) → μ'.value? z = μ.value? z :=
    fun hz => value?_congr fun t ht => h'.temps t ((hz t ht).imp_right .inr)
  obtain ⟨size, hsize, hlt⟩ := h.covers
  refine ⟨h.size.trans h'.size.ge, ?_, ⟨size, (h'.sizes id).trans hsize, hlt⟩, h.older, ?_, ?_⟩
  · rw [← h.slot]
    exact value?_congr fun t ht => h'.temps t (.inr (.inl (Operand.temp.inj ht).symm))
  · rw [holder fun t ht => h.older t (.inl ht), h.dividend]
  · rw [holder fun t ht => h.older t (.inr ht), h.divisor]

end Config

end configs

section steps

/-- The divisor of the division that a state is about to do, if it is about to do one. -/
def State.divisor? (s : State) : Option (Except Fault Int32) :=
  match s.frame.todo with
  | .binary _ .sdiv _ y :: _ => some (s.frame.evalInt y)
  | _ => none

/-- There is no quotient by zero. -/
theorem step_of_divisor? {m : Module} {s : State} (h : s.divisor? = some (.ok 0)) :
    step m s = .stopped s.world (.error (s.frame.fault .zeroDivisor)) := by
  rw [State.divisor?] at h
  split at h
  · next dest x y rest htodo =>
    rw [step, nextAction, htodo]
    simp only [instructionAction, Frame.compute, Option.some.inj h, bind, Except.bind, if_true]
    rfl
  · cases h

/-- A state that is about to do anything else. -/
def State.NoDivision (s : State) : Prop :=
  s.divisor? = none

variable {m : Module} {q : Procedure} {callers : List (Nat × Frame)} {c c' n k j id : Nat}
  {before : List Instruction} {x y z : Operand} {span : Span} {a b : Int32} {μ : Config} {v : Bool}
  {onTrue onFalse : Nat} (hq : q.Disciplined) (hd : q.Divides c before n k x y span)
include hq hd

theorem step_branch_to (ht : q.terminator? c' = some (.branch z onTrue onFalse))
    (hz : μ.value? z = some (.bool v)) (htarget : (if v then onTrue else onFalse) = k + j)
    (hj : j ≤ 3) : step m (μ.state q callers (c', [])) =
      .running (μ.state q callers (k + j, q.code (k + j))) := by
  obtain ⟨blk, hblk, hterminator⟩ := Procedure.terminator?_eq_some_iff.1 ht
  obtain ⟨target, hb, hcode⟩ := hd.exists_block hq hj
  rw [← htarget] at hb hcode ⊢
  rw [step_branch hblk hterminator hz hb, hcode]

variable (m callers) (h : μ.Presents n id x y a b)
include h

/-- The divisor is tested. -/
theorem test_steps : ∃ μ', μ.Alters n id μ' ∧ Through m State.NoDivision 2
    (μ.state q callers (c, [.binary n .eq y (.int 0)]))
    (μ'.state q callers (k + if b = 0 then 0 else 1, q.code (k + if b = 0 then 0 else 1))) := by
  have hsize := h.size
  refine ⟨μ.set n (.bool (decide (Value.int b = .int 0))),
    Config.alters_set le_rfl (by omega) (by omega),
    .head rfl (step_binary h.divisor rfl .eq) (.one rfl ?_)⟩
  refine step_branch_to hq hd hd.tested (Config.value?_set_self (by omega)) ?_ ?_
  · by_cases hb : b = 0 <;> simp [hb]
  · split_ifs <;> omega

/-- It is looked whether the quotient is no number, and the slot gets the value for that case. -/
theorem look_steps : ∃ μ', μ.Alters n id μ' ∧
    μ'.memory.get? ⟨id, 0⟩ = some (.int Int32.minValue) ∧ Through m State.NoDivision 5
    (μ.state q callers (k + 1, q.code (k + 1)))
    (μ'.state q callers (k + if b = -1 ∧ a = Int32.minValue then 3 else 2,
      q.code (k + if b = -1 ∧ a = Int32.minValue then 3 else 2))) := by
  have hsize := h.size
  rw [hd.look]
  let μ₁ := μ.set (n + 2) (.bool (decide (Value.int b = .int (-1))))
  let μ₂ := μ₁.set (n + 3) (.bool (decide (Value.int a = .int Int32.minValue)))
  let μ₃ := μ₂.set (n + 4) (.bool (decide (Value.int b = .int (-1)) &&
    decide (Value.int a = .int Int32.minValue)))
  let μ₄ := μ₃.write ⟨id, 0⟩ (.int Int32.minValue)
  have h₁ : μ.Alters n id μ₁ := Config.alters_set (by omega) (by omega) (by omega)
  have h₂ : μ.Alters n id μ₂ := h₁.trans (Config.alters_set (by omega) (by omega) (by omega))
  have h₃ : μ.Alters n id μ₃ := h₂.trans (Config.alters_set (by omega) (by omega) (by omega))
  have h₄ : μ.Alters n id μ₄ := h₃.trans Config.alters_write
  refine ⟨μ₄, h₄, Memory.get?_put_self (h.mono h₃).covers, ?_⟩
  refine .head rfl (step_binary (u := .bool (decide (Value.int b = .int (-1)))) h.divisor rfl .eq)
    ?_
  refine .head rfl (step_binary (μ := μ₁) (h.mono h₁).dividend rfl .eq) ?_
  have hminusOne : μ₂.value? (.temp (n + 2)) = some (.bool (decide (Value.int b = .int (-1)))) := by
    rw [Config.value?_set_of_ne (by simp)]
    exact Config.value?_set_self (by omega)
  have hleast : μ₂.value? (.temp (n + 3)) =
      some (.bool (decide (Value.int a = .int Int32.minValue))) :=
    Config.value?_set_self (by rw [Config.size_temps_set]; omega)
  refine .head rfl (step_binary (μ := μ₂) hminusOne hleast .and) ?_
  refine .head rfl (step_store (μ := μ₃) (h.mono h₃).slot rfl (h.mono h₃).covers) (.one rfl ?_)
  refine step_branch_to (μ := μ₄) hq hd hd.looked ((Config.value?_write _).trans
    (Config.value?_set_self (by rw [Config.size_temps_set, Config.size_temps_set]; omega))) ?_ ?_
  · by_cases hb : b = -1 <;> by_cases ha : a = Int32.minValue <;> simp [hb, ha]
  · split_ifs <;> omega

/-- The numbers are divided, and the slot gets the quotient. -/
theorem divide_steps (hb : b ≠ 0) : ∃ μ', μ.Alters n id μ' ∧
    μ'.memory.get? ⟨id, 0⟩ = some (.int (a / b)) ∧
    Through m (fun s => s.divisor? = none ∨ s.divisor? = some (.ok b)) 3
      (μ.state q callers (k + 2, q.code (k + 2)))
      (μ'.state q callers (k + 3, q.code (k + 3))) := by
  have hsize := h.size
  rw [hd.divide]
  let μ₁ := μ.set (n + 5) (.int (a / b))
  have h₁ : μ.Alters n id μ₁ := Config.alters_set (by omega) (by omega) (by omega)
  refine ⟨μ₁.write ⟨id, 0⟩ (.int (a / b)), h₁.trans Config.alters_write,
    Memory.get?_put_self (h.mono h₁).covers, ?_⟩
  refine .head (.inr (congrArg some (evalInt_eq (μ := μ) rfl h.divisor)))
    (step_binary h.dividend h.divisor (.sdiv hb)) ?_
  refine .head (.inl rfl) (step_store (μ := μ₁) (h.mono h₁).slot (Config.value?_set_self (by omega))
    (h.mono h₁).covers) (.one (.inl rfl) ?_)
  obtain ⟨blk, hblk, hterminator⟩ := Procedure.terminator?_eq_some_iff.1 hd.divided
  obtain ⟨target, htarget, hcode⟩ := hd.exists_block hq (j := 3) le_rfl
  rw [← hcode]
  exact step_jump hblk hterminator htarget

omit hq in
/-- The result is what the slot holds. -/
theorem done_steps {v : Value} (hv : μ.memory.get? ⟨id, 0⟩ = some v) : ∃ μ' rest,
    q.code (k + 3) = .load (n + 6) (.temp (n + 1)) :: rest ∧ μ.Alters n id μ' ∧
      μ'.value? (.temp (n + 6)) = some v ∧ Through m State.NoDivision 1
        (μ.state q callers (k + 3, q.code (k + 3))) (μ'.state q callers (k + 3, rest)) := by
  obtain ⟨rest, hrest⟩ := hd.done
  have hsize := h.size
  refine ⟨_, rest, hrest, Config.alters_set (by omega) (by omega) (by omega),
    Config.value?_set_self (by omega), ?_⟩
  rw [hrest]
  exact .one rfl (step_load h.slot h.covers hv)

/-- A division by zero halts. -/
theorem zero_steps (hb : b = 0) : ∃ μ', μ.Alters n id μ' ∧ Through m State.NoDivision 2
    (μ.state q callers (c, [.binary n .eq y (.int 0)])) (μ'.state q callers (k, [])) ∧
      step m (μ'.state q callers (k, [])) = .stopped ⟨μ'.memory, μ'.output⟩
        (.error (.halt ("Division by zero in line " ++ toString span.line))) := by
  obtain ⟨μ', hμ', hsteps⟩ := test_steps m callers hq hd h
  rw [if_pos hb, Nat.add_zero, hd.stop] at hsteps
  obtain ⟨blk, hblk, hterminator⟩ := Procedure.terminator?_eq_some_iff.1 hd.stopped
  exact ⟨μ', hμ', hsteps, step_halt hblk hterminator⟩

/-- The least number divided by minus one. -/
theorem overflow_steps (hb : b = -1) (ha : a = Int32.minValue) : ∃ μ' rest j,
    q.code (k + 3) = .load (n + 6) (.temp (n + 1)) :: rest ∧ μ.Alters n id μ' ∧
      μ'.value? (.temp (n + 6)) = some (.int Int32.minValue) ∧ Through m State.NoDivision j
        (μ.state q callers (c, [.binary n .eq y (.int 0)])) (μ'.state q callers (k + 3, rest)) := by
  obtain ⟨μ₁, h₁, hsteps₁⟩ := test_steps m callers hq hd h
  rw [if_neg (by rw [hb]; decide)] at hsteps₁
  obtain ⟨μ₂, h₂, hget, hsteps₂⟩ := look_steps m callers hq hd (h.mono h₁)
  rw [if_pos ⟨hb, ha⟩] at hsteps₂
  have h' := h₁.trans h₂
  obtain ⟨μ₃, rest, hrest, h₃, hvalue, hsteps₃⟩ := done_steps m callers hd (h.mono h') hget
  exact ⟨μ₃, rest, _, hrest, h'.trans h₃, hvalue, (hsteps₁.trans hsteps₂).trans hsteps₃⟩

/-- All other numbers are divided. -/
theorem quotient_steps (hb : b ≠ 0) (hab : ¬ (b = -1 ∧ a = Int32.minValue)) : ∃ μ' rest j,
    q.code (k + 3) = .load (n + 6) (.temp (n + 1)) :: rest ∧ μ.Alters n id μ' ∧
      μ'.value? (.temp (n + 6)) = some (.int (a / b)) ∧
      Through m (fun s => s.divisor? = none ∨ s.divisor? = some (.ok b)) j
        (μ.state q callers (c, [.binary n .eq y (.int 0)])) (μ'.state q callers (k + 3, rest)) := by
  obtain ⟨μ₁, h₁, hsteps₁⟩ := test_steps m callers hq hd h
  rw [if_neg hb] at hsteps₁
  obtain ⟨μ₂, h₂, -, hsteps₂⟩ := look_steps m callers hq hd (h.mono h₁)
  rw [if_neg hab] at hsteps₂
  have h' := h₁.trans h₂
  obtain ⟨μ₃, h₃, hget, hsteps₃⟩ := divide_steps m callers hq hd (h.mono h') hb
  have h'' := h'.trans h₃
  obtain ⟨μ₄, rest, hrest, h₄, hvalue, hsteps₄⟩ := done_steps m callers hd (h.mono h'') hget
  exact ⟨μ₄, rest, _, hrest, h''.trans h₄, hvalue,
    (((hsteps₁.trans hsteps₂).mono fun _ => .inl).trans
    hsteps₃).trans (hsteps₄.mono fun _ => .inl)⟩

end steps

section places

/-- A frame is where a builder of its procedure has got to. -/
def Frame.IsAt (q : Procedure) (b : Builder) (f : Frame) : Prop :=
  f.procedure = q ∧ b.isOpen = true ∧ (f.block, f.todo) = b.point q

/-- The points of a procedure between two states of its builder: what is left of the block that was
open first, and the blocks that were made, but nothing behind the place where the
builder is then. -/
def Between (q : Procedure) (b b' : Builder) (c n : Nat) (todo : List Instruction) : Prop :=
  (n = c ∧ todo <:+ (q.code c).drop (b.procedure.code c).length ∨
    b.size ≤ n ∧ n < b'.size ∧ todo <:+ q.code n) ∧
  (b'.current = some n → (q.code n).drop (b'.procedure.code n).length <:+ todo)

variable {m : Module} {q : Procedure} {b b' : Builder} {f : Frame} {c t : Nat}

theorem value?_of_eval {μ : Config} {x : Operand} {v : Value} (hf : f.temps = μ.temps)
    (h : f.eval x = .ok v) : μ.value? x = some v := by
  cases x with
  | temp t =>
      rw [Frame.eval] at h
      split at h
      · next w hw =>
        cases h
        exact Config.value?_temp (hf ▸ hw)
      · cases h
  | _ =>
      cases h
      rfl

theorem Frame.isAt_iff : f.IsAt q b ↔ f.procedure = q ∧ ∃ c, b.current = some c ∧ f.block = c ∧
    f.todo = (q.code c).drop (b.procedure.code c).length := by
  rw [IsAt, Builder.isOpen, Option.isSome_iff_exists, Builder.point, Prod.mk.injEq]
  refine and_congr_right fun _ => ⟨?_, ?_⟩
  · rintro ⟨⟨c, hc⟩, hblock, htodo⟩
    rw [hc] at hblock htodo
    exact ⟨c, hc, hblock, htodo⟩
  · rintro ⟨c, hc, hblock, htodo⟩
    rw [hc]
    exact ⟨⟨c, rfl⟩, hblock, htodo⟩

/-- Control stays between two places of a procedure, and there nothing is assigned that was assigned
before. -/
theorem encloses_between (hd : b.Detours b' c) (hlt : c < b.size) (hb : b'.procedure.Precedes q)
    (hq : q.Disciplined)
    (ht : t ∈ q.params ∨ t ∈ destsOf ((q.code c).take (b.procedure.code c).length)) :
    Encloses q (Between q b b' c) (Frame.IsAt q b') t := by
  have hstop : ∀ {f : Frame}, f.procedure = q → ¬ f.IsAt q b' → b'.current = some f.block →
      f.todo ≠ (q.code f.block).drop (b'.procedure.code f.block).length :=
    fun hprocedure hnot hcurrent htodo =>
      hnot (Frame.isAt_iff.2 ⟨hprocedure, _, hcurrent, rfl, htodo⟩)
  refine ⟨fun f i rest hprocedure htodo hbetween hnot => ⟨⟨?_, fun hcurrent => ?_⟩, ?_⟩,
    fun f blk τ hprocedure htodo hbetween hnot hblk hτ k hk blk' hblk' => ?_⟩
  · exact hbetween.1.imp (.imp_right (List.suffix_cons i rest).trans)
      (.imp_right (.imp_right (List.suffix_cons i rest).trans))
  · refine (List.suffix_cons_iff.1 (hbetween.2 hcurrent)).resolve_left fun heq => ?_
    exact hstop hprocedure hnot hcurrent (htodo.trans heq.symm)
  · have hmem : f.block = c ∧ i ∈ (q.code c).drop (b.procedure.code c).length ∨
        f.block ≠ c ∧ i ∈ q.code f.block := by
      rcases hbetween.1 with ⟨hblock, hsuffix⟩ | ⟨hle, -, hsuffix⟩
      · exact .inl ⟨hblock, hsuffix.subset (List.mem_cons_self ..)⟩
      · exact .inr ⟨(hlt.trans_le hle).ne', hsuffix.subset (List.mem_cons_self ..)⟩
    rcases ht with hparam | hdests
    · intro hdest
      have hcode : i ∈ q.code f.block := hmem.elim
        (fun h => h.1 ▸ List.mem_of_mem_drop h.2) And.right
      obtain ⟨blk, hblk, hi⟩ := Procedure.exists_of_mem_code hcode
      exact hq.params t hparam (Procedure.mem_dests hblk hi hdest)
    · obtain ⟨j, hj, hdest⟩ := mem_destsOf.1 hdests
      exact hq.dest_ne hj hmem hdest
  · -- The block is not the one that is open in the end, so its terminator is known.
    have hcurrent : b'.current ≠ some f.block := by
      intro hcurrent
      have hnil := List.suffix_nil.1 (hbetween.2 hcurrent)
      exact hstop hprocedure hnot hcurrent (htodo.trans hnil.symm)
    have hblock : f.block = c ∨ b.size ≤ f.block := hbetween.1.imp And.left And.left
    have hlt' : f.block < b'.procedure.blocks.size := by
      rcases hbetween.1 with ⟨hc, -⟩ | ⟨-, hlt', -⟩
      · exact hc ▸ hlt.trans_le hd.size
      · exact hlt'
    have hget := Array.getElem?_eq_getElem hlt'
    cases hterminator : b'.procedure.terminator? f.block with
    | none =>
        rw [Procedure.terminator?, hget] at hterminator
        exact absurd (hd.closed _ hblock ⟨_, hget, hterminator⟩) hcurrent
    | some τ' =>
        have hτ' := (hb.ended _ _ hterminator).1
        rw [Procedure.terminator?, hblk, Option.bind_some, hτ] at hτ'
        obtain rfl := Option.some.inj hτ'
        obtain ⟨hle, hlt''⟩ := hd.edges _ _ hblock hterminator k hk
        rw [hq.instructions_eq hblk' (Nat.ne_zero_of_lt (hlt.trans_le hle))]
        exact ⟨.inr ⟨hle, hlt'', List.suffix_rfl⟩, fun _ => List.drop_suffix ..⟩

end places

section changes

variable {m : Module} {q : Procedure} {callers : List (Nat × Frame)} {n id : Nat} {μ μ' : Config}
  {x x' : Point}

/-- Of all that a run is made of, a stretch of code in one procedure has changed no more than
temporaries in a range and what the slots behind them hold. -/
structure State.Changes (lo hi : Nat) (s s' : State) : Prop where
  procedure : s'.frame.procedure = s.frame.procedure
  callers : s'.callers = s.callers
  output : s'.world.output = s.world.output
  temps : ∀ t, t < lo ∨ hi ≤ t → s'.frame.temps[t]? = s.frame.temps[t]?
  sizes : ∀ id, s'.world.memory.sizeAt? id = s.world.memory.sizeAt? id
  memory : ∀ a, (∀ t, lo ≤ t → t < hi → ¬ s.frame.Owns t a.allocation) →
    s'.world.memory.get? a = s.world.memory.get? a
  /-- The other slots of the procedure. -/
  slots : ∀ t a, t < lo ∨ hi ≤ t → s.frame.Owns t a.allocation →
    s'.world.memory.get? a = s.world.memory.get? a
  /-- The slots of the procedures that wait. -/
  waiting : ∀ caller ∈ s.callers, ∀ t a, caller.2.Owns t a.allocation →
    s'.world.memory.get? a = s.world.memory.get? a

theorem Config.Alters.changes (h : μ.Alters n id μ') (hs : (μ.state q callers x).Housed m)
    (howns : (μ.state q callers x).frame.Owns (n + 1) id) :
    (μ.state q callers x).Changes n (n + 7) (μ'.state q callers x') where
  procedure := rfl
  callers := rfl
  output := h.output
  temps t ht := h.temps t (ht.imp_right .inr)
  sizes := h.sizes
  memory a ha := h.memory a fun heq => ha (n + 1) (by omega) (by omega) (heq ▸ howns)
  slots t a ht hslot := by
    refine h.memory a fun heq => ?_
    have hsame := (hs.frames _ (List.mem_cons_self ..)).apart t (n + 1) id (heq ▸ hslot) howns
    omega
  waiting caller hcaller t a hslot := by
    refine h.memory a fun heq => ?_
    have hapart := (List.pairwise_cons.1 hs.apart).1 caller.2 (List.mem_map_of_mem hcaller)
    exact hapart (n + 1) t id howns (heq ▸ hslot)

/-- What the code of a division does in a state where its operands are two numbers. It is made
between two states of a builder, and gives its result in an operand. -/
inductive State.Divides (m : Module) (q : Procedure) (b b' : Builder) (z : Operand) (span : Span)
    (u : State) : Int32 → Int32 → Prop
  | zero {dividend : Int32} {n : Nat} {v : State} : Through m State.NoDivision n u v →
      u.Changes b.procedure.temps.size b'.procedure.temps.size v →
      step m v =
        .stopped v.world (.error (.halt ("Division by zero in line " ++ toString span.line))) →
      Divides m q b b' z span u dividend 0
  | overflow {n : Nat} {v : State} : Through m State.NoDivision n u v →
      u.Changes b.procedure.temps.size b'.procedure.temps.size v → v.frame.IsAt q b' →
      v.frame.eval z = .ok (.int Int32.minValue) →
      Divides m q b b' z span u Int32.minValue (-1)
  | quotient {dividend divisor c : Int32} {n : Nat} {v : State} : divisor ≠ 0 →
      ¬ (divisor = -1 ∧ dividend = Int32.minValue) →
      Through m (fun v => v.divisor? = none ∨ v.divisor? = some (.ok divisor)) n u v →
      u.Changes b.procedure.temps.size b'.procedure.temps.size v → v.frame.IsAt q b' →
      v.frame.eval z = .ok (.int c) → c.toInt = dividend.toInt.tdiv divisor.toInt →
      Divides m q b b' z span u dividend divisor

end changes

end ObjectLang.Machine

namespace ObjectLang

open Machine IR

section divisions

variable {body : Body} {tag : Tag} {left right : Expr} {s s' s₁ s₂ : LowerState} {z x y : Operand}
  {q : Procedure} {m : Module} {u u₁ u₂ : State} {a b : Int32}
  (hd : Division body tag left right s s' z q x y s₁ s₂) (hq : q.Disciplined)
  (hthis : ∀ t, body.this = some t → t ∈ q.params)
include hd hq hthis

/-- What the code for the dividend has given is still there when the divisor is known, whatever its
code has done and called. -/
theorem Division.dividend_keeps (h₁ : u₁.frame.IsAt q s₁.builder)
    (h : u₁.ArrivesAt m (Frame.IsAt q s₂.builder) u₂) : u₂.frame.eval x = u₁.frame.eval x := by
  cases x with
  | temp t =>
      obtain ⟨hprocedure, c, hc, hblock, htodo⟩ := Frame.isAt_iff.1 h₁
      have hlt := (hd.unterminated c hc).lt
      have hprefix := (hd.operand.trans hd.behind).code c
      have ht : t ∈ q.params ∨
          t ∈ destsOf ((q.code c).take (s₁.builder.procedure.code c).length) := by
        rw [← List.prefix_iff_eq_take.1 hprefix]
        exact (delivers_expr left _ _ _ hd.left t rfl).imp (hthis t) fun h => h.2 c hc hlt
      have hencloses := encloses_between (hd.detours c hc) hlt hd.behind hq ht
      have hkeeps := h.keeps hencloses hprocedure
        ⟨.inl ⟨hblock, htodo ▸ List.suffix_rfl⟩, fun _ => by
        have hle := (hd.operand.code c).length_le
        rw [hblock, htodo, ← Nat.add_sub_of_le hle, ← List.drop_drop]
        exact List.drop_suffix ..⟩
      simp only [Frame.eval, hkeeps, Frame.fault, hprocedure, h.place.1]
  | _ => rfl

omit hq hthis in
/-- The code of a division stands in the procedure. -/
theorem Division.exists_divides {c : Nat} (hc : s₂.builder.current = some c) :
    q.Divides c (s₂.builder.procedure.code c) s₂.builder.procedure.temps.size s₂.builder.size x y
      tag.span := by
  obtain ⟨-, type, hs'⟩ := quotient_spec hd.own
  exact divides_quotientMoves hs' hc rfl (hd.unterminated' c hc).lt rfl hd.done

/-- The operands of a division are none of its own temporaries. -/
theorem Division.older {c t : Nat} (hc : s₂.builder.current = some c)
    (ht : x = .temp t ∨ y = .temp t) :
    t < s₂.builder.procedure.temps.size ∨ s₂.builder.procedure.temps.size + 7 ≤ t := by
  have hold : body.this = some t ∨ t < s₂.builder.procedure.temps.size := by
    rcases ht with ht | ht
    · exact (delivers_expr left _ _ _ hd.left t ht).imp_right fun h => h.1.trans_le hd.operand.temps
    · exact (delivers_expr right _ _ _ hd.right t ht).imp_right And.left
  refine hold.elim (fun hreceiver => ?_) .inl
  by_contra hown
  rw [not_or, not_lt, not_le] at hown
  exact hq.params t (hthis t hreceiver) ((hd.exists_divides hc).mem_dests hown.1 hown.2)

omit hd hq hthis in
/-- The quotient is rounded toward zero, unless it is no number. -/
theorem toInt_quotient (hab : ¬ (b = -1 ∧ a = Int32.minValue)) :
    (a / b).toInt = a.toInt.tdiv b.toInt := by
  by_cases hb : b = -1
  · exact Int32.toInt_div_of_ne_left a b fun ha => hab ⟨hb, ha⟩
  · exact Int32.toInt_div_of_ne_right a b hb

omit hq hthis in
/-- A slot that is there for a division, and the values of its operands. -/
theorem Division.presents {c id : Nat} {μ : Config} (hc : s₂.builder.current = some c)
    (holder : ∀ t, x = .temp t ∨ y = .temp t →
      t < s₂.builder.procedure.temps.size ∨ s₂.builder.procedure.temps.size + 7 ≤ t)
    (hsize : μ.temps.size = q.temps.size)
    (hslot : μ.temps[s₂.builder.procedure.temps.size + 1]? = some (some (.pointer (some ⟨id, 0⟩))))
    (hcell : μ.memory.sizeAt? id = some 4)
    (hx : μ.value? x = some (.int a)) (hy : μ.value? y = some (.int b)) :
    μ.Presents s₂.builder.procedure.temps.size id x y a b :=
  ⟨hsize ▸ (hd.exists_divides hc).temps, Config.value?_temp hslot, ⟨_, hcell, Nat.succ_pos 3⟩,
    holder, hx, hy⟩

/-- The code of a division gives the quotient of its operands, for all numbers. -/
theorem Division.divides (hu : u.Stands m ∧ u.Housed m) (hat : u.frame.IsAt q s₂.builder)
    (hx : u.frame.eval x = .ok (.int a)) (hy : u.frame.eval y = .ok (.int b)) :
    u.Divides m q s₂.builder s'.builder z tag.span a b := by
  obtain ⟨hprocedure, c, hc, hblock, htodo⟩ := Frame.isAt_iff.1 hat
  have hdiv := hd.exists_divides hc
  obtain ⟨hz, type, hs'⟩ := quotient_spec hd.own
  rw [hdiv.test, List.drop_left] at htodo
  obtain ⟨⟨memory, output⟩, ⟨p, blk, todo, temps⟩, callers⟩ := u
  obtain rfl : q = p := hprocedure.symm
  obtain rfl : c = blk := hblock.symm
  obtain rfl : _ = todo := htodo.symm
  let μ : Config := ⟨memory, output, temps⟩
  let here : Point := (c, [.binary s₂.builder.procedure.temps.size .eq y (.int 0)])
  have hframe := hu.2.frames _ (List.mem_cons_self ..)
  obtain ⟨id, size, howns, hcell, hsize⟩ := hframe.slots _ _ hdiv.slot (by simp)
  obtain rfl : 4 = size := Except.ok.inj hsize
  have hpresents : μ.Presents s₂.builder.procedure.temps.size id x y a b :=
    hd.presents hc (fun t => hd.older hq hthis hc) hframe.size howns.temp hcell
      (value?_of_eval rfl hx) (value?_of_eval rfl hy)
  have hchanges : ∀ {μ' : Config} {point : Point}, μ.Alters s₂.builder.procedure.temps.size id μ' →
      State.Changes s₂.builder.procedure.temps.size s'.builder.procedure.temps.size
        (μ.state q callers here) (μ'.state q callers point) := by
    intro μ' point hμ'
    rw [next_quotientMoves hs']
    exact hμ'.changes hu.2 howns
  have hdone : ∀ {μ' : Config} {rest : List Instruction},
      q.code (s₂.builder.size + 3) = .load (s₂.builder.procedure.temps.size + 6)
        (.temp (s₂.builder.procedure.temps.size + 1)) :: rest →
        (μ'.state q callers (s₂.builder.size + 3, rest)).frame.IsAt q s'.builder := by
    intro μ' rest hrest
    refine Frame.isAt_iff.2 ⟨rfl, _, current_quotientMoves hs', rfl, ?_⟩
    obtain ⟨-, -, -, -, hcode⟩ := code_quotientMoves hs' hc rfl hdiv.fresh
    rw [hcode, hrest]
    rfl
  by_cases hb : b = 0
  · obtain ⟨μ', hμ', hsteps, hstop⟩ := zero_steps m callers hq hdiv hpresents hb
    subst hb
    exact .zero hsteps (hchanges hμ') hstop
  by_cases hab : b = -1 ∧ a = Int32.minValue
  · obtain ⟨rfl, rfl⟩ := hab
    obtain ⟨μ', rest, j, hrest, hμ', hvalue, hsteps⟩ :=
      overflow_steps m callers hq hdiv hpresents rfl rfl
    exact .overflow hsteps (hchanges hμ') (hdone hrest) (hz ▸ eval_eq (μ := μ') rfl hvalue)
  · obtain ⟨μ', rest, j, hrest, hμ', hvalue, hsteps⟩ :=
      quotient_steps m callers hq hdiv hpresents hb hab
    exact .quotient hb hab hsteps (hchanges hμ') (hdone hrest) (hz ▸ eval_eq (μ := μ') rfl hvalue)
      (toInt_quotient hab)

end divisions

section programs

variable {p : Program} {r : Routine} {source : String}

/-- A division by zero would stop the run with a fault that no compiled program has. -/
theorem Program.Compiled.divisor?_ne_zero {body : Body} {routines : List (Routine × Signature)}
    {s : LowerState} (h : p.Compiled body routines s) {n : Nat} {v : State}
    (hv : Reaches s.target.module n v) : v.divisor? ≠ some (.ok 0) := by
  intro hzero
  obtain ⟨k, -, hends⟩ := hv.endsIn (step_of_divisor? hzero)
  cases h.expected (k + 1) (congrArg Execution.result (hends (k + 1) (Nat.lt_succ_self k)))

/-- Division is exact. In an accepted program, code for a function or a method comes to each
division that stands in it, wherever that is. The code for the dividend and then that for the
divisor is made, and the code of the division. What the code for the dividend has given is still
there when that for the divisor, which may call procedures, has come to its end. Whenever a run of
some procedure is there, and the operands are two numbers, the division finds their quotient,
rounded toward zero; it halts if the divisor is zero; and the least number divided by minus one is
that number, found without dividing. Temporaries and slots that were not made for the division stay
as they are. No run of the program ever divides by zero. -/
theorem compile_divides (options : CompileOptions) (hp : Program.ofText source = .ok p)
    (ha : (p.analyze options.printFunction).isAccepted = true) (hr : r.Belongs p) :
    ∃ m body sg q env start, compile source options = .ok m ∧
      body.analysis = p.analyze options.printFunction ∧
      body.layouts = (Layouts.build p (p.analyze options.printFunction) {}).1 ∧
      body.options = options ∧ body.layouts.signature? r = some sg ∧
      m.procedures[sg.procedure]? = some q ∧ r.Becomes body env start q ∧
      (∀ n v, Reaches m n v → v.divisor? ≠ some (.ok 0)) ∧
      ∀ tag left right, .expr (.binary tag .div left right) ∈ nodesOfBody r.decl.body →
        (∃ s, env.TurnsTo (.stmts r.decl.body, start)
          (.node (.expr (.binary tag .div left right)), s)) ∧
        ∀ s, env.TurnsTo (.stmts r.decl.body, start)
            (.node (.expr (.binary tag .div left right)), s) →
          ∃ x s₁ y s₂ z s', lowerExpr env left s = .ok (x, s₁) ∧
            lowerExpr env right s₁ = .ok (y, s₂) ∧ quotient x y tag.span s₂ = .ok (z, s') ∧
            (∀ u₁ u₂ : State, u₁.frame.IsAt q s₁.builder →
              u₁.ArrivesAt m (Frame.IsAt q s₂.builder) u₂ → u₂.frame.eval x = u₁.frame.eval x) ∧
            ∀ u a b, Visits m u → u.frame.IsAt q s₂.builder → u.frame.eval x = .ok (.int a) →
              u.frame.eval y = .ok (.int b) →
              u.Divides m q s₂.builder s'.builder z tag.span a b := by
  have ha' := Program.accepted hp ha
  obtain ⟨body, routines, s, hanalysis, hlayouts, hoptions, hcompiled, hlower⟩ :=
    ha'.exists_compiled options
  obtain ⟨sg, hsg, s₁, s₂, hmade, -, -, -, hq⟩ := hcompiled.exists_coded hr
  obtain ⟨env, start, hbecomes⟩ := hmade.exists_becomes
  have hcompile : compile source options = .ok s.target.module := by
    rw [compile, hp]
    change p.compile options = _
    rw [Program.compile, if_pos ha, hlower]
    rfl
  refine ⟨_, body, sg, _, env, start, hcompile, hanalysis, hlayouts, hoptions, hsg, hq, hbecomes,
    fun n v hv => hcompiled.divisor?_ne_zero hv, fun tag left right hnode => ⟨?_, fun t ht => ?_⟩⟩
  · obtain ⟨vars, hbound⟩ := hbecomes.nodesBound ha' hr hanalysis hlayouts
    obtain ⟨u, hran, -⟩ := hbecomes.ends
    exact exists_turnsTo_stmts _ hbound hnode hran
  · have hmem := Array.mem_of_getElem? hq
    have hdisciplined := hcompiled.disciplined hmem
    obtain ⟨b, u, hempty, hshut, hu, hthis, hmidway⟩ := hbecomes.midway
    obtain ⟨z, t', o', hrun, hmid⟩ := hmidway _ t ht
    obtain ⟨x, y, s₁', s₂', hd⟩ := hmid.division hempty hshut hrun
    rw [hu] at hd
    refine ⟨x, s₁', y, s₂', z, t', hd.left, hd.right, hd.own,
      fun u₁ u₂ h₁ h => hd.dividend_keeps hdisciplined hthis h₁ h,
      fun u a b hvisits hat hx hy => hd.divides hdisciplined hthis ?_ hat hx hy⟩
    exact hvisits.housed (fun _ => hcompiled.wellTyped) fun _ => hcompiled.disciplined

end programs

/-- A call and then a number of steps lead to a state. -/
theorem Machine.visits_of_after? {m : Module} {w : World} {callee n : Nat} {values : List Value}
    {frame : Frame} {u : State} (hframe : (enter m callee values).toOption = some frame)
    (hu : State.after? m n ⟨w, frame, []⟩ = some u) : Visits m u := by
  cases henter : enter m callee values with
  | error fault =>
      rw [henter] at hframe
      cases hframe
  | ok entered =>
      rw [henter] at hframe
      obtain rfl := Option.some.inj hframe
      exact ⟨w, callee, values, entered, n, henter, steps_of_after? hu⟩

/-- Where there are no variables, nothing is made for them. -/
theorem enterBody_of_nil {body : Body} {d : FunctionDecl} (hparams : d.params = [])
    (hlocals : localsOf d.body = []) (s : LowerState) :
    enterBody body false d s = .ok ({ body with this := none, slots := [] }, s) := by
  rw [enterBody, hparams, hlocals]
  simp only [List.zip_nil_right]
  rfl

/-- The numbers whose quotient a statement returns. -/
def Stmt.quotientOf? : Stmt → Option (Nat × Nat)
  | .return _ (.binary _ .div (.number _ n) (.number _ k)) => some (n, k)
  | _ => none

theorem Stmt.of_quotientOf? {x : Stmt} {n k : Nat} (h : x.quotientOf? = some (n, k)) :
    ∃ span tag t₁ t₂, x = .return span (.binary tag .div (.number t₁ n) (.number t₂ k)) := by
  unfold quotientOf? at h
  split at h
  · next span tag t₁ n t₂ k =>
    cases h
    exact ⟨span, tag, t₁, t₂, rfl⟩
  · cases h

/-- A program that divides seven by two. -/
def sevenHalvesText : String :=
  "int main() { return 7 / 2; }"

/-- A call of the procedure comes to the division in one step. -/
theorem compile_divides_seven : ∃ p d tag left right m q env start s x s₁ y s₂ z s' u,
    Program.ofText sevenHalvesText = .ok p ∧
      (p.analyze "printInt").isAccepted = true ∧ Routine.Belongs p ⟨none, d⟩ ∧
      compile sevenHalvesText {} = .ok m ∧ q ∈ m.procedures ∧
      .expr (.binary tag .div left right) ∈ nodesOfBody d.body ∧
      env.TurnsTo (.stmts d.body, start) (.node (.expr (.binary tag .div left right)), s) ∧
      lowerExpr env left s = .ok (x, s₁) ∧ lowerExpr env right s₁ = .ok (y, s₂) ∧
      quotient x y tag.span s₂ = .ok (z, s') ∧ Visits m u ∧ u.frame.IsAt q s₂.builder ∧
      u.frame.eval x = .ok (.int 7) ∧ u.frame.eval y = .ok (.int 2) ∧
      u.Divides m q s₂.builder s'.builder z tag.span 7 2 := by
  obtain ⟨p, d, hp, ha, hr, hread⟩ := exists_function_of_any sevenHalvesText
    (fun d => d.params.isEmpty && d.body.map Stmt.quotientOf? == [some (7, 2)])
    (by decide +kernel)
  have hmade : ((compile sevenHalvesText {}).toOption.any fun m =>
      m.procedures.size == 1 && m.procedures[0]?.any fun q =>
        (enter m 0 []).toOption.any fun frame => (State.after? m 1 ⟨{}, frame, []⟩).any fun u =>
          decide (u.frame.procedure = q ∧ u.frame.block = 0 ∧ u.frame.todo = q.code 0)) = true := by
    decide +kernel
  obtain ⟨hparams, hshape⟩ := Bool.and_eq_true_iff.1 hread
  replace hshape := eq_of_beq hshape
  obtain ⟨x, hbody⟩ := List.length_eq_one_iff.1 ((List.length_map _).symm.trans
    (congrArg List.length hshape))
  rw [hbody, List.map_singleton] at hshape
  obtain ⟨span, tag, t₁, t₂, rfl⟩ := Stmt.of_quotientOf? (List.singleton_inj.1 hshape)
  obtain ⟨m, body, sg, q, env, start, hm, -, -, hoptions, -, hq, hbecomes, -, hall⟩ :=
    compile_divides {} hp ha hr
  have hnode : .expr (.binary tag .div (.number t₁ 7) (.number t₂ 2)) ∈ nodesOfBody d.body := by
    rw [hbody]
    exact List.mem_cons_self
  obtain ⟨q₀, s₀, hblocks, hs₀, henter⟩ := hbecomes.begins
  obtain ⟨henv, rfl⟩ : env.options = {} ∧ start = s₀ := by
    have hlocals : localsOf d.body = [] := by
      rw [hbody]
      rfl
    cases (enterBody_of_nil (List.isEmpty_iff.1 hparams) hlocals s₀).symm.trans henter
    exact ⟨hoptions, rfl⟩
  have hlead : commentOn env (.return span (.binary tag .div (.number t₁ 7) (.number t₂ 2)))
      start = .ok ((), start) := by
    rw [commentOn, henv]
    rfl
  have hturns : env.TurnsTo (.stmts d.body, start)
      (.node (.expr (.binary tag .div (.number t₁ 7) (.number t₂ 2))), start) := by
    rw [hbody]
    exact .single (.returned hlead)
  obtain ⟨x, s₁, y, s₂, z, s', hx, hy, hquotient, -, hdivides⟩ :=
    (hall tag _ _ hnode).2 start hturns
  cases hx
  cases hy
  -- The first step of a call allots the slot of the quotient, and leads to the division.
  obtain ⟨u, hvisits, hat⟩ : ∃ u, Visits m u ∧ u.frame.IsAt q start.builder := by
    rw [hm] at hmade
    obtain ⟨hsize, hmade⟩ := Bool.and_eq_true_iff.1 (Option.any_some.symm.trans hmade)
    obtain ⟨q', hq', hmade⟩ := (Option.any_eq_true _ _).1 hmade
    obtain ⟨frame, hframe, hmade⟩ := (Option.any_eq_true _ _).1 hmade
    obtain ⟨u, hu, hmade⟩ := (Option.any_eq_true _ _).1 hmade
    obtain ⟨hprocedure, hblock, htodo⟩ := of_decide_eq_true hmade
    obtain rfl : q' = q := by
      have hindex : sg.procedure = 0 := by
        have := (Array.getElem?_eq_some_iff.1 hq).1
        have := eq_of_beq hsize
        omega
      exact Option.some.inj (hq'.symm.trans (hindex ▸ hq))
    have hcurrent : start.builder.current = some 0 := by
      rw [hs₀, Builder.current_start, hblocks]
      rfl
    have hcode : start.builder.procedure.code 0 = [] := by
      rw [hs₀, Procedure.code, Builder.blocks_start _ hblocks]
      rfl
    exact ⟨u, visits_of_after? hframe hu, Frame.isAt_iff.2
      ⟨hprocedure, 0, hcurrent, hblock, by rw [htodo, hcode, List.length_nil, List.drop_zero]⟩⟩
  exact ⟨p, d, tag, _, _, m, q, env, start, start, _, start, _, start, z, s', u, hp, ha, hr, hm,
    Array.mem_iff_getElem?.2 ⟨_, hq⟩, hnode, hturns, rfl, rfl, hquotient, hvisits, hat, rfl, rfl,
    hdivides u 7 2 hvisits hat rfl rfl⟩

end ObjectLang
