import Mathlib.Tactic
import ObjectLang.Proofs.IR.Definitions
import ObjectLang.Proofs.Lowering.Fragments

/-!
# The code of a division

A division opens blocks of its own: one that stops the program, one that looks for the one quotient
that is no number, one that divides, and one behind all of them. What is made later changes none of
this, so it stands like that in the finished procedure, where only these blocks and the one that was
open before lead to one another. And whatever is made for an operand leads nowhere else.
-/
namespace ObjectLang.IR

section allocas

variable {dest : Nat} {op : Operation} {x y : Operand}

@[simp]
theorem isAlloca_binary : (Instruction.binary dest op x y).isAlloca = false := by
  simp [Instruction.isAlloca]

@[simp]
theorem isAlloca_load : (Instruction.load dest x).isAlloca = false := by
  simp [Instruction.isAlloca]

@[simp]
theorem isAlloca_store : (Instruction.store x y).isAlloca = false := by
  simp [Instruction.isAlloca]

end allocas

namespace Block

theorem code_prefix_push (b : Block) (i : Instruction) : b.code <+: (b.push i).code := by
  simp only [code, push]
  rw [List.dropWhile_append]
  split_ifs with h
  · rw [List.isEmpty_iff.1 h]
    exact List.nil_prefix
  · exact List.prefix_append ..

theorem slots_prefix_push (b : Block) (i : Instruction) : b.slots <+: (b.push i).slots := by
  simp only [slots, push]
  rw [List.takeWhile_append]
  split_ifs with h
  · rw [(List.takeWhile_prefix _).eq_of_length h]
    exact List.prefix_append ..
  · exact List.prefix_rfl

end Block

namespace Procedure

/-- How a block of a procedure ends, if it is there and does. -/
def terminator? (p : Procedure) (n : Nat) : Option Terminator :=
  p.blocks[n]?.bind Block.terminator

/-- What is there of a procedure stays in a later state of it, and nothing is added to the code of a
block that has a terminator. -/
structure Precedes (p q : Procedure) : Prop where
  params : q.params = p.params
  temps : p.temps.size ≤ q.temps.size
  slots : p.slots <+: q.slots
  code : ∀ n, p.code n <+: q.code n
  ended : ∀ n t, p.terminator? n = some t → q.terminator? n = some t ∧ q.code n = p.code n

section precedes

variable {p q r : Procedure} {f : Block → Block} {b : Block} {k n : Nat} {t : Terminator}

theorem terminator?_eq_some_iff :
    p.terminator? n = some t ↔ ∃ b, p.blocks[n]? = some b ∧ b.terminator = some t :=
  Option.bind_eq_some_iff

theorem Precedes.rfl : p.Precedes p :=
  ⟨Eq.refl _, le_rfl, List.prefix_rfl, fun _ => List.prefix_rfl, fun _ _ h => ⟨h, Eq.refl _⟩⟩

theorem Precedes.trans (h : p.Precedes q) (h' : q.Precedes r) : p.Precedes r := by
  refine ⟨h'.params.trans h.params, h.temps.trans h'.temps, h.slots.trans h'.slots,
    fun n => (h.code n).trans (h'.code n), fun n t ht => ?_⟩
  obtain ⟨ht', hcode⟩ := h.ended n t ht
  obtain ⟨ht'', hcode'⟩ := h'.ended n t ht'
  exact ⟨ht'', hcode'.trans hcode⟩

theorem code_modifyBlock : (p.modifyBlock k f).code n =
    if k = n then p.blocks[n]?.elim [] (fun b => (f b).code) else p.code n := by
  simp only [code, modifyBlock, Array.getElem?_modify]
  split_ifs with h
  · cases p.blocks[n]? <;> rfl
  · rfl

theorem terminator?_modifyBlock : (p.modifyBlock k f).terminator? n =
    if k = n then p.blocks[n]?.bind (fun b => (f b).terminator) else p.terminator? n := by
  simp only [terminator?, modifyBlock, Array.getElem?_modify]
  split_ifs with h
  · cases p.blocks[n]? <;> rfl
  · rfl

theorem slots_prefix_modifyBlock (h : ∀ b, p.blocks[k]? = some b → b.slots <+: (f b).slots) :
    p.slots <+: (p.modifyBlock k f).slots := by
  simp only [slots, modifyBlock, Array.getElem?_modify]
  split_ifs with hk
  · subst hk
    cases hb : p.blocks[0]? with
    | none => exact List.prefix_rfl
    | some b => exact h b hb
  · exact List.prefix_rfl

/-- A block without terminator may get more, and one with a terminator only slots. -/
theorem precedes_modifyBlock (hslots : ∀ b, p.blocks[k]? = some b → b.slots <+: (f b).slots)
    (hcode : ∀ b, p.blocks[k]? = some b → b.code <+: (f b).code)
    (hended : ∀ b t, p.blocks[k]? = some b → b.terminator = some t →
      (f b).terminator = some t ∧ (f b).code = b.code) : p.Precedes (p.modifyBlock k f) where
  params := Eq.refl _
  temps := le_rfl
  slots := slots_prefix_modifyBlock hslots
  code n := by
    rw [code_modifyBlock]
    split_ifs with h
    · subst h
      rw [Procedure.code]
      cases hb : p.blocks[k]? with
      | none => exact List.prefix_rfl
      | some b => exact hcode b hb
    · exact List.prefix_rfl
  ended n t ht := by
    rw [code_modifyBlock, terminator?_modifyBlock]
    split_ifs with h
    · subst h
      obtain ⟨b, hb, ht⟩ := terminator?_eq_some_iff.1 ht
      rw [code_of_getElem? hb, hb]
      exact hended b t hb ht
    · exact ⟨ht, Eq.refl _⟩

end precedes

end Procedure

namespace Builder

section moves

variable {b : Builder} {n k : Nat} {type : Ty} {i : Instruction} {t : Terminator} {name : String}

@[simp]
theorem current_make_temp : (b.make (.temp type)).current = b.current :=
  rfl

@[simp]
theorem current_make_slot : (b.make (.slot type)).current = b.current :=
  rfl

@[simp]
theorem current_make_block : (b.make (.block name)).current = b.current :=
  rfl

@[simp]
theorem current_make_switchTo : (b.make (.switchTo n)).current = some n :=
  rfl

@[simp]
theorem current_make_emit : (b.make (.emit i)).current = b.current :=
  (quiet_emit b i).current

@[simp]
theorem current_make_terminate : (b.make (.terminate t)).current = none := by
  rw [make, terminate]
  split
  · rfl
  · assumption

@[simp]
theorem size_make_temp : (b.make (.temp type)).size = b.size :=
  rfl

@[simp]
theorem size_make_slot : (b.make (.slot type)).size = b.size :=
  (quiet_slot b type).size

@[simp]
theorem size_make_switchTo : (b.make (.switchTo n)).size = b.size :=
  rfl

@[simp]
theorem size_make_emit : (b.make (.emit i)).size = b.size :=
  (quiet_emit b i).size

@[simp]
theorem size_make_terminate : (b.make (.terminate t)).size = b.size := by
  rw [make, terminate]
  split
  · exact Array.size_modify
  · rfl

@[simp]
theorem next_make_temp :
    (b.make (.temp type)).procedure.temps.size = b.procedure.temps.size + 1 :=
  Array.size_push _

@[simp]
theorem next_make_slot :
    (b.make (.slot type)).procedure.temps.size = b.procedure.temps.size + 1 :=
  Array.size_push _

@[simp]
theorem next_make_block : (b.make (.block name)).procedure.temps.size = b.procedure.temps.size :=
  rfl

@[simp]
theorem next_make_switchTo : (b.make (.switchTo n)).procedure.temps.size = b.procedure.temps.size :=
  rfl

@[simp]
theorem next_make_emit : (b.make (.emit i)).procedure.temps.size = b.procedure.temps.size := by
  rw [make, emit]
  split <;> rfl

@[simp]
theorem next_make_terminate :
    (b.make (.terminate t)).procedure.temps.size = b.procedure.temps.size := by
  rw [make, terminate]
  split <;> rfl

@[simp]
theorem code_make_temp : (b.make (.temp type)).procedure.code n = b.procedure.code n :=
  rfl

@[simp]
theorem code_make_switchTo : (b.make (.switchTo k)).procedure.code n = b.procedure.code n :=
  rfl

@[simp]
theorem code_make_block : (b.make (.block name)).procedure.code n = b.procedure.code n := by
  change Option.elim ((b.make (.block name)).block? n) [] Block.code = _
  rw [block?_newBlock]
  split_ifs with h
  · subst h
    rw [Procedure.code, size, Array.getElem?_eq_none le_rfl]
    rfl
  · rfl

@[simp]
theorem code_make_slot : (b.make (.slot type)).procedure.code n = b.procedure.code n := by
  change (Procedure.modifyBlock _ 0 _).code n = _
  rw [Procedure.code_modifyBlock]
  split_ifs with h
  · subst h
    change Option.elim b.procedure.blocks[0]? [] _ = _
    rw [Procedure.code]
    exact congrArg _ (funext fun c => Block.code_pushSlot rfl)
  · rfl

theorem code_make_emit (hi : i.isAlloca = false) : (b.make (.emit i)).procedure.code n =
    if b.current = some n ∧ n < b.size then b.procedure.code n ++ [i] else b.procedure.code n := by
  rw [make, emit, procedure_record]
  cases b.current with
  | none => simp
  | some k =>
      rw [Procedure.code_modifyBlock, Procedure.code]
      by_cases hk : k = n
      · subst hk
        cases hc : b.procedure.blocks[k]? with
        | none =>
            have hle := Array.getElem?_eq_none_iff.1 hc
            simp [size, hle.not_gt]
        | some c => simp [block?_lt hc, Block.code_push hi]
      · simp [hk]

@[simp]
theorem code_make_terminate : (b.make (.terminate t)).procedure.code n = b.procedure.code n := by
  rw [make, terminate, procedure_record]
  split
  · rw [Procedure.code_modifyBlock]
    split_ifs <;> rfl
  · rfl

@[simp]
theorem terminator?_make_temp :
    (b.make (.temp type)).procedure.terminator? n = b.procedure.terminator? n :=
  rfl

@[simp]
theorem terminator?_make_switchTo :
    (b.make (.switchTo k)).procedure.terminator? n = b.procedure.terminator? n :=
  rfl

@[simp]
theorem terminator?_make_block :
    (b.make (.block name)).procedure.terminator? n = b.procedure.terminator? n := by
  change Option.bind ((b.make (.block name)).block? n) Block.terminator = _
  rw [block?_newBlock]
  split_ifs with h
  · subst h
    rw [Procedure.terminator?, size, Array.getElem?_eq_none le_rfl]
    rfl
  · rfl

@[simp]
theorem terminator?_make_slot :
    (b.make (.slot type)).procedure.terminator? n = b.procedure.terminator? n := by
  change (Procedure.modifyBlock _ 0 _).terminator? n = _
  rw [Procedure.terminator?_modifyBlock]
  split_ifs with h
  · subst h
    change Option.bind b.procedure.blocks[0]? _ = _
    rw [Procedure.terminator?]
    exact congrArg _ (funext fun c => by rw [Block.pushSlot_eq])
  · rfl

@[simp]
theorem terminator?_make_emit :
    (b.make (.emit i)).procedure.terminator? n = b.procedure.terminator? n := by
  rw [make, emit, procedure_record]
  split
  · rw [Procedure.terminator?_modifyBlock]
    split_ifs <;> rfl
  · rfl

theorem terminator?_make_terminate : (b.make (.terminate t)).procedure.terminator? n =
    if b.current = some n ∧ n < b.size then some t else b.procedure.terminator? n := by
  rw [make, terminate, procedure_record]
  cases b.current with
  | none => simp
  | some k =>
      rw [Procedure.terminator?_modifyBlock, Procedure.terminator?]
      by_cases hk : k = n
      · subst hk
        cases hc : b.procedure.blocks[k]? with
        | none =>
            have hle := Array.getElem?_eq_none_iff.1 hc
            simp [size, hle.not_gt]
        | some c => simp [block?_lt hc]
      · simp [hk]

end moves

section orderly

variable {b : Builder} {entries targets : List Nat} {ms ms' : List Move} {m : Move} {n : Nat}
  {t : Terminator}

theorem Unterminated.terminator? (h : b.Unterminated n) : b.procedure.terminator? n = none := by
  obtain ⟨d, hd, hnone⟩ := h
  change b.procedure.blocks[n]? = some d at hd
  rw [Procedure.terminator?, hd, Option.bind_some, hnone]

/-- No slot is lost by a move. -/
theorem slots_prefix_make (b : Builder) (m : Move) :
    b.procedure.slots <+: (b.make m).procedure.slots := by
  cases m with
  | temp type => exact List.prefix_rfl
  | switchTo n => exact List.prefix_rfl
  | block name =>
      cases hc : b.procedure.blocks[0]? with
      | none => simp [Procedure.slots, hc]
      | some c =>
          have hlt : 0 < b.size := block?_lt hc
          have hc' : (b.make (.block name)).block? 0 = some c := by
            rw [block?_newBlock, if_neg hlt.ne]
            exact hc
          rw [Procedure.slots_of_getElem? hc, Procedure.slots_of_getElem? hc']
  | slot type =>
      refine Procedure.slots_prefix_modifyBlock (p := (b.procedure.newTemp (.pointer type)).2)
        fun c _ => ?_
      rw [Block.slots_pushSlot rfl]
      exact List.prefix_append ..
  | emit i =>
      rw [make, emit]
      split
      · exact Procedure.slots_prefix_modifyBlock fun c _ => c.slots_prefix_push i
      · exact List.prefix_rfl
  | terminate t =>
      rw [make, terminate]
      split
      · exact Procedure.slots_prefix_modifyBlock fun c _ => List.prefix_rfl
      · exact List.prefix_rfl

theorem slots_prefix_makeAll (b : Builder) (ms : List Move) :
    b.procedure.slots <+: (b.makeAll ms).procedure.slots := by
  induction ms generalizing b with
  | nil => exact List.prefix_rfl
  | cons m ms ih => exact (b.slots_prefix_make m).trans (ih (b.make m))

/-- A move behind which nothing is lost: the block that is open has no terminator. -/
theorem precedes_make (hb : ∀ n, b.current = some n → b.Unterminated n) (m : Move) :
    b.procedure.Precedes (b.make m).procedure := by
  have hopen : ∀ {n c t}, b.current = some n → b.procedure.blocks[n]? = some c →
      c.terminator ≠ some t := by
    intro n c t hn hc ht
    have hnone := (hb n hn).terminator?
    rw [Procedure.terminator?, hc, Option.bind_some, ht] at hnone
    cases hnone
  cases m with
  | temp type =>
      exact ⟨rfl, next_make_temp.symm ▸ Nat.le_succ _, List.prefix_rfl, fun _ => List.prefix_rfl,
        fun _ _ ht => ⟨ht, rfl⟩⟩
  | block name =>
      refine ⟨rfl, le_rfl, b.slots_prefix_make _, fun n => by rw [code_make_block],
        fun n t ht => ?_⟩
      rw [terminator?_make_block, code_make_block]
      exact ⟨ht, rfl⟩
  | slot type =>
      refine ⟨rfl, next_make_slot.symm ▸ Nat.le_succ _, b.slots_prefix_make _,
        fun n => by rw [code_make_slot], fun n t ht => ?_⟩
      rw [terminator?_make_slot, code_make_slot]
      exact ⟨ht, rfl⟩
  | emit i =>
      rw [make, emit]
      split
      · next n hn =>
        exact Procedure.precedes_modifyBlock (fun c _ => c.slots_prefix_push i)
          (fun c _ => c.code_prefix_push i) fun c t hc ht => absurd ht (hopen hn hc)
      · exact .rfl
  | terminate t =>
      rw [make, terminate]
      split
      · next n hn =>
        exact Procedure.precedes_modifyBlock (fun c _ => List.prefix_rfl)
          (fun c _ => List.prefix_rfl) fun c t hc ht => absurd ht (hopen hn hc)
      · exact .rfl
  | switchTo n => exact .rfl

/-- After a move that is allowed, the open block has no terminator. -/
theorem unterminated_make {before : List Move} (hm : b.Allows entries targets before m)
    (hb : ∀ n, (b.makeAll before).current = some n → (b.makeAll before).Unterminated n)
    (hn : ((b.makeAll before).make m).current = some n) :
    ((b.makeAll before).make m).Unterminated n := by
  cases m with
  | temp type => exact (quiet_temp _ type).unterminated_iff.2 (hb n hn)
  | slot type => exact (quiet_slot _ type).unterminated_iff.2 (hb n hn)
  | emit i =>
      rw [current_make_emit] at hn
      exact (quiet_emit _ i).unterminated_iff.2 (hb n hn)
  | block name => exact (unterminated_newBlock _ name n).2 (.inr (hb n hn))
  | terminate t =>
      rw [current_make_terminate] at hn
      cases hn
  | switchTo k =>
      cases hn
      exact hm.2.1

theorem Orderly.of_append (h : b.Orderly entries targets (ms ++ ms')) :
    b.Orderly entries targets ms := by
  rintro before m behind rfl
  exact h before m (behind ++ ms') (by simp)

section

variable (hb : ∀ n, b.current = some n → b.Unterminated n)
include hb

/-- In the course of building, the open block never has a terminator. -/
theorem Orderly.unterminated (h : b.Orderly entries targets ms)
    (hn : (b.makeAll ms).current = some n) : (b.makeAll ms).Unterminated n := by
  induction ms using List.reverseRecOn generalizing n with
  | nil => exact hb n hn
  | append_singleton ms m ih =>
      rw [makeAll_concat] at hn ⊢
      exact unterminated_make (h ms m [] rfl) (fun k hk => ih h.of_append hk) hn

/-- What is there at some time stays until the end. -/
theorem Orderly.precedes (h : b.Orderly entries targets (ms ++ ms')) :
    (b.makeAll ms).procedure.Precedes (b.makeAll (ms ++ ms')).procedure := by
  induction ms' using List.reverseRecOn with
  | nil =>
      rw [List.append_nil]
      exact .rfl
  | append_singleton ms' m ih =>
      rw [← List.append_assoc] at h ⊢
      rw [makeAll_concat]
      exact (ih h.of_append).trans
        (precedes_make (fun n hn => h.of_append.unterminated hb hn) m)

end

end orderly

end Builder

end ObjectLang.IR

namespace ObjectLang

open IR

section quotients

variable {x y : Operand} {span : Span} {s : LowerState}

/-- What a division does to a builder that has `n` temporaries and `b` blocks. The type is that of
the result, which is loaded at last. -/
def quotientMoves (n b : Nat) (x y : Operand) (span : Span) (type : Ty) : List Move :=
  [.temp .bool, .emit (.binary n .eq y (.int 0)), .block "div_by_zero", .block "div_non_zero",
    .terminate (.branch (.temp n) b (b + 1)), .switchTo b,
    .terminate (.halt ("Division by zero in line " ++ toString span.line)), .switchTo (b + 1),
    .slot .int, .temp .bool, .emit (.binary (n + 2) .eq y (.int (-1))), .temp .bool,
    .emit (.binary (n + 3) .eq x (.int Int32.minValue)), .temp .bool,
    .emit (.binary (n + 4) .and (.temp (n + 2)) (.temp (n + 3))),
    .emit (.store (.temp (n + 1)) (.int Int32.minValue)), .block "div_no_overflow",
    .block "div_end", .terminate (.branch (.temp (n + 4)) (b + 3) (b + 2)), .switchTo (b + 2),
    .temp .int, .emit (.binary (n + 5) .sdiv x y), .emit (.store (.temp (n + 1)) (.temp (n + 5))),
    .terminate (.jump (b + 3)), .switchTo (b + 3), .temp type,
    .emit (.load (n + 6) (.temp (n + 1)))]

theorem compute_bind {α β : Type} (f : Builder → α × Builder) (k : α → Lower β) (s : LowerState) :
    (compute f >>= k) s = k (f s.builder).1 { s with builder := (f s.builder).2 } :=
  rfl

theorem perform_bind {β : Type} (f : Builder → Builder) (k : Unit → Lower β) (s : LowerState) :
    (perform f >>= k) s = k () { s with builder := f s.builder } :=
  rfl

theorem compute_eq {α : Type} (f : Builder → α × Builder) (s : LowerState) :
    compute f s = .ok ((f s.builder).1, { s with builder := (f s.builder).2 }) :=
  rfl

theorem IR.Builder.binary_eq (b : Builder) (op : Operation) (x y : Operand) : b.binary op x y =
    (.temp b.procedure.temps.size, (b.make (.temp op.resultType)).make
      (.emit (.binary b.procedure.temps.size op x y))) :=
  rfl

theorem IR.Builder.load_eq (b : Builder) (x : Operand) : b.load x =
    (.temp b.procedure.temps.size, (b.make (.temp ((b.typeOf x).target?.getD .void))).make
      (.emit (.load b.procedure.temps.size x))) :=
  rfl

theorem IR.Builder.newBlock_eq (b : Builder) (name : String) :
    b.newBlock name = (b.size, b.make (.block name)) :=
  rfl

theorem IR.Builder.slot_eq (b : Builder) (type : Ty) :
    b.slot type = (b.procedure.temps.size, b.make (.slot type)) :=
  rfl

theorem IR.Builder.store_eq (b : Builder) (x y : Operand) :
    b.store x y = b.make (.emit (.store x y)) :=
  rfl

theorem IR.Builder.branch_eq (b : Builder) (x : Operand) (n k : Nat) :
    b.branch x n k = b.make (.terminate (.branch x n k)) :=
  rfl

theorem IR.Builder.jump_eq (b : Builder) (n : Nat) : b.jump n = b.make (.terminate (.jump n)) :=
  rfl

theorem IR.Builder.halt_eq (b : Builder) (message : String) :
    b.halt message = b.make (.terminate (.halt message)) :=
  rfl

theorem IR.Builder.switchTo_eq (b : Builder) (n : Nat) : b.switchTo n = b.make (.switchTo n) :=
  rfl

theorem quotient_spec {z : Operand} {s' : LowerState} (h : quotient x y span s = .ok (z, s')) :
    z = .temp (s.builder.procedure.temps.size + 6) ∧ ∃ type, s'.builder = s.builder.makeAll
      (quotientMoves s.builder.procedure.temps.size s.builder.size x y span type) := by
  simp -implicitDefEqProofs only [quotient, stopIf, bind_assoc, compute_bind, perform_bind,
    compute_eq, Builder.binary_eq, Builder.load_eq, Builder.newBlock_eq, Builder.slot_eq,
    Builder.store_eq, Builder.branch_eq, Builder.halt_eq, Builder.jump_eq, Builder.switchTo_eq,
    Builder.next_make_temp, Builder.next_make_slot, Builder.next_make_block, Builder.next_make_emit,
    Builder.next_make_terminate, Builder.next_make_switchTo, Builder.size_make_temp,
    Builder.size_make_slot, Builder.size_make_emit, Builder.size_make_terminate,
    Builder.size_make_switchTo, Builder.size_newBlock, Nat.add_assoc, Nat.reduceAdd] at h
  cases h
  exact ⟨rfl, _, rfl⟩

/-- Where the code of a division stands in a procedure. It goes on from some code of a block, and
what it makes are the temporaries from `n` on and the blocks from `k` on. -/
structure IR.Procedure.Divides (q : Procedure) (c : Nat) (before : List Instruction) (n k : Nat)
    (x y : Operand) (span : Span) : Prop where
  fresh : c < k
  test : q.code c = before ++ [.binary n .eq y (.int 0)]
  tested : q.terminator? c = some (.branch (.temp n) k (k + 1))
  stop : q.code k = []
  stopped : q.terminator? k = some (.halt ("Division by zero in line " ++ toString span.line))
  look : q.code (k + 1) = [.binary (n + 2) .eq y (.int (-1)),
    .binary (n + 3) .eq x (.int Int32.minValue),
    .binary (n + 4) .and (.temp (n + 2)) (.temp (n + 3)),
    .store (.temp (n + 1)) (.int Int32.minValue)]
  looked : q.terminator? (k + 1) = some (.branch (.temp (n + 4)) (k + 3) (k + 2))
  divide : q.code (k + 2) = [.binary (n + 5) .sdiv x y, .store (.temp (n + 1)) (.temp (n + 5))]
  divided : q.terminator? (k + 2) = some (.jump (k + 3))
  done : ∃ rest, q.code (k + 3) = .load (n + 6) (.temp (n + 1)) :: rest
  slot : .alloca (n + 1) .int ∈ q.slots
  temps : n + 7 ≤ q.temps.size

theorem IR.Builder.code_of_size_le {b : Builder} {n : Nat} (h : b.size ≤ n) :
    b.procedure.code n = [] := by
  rw [Procedure.code, Array.getElem?_eq_none h]
  rfl

section made

variable {b b' : Builder} {q : Procedure} {c n k : Nat} {type : Ty}
  (hb' : b' = b.makeAll (quotientMoves n k x y span type))
include hb'

theorem current_quotientMoves : b'.current = some (k + 3) := by
  simp [hb', quotientMoves, Builder.makeAll]

theorem next_quotientMoves : b'.procedure.temps.size = b.procedure.temps.size + 7 := by
  simp [hb', quotientMoves, Builder.makeAll]

/-- The slot of a division is one of those of the procedure. -/
theorem mem_slots_quotientMoves (hn : b.procedure.temps.size = n) :
    .alloca (n + 1) .int ∈ b'.procedure.slots := by
  let before := (quotientMoves n k x y span type).take 8
  have hsize : 0 < (b.makeAll before).procedure.blocks.size := by
    change 0 < (b.makeAll before).size
    simp [before, quotientMoves, Builder.makeAll, Builder.size_newBlock]
  have hnext : (b.makeAll before).procedure.temps.size = n + 1 := by
    simp [before, quotientMoves, Builder.makeAll, hn]
  have hslots : ((b.makeAll before).make (.slot .int)).procedure.slots =
      (b.makeAll before).procedure.slots ++ [.alloca (n + 1) .int] :=
    hnext ▸ Procedure.slots_slot (Array.getElem?_eq_getElem hsize)
  have hsplit : b' = ((b.makeAll before).make (.slot .int)).makeAll
      ((quotientMoves n k x y span type).drop 9) := by
    rw [hb', ← Builder.makeAll_concat, ← Builder.makeAll_append]
    rfl
  rw [hsplit]
  refine (Builder.slots_prefix_makeAll _ _).subset ?_
  rw [hslots]
  exact List.mem_append_right _ (List.mem_singleton_self _)

variable (hc : b.current = some c) (hk : b.size = k) (hck : c < k)
include hc hk hck

/-- What a division adds to the blocks. -/
theorem code_quotientMoves :
    b'.procedure.code c = b.procedure.code c ++ [.binary n .eq y (.int 0)] ∧
    b'.procedure.code k = [] ∧
    b'.procedure.code (k + 1) = [.binary (n + 2) .eq y (.int (-1)),
      .binary (n + 3) .eq x (.int Int32.minValue),
      .binary (n + 4) .and (.temp (n + 2)) (.temp (n + 3)),
      .store (.temp (n + 1)) (.int Int32.minValue)] ∧
    b'.procedure.code (k + 2) =
      [.binary (n + 5) .sdiv x y, .store (.temp (n + 1)) (.temp (n + 5))] ∧
    b'.procedure.code (k + 3) = [.load (n + 6) (.temp (n + 1))] := by
  have hne : ∀ j, c ≠ k + j := by omega
  have hnew : ∀ j, b.procedure.code (k + j) = [] := fun j => Builder.code_of_size_le (by omega)
  have hnew₀ : b.procedure.code k = [] := hnew 0
  refine ⟨?_, ?_, ?_, ?_, ?_⟩ <;>
    simp [hb', quotientMoves, Builder.makeAll, Builder.code_make_emit, Builder.size_newBlock, hc,
      hk, hck, hck.ne, hne, (hne _).symm, hnew, hnew₀]

/-- How a division ends the blocks. -/
theorem terminator?_quotientMoves :
    b'.procedure.terminator? c = some (.branch (.temp n) k (k + 1)) ∧
    b'.procedure.terminator? k =
      some (.halt ("Division by zero in line " ++ toString span.line)) ∧
    b'.procedure.terminator? (k + 1) = some (.branch (.temp (n + 4)) (k + 3) (k + 2)) ∧
    b'.procedure.terminator? (k + 2) = some (.jump (k + 3)) := by
  have hne : ∀ j, k + j ≠ c := by omega
  have hlt : c < k + 2 ∧ c < k + 4 := by omega
  refine ⟨?_, ?_, ?_, ?_⟩ <;>
    simp [hb', quotientMoves, Builder.makeAll, Builder.terminator?_make_terminate,
      Builder.size_newBlock, hc, hk, hlt, hck.ne', hne]

/-- What a division makes stays where it is. -/
theorem divides_quotientMoves (hn : b.procedure.temps.size = n) (hq : b'.procedure.Precedes q) :
    q.Divides c (b.procedure.code c) n k x y span := by
  obtain ⟨hc₁, hc₂, hc₃, hc₄, hc₅⟩ := code_quotientMoves hb' hc hk hck
  obtain ⟨ht₁, ht₂, ht₃, ht₄⟩ := terminator?_quotientMoves hb' hc hk hck
  obtain ⟨hq₁, hcode₁⟩ := hq.ended _ _ ht₁
  obtain ⟨hq₂, hcode₂⟩ := hq.ended _ _ ht₂
  obtain ⟨hq₃, hcode₃⟩ := hq.ended _ _ ht₃
  obtain ⟨hq₄, hcode₄⟩ := hq.ended _ _ ht₄
  obtain ⟨rest, hrest⟩ := hq.code (k + 3)
  rw [hc₅] at hrest
  have hslot := mem_slots_quotientMoves hb' hn
  refine ⟨hck, hcode₁.trans hc₁, hq₁, hcode₂.trans hc₂, hq₂, hcode₃.trans hc₃, hq₃,
    hcode₄.trans hc₄,
    hq₄, ⟨rest, hrest.symm⟩, hq.slots.subset hslot, ?_⟩
  exact hn ▸ (next_quotientMoves hb').symm.trans_le hq.temps

end made

end quotients

section results

variable {α β : Type} {body : Body}

/-- If no fact is missing, the result of making code is as it should be in the state behind it. -/
def Delivers (x : Lower α) (P : α → LowerState → Prop) : Prop :=
  ∀ s a s', x s = .ok (a, s') → P a s'

theorem Delivers.bind {x : Lower α} {f : α → Lower β} {P : β → LowerState → Prop}
    (h : ∀ a, Delivers (f a) P) : Delivers (x >>= f) P := by
  intro s b s' hrun
  obtain ⟨a, t, -, hfa⟩ := Lower.of_bind hrun
  exact h a t b s' hfa

theorem delivers_throw {fact : MissingFact} {P : α → LowerState → Prop} :
    Delivers (throw fact : Lower α) P := by
  rintro _ _ _ ⟨⟩

/-- An operand is a constant, the receiver, or a temporary that is assigned in the open block, if
there is one. -/
def Body.Settles (body : Body) (x : Operand) (b : Builder) : Prop :=
  ∀ t, x = .temp t → body.this = some t ∨ t < b.procedure.temps.size ∧
    ∀ c, b.current = some c → c < b.size → t ∈ destsOf (b.procedure.code c)

theorem delivers_define {g : Builder → Operand × Builder} (hg : ∀ b, ∃ type i, g b =
    b.define type i ∧ ∀ id, (i id).dest? = some id ∧ (i id).isAlloca = false) :
    Delivers (compute g) fun x s => body.Settles x s.builder := by
  rintro s _ _ ⟨⟩ t ht
  obtain ⟨type, i, heq, hi⟩ := hg s.builder
  rw [heq] at ht ⊢
  obtain rfl := Operand.temp.inj ht
  obtain ⟨hdest, halloca⟩ := hi s.builder.procedure.temps.size
  have hmake : (s.builder.define type i).2 = (s.builder.make (.temp type)).make
      (.emit (i s.builder.procedure.temps.size)) := rfl
  rw [hmake]
  refine .inr ⟨by simp, fun c hc hlt => ?_⟩
  rw [Builder.current_make_emit] at hc
  rw [Builder.size_make_emit] at hlt
  rw [Builder.code_make_emit halloca, if_pos ⟨hc, hlt⟩, destsOf_append]
  exact List.mem_append_right _ (mem_destsOf.2 ⟨_, List.mem_singleton_self _, hdest⟩)

/-- A constant. -/
theorem delivers_const {x : Operand} (h : ∀ t, x ≠ .temp t) :
    Delivers (pure x : Lower Operand) fun x s => body.Settles x s.builder := by
  rintro s _ _ ⟨⟩ t ht
  exact absurd ht (h t)

theorem delivers_binary {op : Operation} {x y : Operand} :
    Delivers (compute (·.binary op x y)) fun x s => body.Settles x s.builder :=
  delivers_define fun _ => ⟨_, _, rfl, fun _ => ⟨rfl, rfl⟩⟩

theorem delivers_load {x : Operand} :
    Delivers (compute (·.load x)) fun x s => body.Settles x s.builder :=
  delivers_define fun _ => ⟨_, _, rfl, fun _ => ⟨rfl, rfl⟩⟩

theorem delivers_call {procedure : Nat} {args : List Operand} {type : Ty} :
    Delivers (compute (·.call procedure args type)) fun x s => body.Settles x s.builder :=
  delivers_define fun _ => ⟨_, _, rfl, fun _ => ⟨rfl, rfl⟩⟩

theorem delivers_quotient {x y : Operand} {span : Span} :
    Delivers (quotient x y span) fun x s => body.Settles x s.builder :=
  .bind fun _ => .bind fun _ => .bind fun _ => .bind fun _ => .bind fun _ => .bind fun _ =>
    .bind fun _ => .bind fun _ => .bind fun _ => .bind fun _ => .bind fun _ => .bind fun _ =>
      .bind fun _ => .bind fun _ => .bind fun _ => delivers_load

theorem delivers_equality {T U : ValueType} {x y : Operand} :
    Delivers (equality T U x y) fun x s => body.Settles x s.builder := by
  refine .bind fun _ => .bind fun _ => ?_
  dsimp only
  split
  all_goals
    split
    · exact .bind fun _ => delivers_binary
    · exact .bind fun _ => delivers_binary

/-- The value of an expression is in a temporary that was assigned right before, unless it is a
constant or the receiver. -/
theorem delivers_expr (e : Expr) : Delivers (lowerExpr body e) fun x s =>
    body.Settles x s.builder := by
  cases e with
  | unary tag op e => cases op <;> exact .bind fun _ => delivers_binary
  | binary tag op left right =>
      cases op with
      | and =>
          exact .bind fun _ => .bind fun _ => .bind fun _ => .bind fun _ => .bind fun _ =>
            .bind fun _ => .bind fun _ => .bind fun _ => .bind fun _ => .bind fun _ =>
              .bind fun _ => delivers_load
      | div => exact .bind fun _ => .bind fun _ => delivers_quotient
      | equal =>
          exact .bind fun _ => .bind fun _ => .bind fun _ => .bind fun _ => delivers_equality
      | _ => exact .bind fun _ => .bind fun _ => delivers_binary
  | number | bool | null => exact delivers_const (by rintro t ⟨⟩)
  | this tag =>
      intro s x s' hrun
      obtain ⟨t, _, hknown, hpure⟩ := Lower.of_bind hrun
      obtain ⟨hthis, -⟩ := Lower.of_known hknown
      cases hpure
      rintro _ ⟨⟩
      exact .inl hthis
  | read => exact .bind fun _ => delivers_load
  | arrayLength => exact .bind fun _ => .bind fun _ => .bind fun _ => delivers_load
  | newObject => exact .bind fun _ => .bind fun _ => delivers_call
  | newArray =>
      exact .bind fun _ => .bind fun _ => .bind fun _ => .bind fun _ => .bind fun _ => delivers_call
  | call tag name args =>
      refine .bind fun target => ?_
      cases target with
      | print =>
          exact .bind fun _ => .bind fun _ => .bind fun _ => delivers_const (by rintro t ⟨⟩)
      | function decl => exact .bind fun _ => .bind fun _ => delivers_call
      | method owner decl =>
          exact .bind fun _ => .bind fun _ => .bind fun _ => .bind fun _ => delivers_call
  | methodCall tag receiver name args =>
      refine .bind fun _ => .bind fun _ => .bind fun target => ?_
      cases target with
      | print => exact delivers_throw
      | function decl => exact delivers_throw
      | method owner decl =>
          exact .bind fun _ => .bind fun _ => .bind fun _ => .bind fun _ => delivers_call

end results

section places

/-- Of the block that was open in an earlier state of a builder and of those that are newer, only
the one that is open now has no terminator, and the others lead only to newer ones. -/
structure IR.Builder.Detours (b b' : Builder) (c : Nat) : Prop where
  size : b.size ≤ b'.size
  closed : ∀ n, n = c ∨ b.size ≤ n → b'.Unterminated n → b'.current = some n
  edges : ∀ n t, n = c ∨ b.size ≤ n → b'.procedure.terminator? n = some t →
    ∀ k ∈ t.successors, b.size ≤ k ∧ k < b'.size

/-- What two courses say of the same moves: one from a builder without blocks, and one that begins
right before them. -/
theorem IR.Builder.Course.detours {b b₁ b₂ : Builder} {ms ms₁ ms₂ : List Move} {o o' : Outlook}
    {c : Nat} (hempty : b.size = 0) (h₁ : b₁ = b.makeAll ms) (hc : b₁.current = some c)
    (hopen : b₁.Unterminated c) (h : b.Course [] [] (ms ++ ms₁) o) (h₂ : b₂ = b.makeAll (ms ++ ms₁))
    (h' : b₁.Course [] [] ms₂ o') (h₂' : b₂ = b₁.makeAll ms₂) (hpending : o'.pending = []) :
    b₁.Detours b₂ c := by
  refine ⟨h₂' ▸ h'.becomes.size_le, fun n hn hnone => ?_, fun n t hn ht k hk => ?_⟩
  · rcases hn with rfl | hn
    · -- A block that is still to be opened was never open.
      rw [h₂] at hnone ⊢
      rcases h.becomes.closed n (.inr (hempty ▸ Nat.zero_le n)) hnone with hcurrent | hmem
      · exact hcurrent
      · exact absurd (h₁ ▸ hc) ((h.pending n hmem).2.2 ms (List.prefix_append ..))
    · rw [h₂'] at hnone ⊢
      rcases h'.becomes.closed n (.inr hn) hnone with hcurrent | hmem
      · exact hcurrent
      · rw [hpending] at hmem
        cases hmem
  · obtain ⟨d, hd, hdt⟩ := Procedure.terminator?_eq_some_iff.1 ht
    rw [h₂'] at hd ⊢
    rcases h'.becomes.edges n d t hd hdt with ⟨d', hd', hdt'⟩ | ⟨-, hsuccessors⟩
    · rcases hn with rfl | hn
      · obtain ⟨e, he, hnone⟩ := hopen
        obtain rfl := Option.some.inj (he.symm.trans hd')
        rw [hnone] at hdt'
        cases hdt'
      · exact absurd (Builder.block?_lt hd') hn.not_gt
    · obtain ⟨hmem | hle, hlt⟩ := hsuccessors k hk
      · cases hmem
      · exact ⟨hle, hlt⟩

/-- The code for a division is made: that for its operands, then its own. What is there at each time
stays until the end. -/
structure Division (body : Body) (tag : Tag) (left right : Expr) (s s' : LowerState) (z : Operand)
    (q : Procedure) (x y : Operand) (s₁ s₂ : LowerState) : Prop where
  left : lowerExpr body left s = .ok (x, s₁)
  right : lowerExpr body right s₁ = .ok (y, s₂)
  own : quotient x y tag.span s₂ = .ok (z, s')
  operand : s₁.builder.procedure.Precedes s₂.builder.procedure
  behind : s₂.builder.procedure.Precedes q
  done : s'.builder.procedure.Precedes q
  detours : ∀ c, s₁.builder.current = some c → s₁.builder.Detours s₂.builder c
  unterminated : ∀ c, s₁.builder.current = some c → s₁.builder.Unterminated c
  unterminated' : ∀ c, s₂.builder.current = some c → s₂.builder.Unterminated c

/-- A course goes on while code is made. -/
theorem Steers.exists_course {α : Type} {x : Lower α} {d : α → Outlook} {o : Outlook} {b : Builder}
    {entries targets : List Nat} {ms : List Move} {s s' : LowerState} {a : α} (h : Steers o x d)
    (hc : b.Course entries targets ms o) (hs : s.builder = b.makeAll ms)
    (hrun : x s = .ok (a, s')) : ∃ ms', s'.builder = b.makeAll (ms ++ ms') ∧
      b.Course entries targets (ms ++ ms') (d a) := by
  obtain ⟨ms', hmade, hcourse⟩ := h _ _ _ _ _ _ _ hc hs hrun
  refine ⟨ms', ?_, hcourse⟩
  rw [hmade, hs, Builder.makeAll_append]

/-- How a division stands in what a course leads to. -/
theorem Midway.division {body : Body} {b : Builder} {s s' u : LowerState} {o o' : Outlook}
    {tag : Tag} {left right : Expr} {z : Operand} (hempty : b.size = 0) (hshut : b.current = none)
    (h : Midway b [] [] s s' u o o')
    (hrun : lowerExpr body (.binary tag .div left right) s = .ok (z, s')) :
    ∃ x y s₁ s₂, Division body tag left right s s' z u.builder.procedure x y s₁ s₂ := by
  obtain ⟨⟨ms, hs, hc⟩, follow, hfollow, hbehind⟩ := h
  obtain ⟨x, s₁, hleft, hrest⟩ := Lower.of_bind hrun
  obtain ⟨y, s₂, hright, hown⟩ := Lower.of_bind hrest
  have hnone : ∀ n, b.current = some n → b.Unterminated n := by
    rw [hshut]
    rintro n ⟨⟩
  obtain ⟨ms₁, hs₁, hc₁⟩ := (steers_blind left).exists_course hc hs hleft
  obtain ⟨ms₂, hs₂, hc₂⟩ := (steers_blind right).exists_course hc₁ hs₁ hright
  obtain ⟨ms₃, hs₃, hc₃⟩ := (steers_quotient (.inl rfl)).exists_course hc₂ hs₂ hown
  obtain ⟨ms₄, hu, hc₄⟩ := hbehind.exists_course hc₃ hs₃ hfollow
  have hopen : ∀ n, s₁.builder.current = some n → s₁.builder.Unterminated n := by
    rw [hs₁]
    exact fun n hn => hc₁.orderly.unterminated hnone hn
  have hstart : s₁.builder.Course [] [] [] ⟨[], [], none⟩ :=
    .start hopen List.nodup_nil (by simp) (by simp) (by simp)
  obtain ⟨ms', hs', hc'⟩ := (steers_blind right).exists_course hstart rfl hright
  refine ⟨x, y, s₁, s₂, hleft, hright, hown, ?_, ?_, ?_, fun c hcurrent => ?_, hopen, ?_⟩
  · rw [hs₁, hs₂]
    exact hc₂.orderly.precedes hnone
  · rw [hs₂, hu, List.append_assoc _ ms₃]
    exact Builder.Orderly.precedes hnone (List.append_assoc _ ms₃ ms₄ ▸ hc₄.orderly)
  · rw [hs₃, hu]
    exact hc₄.orderly.precedes hnone
  · exact Builder.Course.detours hempty hs₁ hcurrent (hopen c hcurrent) hc₂ hs₂ hc' hs' rfl
  · rw [hs₂]
    exact fun n hn => hc₂.orderly.unterminated hnone hn

end places

section routines

variable {r : Routine} {body env : Body} {start : LowerState} {q : Procedure}

/-- The receiver of a method is its first parameter. -/
theorem enterBody_this {isMethod : Bool} {f : FunctionDecl} {s : LowerState} {t : Nat}
    (h : enterBody body isMethod f s = .ok (env, start)) (ht : env.this = some t) :
    t ∈ s.builder.procedure.params := by
  obtain ⟨_, _, ⟨⟩, h⟩ := Lower.of_bind h
  obtain ⟨params, s₁, -, h⟩ := Lower.of_bind h
  obtain ⟨locals, s₂, -, h⟩ := Lower.of_bind h
  cases h
  cases isMethod with
  | true => exact List.mem_of_head? ht
  | false => cases ht

/-- A course leads from a procedure without blocks to all that code is made for in a body. -/
theorem Routine.Becomes.midway (h : r.Becomes body env start q) : ∃ b u, Builder.size b = 0 ∧
    b.current = none ∧ u.builder.procedure = q ∧ (∀ t, env.this = some t → t ∈ q.params) ∧
      ∀ y t, env.TurnsTo (.stmts r.decl.body, start) (y, t) →
        ∃ a t' o', y.code env t = .ok (a, t') ∧ Midway b [] [] t t' u ⟨[], [], none⟩ o' := by
  obtain ⟨⟨q₀, s₀, hblocks, hs₀, henter⟩, u, hran, rfl⟩ := h
  let b : Builder := ⟨q₀, none, #[]⟩
  have hnone : ∀ n, b.current = some n → b.Unterminated n := by
    rintro n ⟨⟩
  have hbare : b.Course [] [] [] ⟨[], [], some false⟩ :=
    .start hnone List.nodup_nil (by simp) (by simp) (by rintro _ ⟨⟩; rfl)
  have hentry : b.Course [] [] _ ⟨[], [b.size], some true⟩ :=
    (hbare.block "entry").switchTo rfl (List.nil_append _).symm
  have hle : Outlook.Le ⟨[], [], none⟩ ⟨[], [b.size], some true⟩ :=
    ⟨rfl, List.nil_subset _, .inl rfl⟩
  obtain ⟨ms, hstart, hcourse⟩ := steers_enterBody.exists_course (hentry.mono hle) hs₀ henter
  have hturns := fun y t (ht : env.TurnsTo (.stmts r.decl.body, start) (y, t)) =>
    ht.midway hcourse hstart hran
  refine ⟨b, u, congrArg Array.size hblocks, rfl, rfl, fun t ht => ?_, hturns⟩
  obtain ⟨ms', hu, hcourse'⟩ := (steers_stmts r.decl.body).exists_course hcourse hstart hran
  have hparams : u.builder.procedure.params = q₀.params := by
    rw [hu]
    have hprecedes : (b.makeAll []).procedure.Precedes _ :=
      Builder.Orderly.precedes hnone hcourse'.orderly
    exact hprecedes.params
  have hthis := enterBody_this henter ht
  rw [hs₀] at hthis
  exact hparams ▸ hthis

/-- What is noted of the nodes of a body serves the code that is made for them. -/
theorem Routine.Becomes.nodesBound {p : Program} {printName : String}
    (ha : p.Accepted printName (p.analyze printName)) (hr : r.Belongs p)
    (h : r.Becomes body env start q) (hanalysis : body.analysis = p.analyze printName)
    (hlayouts : body.layouts = (Layouts.build p (p.analyze printName) {}).1) :
    ∃ vars, NodesBound env vars (nodesOfBody r.decl.body) := by
  obtain ⟨⟨q₀, s₀, -, -, henter⟩, -⟩ := h
  obtain ⟨hsame, hsame', -, -⟩ := enterBody_spec henter
  have hnoted : r.decl.Noted p printName (p.analyze printName)
      (Layouts.build p (p.analyze printName) {}).1 := by
    obtain ⟨_, hbuilt⟩ := builds_layouts ha
    have hnoted := Program.noted ha (hbuilt.stands ha)
    obtain ⟨owner, decl⟩ := r
    cases owner with
    | none => exact hnoted.functions decl hr
    | some c => exact hnoted.methods _ hr.1.mem decl hr.2
  have hbound := hnoted.bound
  rw [← hlayouts, ← hanalysis, ← hsame, ← hsame'] at hbound
  exact ⟨_, hbound⟩

end routines

end ObjectLang
