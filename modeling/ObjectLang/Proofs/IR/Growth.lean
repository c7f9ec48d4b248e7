import Mathlib.Data.List.TakeWhile
import Mathlib.Tactic
import ObjectLang.IR.Builder

/-!
# How procedures grow

While a procedure is built, what is there stays: temporaries keep their types, a block keeps its
instructions and gets more at its end until it is terminated, and the entry block gets more slots
behind those that it has. The slots of a block are the run of allocas that it starts with, all else
is its code.
-/
namespace ObjectLang.IR

namespace Block

/-- The run of allocas that a block starts with. -/
def slots (b : Block) : List Instruction :=
  b.instructions.takeWhile Instruction.isAlloca

/-- What stands behind the slots of a block. -/
def code (b : Block) : List Instruction :=
  b.instructions.dropWhile Instruction.isAlloca

theorem slots_append_code (b : Block) : b.slots ++ b.code = b.instructions :=
  List.takeWhile_append_dropWhile

theorem instructions_eq_code {b : Block} (h : b.slots = []) : b.instructions = b.code := by
  rw [← slots_append_code, h, List.nil_append]

theorem slots_push {b : Block} {i : Instruction} (hi : i.isAlloca = false) :
    (b.push i).slots = b.slots := by
  simp only [slots, push]
  rw [List.takeWhile_append]
  split_ifs with h
  · rw [List.takeWhile_cons_of_neg (by simp [hi]), List.append_nil]
    exact ((List.takeWhile_prefix _).eq_of_length h).symm
  · rfl

theorem code_push {b : Block} {i : Instruction} (hi : i.isAlloca = false) :
    (b.push i).code = b.code ++ [i] := by
  simp only [code, push]
  rw [List.dropWhile_append]
  split_ifs with h
  · rw [List.isEmpty_iff] at h
    simp [h, hi]
  · rfl

theorem pushSlot_eq (b : Block) (i : Instruction) :
    b.pushSlot i = { b with instructions := b.slots ++ i :: b.code } := by
  simp only [pushSlot, List.span_eq_takeWhile_dropWhile, slots, code]

theorem code_head {b : Block} {i : Instruction} {rest : List Instruction}
    (h : b.code = i :: rest) : i.isAlloca = false := by
  have := List.head?_dropWhile_not Instruction.isAlloca b.instructions
  rw [code] at h
  rw [h] at this
  simpa using this

theorem slots_pushSlot {b : Block} {i : Instruction} (hi : i.isAlloca = true) :
    (b.pushSlot i).slots = b.slots ++ [i] := by
  rw [pushSlot_eq, slots]
  have hslots : ∀ x ∈ b.slots, x.isAlloca = true := fun x hx => List.mem_takeWhile_imp hx
  rw [List.takeWhile_append_of_pos hslots, List.takeWhile_cons_of_pos hi]
  cases hc : b.code with
  | nil => rfl
  | cons j rest => rw [List.takeWhile_cons_of_neg (by simp [code_head hc])]

theorem code_pushSlot {b : Block} {i : Instruction} (hi : i.isAlloca = true) :
    (b.pushSlot i).code = b.code := by
  have hslots : ∀ x ∈ b.slots, x.isAlloca = true := fun x hx => List.mem_takeWhile_imp hx
  rw [pushSlot_eq, code]
  simp only
  rw [List.dropWhile_append_of_pos hslots, List.dropWhile_cons_of_pos hi]
  cases hc : b.code with
  | nil => rfl
  | cons j rest => rw [List.dropWhile_cons_of_neg (by simp [code_head hc])]

/-- What is there of a block stays, and nothing is added to its code once it is terminated. -/
structure Within (b c : Block) : Prop where
  name : c.name = b.name
  code : b.code <+: c.code
  ended : ∀ t, b.terminator = some t → c.terminator = some t ∧ c.code = b.code

theorem Within.rfl {b : Block} : b.Within b :=
  ⟨Eq.refl _, List.prefix_refl _, fun _ ht => ⟨ht, Eq.refl _⟩⟩

theorem Within.trans {b c d : Block} (h : b.Within c) (h' : c.Within d) : b.Within d := by
  refine ⟨h'.name.trans h.name, h.code.trans h'.code, fun t ht => ?_⟩
  obtain ⟨ht', hcode⟩ := h.ended t ht
  obtain ⟨ht'', hcode'⟩ := h'.ended t ht'
  exact ⟨ht'', hcode'.trans hcode⟩

end Block

namespace Procedure

/-- The slots of a procedure: those of its entry block. -/
def slots (p : Procedure) : List Instruction :=
  p.blocks[0]?.elim [] Block.slots

/-- The code of a block of a procedure. -/
def code (p : Procedure) (i : Nat) : List Instruction :=
  p.blocks[i]?.elim [] Block.code

/-- A procedure is part of a later state of itself. -/
structure Within (p q : Procedure) : Prop where
  name : q.name = p.name
  returnType : q.returnType = p.returnType
  params : q.params = p.params
  temps : ∀ (i : Nat) (t : Temp), p.temps[i]? = some t → q.temps[i]? = some t
  blocks : ∀ (i : Nat) (b : Block), p.blocks[i]? = some b →
    ∃ c, q.blocks[i]? = some c ∧ b.Within c ∧ (i ≠ 0 → c.slots = b.slots)
  slots : p.slots <+: q.slots
  fresh : ∀ (dest : Nat) (type : Ty), .alloca dest type ∈ q.slots →
    .alloca dest type ∈ p.slots ∨ p.temps.size ≤ dest

namespace Within

variable {p q r : Procedure}

theorem rfl : p.Within p :=
  ⟨Eq.refl _, Eq.refl _, Eq.refl _, fun _ _ h => h, fun _ b hb => ⟨b, hb, .rfl, fun _ => Eq.refl _⟩,
    List.prefix_refl _, fun _ _ h => .inl h⟩

theorem size_temps (h : p.Within q) : p.temps.size ≤ q.temps.size := by
  by_contra hlt
  have hget := h.temps q.temps.size _ (Array.getElem?_eq_getElem (not_le.1 hlt))
  simp at hget

theorem size_blocks (h : p.Within q) : p.blocks.size ≤ q.blocks.size := by
  by_contra hlt
  obtain ⟨c, hc, _⟩ := h.blocks q.blocks.size _ (Array.getElem?_eq_getElem (not_le.1 hlt))
  simp at hc

theorem trans (h : p.Within q) (h' : q.Within r) : p.Within r := by
  refine ⟨h'.name.trans h.name, h'.returnType.trans h.returnType, h'.params.trans h.params,
    fun i t ht => h'.temps i t (h.temps i t ht), fun i b hb => ?_, h.slots.trans h'.slots,
    fun dest type hr => ?_⟩
  · obtain ⟨c, hc, hbc, hslots⟩ := h.blocks i b hb
    obtain ⟨d, hd, hcd, hslots'⟩ := h'.blocks i c hc
    exact ⟨d, hd, hbc.trans hcd, fun hi => (hslots' hi).trans (hslots hi)⟩
  · rcases h'.fresh dest type hr with hq | hle
    · exact h.fresh dest type hq
    · exact .inr (h.size_temps.trans hle)

theorem typeOf? (h : p.Within q) {x : Operand} {t : Ty} (hx : p.typeOf? x = some t) :
    q.typeOf? x = some t := by
  cases x with
  | temp id =>
      obtain ⟨temp, htemp, rfl⟩ := Option.map_eq_some_iff.1 hx
      rw [Procedure.typeOf?, h.temps id temp htemp]
      exact Eq.refl _
  | _ => exact hx

theorem code (h : p.Within q) (i : Nat) : p.code i <+: q.code i := by
  rw [Procedure.code, Procedure.code]
  cases hb : p.blocks[i]? with
  | none => exact List.nil_prefix
  | some b =>
      obtain ⟨c, hc, hbc, _⟩ := h.blocks i b hb
      rw [hc]
      exact hbc.code

end Within

section

variable {p : Procedure}

theorem within_newTemp (p : Procedure) (type : Ty) : p.Within (p.newTemp type).2 := by
  refine ⟨rfl, rfl, rfl, fun i t ht => ?_, fun _ b hb => ⟨b, hb, .rfl, fun _ => rfl⟩,
    List.prefix_refl _, fun _ _ h => .inl h⟩
  have hi := (Array.getElem?_eq_some_iff.1 ht).1
  simp only [newTemp]
  rw [Array.getElem?_push_lt hi]
  exact (Array.getElem?_eq_getElem hi).symm.trans ht

theorem slots_congr {q : Procedure} (h : q.blocks[0]? = p.blocks[0]?) : q.slots = p.slots := by
  rw [slots, slots, h]

theorem within_newBlock (hp : 0 < p.blocks.size) (name : String) :
    p.Within (p.newBlock name).2 := by
  have hget : ∀ (i : Nat) (b : Block), p.blocks[i]? = some b →
      (p.newBlock name).2.blocks[i]? = some b := by
    intro i b hb
    have hi := (Array.getElem?_eq_some_iff.1 hb).1
    simp only [newBlock]
    rw [Array.getElem?_push_lt hi]
    exact (Array.getElem?_eq_getElem hi).symm.trans hb
  have hslots : (p.newBlock name).2.slots = p.slots :=
    slots_congr ((hget 0 _ (Array.getElem?_eq_getElem hp)).trans
      (Array.getElem?_eq_getElem hp).symm)
  refine ⟨rfl, rfl, rfl, fun _ _ h => h, fun i b hb => ⟨b, hget i b hb, .rfl, fun _ => rfl⟩, ?_,
    fun _ _ h => .inl (hslots ▸ h)⟩
  rw [hslots]

theorem getElem?_modifyBlock {i j : Nat} {f : Block → Block} {b d : Block}
    (hb : p.blocks[i]? = some b) (hd : (p.modifyBlock i f).blocks[j]? = some d) :
    j = i ∧ d = f b ∨ j ≠ i ∧ p.blocks[j]? = some d := by
  simp only [modifyBlock, Array.getElem?_modify] at hd
  split_ifs at hd with hij
  · subst hij
    rw [hb] at hd
    exact .inl ⟨rfl, (Option.some.inj hd).symm⟩
  · exact .inr ⟨Ne.symm hij, hd⟩

theorem slots_modifyBlock {i : Nat} {f : Block → Block} {b : Block}
    (hb : p.blocks[i]? = some b) (hslots : (f b).slots = b.slots) :
    (p.modifyBlock i f).slots = p.slots := by
  simp only [slots, modifyBlock, Array.getElem?_modify]
  split_ifs with hi
  · subst hi
    rw [hb]
    exact hslots
  · rfl

/-- A change of one block that keeps its slots. -/
theorem within_modifyBlock {i : Nat} {f : Block → Block} {b : Block}
    (hb : p.blocks[i]? = some b) (hf : b.Within (f b)) (hslots : (f b).slots = b.slots) :
    p.Within (p.modifyBlock i f) := by
  have hall := slots_modifyBlock hb hslots
  refine ⟨rfl, rfl, rfl, fun _ _ h => h, fun j c hc => ?_, ?_, fun _ _ h => .inl (hall ▸ h)⟩
  · simp only [modifyBlock, Array.getElem?_modify, hc, Option.map_some]
    by_cases hij : i = j
    · subst hij
      obtain rfl := Option.some.inj (hb.symm.trans hc)
      exact ⟨f b, if_pos rfl, hf, fun _ => hslots⟩
    · exact ⟨c, if_neg hij, .rfl, fun _ => rfl⟩
  · rw [hall]

theorem slots_slot {type : Ty} {b : Block} (hb : p.blocks[0]? = some b) :
    (p.slot type).2.slots = p.slots ++ [.alloca p.temps.size type] := by
  simp only [slot, slots, newTemp, modifyBlock, Array.getElem?_modify, hb, Option.map_some,
    if_true, Option.elim_some]
  exact Block.slots_pushSlot rfl

theorem within_slot (hp : 0 < p.blocks.size) (type : Ty) : p.Within (p.slot type).2 := by
  have hb := Array.getElem?_eq_getElem hp
  refine ⟨rfl, rfl, rfl, (within_newTemp p (.pointer type)).temps, fun j c hc => ?_, ?_,
    fun dest t ht => ?_⟩
  · simp only [slot, newTemp, modifyBlock, Array.getElem?_modify, hc, Option.map_some]
    by_cases hj : 0 = j
    · refine ⟨c.pushSlot (.alloca p.temps.size type), if_pos hj, ⟨?_, ?_, fun t ht => ⟨?_, ?_⟩⟩,
        fun h => (h hj.symm).elim⟩
      · rw [Block.pushSlot_eq]
      · rw [Block.code_pushSlot rfl]
      · rw [Block.pushSlot_eq]
        exact ht
      · rw [Block.code_pushSlot rfl]
    · exact ⟨c, if_neg hj, .rfl, fun _ => rfl⟩
  · rw [slots_slot hb]
    exact List.prefix_append _ _
  · rw [slots_slot hb, List.mem_append, List.mem_singleton] at ht
    rcases ht with ht | ht
    · exact .inl ht
    · cases ht
      exact .inr le_rfl

end

end Procedure

namespace Builder

variable (b : Builder) (m : Move) (type : Ty) (name : String)

@[simp]
theorem procedure_record : (b.record m).procedure = b.procedure := rfl

@[simp]
theorem current_record : (b.record m).current = b.current := rfl

@[simp]
theorem moves_record : (b.record m).moves = b.moves.push m := rfl

theorem procedure_newTemp : (b.newTemp type).2.procedure = (b.procedure.newTemp type).2 := rfl

theorem procedure_newBlock : (b.newBlock name).2.procedure = (b.procedure.newBlock name).2 := rfl

theorem procedure_slot : (b.slot type).2.procedure = (b.procedure.slot type).2 := rfl

theorem procedure_switchTo (n : Nat) : (b.switchTo n).procedure = b.procedure := rfl

theorem current_switchTo (n : Nat) : (b.switchTo n).current = some n := rfl

theorem procedure_start (p : Procedure) : (start p name).procedure = (p.newBlock name).2 := rfl

theorem current_start (p : Procedure) : (start p name).current = some p.blocks.size := rfl

theorem blocks_start {p : Procedure} (hp : p.blocks = #[]) :
    (start p name).procedure.blocks = #[⟨name, [], none⟩] := by
  rw [procedure_start, Procedure.newBlock, hp]
  rfl

end Builder
end ObjectLang.IR
