import ObjectLang.Proofs.IR.Growth

/-!
# Code without its comments

A comment does nothing, so it can be left out. Leaving out the comments of a procedure that is being
built goes along with building it without them, except that a new slot is put behind the run of
allocas that the entry block starts with: in code that takes memory elsewhere too, a comment could
end that run earlier. The builder never makes such code.
-/
namespace ObjectLang.IR

/-- Whether an instruction only annotates the code. -/
def Instruction.isComment : Instruction → Bool
  | .comment _ => true
  | _ => false

theorem Instruction.isComment_of_isAlloca {i : Instruction} (hi : i.isAlloca = true) :
    i.isComment = false := by
  cases i with
  | alloca => rfl
  | _ => cases hi

/-- Some instructions without the comments among them. -/
def withoutComments (code : List Instruction) : List Instruction :=
  code.filter fun i => !i.isComment

theorem withoutComments_cons {i : Instruction} (hi : i.isComment = false)
    (code : List Instruction) : withoutComments (i :: code) = i :: withoutComments code :=
  List.filter_cons_of_pos (by rw [hi]; rfl)

theorem withoutComments_append (code code' : List Instruction) :
    withoutComments (code ++ code') = withoutComments code ++ withoutComments code' :=
  List.filter_append ..

namespace Block

def uncommented (b : Block) : Block :=
  { b with instructions := withoutComments b.instructions }

/-- A block takes memory only where it starts. -/
def Tidy (b : Block) : Prop :=
  ∀ i ∈ b.code, i.isAlloca = false

variable {b : Block} {i : Instruction}

theorem tidy_empty (name : String) : Tidy ⟨name, [], none⟩ :=
  List.forall_mem_nil _

theorem Tidy.push (h : b.Tidy) (hi : i.isAlloca = false) : (b.push i).Tidy := by
  rw [Tidy, code_push hi, List.forall_mem_append]
  exact ⟨h, List.forall_mem_singleton.2 hi⟩

theorem Tidy.pushSlot (h : b.Tidy) (hi : i.isAlloca = true) : (b.pushSlot i).Tidy := by
  rw [Tidy, code_pushSlot hi]
  exact h

theorem uncommented_push (hi : i.isComment = false) :
    (b.push i).uncommented = b.uncommented.push i := by
  rw [uncommented, push, withoutComments_append, withoutComments_cons hi]
  rfl

theorem uncommented_push_comment (text : String) :
    (b.push (.comment text)).uncommented = b.uncommented := by
  rw [uncommented, push, withoutComments_append]
  exact congrArg (Block.mk b.name · b.terminator) (List.append_nil _)

theorem withoutComments_slots (b : Block) : withoutComments b.slots = b.slots := by
  refine List.filter_eq_self.2 fun i hi => ?_
  rw [Instruction.isComment_of_isAlloca (List.mem_takeWhile_imp hi)]
  rfl

/-- A block without its comments has the same slots, and its code without the comments. -/
theorem Tidy.split_uncommented (h : b.Tidy) :
    b.uncommented.slots = b.slots ∧ b.uncommented.code = withoutComments b.code := by
  have hslots : ∀ i ∈ b.slots, i.isAlloca = true := fun i hi => List.mem_takeWhile_imp hi
  have hsplit : b.uncommented.instructions = b.slots ++ withoutComments b.code := by
    change withoutComments b.instructions = _
    rw [← slots_append_code, withoutComments_append, withoutComments_slots]
  have hhead : ∀ i ∈ (withoutComments b.code).head?, i.isAlloca = false := fun i hi =>
    h i (List.mem_of_mem_filter (List.mem_of_mem_head? hi))
  rw [slots, code, hsplit, List.takeWhile_append_of_pos hslots, List.dropWhile_append_of_pos hslots]
  cases hc : withoutComments b.code with
  | nil => exact ⟨List.append_nil _, rfl⟩
  | cons i rest =>
      have hi := hhead i (by rw [hc]; rfl)
      rw [List.takeWhile_cons_of_neg (by simp [hi]), List.dropWhile_cons_of_neg (by simp [hi])]
      exact ⟨List.append_nil _, rfl⟩

theorem Tidy.uncommented_pushSlot (h : b.Tidy) (hi : i.isAlloca = true) :
    (b.pushSlot i).uncommented = b.uncommented.pushSlot i := by
  obtain ⟨hslots, hcode⟩ := h.split_uncommented
  rw [pushSlot_eq, pushSlot_eq, hslots, hcode, uncommented, withoutComments_append,
    withoutComments_slots, withoutComments_cons (Instruction.isComment_of_isAlloca hi)]
  rfl

end Block

namespace Procedure

def uncommented (p : Procedure) : Procedure :=
  { p with blocks := p.blocks.map Block.uncommented }

def Tidy (p : Procedure) : Prop :=
  ∀ b ∈ p.blocks, b.Tidy

variable {p : Procedure}

theorem tidy_of_empty (h : p.blocks = #[]) : p.Tidy := by
  rw [Tidy, h]
  exact nofun

theorem uncommented_of_empty (h : p.blocks = #[]) : p.uncommented = p := by
  obtain ⟨name, returnType, params, temps, blocks⟩ := p
  cases h
  exact congrArg (Procedure.mk name returnType params temps) (Array.map_empty)

theorem modifyBlock_id (p : Procedure) (id : Nat) : p.modifyBlock id (fun b => b) = p := by
  refine congrArg (Procedure.mk p.name p.returnType p.params p.temps)
    (Array.ext_getElem? fun i => ?_)
  rw [Array.getElem?_modify]
  split_ifs
  · exact Option.map_id'
  · rfl

theorem Tidy.newBlock (h : p.Tidy) (name : String) : (p.newBlock name).2.Tidy := by
  intro b hb
  rcases Array.mem_push.1 hb with hb | rfl
  · exact h b hb
  · exact Block.tidy_empty name

theorem Tidy.modifyBlock (h : p.Tidy) (id : Nat) {f : Block → Block}
    (hf : ∀ b : Block, b.Tidy → (f b).Tidy) : (p.modifyBlock id f).Tidy := by
  intro b hb
  obtain ⟨i, hi⟩ := Array.mem_iff_getElem?.1 hb
  rw [Procedure.modifyBlock, Array.getElem?_modify] at hi
  split_ifs at hi
  · obtain ⟨c, hc, rfl⟩ := Option.map_eq_some_iff.1 hi
    exact hf c (h c (Array.mem_of_getElem? hc))
  · exact h b (Array.mem_of_getElem? hi)

theorem Tidy.slot (h : p.Tidy) (type : Ty) : (p.slot type).2.Tidy :=
  Tidy.modifyBlock (p := (p.newTemp (.pointer type)).2) h 0 fun _ hb => hb.pushSlot rfl

theorem uncommented_newBlock (p : Procedure) (name : String) :
    p.uncommented.newBlock name = ((p.newBlock name).1, (p.newBlock name).2.uncommented) := by
  simp [newBlock, uncommented, Block.uncommented, withoutComments]

theorem uncommented_modifyBlock (id : Nat) {f g : Block → Block}
    (hfg : ∀ b ∈ p.blocks, (f b).uncommented = g b.uncommented) :
    (p.modifyBlock id f).uncommented = p.uncommented.modifyBlock id g := by
  have hblocks : (p.blocks.modify id f).map Block.uncommented =
      (p.blocks.map Block.uncommented).modify id g := by
    refine Array.ext_getElem? fun i => ?_
    rw [Array.getElem?_map, Array.getElem?_modify, Array.getElem?_modify, Array.getElem?_map]
    split_ifs with hi
    · cases hb : p.blocks[i]? with
      | none => rfl
      | some b => exact congrArg some (hfg b (Array.mem_of_getElem? hb))
    · rfl
  rw [uncommented, modifyBlock, hblocks]
  rfl

theorem Tidy.uncommented_slot (h : p.Tidy) (type : Ty) :
    p.uncommented.slot type = ((p.slot type).1, (p.slot type).2.uncommented) :=
  Prod.ext rfl (uncommented_modifyBlock (p := (p.newTemp (.pointer type)).2) 0
    fun b hb => (h b hb).uncommented_pushSlot rfl).symm

end Procedure

/-- Whether a move only annotates the code. -/
def Move.isComment : Move → Bool
  | .emit i => i.isComment
  | _ => false

namespace Builder

/-- A builder that was told no comments. -/
def uncommented (b : Builder) : Builder :=
  { b with procedure := b.procedure.uncommented, moves := b.moves.filter fun m => !m.isComment }

variable {b : Builder} {i : Instruction}

theorem uncommented_record (b : Builder) {m : Move} (hm : m.isComment = false) :
    (b.record m).uncommented = b.uncommented.record m :=
  congrArg (Builder.mk b.procedure.uncommented b.current)
    (Array.filter_push_of_pos (by rw [hm]; rfl) (Array.size_push _))

theorem uncommented_record_comment (b : Builder) (text : String) :
    (b.record (.emit (.comment text))).uncommented = b.uncommented :=
  congrArg (Builder.mk b.procedure.uncommented b.current)
    (Array.filter_push_of_neg Bool.false_ne_true (Array.size_push _))

theorem tidy_start {p : Procedure} (h : p.Tidy) (entry : String) :
    (Builder.start p entry).procedure.Tidy :=
  h.newBlock entry

theorem tidy_emit (h : b.procedure.Tidy) (hi : i.isAlloca = false) :
    (b.emit i).procedure.Tidy := by
  rw [emit]
  split
  · exact h.modifyBlock _ fun _ hb => hb.push hi
  · exact h

theorem uncommented_emit (b : Builder) (hi : i.isComment = false) :
    b.uncommented.emit i = (b.emit i).uncommented := by
  rw [emit, emit, uncommented_record _ (by exact hi)]
  refine congrArg (record (.emit i)) ?_
  obtain ⟨p, current, moves⟩ := b
  cases current with
  | none => rfl
  | some id =>
      exact congrArg (Builder.mk · (some id) _)
        (Procedure.uncommented_modifyBlock id fun _ _ => Block.uncommented_push hi).symm

/-- A comment leaves nothing behind. -/
theorem uncommented_comment (b : Builder) (text : String) :
    (b.comment text).uncommented = b.uncommented := by
  rw [comment, emit, uncommented_record_comment]
  obtain ⟨p, current, moves⟩ := b
  cases current with
  | none => rfl
  | some id =>
      have hblocks := Procedure.uncommented_modifyBlock (p := p) id (f := (·.push (.comment text)))
        (g := fun b => b) fun _ _ => Block.uncommented_push_comment text
      exact congrArg (Builder.mk · (some id) _) (hblocks.trans (Procedure.modifyBlock_id _ id))

theorem tidy_terminate (h : b.procedure.Tidy) (t : Terminator) :
    (b.terminate t).procedure.Tidy := by
  rw [terminate]
  split
  · exact h.modifyBlock _ fun _ hb => hb
  · exact h

theorem uncommented_terminate (b : Builder) (t : Terminator) :
    b.uncommented.terminate t = (b.terminate t).uncommented := by
  rw [terminate, terminate, uncommented_record _ rfl]
  refine congrArg (record (.terminate t)) ?_
  obtain ⟨p, current, moves⟩ := b
  cases current with
  | none => rfl
  | some id =>
      have hblocks := Procedure.uncommented_modifyBlock (p := p) id
        (f := fun b => { b with terminator := some t })
        (g := fun b => { b with terminator := some t }) fun _ _ => rfl
      exact congrArg (Builder.mk · none _) hblocks.symm

theorem uncommented_newBlock (b : Builder) (name : String) :
    b.uncommented.newBlock name = ((b.newBlock name).1, (b.newBlock name).2.uncommented) := by
  rw [newBlock, newBlock, uncommented_record _ rfl, uncommented, Procedure.uncommented_newBlock]
  rfl

theorem uncommented_switchTo (b : Builder) (n : Nat) :
    b.uncommented.switchTo n = (b.switchTo n).uncommented :=
  (uncommented_record { b with current := some n } rfl).symm

theorem uncommented_start (p : Procedure) (entry : String) :
    Builder.start p.uncommented entry = (Builder.start p entry).uncommented := by
  have hentry : newBlock ⟨p.uncommented, none, #[]⟩ entry = _ :=
    uncommented_newBlock ⟨p, none, #[]⟩ entry
  rw [start, hentry]
  exact uncommented_switchTo ..

theorem uncommented_slot (h : b.procedure.Tidy) (type : Ty) :
    b.uncommented.slot type = ((b.slot type).1, (b.slot type).2.uncommented) := by
  rw [slot, slot, uncommented_record _ rfl, uncommented, h.uncommented_slot]
  rfl

theorem uncommented_newTemp (b : Builder) (type : Ty) :
    b.uncommented.newTemp type = ((b.newTemp type).1, (b.newTemp type).2.uncommented) :=
  Prod.ext rfl (uncommented_record { b with procedure := (b.procedure.newTemp type).2 } rfl).symm

theorem uncommented_define (b : Builder) (type : Ty) {f : Nat → Instruction}
    (hf : ∀ dest, (f dest).isComment = false) :
    b.uncommented.define type f = ((b.define type f).1, (b.define type f).2.uncommented) := by
  rw [define, uncommented_newTemp]
  exact Prod.ext rfl (uncommented_emit (b.newTemp type).2 (hf _))

theorem tidy_define (h : b.procedure.Tidy) (type : Ty) {f : Nat → Instruction}
    (hf : ∀ dest, (f dest).isAlloca = false) : (b.define type f).2.procedure.Tidy :=
  tidy_emit (b := (b.newTemp type).2) h (hf _)

end Builder

namespace Module

def uncommented (m : Module) : Module :=
  { m with procedures := m.procedures.map Procedure.uncommented }

def Tidy (m : Module) : Prop :=
  ∀ p ∈ m.procedures, p.Tidy

end Module
end ObjectLang.IR
