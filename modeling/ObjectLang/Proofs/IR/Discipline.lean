import ObjectLang.IR.Builder
import ObjectLang.Proofs.IR.Types

/-!
# Open and pending blocks

Blocks are made before they are filled. At any time a block without terminator is either the one
that instructions go to or pending: made, still empty, and to be filled later. All else that a
procedure needs to be well-formed holds throughout: instructions and terminators fit the procedure,
so that types are right and control stays within the blocks.
-/
namespace ObjectLang.IR

namespace Builder

/-- The procedure that is built is well-formed as far as it goes, and the blocks without terminator
are the open one and those that are pending. -/
structure Ready (m : Module) (b : Builder) (pending : List Nat) : Prop where
  entry : 0 < b.procedure.blocks.size
  ended : ∀ (i : Nat) (c : Block), b.procedure.blocks[i]? = some c →
    (c.terminator = none ↔ b.current = some i ∨ i ∈ pending)
  current : ∀ i, b.current = some i → i < b.procedure.blocks.size ∧ i ∉ pending
  empty : ∀ i ∈ pending, i ≠ 0 ∧
    ∃ c, b.procedure.blocks[i]? = some c ∧ c.instructions = []
  nodup : pending.Nodup
  slots : ∀ (i : Nat) (c : Block), b.procedure.blocks[i]? = some c → i ≠ 0 → c.slots = []
  fits : ∀ (i : Nat) (c : Block), b.procedure.blocks[i]? = some c →
    c.Fits m b.procedure

namespace Ready

variable {m m' : Module} {b : Builder} {pending pending' : List Nat}

theorem mono (h : b.Ready m pending) (hm : m.Grows m') : b.Ready m' pending :=
  ⟨h.entry, h.ended, h.current, h.empty, h.nodup, h.slots,
    fun i c hc => (h.fits i c hc).mono Procedure.Within.rfl.grows hm⟩

theorem perm (h : b.Ready m pending) (hp : pending.Perm pending') : b.Ready m pending' :=
  ⟨h.entry, fun i c hc => (h.ended i c hc).trans (or_congr_right hp.mem_iff),
    fun i hi => ⟨(h.current i hi).1, fun hm => (h.current i hi).2 (hp.mem_iff.2 hm)⟩,
    fun i hi => h.empty i (hp.mem_iff.2 hi), hp.nodup_iff.1 h.nodup, h.slots, h.fits⟩

/-- The open block has no terminator. -/
theorem block (h : b.Ready m pending) {i : Nat} (hi : b.current = some i) :
    ∃ c, b.procedure.blocks[i]? = some c ∧ c.terminator = none := by
  have hc := Array.getElem?_eq_getElem (h.current i hi).1
  exact ⟨_, hc, (h.ended i _ hc).2 (.inl hi)⟩

theorem lt_of_mem (h : b.Ready m pending) {i : Nat} (hi : i ∈ pending) :
    i < b.procedure.blocks.size := by
  obtain ⟨_, c, hc, _⟩ := h.empty i hi
  exact (Array.getElem?_eq_some_iff.1 hc).1

/-- A builder that is not open and has nothing pending has only blocks with terminators. -/
theorem terminated (h : b.Ready m []) (hb : b.current = none) {i : Nat} {c : Block}
    (hc : b.procedure.blocks[i]? = some c) : c.terminator ≠ none := by
  rw [Ne, h.ended i c hc, hb]
  simp

theorem record (h : b.Ready m pending) (move : Move) : (b.record move).Ready m pending :=
  ⟨h.entry, h.ended, h.current, h.empty, h.nodup, h.slots, h.fits⟩

section newTemp

variable (type : Ty)

theorem within_newTemp : b.procedure.Within (b.newTemp type).2.procedure :=
  Procedure.within_newTemp _ _

theorem newTemp (h : b.Ready m pending) : (b.newTemp type).2.Ready m pending :=
  ⟨h.entry, h.ended, h.current, h.empty, h.nodup, h.slots,
    fun i c hc => (h.fits i c hc).mono (within_newTemp type).grows .rfl⟩

end newTemp

section newBlock

variable (name : String)

theorem getElem?_newBlock {i : Nat} {c : Block}
    (hc : (b.newBlock name).2.procedure.blocks[i]? = some c) :
    b.procedure.blocks[i]? = some c ∨ i = b.procedure.blocks.size ∧ c = ⟨name, [], none⟩ := by
  simp only [Builder.procedure_newBlock, Procedure.newBlock, Array.getElem?_push] at hc
  split_ifs at hc with hi
  · exact .inr ⟨hi, (Option.some.inj hc).symm⟩
  · exact .inl hc

theorem within_newBlock (h : b.Ready m pending) :
    b.procedure.Within (b.newBlock name).2.procedure :=
  Procedure.within_newBlock h.entry name

theorem newBlock (h : b.Ready m pending) :
    (b.newBlock name).2.Ready m (b.procedure.blocks.size :: pending) := by
  have hsize : (b.newBlock name).2.procedure.blocks.size = b.procedure.blocks.size + 1 := by
    simp [Builder.procedure_newBlock, Procedure.newBlock]
  have hget := fun (i : Nat) (c : Block) => getElem?_newBlock (b := b) (i := i) (c := c) name
  have hnew : b.procedure.blocks.size ∉ pending := fun hm =>
    Nat.lt_irrefl _ (h.lt_of_mem hm)
  have hkeep : ∀ (i : Nat) (c : Block), b.procedure.blocks[i]? = some c →
      (b.newBlock name).2.procedure.blocks[i]? = some c := by
    intro i c hc
    have hi := (Array.getElem?_eq_some_iff.1 hc).1
    simp only [Builder.procedure_newBlock, Procedure.newBlock]
    rw [Array.getElem?_push_lt hi]
    exact (Array.getElem?_eq_getElem hi).symm.trans hc
  refine ⟨?_, fun i c hc => ?_, fun i hi => ?_, fun i hi => ?_, List.nodup_cons.2 ⟨hnew, h.nodup⟩,
    fun i c hc hi => ?_, fun i c hc => ?_⟩
  · rw [hsize]
    exact Nat.succ_pos _
  · rcases hget i c hc with hc | ⟨rfl, rfl⟩
    · have hi := (Array.getElem?_eq_some_iff.1 hc).1
      rw [h.ended i c hc, List.mem_cons]
      simp only [Nat.ne_of_lt hi, false_or]
      rfl
    · simp
  · obtain ⟨hlt, hm⟩ := h.current i hi
    rw [hsize, List.mem_cons]
    exact ⟨Nat.lt_succ_of_lt hlt, fun hor => hor.elim (Nat.ne_of_lt hlt) hm⟩
  · rcases List.mem_cons.1 hi with rfl | hi
    · refine ⟨Nat.ne_of_gt h.entry, ⟨name, [], none⟩, ?_, rfl⟩
      simp [Builder.procedure_newBlock, Procedure.newBlock]
    · obtain ⟨hne, c, hc, hnil⟩ := h.empty i hi
      exact ⟨hne, c, hkeep i c hc, hnil⟩
  · rcases hget i c hc with hc | ⟨rfl, rfl⟩
    · exact h.slots i c hc hi
    · rfl
  · rcases hget i c hc with hc | ⟨rfl, rfl⟩
    · exact (h.fits i c hc).mono (h.within_newBlock name).grows .rfl
    · exact ⟨by simp, by simp⟩

end newBlock

/-- A change of the open block keeps the discipline if the block keeps its slots; a block that gets
a terminator is not open any more. -/
theorem modify (h : b.Ready m pending) {i : Nat} (hi : b.current = some i) {f : Block → Block}
    {c : Block} (hc : b.procedure.blocks[i]? = some c) {open? : Option Nat}
    (hopen : (f c).terminator = none ∧ open? = some i ∨ (f c).terminator ≠ none ∧ open? = none)
    (hslots : (f c).slots = c.slots)
    (hfits : (f c).Fits m b.procedure) :
    Ready m ⟨b.procedure.modifyBlock i f, open?, b.moves⟩ pending := by
  have hcur := h.current i hi
  have hsize : (b.procedure.modifyBlock i f).blocks.size = b.procedure.blocks.size := by
    simp [Procedure.modifyBlock]
  have hget := fun (j : Nat) (d : Block) =>
    Procedure.getElem?_modifyBlock (p := b.procedure) (f := f) (j := j) (d := d) hc
  refine ⟨?_, fun j d hd => ?_, fun j hj => ?_, fun j hj => ?_, h.nodup, fun j d hd hj => ?_,
    fun j d hd => ?_⟩
  · simp only [hsize]
    exact h.entry
  · rcases hget j d hd with ⟨rfl, rfl⟩ | ⟨hne, hd⟩
    · rcases hopen with ⟨ht, rfl⟩ | ⟨ht, rfl⟩
      · simp [ht]
      · simp [ht, hcur.2]
    · rw [h.ended j d hd, hi]
      rcases hopen with ⟨_, rfl⟩ | ⟨_, rfl⟩
      · rfl
      · simp [hne.symm]
  · rcases hopen with ⟨_, rfl⟩ | ⟨_, rfl⟩
    · cases hj
      simp only [hsize]
      exact hcur
    · cases hj
  · obtain ⟨hne, d, hd, hnil⟩ := h.empty j hj
    have hij : i ≠ j := fun hij => hcur.2 (hij ▸ hj)
    refine ⟨hne, d, ?_, hnil⟩
    simp only [Procedure.modifyBlock, Array.getElem?_modify, if_neg hij]
    exact hd
  · rcases hget j d hd with ⟨rfl, rfl⟩ | ⟨_, hd⟩
    · exact hslots.trans (h.slots j c hc hj)
    · exact h.slots j d hd hj
  · have hgrows : b.procedure.Grows (b.procedure.modifyBlock i f) :=
      ⟨fun _ _ hx => hx, rfl, hsize.ge⟩
    rcases hget j d hd with ⟨rfl, rfl⟩ | ⟨_, hd⟩
    · exact hfits.mono hgrows .rfl
    · exact (h.fits j d hd).mono hgrows .rfl

section emit

variable {i : Instruction}

theorem emit (h : b.Ready m pending) (hi : i.isAlloca = false)
    (hfits : i.Fits m b.procedure) : (b.emit i).Ready m pending := by
  rw [Builder.emit]
  refine .record ?_ _
  cases hc : b.current with
  | none => exact h
  | some id =>
      obtain ⟨c, hget, hnone⟩ := h.block hc
      refine modify h hc hget (.inl ⟨hnone, rfl⟩) (Block.slots_push hi) ⟨fun j hj => ?_, ?_⟩
      · rcases List.mem_append.1 hj with hj | hj
        · exact (h.fits id c hget).instructions j hj
        · rwa [List.mem_singleton.1 hj]
      · exact (h.fits id c hget).terminator

theorem within_emit (h : b.Ready m pending) (hi : i.isAlloca = false) :
    b.procedure.Within (b.emit i).procedure := by
  rw [Builder.emit, procedure_record]
  cases hc : b.current with
  | none => exact .rfl
  | some id =>
      obtain ⟨c, hget, hnone⟩ := h.block hc
      refine Procedure.within_modifyBlock hget ⟨rfl, ?_, fun t ht => ?_⟩ (Block.slots_push hi)
      · rw [Block.code_push hi]
        exact List.prefix_append _ _
      · rw [hnone] at ht
        cases ht

end emit

section terminate

variable {t : Terminator}

theorem terminate (h : b.Ready m pending) (hfits : t.Fits b.procedure) :
    (b.terminate t).Ready m pending := by
  rw [Builder.terminate]
  refine .record ?_ _
  cases hc : b.current with
  | none => exact h
  | some id =>
      obtain ⟨c, hget, _⟩ := h.block hc
      refine modify h hc hget (.inr ⟨by simp, rfl⟩) rfl ⟨?_, fun u hu => ?_⟩
      · exact (h.fits id c hget).instructions
      · cases hu
        exact hfits

theorem within_terminate (h : b.Ready m pending) :
    b.procedure.Within (b.terminate t).procedure := by
  rw [Builder.terminate, procedure_record]
  cases hc : b.current with
  | none => exact .rfl
  | some id =>
      obtain ⟨c, hget, hnone⟩ := h.block hc
      refine Procedure.within_modifyBlock hget ⟨rfl, List.prefix_refl _, fun u hu => ?_⟩ rfl
      rw [hnone] at hu
      cases hu

end terminate

theorem switchTo {i : Nat} (h : b.Ready m (i :: pending)) (hb : b.current = none) :
    (b.switchTo i).Ready m pending := by
  obtain ⟨hi, hnodup⟩ := List.nodup_cons.1 h.nodup
  refine ⟨h.entry, fun j c hc => ?_, fun j hj => ?_, fun j hj =>
    h.empty j (List.mem_cons_of_mem _ hj),
    hnodup, h.slots, h.fits⟩
  · rw [h.ended j c hc, hb, List.mem_cons, current_switchTo]
    simp only [reduceCtorEq, false_or, Option.some.injEq]
    rw [eq_comm]
  · cases hj
    exact ⟨h.lt_of_mem (List.mem_cons_self ..), hi⟩

theorem within_slot (h : b.Ready m pending) (type : Ty) :
    b.procedure.Within (b.slot type).2.procedure :=
  Procedure.within_slot h.entry type

theorem slot (h : b.Ready m pending) (type : Ty) :
    (b.slot type).2.Ready m pending := by
  have hgrows := (h.within_slot type).grows
  have hblocks : (b.slot type).2.procedure.blocks.size = b.procedure.blocks.size := by
    simp [Builder.procedure_slot, Procedure.slot, Procedure.newTemp, Procedure.modifyBlock]
  have hget : ∀ (j : Nat) (d : Block), (b.slot type).2.procedure.blocks[j]? = some d →
      ∃ c, b.procedure.blocks[j]? = some c ∧ d.terminator = c.terminator ∧
        (j ≠ 0 → d = c) ∧ d.Fits m (b.slot type).2.procedure := by
    intro j d hd
    simp only [Builder.procedure_slot, Procedure.slot, Procedure.newTemp, Procedure.modifyBlock,
      Array.getElem?_modify] at hd
    split_ifs at hd with hj
    · subst hj
      obtain ⟨c, hc, rfl⟩ := Option.map_eq_some_iff.1 hd
      have hfits := (h.fits 0 c hc).mono hgrows .rfl
      rw [Block.pushSlot_eq]
      refine ⟨c, hc, rfl, fun h => (h rfl).elim, fun i hi => ?_, hfits.terminator⟩
      rcases List.mem_append.1 hi with hi | hi
      · exact hfits.instructions i (List.takeWhile_subset _ hi)
      · rcases List.mem_cons.1 hi with rfl | hi
        · exact .alloca (by simp [Builder.procedure_slot, Procedure.slot, Procedure.newTemp,
            Procedure.modifyBlock, Procedure.typeOf?])
        · exact hfits.instructions i (List.dropWhile_subset _ hi)
    · exact ⟨d, hd, rfl, fun _ => rfl, (h.fits j d hd).mono hgrows .rfl⟩
  refine ⟨hblocks ▸ h.entry, fun j d hd => ?_, fun j hj => ?_, fun j hj => ?_, h.nodup,
    fun j d hd hj => ?_, fun j d hd => ?_⟩
  · obtain ⟨c, hc, ht, _⟩ := hget j d hd
    rw [ht]
    exact h.ended j c hc
  · rw [hblocks]
    exact h.current j hj
  · obtain ⟨hne, c, hc, hnil⟩ := h.empty j hj
    refine ⟨hne, c, ?_, hnil⟩
    simp only [Builder.procedure_slot, Procedure.slot, Procedure.newTemp, Procedure.modifyBlock,
      Array.getElem?_modify, if_neg hne.symm]
    exact hc
  · obtain ⟨c, hc, _, hd', _⟩ := hget j d hd
    rw [hd' hj]
    exact h.slots j c hc hj
  · obtain ⟨c, _, _, _, hfits⟩ := hget j d hd
    exact hfits

end Ready

/-- The point of a finished procedure that a builder for it has reached. -/
def point (b : Builder) (p : Procedure) : Nat × List Instruction :=
  (b.current.getD 0, (p.code (b.current.getD 0)).drop (b.procedure.code (b.current.getD 0)).length)

section point

variable {m : Module} {b : Builder} {pending : List Nat} {p : Procedure} {c : Nat}

/-- An instruction that was emitted stands where the builder was. -/
theorem Ready.point_emit (h : b.Ready m pending) (hc : b.current = some c) {i : Instruction}
    (hi : i.isAlloca = false) (hp : (b.emit i).procedure.Within p) :
    ∃ rest, b.point p = (c, i :: rest) ∧ (b.emit i).point p = (c, rest) := by
  obtain ⟨blk, hget, hnone⟩ := h.block hc
  have hcode : (b.emit i).procedure.code c = b.procedure.code c ++ [i] := by
    simp only [Builder.emit, procedure_record, hc, Procedure.code, Procedure.modifyBlock,
      Array.getElem?_modify,
      if_true, hget, Option.map_some, Option.elim_some]
    exact Block.code_push hi
  have hcur : (b.emit i).current = some c := by
    simp only [Builder.emit, current_record, hc]
  obtain ⟨rest, hrest⟩ := hp.code c
  refine ⟨rest, ?_, ?_⟩
  · simp only [point, hc, Option.getD_some, ← hrest, hcode, List.append_assoc]
    rw [List.drop_left]
    rfl
  · simp only [point, hcur, Option.getD_some, ← hrest]
    rw [List.drop_left]

/-- A terminator stands at the end of the block where the builder was. -/
theorem Ready.point_terminate (h : b.Ready m pending) (hc : b.current = some c)
    {t : Terminator} (hp : (b.terminate t).procedure.Within p) :
    b.point p = (c, []) ∧ ∃ blk, p.blocks[c]? = some blk ∧ blk.terminator = some t := by
  obtain ⟨blk, hget, _⟩ := h.block hc
  have hget' : (b.terminate t).procedure.blocks[c]? = some { blk with terminator := some t } := by
    simp only [Builder.terminate, procedure_record, hc, Procedure.modifyBlock,
      Array.getElem?_modify, if_true, hget,
      Option.map_some]
  obtain ⟨blk', hblk', hwithin, _⟩ := hp.blocks c _ hget'
  obtain ⟨ht, hcode⟩ := hwithin.ended t rfl
  refine ⟨?_, blk', hblk', ht⟩
  simp only [point, hc, Option.getD_some, Procedure.code, hget, hblk', Option.elim_some, hcode]
  exact congrArg _ List.drop_length

/-- A pending block that the builder is switched to starts with the code that is emitted next. -/
theorem Ready.point_switchTo {i : Nat} (h : b.Ready m pending) (hi : i ∈ pending)
    (hp : (b.switchTo i).procedure.Within p) :
    ∃ blk, p.blocks[i]? = some blk ∧ (b.switchTo i).point p = (i, blk.instructions) := by
  obtain ⟨hne, c, hc, hnil⟩ := h.empty i hi
  obtain ⟨blk, hblk, _, hslots⟩ := hp.blocks i c hc
  have hempty : blk.slots = [] := (hslots hne).trans (h.slots i c hc hne)
  refine ⟨blk, hblk, ?_⟩
  have hcode : c.code = [] := by
    rw [Block.code, hnil]
    rfl
  simp only [point, current_switchTo, procedure_switchTo, Option.getD_some,
    Procedure.code, hc, hblk,
    Option.elim_some, hcode, List.length_nil, List.drop_zero, Block.instructions_eq_code hempty]

end point

end Builder
end ObjectLang.IR
