import Mathlib.Tactic
import ObjectLang.Proofs.IR.Growth

/-!
# Definition before use

A temporary is assigned by one instruction of a procedure at most, and by none if it is a parameter.
Slots are taken in the entry block before all else. Whatever way control takes through the blocks,
possible or not, a temporary that is read is a parameter or was assigned on that way.

Ways are without number, so the last point is shown from one set of temporaries for each block,
which are assigned on every way to the start of that block: those for the entry block are
parameters, and the set of a block is assigned at the end of every block that leads to it.
-/
namespace ObjectLang.IR

/-- The temporaries among some operands. -/
def tempsOf (xs : List Operand) : Set Nat :=
  {t | .temp t ∈ xs}

/-- The temporaries that some instructions assign. -/
def destsOf (is : List Instruction) : List Nat :=
  is.filterMap Instruction.dest?

/-- The temporaries that an instruction reads. -/
def Instruction.reads (i : Instruction) : Set Nat :=
  tempsOf i.operands

def Terminator.reads (t : Terminator) : Set Nat :=
  tempsOf t.operand?.toList

namespace Procedure

/-- The temporaries that the instructions of a procedure assign, each as often as it is assigned. -/
def dests (p : Procedure) : List Nat :=
  p.blocks.toList.flatMap fun b => destsOf b.instructions

/-- A way that control may take: it is at the start of a block, behind some other blocks. -/
inductive Way (p : Procedure) : List Block → Nat → Prop
  | entry : Way p [] 0
  | step {before : List Block} {i : Nat} {b : Block} {t : Terminator} {target : Nat} :
      Way p before i → p.blocks[i]? = some b → b.terminator = some t → target ∈ t.successors →
      Way p (before ++ [b]) target

/-- What a way has assigned, and some instructions behind it. -/
def assigned (p : Procedure) (before : List Block) (done : List Instruction) : Set Nat :=
  {t | t ∈ p.params ∨ (∃ b ∈ before, t ∈ destsOf b.instructions) ∨ t ∈ destsOf done}

/-- Temporaries are assigned once, slots are taken first, and what is read is assigned before. -/
structure Disciplined (p : Procedure) : Prop where
  once : p.dests.Nodup
  params : ∀ t ∈ p.params, t ∉ p.dests
  slots : ∀ (i : Nat) (b : Block), p.blocks[i]? = some b → ∃ slots code,
    b.instructions = slots ++ code ∧ (∀ j ∈ slots, j.isAlloca = true) ∧
      (∀ j ∈ code, j.isAlloca = false) ∧ (i ≠ 0 → slots = [])
  reads : ∀ (before : List Block) (i : Nat) (b : Block), p.Way before i → p.blocks[i]? = some b →
    ∀ done j rest, b.instructions = done ++ j :: rest → j.reads ⊆ p.assigned before done
  ends : ∀ (before : List Block) (i : Nat) (b : Block), p.Way before i → p.blocks[i]? = some b →
    ∀ t, b.terminator = some t → t.reads ⊆ p.assigned before b.instructions

end Procedure

/-- Some instructions read only what is assigned before them or by those in front. -/
def Covered (known : Set Nat) : List Instruction → Prop
  | [] => True
  | i :: is => i.reads ⊆ known ∧ Covered (known ∪ {t | i.dest? = some t}) is

section covered

variable {known known' : Set Nat} {is js : List Instruction} {i : Instruction} {t : Nat}

theorem mem_destsOf : t ∈ destsOf is ↔ ∃ i ∈ is, i.dest? = some t :=
  List.mem_filterMap

theorem destsOf_append : destsOf (is ++ js) = destsOf is ++ destsOf js :=
  List.filterMap_append

theorem Covered.mono (h : Covered known is) (hk : known ⊆ known') : Covered known' is := by
  induction is generalizing known known' with
  | nil => trivial
  | cons i is ih => exact ⟨h.1.trans hk, ih h.2 (Set.union_subset_union_left _ hk)⟩

theorem covered_append : Covered known (is ++ js) ↔
    Covered known is ∧ Covered (known ∪ {t | t ∈ destsOf is}) js := by
  induction is generalizing known with
  | nil => simp [Covered, destsOf]
  | cons i is ih =>
      have hset : known ∪ {t | i.dest? = some t} ∪ {t | t ∈ destsOf is} =
          known ∪ {t | t ∈ destsOf (i :: is)} := by
        ext t
        simp only [Set.mem_union, Set.mem_ofPred_eq, mem_destsOf, List.mem_cons, exists_eq_or_imp,
          or_assoc]
      rw [List.cons_append, Covered, Covered, ih, hset, and_assoc]

theorem Covered.reads {done rest : List Instruction} (h : Covered known (done ++ i :: rest)) :
    i.reads ⊆ known ∪ {t | t ∈ destsOf done} :=
  (covered_append.1 h).2.1

end covered

namespace Procedure

/-- What is assigned at the start of a block: what is known of it, parameters and slots. -/
def atStart (p : Procedure) (known : Nat → Set Nat) (i : Nat) : Set Nat :=
  known i ∪ {t | t ∈ p.params ∨ t ∈ destsOf p.slots}

/-- What is assigned at the end of the code of a block. -/
def atEnd (p : Procedure) (known : Nat → Set Nat) (i : Nat) : Set Nat :=
  p.atStart known i ∪ {t | t ∈ destsOf (p.code i)}

/-- What is known of each block holds on all ways to it. -/
structure Certified (p : Procedure) (known : Nat → Set Nat) : Prop where
  entry : known 0 ⊆ {t | t ∈ p.params}
  params : ∀ t ∈ p.params, t < p.temps.size ∧ t ∉ p.dests
  dests : ∀ t ∈ p.dests, t < p.temps.size
  once : p.dests.Nodup
  slots : ∀ (i : Nat) (b : Block), p.blocks[i]? = some b → i ≠ 0 → b.slots = []
  code : ∀ (i : Nat) (b : Block), p.blocks[i]? = some b →
    (∀ j ∈ b.code, j.isAlloca = false) ∧ Covered (p.atStart known i) b.code
  ends : ∀ (i : Nat) (b : Block) (t : Terminator), p.blocks[i]? = some b → b.terminator = some t →
    t.reads ⊆ p.atEnd known i ∧
      ∀ target ∈ t.successors, target < p.blocks.size ∧ known target ⊆ p.atEnd known i

section ways

variable {p : Procedure} {known : Nat → Set Nat} {before : List Block} {i : Nat} {b : Block}

theorem code_of_getElem? (hb : p.blocks[i]? = some b) : p.code i = b.code := by
  rw [code, hb, Option.elim_some]

theorem slots_of_getElem? (hb : p.blocks[0]? = some b) : p.slots = b.slots := by
  rw [slots, hb, Option.elim_some]

/-- Unless a way is at its start, it went through the entry block. -/
theorem Way.entry_mem (h : p.Way before i) : before = [] ∧ i = 0 ∨
    ∃ b ∈ before, p.blocks[0]? = some b := by
  induction h with
  | entry => exact .inl ⟨rfl, rfl⟩
  | @step before i b t target _ hb _ _ ih =>
      rcases ih with ⟨rfl, rfl⟩ | ⟨c, hc, hget⟩
      · exact .inr ⟨b, List.mem_singleton_self b, hb⟩
      · exact .inr ⟨c, List.mem_append_left _ hc, hget⟩

/-- The slots are assigned as soon as a way is behind those of the entry block. -/
theorem Way.slots (h : p.Way before i) (hb : p.blocks[i]? = some b) :
    {t | t ∈ destsOf p.slots} ⊆ p.assigned before b.slots := by
  intro t ht
  rcases h.entry_mem with ⟨rfl, rfl⟩ | ⟨c, hc, hget⟩
  · rw [slots_of_getElem? hb] at ht
    exact .inr (.inr ht)
  · rw [slots_of_getElem? hget] at ht
    refine .inr (.inl ⟨c, hc, ?_⟩)
    rw [← c.slots_append_code, destsOf_append]
    exact List.mem_append_left _ ht

theorem assigned_mono {done done' : List Instruction} (h : destsOf done ⊆ destsOf done') :
    p.assigned before done ⊆ p.assigned before done' :=
  fun _ ht => ht.imp_right (Or.imp_right (@h _))

theorem destsOf_slots_subset (b : Block) (done : List Instruction) :
    destsOf b.slots ⊆ destsOf (b.slots ++ done) := by
  rw [destsOf_append]
  exact List.subset_append_left ..

theorem Way.atStart_subset (hway : p.Way before i) (hb : p.blocks[i]? = some b)
    (hknown : known i ⊆ p.assigned before []) :
    p.atStart known i ⊆ p.assigned before b.slots := by
  refine Set.union_subset (hknown.trans (assigned_mono (List.nil_subset _))) fun t ht => ?_
  exact ht.elim Or.inl fun hslot => hway.slots hb hslot

/-- What is known of a block is assigned on every way to its start. -/
theorem Certified.known_subset (h : p.Certified known) (hway : p.Way before i) :
    known i ⊆ p.assigned before [] := by
  induction hway with
  | entry => exact fun t ht => .inl (h.entry ht)
  | @step before i b t target hway hb ht htarget ih =>
      refine ((h.ends i b t hb ht).2 target htarget).2.trans fun u hu => ?_
      have hall : u ∈ p.params ∨ (∃ c ∈ before, u ∈ destsOf c.instructions) ∨
          u ∈ destsOf b.instructions := by
        rw [← b.slots_append_code]
        rcases hu with hu | hu
        · exact assigned_mono (destsOf_slots_subset b _) (hway.atStart_subset hb ih hu)
        · rw [Set.mem_ofPred_eq, code_of_getElem? hb] at hu
          refine .inr (.inr ?_)
          rw [destsOf_append]
          exact List.mem_append_right _ hu
      rcases hall with hu | ⟨c, hc, hu⟩ | hu
      · exact .inl hu
      · exact .inr (.inl ⟨c, List.mem_append_left _ hc, hu⟩)
      · exact .inr (.inl ⟨b, List.mem_append_right _ (List.mem_singleton_self b), hu⟩)

/-- The slots that a block starts with read nothing. -/
theorem reads_slots {j : Instruction} (hj : j ∈ b.slots) : j.reads = ∅ := by
  have halloca := List.mem_takeWhile_imp hj
  cases j with
  | alloca dest type => exact Set.eq_empty_of_forall_notMem fun t ht => List.not_mem_nil ht
  | _ => cases halloca

/-- A procedure with such sets for its blocks assigns before it reads. -/
theorem Certified.disciplined (h : p.Certified known) : p.Disciplined where
  once := h.once
  params t ht := (h.params t ht).2
  slots i b hb := ⟨b.slots, b.code, b.slots_append_code.symm, fun _ hj => List.mem_takeWhile_imp hj,
    (h.code i b hb).1, h.slots i b hb⟩
  reads before i b hway hb done j rest hsplit := by
    rw [← b.slots_append_code] at hsplit
    have hstart := hway.atStart_subset hb (h.known_subset hway)
    rcases List.append_eq_append_iff.1 hsplit with ⟨more, rfl, hcode⟩ | ⟨more, hslots, hrest⟩
    · -- The instruction stands in the code of the block.
      have hcovered := (h.code i b hb).2
      rw [hcode] at hcovered
      refine hcovered.reads.trans (Set.union_subset ?_ fun t ht => .inr (.inr ?_))
      · exact hstart.trans (assigned_mono (destsOf_slots_subset b more))
      · rw [destsOf_append]
        exact List.mem_append_right _ ht
    · cases more with
      | nil =>
          rw [List.append_nil] at hslots
          rw [List.nil_append] at hrest
          have hcovered := (h.code i b hb).2
          rw [← hrest] at hcovered
          rw [← hslots]
          exact hcovered.1.trans hstart
      | cons k more =>
          -- It is one of the slots.
          obtain ⟨rfl, _⟩ := List.cons.inj hrest
          have hj : j ∈ b.slots := by
            rw [hslots]
            exact List.mem_append_right _ (List.mem_cons_self ..)
          rw [reads_slots hj]
          exact Set.empty_subset _
  ends before i b hway hb t ht := by
    refine (h.ends i b t hb ht).1.trans ?_
    have hstart := hway.atStart_subset hb (h.known_subset hway)
    rw [← b.slots_append_code]
    refine Set.union_subset (hstart.trans (assigned_mono (destsOf_slots_subset b _))) fun u hu => ?_
    rw [Set.mem_ofPred_eq, code_of_getElem? hb] at hu
    refine .inr (.inr ?_)
    rw [destsOf_append]
    exact List.mem_append_right _ hu

end ways

end Procedure
end ObjectLang.IR
