import Mathlib.Tactic
import ObjectLang.IR.Verify
import ObjectLang.Proofs.IR.Types

/-!
# What verified code is

Code breaks no rule exactly if each of its procedures has a block, every block ends, control stays
within the procedure, operands are constants or temporaries that exist, and every call names a
procedure and has as many arguments as that has parameters. Well-typed code is of that kind.
-/
namespace ObjectLang.IR

/-- The operands of an instruction exist, and if it is a call, so does the procedure that it calls,
which takes that many arguments. -/
structure Instruction.Verified (m : Module) (p : Procedure) (i : Instruction) : Prop where
  operands : ∀ x ∈ i.operands, x.Fits p.temps.size
  call : ∀ dest callee args, i = .call dest callee args →
    ∃ q, m.procedures[callee]? = some q ∧ q.params.length = args.length

/-- The operand of a terminator exists, and so do the blocks that it leads to. -/
structure Terminator.Verified (p : Procedure) (t : Terminator) : Prop where
  operand : ∀ x, t.operand? = some x → x.Fits p.temps.size
  targets : ∀ target ∈ t.successors, target < p.blocks.size

structure Block.Verified (m : Module) (p : Procedure) (b : Block) : Prop where
  instructions : ∀ i ∈ b.instructions, i.Verified m p
  ends : ∃ t, b.terminator = some t ∧ t.Verified p

structure Procedure.Verified (m : Module) (p : Procedure) : Prop where
  entry : 0 < p.blocks.size
  blocks : ∀ b ∈ p.blocks, b.Verified m p

section checks

variable {m : Module} {p : Procedure}

theorem checkOperand_eq_nil {x : Operand} :
    checkOperand p x = [] ↔ x.Fits p.temps.size := by
  cases x <;> simp [checkOperand, Operand.Fits]

theorem checkCall_eq_nil {i : Instruction} : checkCall m p i = [] ↔
    ∀ dest callee args, i = .call dest callee args →
      ∃ q, m.procedures[callee]? = some q ∧ q.params.length = args.length := by
  cases i with
  | call dest callee args =>
      cases hq : m.procedures[callee]? with
      | none => simp [checkCall, hq]
      | some q => simp [checkCall, hq]
  | _ => simp [checkCall]

theorem checkInstruction_eq_nil {i : Instruction} :
    checkInstruction m p i = [] ↔ i.Verified m p := by
  rw [checkInstruction, List.append_eq_nil_iff, List.flatMap_eq_nil_iff, checkCall_eq_nil]
  simp only [checkOperand_eq_nil]
  exact ⟨fun h => ⟨h.1, h.2⟩, fun h => ⟨h.operands, h.call⟩⟩

theorem checkTarget_eq_nil {block target : Nat} :
    checkTarget p block target = [] ↔ target < p.blocks.size := by
  simp [checkTarget]

theorem checkBlock_eq_nil {id : Nat} {b : Block} :
    checkBlock m p id b = [] ↔ b.Verified m p := by
  rw [checkBlock, List.append_eq_nil_iff, List.flatMap_eq_nil_iff]
  simp only [checkInstruction_eq_nil]
  cases ht : b.terminator with
  | none =>
      refine ⟨fun h => (List.cons_ne_nil _ _ h.2).elim, fun h => ?_⟩
      obtain ⟨t, h, _⟩ := h.ends
      cases ht.symm.trans h
  | some t =>
      simp only [List.append_eq_nil_iff, List.flatMap_eq_nil_iff, checkOperand_eq_nil,
        checkTarget_eq_nil, Option.mem_toList]
      refine ⟨fun ⟨hi, hx, hs⟩ => ⟨hi, t, ht, ⟨hx, hs⟩⟩, fun h => ?_⟩
      obtain ⟨u, hu, hterminator⟩ := h.ends
      obtain rfl := Option.some.inj (ht.symm.trans hu)
      exact ⟨h.instructions, hterminator.operand, hterminator.targets⟩

theorem checkProcedure_eq_nil : checkProcedure m p = [] ↔ p.Verified m := by
  have hblocks : (p.blocks.toList.zipIdx.flatMap fun x => checkBlock m p x.2 x.1) = [] ↔
      ∀ b ∈ p.blocks, b.Verified m p := by
    simp only [List.flatMap_eq_nil_iff, Prod.forall, checkBlock_eq_nil]
    refine ⟨fun h b hb => ?_, fun h b id hb =>
      h b (Array.mem_toList_iff.1 (List.fst_mem_of_mem_zipIdx hb))⟩
    obtain ⟨id, hid⟩ := List.mem_iff_getElem?.1 (Array.mem_toList_iff.2 hb)
    exact h b id (List.mem_zipIdx_iff_getElem?.2 hid)
  rw [checkProcedure]
  split
  · next hempty =>
    simp only [List.cons_ne_nil, false_iff]
    intro h
    rw [Array.isEmpty_iff_size_eq_zero] at hempty
    exact Nat.ne_of_gt h.entry hempty
  · next hempty =>
    refine hblocks.trans ?_
    rw [Array.isEmpty_iff_size_eq_zero] at hempty
    exact ⟨fun h => ⟨Nat.pos_of_ne_zero hempty, h⟩, fun h => h.blocks⟩

/-- A module breaks no rule exactly if all its procedures are as they should be. -/
theorem Module.verifies_iff : m.verifies = true ↔ ∀ q ∈ m.procedures, q.Verified m := by
  rw [verifies, List.isEmpty_iff, violations, List.flatMap_eq_nil_iff]
  simp only [Array.mem_toList_iff, checkProcedure_eq_nil]

end checks

section typing

variable {m : Module} {p : Procedure}

theorem Procedure.Operates.fits {op : Operation} {x y : Operand} (h : p.Operates op x y) :
    x.Fits p.temps.size ∧ y.Fits p.temps.size := by
  cases op with
  | eq =>
      obtain ⟨t, u, ht, hu, _⟩ := h
      exact ⟨fits_of_typeOf? ht, fits_of_typeOf? hu⟩
  | _ => exact ⟨fits_of_typeOf? h.1, fits_of_typeOf? h.2⟩

theorem Procedure.Selects.fits {t type : Ty} {xs : List Operand} (h : p.Selects t xs type) :
    ∀ x ∈ xs, x.Fits p.temps.size := by
  induction h with
  | whole => exact nofun
  | element hx _ ih => exact List.forall_mem_cons.2 ⟨fits_of_typeOf? hx, ih⟩

theorem Instruction.Fits.verified {i : Instruction} (h : i.Fits m p) : i.Verified m p := by
  refine ⟨?_, fun dest callee args hcall => ?_⟩
  · cases h with
    | alloc hx | bitcast hx | load hx | print hx =>
        exact List.forall_mem_singleton.2 (fits_of_typeOf? hx)
    | alloca | comment => exact nofun
    | elementPtr hb _ hx _ hsel _ =>
        exact List.forall_mem_cons.2 ⟨fits_of_typeOf? hb, List.forall_mem_cons.2
          ⟨fits_of_typeOf? hx, List.forall_mem_cons.2 ⟨trivial, hsel.fits⟩⟩⟩
    | store hx hy =>
        exact List.forall_mem_cons.2 ⟨fits_of_typeOf? hx, List.forall_mem_singleton.2 hy.fits⟩
    | binary ho _ =>
        exact List.forall_mem_cons.2 ⟨ho.fits.1, List.forall_mem_singleton.2 ho.fits.2⟩
    | call _ hargs _ =>
        exact ((List.forall₂_and_left _ _).1 (hargs.imp fun _ _ h => ⟨h.fits, h⟩)).1
  · subst hcall
    cases h with
    | call hi hargs _ =>
        obtain ⟨q, hq, rfl⟩ := Option.map_eq_some_iff.1 hi
        refine ⟨q, hq, ?_⟩
        rw [hargs.length_eq]
        exact (List.length_map ..).symm

theorem Terminator.Fits.verified {t : Terminator} (h : t.Fits p) : t.Verified p := by
  cases h with
  | jump ht => exact ⟨nofun, by simpa [successors] using ht⟩
  | branch hx ht hf =>
      refine ⟨fun y hy => ?_, by simpa [successors] using ⟨ht, hf⟩⟩
      cases hy
      exact fits_of_typeOf? hx
  | ret hx =>
      refine ⟨fun y hy => ?_, nofun⟩
      cases hy
      exact hx.fits
  | halt => exact ⟨nofun, nofun⟩

/-- A procedure that is well typed is as it should be. -/
theorem Procedure.WellTyped.verified (h : p.WellTyped m) : p.Verified m := by
  refine ⟨h.entry, fun b hb => ?_⟩
  obtain ⟨i, hi⟩ := Array.mem_iff_getElem?.1 hb
  obtain ⟨hends, hfits⟩ := h.blocks i b hi
  obtain ⟨t, ht⟩ := Option.ne_none_iff_exists'.1 hends
  exact ⟨fun i hi => (hfits.instructions i hi).verified, t, ht, (hfits.terminator t ht).verified⟩

end typing

end ObjectLang.IR
