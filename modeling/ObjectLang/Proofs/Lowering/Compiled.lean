import Mathlib.Tactic
import ObjectLang.Proofs.IR.Verified
import ObjectLang.Proofs.Lowering.Programs

/-!
# Compiled code is well formed and well typed

Every procedure of a compiled program is a constructor, the code of a function or a method, or one
that makes arrays. The first and the last kind are told in full, so their types are read off; code
for a routine was well typed at every stage. So compiled code is well typed, and breaks none of the
rules that a module can be checked against. In the same way all of it assigns each temporary once,
and before it is read.
-/
namespace ObjectLang

open IR

theorem IR.Procedure.WellTyped.mono {m m' : Module} {q : Procedure} (h : q.WellTyped m)
    (hm : m.Grows m') : q.WellTyped m' :=
  ⟨h.entry, fun i b hb => ⟨(h.blocks i b hb).1,
    (h.blocks i b hb).2.mono Procedure.Within.rfl.grows hm⟩⟩

section

variable {p : Program} {body : Body} {routines : List (Routine × Signature)} {s : LowerState}
  {id : Nat} {q : Procedure}

/-- The code of a routine was well typed when it was finished, and still is. -/
theorem Routine.Coded.wellTyped {r : Routine} (h : r.Coded p body s id)
    (hq : s.target.module.procedures[id]? = some q) : q.WellTyped s.target.module := by
  obtain ⟨s₁, s₂, hmade, _, hgrows, _, hid⟩ := h
  obtain ⟨xs, hfinishes⟩ := hmade.finishes
  obtain rfl := Option.some.inj (hid.symm.trans hq)
  have hready := hfinishes.stage.builder
  exact IR.Procedure.WellTyped.mono ⟨hready.entry, fun i b hb =>
    ⟨hready.terminated hfinishes.closed hb, hready.fits i b hb⟩⟩ hgrows

/-- Every procedure of a compiled program is well typed. -/
theorem Program.Compiled.wellTyped (h : p.Compiled body routines s)
    (hq : q ∈ s.target.module.procedures) : q.WellTyped s.target.module := by
  obtain ⟨id, hid⟩ := Array.mem_iff_getElem?.1 hq
  cases h.hasProcedure hid with
  | constructor _ _ hs hfields =>
      refine constructorCode_wellTyped hs fun f hf => ?_
      obtain ⟨x, _, hr⟩ := exists_of_mem_right hfields hf
      exact passes_default hr
  | routine _ _ hcoded _ => exact hcoded.wellTyped hid
  | allocator _ hr hs => exact allocatorCode_wellTyped hs (passes_default hr)

/-- Every procedure of a compiled program assigns each temporary once, and before it reads it. -/
theorem Program.Compiled.disciplined (h : p.Compiled body routines s)
    (hq : q ∈ s.target.module.procedures) : q.Disciplined := by
  obtain ⟨id, hid⟩ := Array.mem_iff_getElem?.1 hq
  cases h.hasProcedure hid with
  | constructor => exact constructorCode_disciplined
  | routine _ _ hcoded _ =>
      obtain ⟨s₁, s₂, hmade, _, _, _, hcode⟩ := hcoded
      obtain rfl := Option.some.inj (hcode.symm.trans hid)
      exact hmade.disciplined
  | allocator => exact allocatorCode_disciplined

end

section

variable {source : String} {options : CompileOptions} {m : Module}

/-- Code that was compiled breaks no rule. -/
theorem compile_verifies (h : compile source options = .ok m) : m.verifies = true := by
  obtain ⟨p, body, routines, s, _, _, _, hcompiled, rfl⟩ := exists_of_compile h
  exact Module.verifies_iff.2 fun q hq => (hcompiled.wellTyped hq).verified

theorem compile_verifies_summing : ∃ m, compile summingText {} = .ok m ∧ m.verifies = true := by
  obtain ⟨m, hm⟩ := exists_compile_summing
  exact ⟨m, hm, compile_verifies hm⟩

/-- Code that was compiled is well typed: all instructions and terminators of its procedures have
operands and temporaries of the types that they need. -/
theorem compile_wellTyped (h : compile source options = .ok m) :
    ∀ q ∈ m.procedures, q.WellTyped m := by
  obtain ⟨p, body, routines, s, _, _, _, hcompiled, rfl⟩ := exists_of_compile h
  exact fun q hq => hcompiled.wellTyped hq

theorem compile_wellTyped_summing : ∃ m, compile summingText {} = .ok m ∧
    ∀ q ∈ m.procedures, q.WellTyped m := by
  obtain ⟨m, hm⟩ := exists_compile_summing
  exact ⟨m, hm, compile_wellTyped hm⟩

/-- In code that was compiled each temporary is assigned once, and it is a parameter or assigned
wherever control may come to read it. Slots are taken in the first block, before all else. -/
theorem compile_disciplined (h : compile source options = .ok m) :
    ∀ q ∈ m.procedures, q.Disciplined := by
  obtain ⟨p, body, routines, s, _, _, _, hcompiled, rfl⟩ := exists_of_compile h
  exact fun q hq => hcompiled.disciplined hq

theorem compile_disciplined_summing : ∃ m, compile summingText {} = .ok m ∧
    ∀ q ∈ m.procedures, q.Disciplined := by
  obtain ⟨m, hm⟩ := exists_compile_summing
  exact ⟨m, hm, compile_disciplined hm⟩

end

end ObjectLang
