import Mathlib.Tactic
import ObjectLang.Proofs.Lowering.Compiled
import ObjectLang.Proofs.Simulation.Programs

/-!
# What calls of allocators end in

Whatever is in memory, a call of the procedure that makes arrays halts if the length is negative,
and returns a new array if that has at most `maxBytes` bytes. The bytes of a larger array do not fit
into a number of 32 bits, and the call misuses memory. Every call may also reach the limit.
-/
namespace ObjectLang

open Machine IR

section identity

variable {p : Program} {body : Body} {routines : List (Routine × Signature)} {s : LowerState}
  {component : ValueType} {returnType : Ty} {layout : ArrayLayout} {id elementSize : Nat}
  {q : Procedure}

/-- The code of a routine starts with a block of a name that no allocator starts with. -/
theorem Routine.Coded.entry {r : Routine} (h : r.Coded p body s id)
    (hq : s.target.module.procedures[id]? = some q) :
    ∃ b, q.blocks[0]? = some b ∧ b.name = "entry" := by
  obtain ⟨s₁, s₂, hmade, _, _, _, hid⟩ := h
  obtain ⟨q₁, types, returnType, hq₁, _, hstart⟩ := hmade.start
  obtain ⟨xs, hfinishes⟩ := hmade.finishes
  have hfirst : s₁.builder.procedure.blocks[0]? = some ⟨"entry", [], none⟩ := by
    rw [hstart]
    rw [Builder.blocks_start _ hq₁.blocks]
    rfl
  obtain ⟨b, hb, hwithin, _⟩ := hfinishes.leads.procedure.blocks 0 _ hfirst
  exact ⟨b, Option.some.inj (hid.symm.trans hq) ▸ hb, hwithin.name⟩

/-- The code of an allocator says which layout it is for. -/
theorem layout_of_allocatorCode {component' : ValueType} {returnType' : Ty}
    {layout' : ArrayLayout} {elementSize' : Nat}
    (h : allocatorCode component returnType layout elementSize =
      allocatorCode component' returnType' layout' elementSize') : layout = layout' := by
  rw [allocatorCode_eq, allocatorCode_eq] at h
  have htemps : allocatorTemps layout = allocatorTemps layout' :=
    Array.toList_inj.2 (congrArg Procedure.temps h)
  simp only [allocatorTemps, ArrayLayout.pointerType, List.cons.injEq, Temp.mk.injEq,
    Ty.pointer.injEq, Ty.struct.injEq, and_true, true_and] at htemps
  cases layout
  cases layout'
  exact congrArg₂ ArrayLayout.mk htemps.1 htemps.2

/-- A procedure with the code of an allocator was asked for. -/
theorem Program.Compiled.exists_of_allocatorCode (h : p.Compiled body routines s)
    (hid : s.target.module.procedures[id]? =
      some (allocatorCode component returnType layout elementSize)) :
    ∃ x ∈ s.allocators, x.2 = id := by
  obtain ⟨q, hcode⟩ : ∃ q, q = allocatorCode component returnType layout elementSize := ⟨_, rfl⟩
  rw [← hcode] at hid
  cases h.hasProcedure hid with
  | constructor =>
      rw [allocatorCode_eq] at hcode
      exact absurd (congrArg Procedure.params hcode) (by simp [constructorCode, allocatorBuilder])
  | routine _ _ hcoded _ =>
      obtain ⟨b, hb, hentry⟩ := hcoded.entry hid
      rw [hcode, allocatorCode_eq] at hb
      obtain rfl := Option.some.inj ((List.getElem?_toArray ..).symm.trans hb)
      exact absurd hentry (by decide)
  | allocator hx => exact ⟨_, hx, rfl⟩

/-- A procedure with the code of an allocator is one. -/
theorem Program.Compiled.allocator (h : p.Compiled body routines s)
    (hid : s.target.module.procedures[id]? =
      some (allocatorCode component returnType layout elementSize)) :
    ∃ t name, Represents p body.analysis.arrays body.layouts.structs s.target t layout.element ∧
      s.target.module.structs[layout.struct]? = some ⟨name, ArrayLayout.fields layout.element⟩ ∧
      IsAllocator layout layout.element.size
        (allocatorCode component returnType layout elementSize) := by
  obtain ⟨x, hx, rfl⟩ := h.exists_of_allocatorCode hid
  obtain ⟨t, _, name, _, _, hr, hs, hcode⟩ := h.done.makes x hx List.not_mem_nil
  have hcode := Option.some.inj (hcode.symm.trans hid)
  obtain rfl := layout_of_allocatorCode hcode
  refine ⟨t, name, hr, hs, ?_⟩
  rw [← hcode, allocatorCode_eq, sizeOf_flat hr.flat]
  exact ⟨rfl, rfl⟩

end identity

section outcomes

/-- An operand of a frame is the reference to an array. -/
structure Machine.Frame.Refers (f : Frame) (layout : ArrayLayout) (base : Operand) (a : Address) :
    Prop where
  type : f.procedure.typeOf? base = some layout.pointerType
  value : f.evalPointer base = .ok (some a)

/-- An array is new in memory: its length and its elements can be read where the code looks for
them, the elements all with the default of their type, and what was there before is unchanged. -/
structure NewArray (m : Module) (layout : ArrayLayout) (n : Int32) (before after : Memory)
    (a : Address) : Prop where
  fresh : before.count ≤ a.allocation
  unchanged : ∀ b < before.count, after.allocations[b]? = before.allocations[b]?
  length : ∀ (f : Frame) (base : Operand), f.Refers layout base a →
    ∃ x, elementAddress m f base [.int 0, .int 0] = .ok x ∧ after.load (some x) = .ok (.int n)
  elements : ∀ (f : Frame) (base index : Operand) (i : Int32), f.Refers layout base a →
    f.evalInt index = .ok i → 0 ≤ i → i < n →
      ∃ x, elementAddress m f base [.int 0, .int 1, index] = .ok x ∧
        after.load (some x) = .ok layout.element.initial

/-- What a call for an array of a length ends in, if the limit is not reached. -/
inductive ArrayOutcome (m : Module) (layout : ArrayLayout) (n : Int32) (before after : Memory) :
    Except Fault Value → Prop
  | negative : n < 0 →
      ArrayOutcome m layout n before after (.error (.halt "Array Size must be positive"))
  | made {a : Address} : 0 ≤ n → 4 + n.toNatClampNeg * m.sizeOf layout.element ≤ maxBytes →
      NewArray m layout n before after a →
        ArrayOutcome m layout n before after (.ok (.pointer (some a)))
  | misused {cause : AccessFault} : 0 ≤ n →
      maxBytes < 4 + n.toNatClampNeg * m.sizeOf layout.element →
        ArrayOutcome m layout n before after (.error (.access cause))

variable {m : Module} {layout : ArrayLayout} {name : String} {n : Int32} {μ : Config}
  {memory : Memory} {output : Array Int32} {slot a : Nat}

/-- An offset of a reference is an address. -/
theorem elementAddress_of_refers {f : Frame} {base : Operand} {indices : List Operand}
    {offset : Nat} (h : f.Refers layout base ⟨a, 0⟩)
    (hoffset : pointerOffset m f (0 : Nat) (.struct layout.struct) indices = .ok (offset : Int))
    (hlt : offset < UInt32.size) : elementAddress m f base indices = .ok ⟨a, offset⟩ := by
  have hrange : 0 ≤ (offset : Int) ∧ (offset : Int) < UInt32.size := by omega
  rw [elementAddress, h.value]
  simp only [bind, Except.bind, h.type, ArrayLayout.pointerType, Ty.target?, hoffset,
    if_pos hrange, Int.toNat_natCast]
  rfl

/-- An array whose elements all were set is new. -/
theorem FilledTo.newArray
    (h : FilledTo layout n slot a (4 + n.toNatClampNeg * layout.element.size) memory output
      n.toNatClampNeg μ)
    (hs : m.structs[layout.struct]? = some ⟨name, ArrayLayout.fields layout.element⟩)
    (hflat : layout.element.Flat) (hpos : 0 < layout.element.size)
    (hsmall : layout.element.size ≤ 8)
    (hle : 4 + n.toNatClampNeg * layout.element.size ≤ maxBytes) (ha : memory.count ≤ a) :
    NewArray m layout n memory μ.memory ⟨a, 0⟩ := by
  have hword : maxBytes < UInt32.size := by decide
  have hzero : 0 < UInt32.size := by decide
  refine ⟨ha, h.elsewhere, fun f base hf => ?_, fun f base index i hf hindex hi hlt => ?_⟩
  · refine ⟨⟨a, 0⟩, elementAddress_of_refers hf (pointerOffset_field (k := 0) hs
      (ArrayLayout.fields_flat hflat) Nat.two_pos (by decide) hzero) hzero, ?_⟩
    exact Memory.Covers.load ⟨_, h.arraySize, Nat.add_pos_left (by decide) _⟩ h.length
  · have hint := toInt_of_nonneg hi
    have hbound : i.toNatClampNeg < n.toNatClampNeg := by
      have := Int32.lt_iff_toInt_lt.1 hlt
      rw [hint] at this
      exact (Int.lt_toNat).2 this
    have hfits : 4 + i.toNatClampNeg * layout.element.size <
        4 + n.toNatClampNeg * layout.element.size :=
      Nat.add_lt_add_left (Nat.mul_lt_mul_of_pos_right hbound hpos) 4
    refine ⟨⟨a, 4 + i.toNatClampNeg * layout.element.size⟩,
      elementAddress_of_refers hf ?_ (by omega), (h.covers hfits).load (h.elements _ hbound)⟩
    rw [pointerOffset_element hs (ArrayLayout.fields_flat hflat) rfl hflat
      (hsmall.trans_lt (by decide)) (show 4 < 2147483648 by decide) hindex, hint]
    rfl

end outcomes

section calls

variable {source : String} {options : CompileOptions} {m : Module} {component : ValueType}
  {returnType : Ty} {layout : ArrayLayout} {id elementSize : Nat}

/-- A run that stops after some steps is cut short or ends so. -/
theorem run_result {s s' : State} {w : World} {result : Except Fault Value} {k : Nat}
    (hsteps : Steps m k s s') (hstop : step m s' = .stopped w result) (limit budget : Nat) :
    (s.run m limit budget).result = .error (.stepLimit limit) ∨
      (s.run m limit budget).world = w ∧ (s.run m limit budget).result = result := by
  by_cases hk : k < budget
  · exact .inr (hsteps.stopped hstop hk)
  · exact .inl (hsteps.cutShort (Nat.le_of_not_lt hk)).1

/-- Whatever happened before, a call of a procedure that makes arrays reaches the limit or ends as
its length says. -/
theorem compile_makesArrays (h : compile source options = .ok m)
    (hid : m.procedures[id]? = some (allocatorCode component returnType layout elementSize))
    (s : Session) (n : Int32) :
    (s.call m id [.int n]).2 = .error (.stepLimit s.limit) ∨
      ArrayOutcome m layout n s.world.memory (s.call m id [.int n]).1.world.memory
        (s.call m id [.int n]).2 := by
  obtain ⟨p, body, routines, state, _, _, _, hcompiled, rfl⟩ := exists_of_compile h
  obtain ⟨t, name, hr, hs, hq⟩ := hcompiled.allocator hid
  have hparams : (allocatorCode component returnType layout elementSize).params = [0] := by
    rw [allocatorCode_eq]
    rfl
  generalize allocatorCode component returnType layout elementSize = q at hid hq hparams
  have hsizes := sizeOf_flat (m := state.target.module) hr.flat
  have hsmall : layout.element.size ≤ 8 := hr.size ▸ t.size_le
  have henter : enter state.target.module id [.int n] = _ :=
    enter_eq hid (by rw [hparams]; rfl) (hq.block 0)
  let μ : Config := ⟨s.world.memory, s.world.output,
    assignAll (Array.replicate q.temps.size none) (q.params.zip [.int n])⟩
  have hsize : μ.temps.size = 13 := by
    simp only [μ, size_assignAll, Array.size_replicate, hq.temps]
    rfl
  have hlength : μ.temps[0]? = some (some (.int n)) := by
    refine getElem?_assignAll ?_ ?_ ?_ <;> simp [hparams, hq.temps, allocatorTemps]
  have hcall : s.call state.target.module id [.int n] =
      let outcome := State.run state.target.module s.limit s.budget
        (μ.state q [] (allocatorEntry layout layout.element.size 0))
      ({ s with world := outcome.world, budget := outcome.budget }, outcome.result) := by
    rw [Session.call, henter]
    rfl
  rw [hcall]
  by_cases hn : n < 0
  · obtain ⟨μ', hsteps, _, hstop⟩ := exists_halted (m := state.target.module) (K := []) hq
      hsize hlength hn
    refine (run_result hsteps hstop s.limit s.budget).imp_right fun hend => ?_
    simp only [hend.2]
    exact .negative hn
  have hn : 0 ≤ n := Int32.not_lt.1 hn
  by_cases hle : 4 + n.toNatClampNeg * layout.element.size ≤ maxBytes
  · obtain ⟨k, μ', hsteps, hfilled⟩ := exists_array (K := []) hq hs hsize hlength hn hr.flat
      hr.size_pos hsmall rfl hle
    have hstop : step state.target.module (μ'.state q [] _) = _ :=
      step_ret (hq.block 5) rfl (Config.value?_temp hfilled.arrayTemp)
    refine (run_result hsteps hstop s.limit s.budget).imp_right fun hend => ?_
    simp only [hend.2, hend.1]
    exact .made hn (by rwa [hsizes])
      (hfilled.newArray hs hr.flat hr.size_pos hsmall hle (Nat.le_succ _))
  · obtain ⟨k, s', cause, hsteps, hstop⟩ := exists_misuse (K := []) hq hs hsize hlength hn
      hr.flat hr.size_pos hsmall rfl (Nat.lt_of_not_le hle)
    refine (run_result hsteps hstop s.limit s.budget).imp_right fun hend => ?_
    simp only [hend.2]
    exact .misused hn (by rw [hsizes]; omega)

/-- A program with an array of two numbers. -/
def pairText : String :=
  "int main() { int[] a; a = new int[2]; return 0; }"

theorem compile_makesArrays_numbers : ∃ m, ∃ layout : ArrayLayout,
    compile pairText {} = .ok m ∧
      m.procedures[1]? = some (allocatorCode .int layout.pointerType layout 4) ∧
      (((Session.start 100).call m 1 [.int 2]).2 = .error (.stepLimit 100) ∨
        ArrayOutcome m layout 2 {} ((Session.start 100).call m 1 [.int 2]).1.world.memory
          ((Session.start 100).call m 1 [.int 2]).2) := by
  let layout : ArrayLayout := ⟨0, .int⟩
  obtain ⟨m, hm, hread⟩ := exists_ok_of_any (r := compile pairText {}) (f := fun m =>
    decide (m.procedures[1]? = some (allocatorCode .int layout.pointerType layout 4)))
    (by decide +kernel)
  have hid := of_decide_eq_true hread
  exact ⟨m, layout, hm, hid, compile_makesArrays hm hid (Session.start 100) 2⟩

/-- For `2 ^ 29` numbers, the procedure asks for less than no memory. -/
theorem call_allocator_negativeSize : ∃ m, ∃ layout : ArrayLayout,
    compile pairText {} = .ok m ∧
      m.procedures[1]? = some (allocatorCode .int layout.pointerType layout 4) ∧
      ((Session.start 10).call m 1 [.int 536870912]).2 =
        .error (.access (.negativeSize (-2147483644))) := by
  let layout : ArrayLayout := ⟨0, .int⟩
  obtain ⟨m, hm, hread⟩ := exists_ok_of_any (r := compile pairText {}) (f := fun m =>
    decide (m.procedures[1]? = some (allocatorCode .int layout.pointerType layout 4) ∧
      ((Session.start 10).call m 1 [.int 536870912]).2 =
        .error (.access (.negativeSize (-2147483644))))) (by decide +kernel)
  obtain ⟨hid, hresult⟩ := of_decide_eq_true hread
  exact ⟨m, layout, hm, hid, hresult⟩

end calls

end ObjectLang
