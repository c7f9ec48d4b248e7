import Mathlib.Tactic
import ObjectLang.Proofs.Lowering.Allocators
import ObjectLang.Proofs.Simulation.Constructors

/-!
# Allocators make arrays

An allocator halts if the length is negative. Else it takes memory and sets the elements in a loop;
each pass leaves the elements before the counter as they are. The bytes of the array are counted
with 32 bits, so an array of more than `maxBytes` bytes does not fit into the memory that is taken
for it.
-/
namespace ObjectLang

open Machine IR

section runs

variable {m : Module} {q : Procedure} {K : List (Nat × Frame)} {component : ValueType}
  {returnType : Ty} {layout : ArrayLayout} {name : String} {n : Int32} {slot a elementSize : Nat}
  {bytes : Nat} {memory : Memory} {output : Array Int32} {i : Nat} {μ : Config}

/-- A procedure has the temporaries and the blocks of an allocator. -/
structure IsAllocator (layout : ArrayLayout) (elementSize : Nat) (q : Procedure) : Prop where
  temps : q.temps = (allocatorTemps layout).toArray
  blocks : q.blocks = (allocatorBlocks layout elementSize).toArray

theorem IsAllocator.block (h : IsAllocator layout elementSize q) (i : Nat) :
    q.blocks[i]? = (allocatorBlocks layout elementSize)[i]? := by
  rw [h.blocks, List.getElem?_toArray]

theorem IsAllocator.array (h : IsAllocator layout elementSize q) :
    q.typeOf? (.temp 5) = some layout.pointerType := by
  rw [Procedure.typeOf?, h.temps, List.getElem?_toArray]
  rfl

/-- Where a block of an allocator starts. -/
def allocatorEntry (layout : ArrayLayout) (elementSize i : Nat) : Point :=
  (i, (allocatorBlocks layout elementSize)[i]?.elim [] Block.instructions)

/-- The array `a` has its length, and all elements before the counter in `slot` hold the default;
what was in memory before is still there. -/
structure FilledTo (layout : ArrayLayout) (n : Int32) (slot a bytes : Nat) (memory : Memory)
    (output : Array Int32) (i : Nat) (μ : Config) : Prop where
  size : μ.temps.size = 13
  lengthTemp : μ.temps[0]? = some (some (.int n))
  arrayTemp : μ.temps[5]? = some (some (.pointer (some ⟨a, 0⟩)))
  slotTemp : μ.temps[7]? = some (some (.pointer (some ⟨slot, 0⟩)))
  output : μ.output = output
  count : memory.count ≤ μ.memory.count
  counterCovers : μ.memory.Covers ⟨slot, 0⟩
  counter : μ.memory.get? ⟨slot, 0⟩ = some (.int (Int32.ofNat i))
  arraySize : μ.memory.sizeAt? a = some bytes
  length : μ.memory.get? ⟨a, 0⟩ = some (.int n)
  elements : ∀ j < i, μ.memory.get? ⟨a, 4 + j * layout.element.size⟩ =
    some layout.element.initial
  elsewhere : ∀ b < memory.count, μ.memory.allocations[b]? = memory.allocations[b]?

namespace FilledTo

theorem set (h : FilledTo layout n slot a bytes memory output i μ) {dest : Nat} {v : Value}
    (h0 : 0 ≠ dest) (h5 : 5 ≠ dest) (h7 : 7 ≠ dest) :
    FilledTo layout n slot a bytes memory output i (μ.set dest v) :=
  ⟨(Config.size_temps_set).trans h.size, (Config.temps_set_of_ne h0).trans h.lengthTemp,
    (Config.temps_set_of_ne h5).trans h.arrayTemp, (Config.temps_set_of_ne h7).trans h.slotTemp,
    h.output, h.count, h.counterCovers, h.counter, h.arraySize, h.length, h.elements, h.elsewhere⟩

theorem covers (h : FilledTo layout n slot a bytes memory output i μ) {j : Nat}
    (hj : 4 + j * layout.element.size < bytes) :
    μ.memory.Covers ⟨a, 4 + j * layout.element.size⟩ :=
  ⟨_, h.arraySize, hj⟩

variable (hpos : 0 < layout.element.size) (hslot : memory.count ≤ slot) (ha : memory.count ≤ a)
include hpos

/-- The element at the counter is set. -/
theorem write_element (h : FilledTo layout n slot a bytes memory output i μ)
    (ha : memory.count ≤ a) (hne : slot ≠ a) :
    FilledTo layout n slot a bytes memory output i
      (μ.write ⟨a, 4 + i * layout.element.size⟩ layout.element.initial) := by
  refine ⟨h.size, h.lengthTemp, h.arrayTemp, h.slotTemp, h.output,
    h.count.trans_eq Memory.count_put.symm, Memory.covers_put.2 h.counterCovers, ?_,
    (Memory.sizeAt?_put).trans h.arraySize, ?_, fun j hj => ?_, fun b hb => ?_⟩
  · refine (Memory.get?_put_of_ne fun heq => ?_).trans h.counter
    injection heq with heq
    exact hne heq
  · refine (Memory.get?_put_of_ne fun heq => ?_).trans h.length
    injection heq with _ heq
    omega
  · refine (Memory.get?_put_of_ne fun heq => ?_).trans (h.elements j hj)
    injection heq with _ heq
    exact Nat.ne_of_lt hj (Nat.eq_of_mul_eq_mul_right hpos (Nat.add_left_cancel heq))
  · refine (Memory.allocations_put_of_ne ?_).trans (h.elsewhere b hb)
    exact Nat.ne_of_lt (Nat.lt_of_lt_of_le hb ha)

omit hpos in
/-- The counter goes on to the next element. -/
theorem write_counter (h : FilledTo layout n slot a bytes memory output i μ)
    (hslot : memory.count ≤ slot) (hne : slot ≠ a)
    (hi : μ.memory.get? ⟨a, 4 + i * layout.element.size⟩ = some layout.element.initial) :
    FilledTo layout n slot a bytes memory output (i + 1)
      (μ.write ⟨slot, 0⟩ (.int (Int32.ofNat (i + 1)))) := by
  have hother : ∀ offset, (μ.memory.put ⟨slot, 0⟩ (.int (Int32.ofNat (i + 1)))).get? ⟨a, offset⟩ =
      μ.memory.get? ⟨a, offset⟩ := by
    refine fun offset => Memory.get?_put_of_ne fun heq => ?_
    injection heq with heq
    exact hne heq.symm
  refine ⟨h.size, h.lengthTemp, h.arrayTemp, h.slotTemp, h.output,
    h.count.trans_eq Memory.count_put.symm, Memory.covers_put.2 h.counterCovers,
    Memory.get?_put_self h.counterCovers, (Memory.sizeAt?_put).trans h.arraySize,
    (hother 0).trans h.length, fun j hj => (hother _).trans ?_, fun b hb => ?_⟩
  · rcases Nat.lt_succ_iff_lt_or_eq.1 hj with hj | rfl
    · exact h.elements j hj
    · exact hi
  · refine (Memory.allocations_put_of_ne ?_).trans (h.elsewhere b hb)
    exact Nat.ne_of_lt (Nat.lt_of_lt_of_le hb hslot)

end FilledTo

theorem toInt_of_nonneg (hn : 0 ≤ n) : n.toInt = n.toNatClampNeg := by
  have := Int32.le_iff_toInt_le.1 hn
  exact (Int.toNat_of_nonneg this).symm

section loop

variable (hq : IsAllocator layout elementSize q)
  (hs : m.structs[layout.struct]? = some ⟨name, ArrayLayout.fields layout.element⟩)
  (hflat : layout.element.Flat) (hsmall : layout.element.size ≤ 8)
  (hpos : 0 < layout.element.size) (hn : 0 ≤ n) (hslot : memory.count ≤ slot)
  (ha : memory.count ≤ a) (hne : slot ≠ a)
include hq

/-- The condition of the loop says whether there is one more element. -/
theorem steps_condition (h : FilledTo layout n slot a bytes memory output i μ) (hn : 0 ≤ n)
    (hi : i ≤ n.toNatClampNeg) :
    ∃ μ', Steps m 3 (μ.state q K (allocatorEntry layout elementSize 3))
      (μ'.state q K
        (allocatorEntry layout elementSize (if i < n.toNatClampNeg then 4 else 5))) ∧
      FilledTo layout n slot a bytes memory output i μ' := by
  have hN := n.toNatClampNeg_lt
  have hint : (Int32.ofNat i).toInt = i := Int32.toInt_ofNat_of_lt (by omega)
  have hless : (Int32.ofNat i < n) ↔ i < n.toNatClampNeg := by
    rw [Int32.lt_iff_toInt_lt, hint, toInt_of_nonneg hn, Int.ofNat_lt]
  let μ₁ := μ.set 8 (.int (Int32.ofNat i))
  let μ₂ := μ₁.set 9 (.bool (decide (Int32.ofNat i < n)))
  have h₁ : FilledTo layout n slot a bytes memory output i μ₁ :=
    h.set (by decide) (by decide) (by decide)
  have h₂ : FilledTo layout n slot a bytes memory output i μ₂ :=
    h₁.set (by decide) (by decide) (by decide)
  have hload : step m (μ.state q K (allocatorEntry layout elementSize 3)) =
      .running (μ₁.state q K (3, [.binary 9 .slt (.temp 8) (.temp 0)])) :=
    step_load (Config.value?_temp h.slotTemp) h.counterCovers h.counter
  have hslt : step m (μ₁.state q K (3, [.binary 9 .slt (.temp 8) (.temp 0)])) =
      .running (μ₂.state q K (3, [])) :=
    step_binary (Config.value?_set_self (h.size ▸ by decide))
      (Config.value?_temp h₁.lengthTemp) .slt
  have hbranch : step m (μ₂.state q K (3, [])) = .running (μ₂.state q K
      (allocatorEntry layout elementSize (if i < n.toNatClampNeg then 4 else 5))) := by
    have hx : μ₂.value? (.temp 9) = some (.bool (decide (Int32.ofNat i < n))) :=
      Config.value?_set_self (h₁.size ▸ by decide)
    by_cases hi : i < n.toNatClampNeg
    · rw [if_pos hi]
      rw [decide_eq_true (hless.2 hi)] at hx
      exact step_branch (hq.block 3) rfl hx (hq.block 4)
    · rw [if_neg hi]
      rw [decide_eq_false (mt hless.1 hi)] at hx
      exact step_branch (hq.block 3) rfl hx (hq.block 5)
  exact ⟨μ₂, .head hload (.head hslt (.one hbranch)), h₂⟩

include hs hflat hsmall

/-- The address of the element at the counter is found. -/
theorem steps_address (h : FilledTo layout n slot a bytes memory output i μ)
    (hi : i < n.toNatClampNeg) (hlt : 4 + i * layout.element.size < UInt32.size) :
    ∃ μ' : Config, Steps m 2 (μ.state q K (allocatorEntry layout elementSize 4))
      (μ'.state q K (4, (allocatorEntry layout elementSize 4).2.drop 2)) ∧
      FilledTo layout n slot a bytes memory output i μ' ∧
      μ'.temps[10]? = some (some (.int (Int32.ofNat i))) ∧
      μ'.temps[11]? = some (some (.pointer (some ⟨a, 4 + i * layout.element.size⟩))) := by
  have hN := n.toNatClampNeg_lt
  have hint : (Int32.ofNat i).toInt = i := Int32.toInt_ofNat_of_lt (by omega)
  let μ₁ := μ.set 10 (.int (Int32.ofNat i))
  let μ₂ := μ₁.set 11 (.pointer (some ⟨a, 4 + i * layout.element.size⟩))
  have h₁ : FilledTo layout n slot a bytes memory output i μ₁ :=
    h.set (by decide) (by decide) (by decide)
  have h₂ : FilledTo layout n slot a bytes memory output i μ₂ :=
    h₁.set (by decide) (by decide) (by decide)
  have hload : step m (μ.state q K (allocatorEntry layout elementSize 4)) = .running
      (μ₁.state q K (4, (allocatorEntry layout elementSize 4).2.tail)) :=
    step_load (Config.value?_temp h.slotTemp) h.counterCovers h.counter
  have haddress : step m (μ₁.state q K (4, (allocatorEntry layout elementSize 4).2.tail)) =
      .running (μ₂.state q K (4, (allocatorEntry layout elementSize 4).2.drop 2)) := by
    have hoffset : ∀ f : Frame, f.temps = μ₁.temps →
        pointerOffset m f (0 : Nat) (.struct layout.struct) [.int 0, .int 1, .temp 10] =
          .ok ((4 + i * layout.element.size : Nat) : Int) := by
      intro f hf
      have hindex : μ₁.value? (.temp 10) = some (.int (Int32.ofNat i)) :=
        Config.value?_set_self (h.size ▸ by decide)
      have hword : layout.element.size < UInt32.size := hsmall.trans_lt (by decide)
      rw [pointerOffset_element hs (ArrayLayout.fields_flat hflat) rfl hflat hword
        (show 4 < 2147483648 by decide) (evalInt_eq hf hindex), hint]
      rfl
    exact step_elementPtr (a := ⟨a, 0⟩) (Config.value?_temp h₁.arrayTemp) hq.array
      (hoffset ⟨q, 4, (allocatorEntry layout elementSize 4).2.tail, μ₁.temps⟩ rfl) hlt
  exact ⟨μ₂, .head hload (.one haddress), h₂,
    (Config.temps_set_of_ne (by decide)).trans (Config.temps_set_self (h.size ▸ by decide)),
    Config.temps_set_self (h₁.size ▸ by decide)⟩

/-- An element that does not fit cannot be set. -/
theorem exists_outside (h : FilledTo layout n slot a bytes memory output i μ)
    (hi : i < n.toNatClampNeg) (hlt : 4 + i * layout.element.size < UInt32.size)
    (hle : bytes ≤ 4 + i * layout.element.size) :
    ∃ k s cause, Steps m k (μ.state q K (allocatorEntry layout elementSize 4)) s ∧
      step m s = .stopped s.world (.error (.access cause)) := by
  obtain ⟨μ', hsteps, h', _, haddress⟩ := steps_address hq hs hflat hsmall h hi hlt
  exact ⟨_, _, _, hsteps, step_store_outside (Config.value?_temp haddress)
    (value?_defaultValue _ _) h'.arraySize hle⟩

include hpos hslot ha hne

/-- The body of the loop sets one more element. -/
theorem steps_pass (h : FilledTo layout n slot a bytes memory output i μ)
    (hi : i < n.toNatClampNeg) (hlt : 4 + i * layout.element.size < UInt32.size)
    (hfits : 4 + i * layout.element.size < bytes) :
    ∃ μ', Steps m 6 (μ.state q K (allocatorEntry layout elementSize 4))
      (μ'.state q K (allocatorEntry layout elementSize 3)) ∧
      FilledTo layout n slot a bytes memory output (i + 1) μ' := by
  let place : Address := ⟨a, 4 + i * layout.element.size⟩
  obtain ⟨μ₂, hsteps, h₂, hcounter₂, hplace₂⟩ := steps_address hq hs hflat hsmall h hi hlt
  let μ₃ := μ₂.write place layout.element.initial
  let μ₄ := μ₃.set 12 (.int (Int32.ofNat i + 1))
  let μ₅ := μ₄.write ⟨slot, 0⟩ (.int (Int32.ofNat (i + 1)))
  have h₃ : FilledTo layout n slot a bytes memory output i μ₃ := h₂.write_element hpos ha hne
  have h₄ : FilledTo layout n slot a bytes memory output i μ₄ :=
    h₃.set (by decide) (by decide) (by decide)
  have hset : μ₄.memory.get? place = some layout.element.initial :=
    Memory.get?_put_self (h₂.covers hfits)
  have h₅ : FilledTo layout n slot a bytes memory output (i + 1) μ₅ :=
    h₄.write_counter hslot hne hset
  have hstore : step m (μ₂.state q K (4, (allocatorEntry layout elementSize 4).2.drop 2)) =
      .running (μ₃.state q K (4, (allocatorEntry layout elementSize 4).2.drop 3)) :=
    step_store (Config.value?_temp hplace₂) (value?_defaultValue _ _) (h₂.covers hfits)
  have hadd : step m (μ₃.state q K (4, (allocatorEntry layout elementSize 4).2.drop 3)) =
      .running (μ₄.state q K (4, (allocatorEntry layout elementSize 4).2.drop 4)) := by
    refine step_binary ?_ rfl .add
    rw [Config.value?_write]
    exact Config.value?_temp hcounter₂
  have hcounter : step m (μ₄.state q K (4, (allocatorEntry layout elementSize 4).2.drop 4)) =
      .running (μ₅.state q K (4, [])) := by
    refine step_store (Config.value?_temp h₄.slotTemp) ?_ h₄.counterCovers
    have hsum : Int32.ofNat (i + 1) = Int32.ofNat i + 1 := Int32.ofNat_add ..
    rw [hsum]
    exact Config.value?_set_self (h₃.size ▸ by decide)
  have hjump : step m (μ₅.state q K (4, [])) =
      .running (μ₅.state q K (allocatorEntry layout elementSize 3)) :=
    step_jump (hq.block 4) rfl (hq.block 3)
  exact ⟨μ₅, hsteps.trans (.head hstore (.head hadd (.head hcounter (.one hjump)))), h₅⟩

include hn

/-- The loop goes on to the condition for an element, if there is that many and all before it
fit. -/
theorem exists_filledTo {k : Nat} (hk : k ≤ n.toNatClampNeg) (hbytes : bytes ≤ maxBytes)
    (hfits : ∀ j < k, 4 + j * layout.element.size < bytes)
    (h : FilledTo layout n slot a bytes memory output i μ) (hi : i ≤ k) :
    ∃ steps μ', Steps m steps (μ.state q K (allocatorEntry layout elementSize 3))
      (μ'.state q K (allocatorEntry layout elementSize 3)) ∧
      FilledTo layout n slot a bytes memory output k μ' := by
  induction hd : k - i generalizing i μ with
  | zero =>
      obtain rfl : i = k := by omega
      exact ⟨0, μ, .refl _, h⟩
  | succ d ih =>
      have hlt : i < k := by omega
      have hmax : maxBytes < UInt32.size := by decide
      have hfit := hfits i hlt
      obtain ⟨μ₁, hsteps₁, h₁⟩ := steps_condition hq h hn (hi.trans hk)
      rw [if_pos (hlt.trans_le hk)] at hsteps₁
      obtain ⟨μ₂, hsteps₂, h₂⟩ := steps_pass hq hs hflat hsmall hpos hslot ha hne h₁
        (hlt.trans_le hk) (by omega) hfit
      obtain ⟨steps, μ₃, hsteps₃, h₃⟩ := ih h₂ (Nat.succ_le_of_lt hlt) (by omega)
      exact ⟨_, μ₃, hsteps₁.trans (hsteps₂.trans hsteps₃), h₃⟩

end loop

/-- How many bytes an allocator asks for, which is counted with 32 bits. -/
def arrayBytes (n : Int32) (elementSize : Nat) : Int32 :=
  n * Int32.ofNat elementSize + 4

theorem toInt_arrayBytes (hn : 0 ≤ n) (hsmall : elementSize ≤ 8) :
    (arrayBytes n elementSize).toInt =
      ((4 + n.toNatClampNeg * elementSize : Nat) : Int).bmod (2 ^ 32) := by
  have hmul : (n.toInt * (Int32.ofNat elementSize).toInt) =
      (n.toNatClampNeg * elementSize : Nat) := by
    rw [toInt_of_nonneg hn, Int32.toInt_ofNat_of_lt (by omega), Int.natCast_mul]
  rw [arrayBytes, Int32.toInt_add, Int32.toInt_mul, hmul, Int.bmod_add_bmod, Int.natCast_add,
    Int.add_comm]
  rfl

/-- The bytes of an array that is not too large are counted right. -/
theorem toInt_arrayBytes_of_le (hn : 0 ≤ n) (hsmall : elementSize ≤ 8)
    (hle : 4 + n.toNatClampNeg * elementSize ≤ maxBytes) :
    (arrayBytes n elementSize).toInt = (4 + n.toNatClampNeg * elementSize : Nat) := by
  have hmax : maxBytes = 2147483647 := rfl
  rw [toInt_arrayBytes hn hsmall, Int.bmod_eq_of_le] <;> omega

/-- The bytes of an array that is too large come out negative, or far too few. -/
theorem arrayBytes_of_lt (hn : 0 ≤ n) (hsmall : elementSize ≤ 8)
    (hlt : maxBytes < 4 + n.toNatClampNeg * elementSize) : arrayBytes n elementSize < 0 ∨
      0 ≤ arrayBytes n elementSize ∧ (arrayBytes n elementSize).toInt.toNat ≤ maxBytes ∧
        (arrayBytes n elementSize).toInt.toNat + 2 ^ 32 ≤ 4 + n.toNatClampNeg * elementSize := by
  have hmax : maxBytes = 2147483647 := rfl
  have hint := toInt_arrayBytes hn hsmall
  generalize 4 + n.toNatClampNeg * elementSize = bytes at hlt hint ⊢
  rw [Int32.lt_iff_toInt_lt, Int32.le_iff_toInt_le, hint, Int32.toInt_zero]
  simp only [Int.bmod]
  omega

/-- With far too few bytes there is a first element that does not fit, close behind the last that
does. -/
theorem exists_first_outside {count size bytes : Nat} (hpos : 0 < size) (hsmall : size ≤ 8)
    (hfew : bytes + 2 ^ 32 ≤ 4 + count * size) :
    ∃ i < count, (∀ j < i, 4 + j * size < bytes) ∧ bytes ≤ 4 + i * size ∧
      4 + i * size < bytes + 12 := by
  classical
  have hex : ∃ i, bytes ≤ 4 + i * size := ⟨count, by omega⟩
  have hfirst : ∀ j < Nat.find hex, 4 + j * size < bytes := fun j hj =>
    Nat.lt_of_not_le (Nat.find_min hex hj)
  have hnear : 4 + Nat.find hex * size < bytes + 12 := by
    cases hi : Nat.find hex with
    | zero => omega
    | succ i =>
        have := hfirst i (by omega)
        rw [Nat.succ_mul]
        omega
  refine ⟨Nat.find hex, ?_, hfirst, Nat.find_spec hex, hnear⟩
  exact Nat.lt_of_mul_lt_mul_right (a := size) (by omega)

section start

variable (hq : IsAllocator layout elementSize q) (hsize : μ.temps.size = 13)
  (hlength : μ.temps[0]? = some (some (.int n)))
include hq hsize hlength

/-- The slot of the counter is taken, and the length is looked at. -/
theorem steps_checkSize :
    ∃ μ' : Config, Steps m 3 (μ.state q K (allocatorEntry layout elementSize 0))
      (μ'.state q K (allocatorEntry layout elementSize (if n < 0 then 1 else 2))) ∧
      μ'.temps.size = 13 ∧ μ'.temps[0]? = some (some (.int n)) ∧
      μ'.temps[7]? = some (some (.pointer (some ⟨μ.memory.count, 0⟩))) ∧
      μ'.output = μ.output ∧ μ'.memory = (μ.memory.allocate 4).2 := by
  let μ₁ := μ.allocate 7 4
  let μ₂ := μ₁.set 1 (.bool (decide (n < 0)))
  have hsize₁ : μ₁.temps.size = 13 := (Config.size_temps_set).trans hsize
  have hlength₁ : μ₁.temps[0]? = some (some (.int n)) :=
    (Config.temps_set_of_ne (by decide)).trans hlength
  have hbytes : m.measure Profile.overflow.word .int = .ok 4 := rfl
  have halloca : step m (μ.state q K (allocatorEntry layout elementSize 0)) = .running
      (μ₁.state q K (0, [.binary 1 .slt (.temp 0) (.int 0)])) :=
    step_alloca hbytes
  have hslt : step m (μ₁.state q K (0, [.binary 1 .slt (.temp 0) (.int 0)])) =
      .running (μ₂.state q K (0, [])) :=
    step_binary (Config.value?_temp hlength₁) rfl .slt
  have hbranch : step m (μ₂.state q K (0, [])) = .running
      (μ₂.state q K (allocatorEntry layout elementSize (if n < 0 then 1 else 2))) := by
    have hx : μ₂.value? (.temp 1) = some (.bool (decide (n < 0))) :=
      Config.value?_set_self (hsize₁ ▸ by decide)
    by_cases hn : n < 0
    · rw [if_pos hn]
      rw [decide_eq_true hn] at hx
      exact step_branch (hq.block 0) rfl hx (hq.block 1)
    · rw [if_neg hn]
      rw [decide_eq_false hn] at hx
      exact step_branch (hq.block 0) rfl hx (hq.block 2)
  refine ⟨μ₂, .head halloca (.head hslt (.one hbranch)), (Config.size_temps_set).trans hsize₁,
    (Config.temps_set_of_ne (by decide)).trans hlength₁, ?_, rfl, rfl⟩
  exact (Config.temps_set_of_ne (by decide)).trans (Config.temps_set_self (hsize ▸ by decide))

variable (layout elementSize) in
omit hq in
/-- The size of the array is computed. -/
theorem steps_bytes :
    ∃ μ' : Config, Steps m 2 (μ.state q K (allocatorEntry layout elementSize 2))
      (μ'.state q K (2, (allocatorEntry layout elementSize 2).2.drop 2)) ∧
      μ'.temps.size = 13 ∧ μ'.temps[0]? = μ.temps[0]? ∧ μ'.temps[7]? = μ.temps[7]? ∧
      μ'.temps[3]? = some (some (.int (arrayBytes n elementSize))) ∧ μ'.output = μ.output ∧
      μ'.memory = μ.memory := by
  let μ₁ := μ.set 2 (.int (n * Int32.ofNat elementSize))
  let μ₂ := μ₁.set 3 (.int (arrayBytes n elementSize))
  have hsize₁ : μ₁.temps.size = 13 := (Config.size_temps_set).trans hsize
  have hmul : step m (μ.state q K (allocatorEntry layout elementSize 2)) =
      .running (μ₁.state q K (2, (allocatorEntry layout elementSize 2).2.drop 1)) :=
    step_binary (Config.value?_temp hlength) rfl .mul
  have hadd : step m (μ₁.state q K (2, (allocatorEntry layout elementSize 2).2.drop 1)) =
      .running (μ₂.state q K (2, (allocatorEntry layout elementSize 2).2.drop 2)) :=
    step_binary (Config.value?_set_self (hsize ▸ by decide)) rfl .add
  have hkept : ∀ id, id ≠ 2 → id ≠ 3 → μ₂.temps[id]? = μ.temps[id]? := fun id h2 h3 =>
    (Config.temps_set_of_ne h3).trans (Config.temps_set_of_ne h2)
  exact ⟨μ₂, .head hmul (.one hadd), (Config.size_temps_set).trans hsize₁,
    hkept 0 (by decide) (by decide), hkept 7 (by decide) (by decide),
    Config.temps_set_self (hsize₁ ▸ by decide), rfl, rfl⟩

variable (layout) in
omit hq in
/-- Memory for the array is taken. -/
theorem steps_takeArray (hbytes : 0 ≤ arrayBytes n elementSize) :
    ∃ μ' : Config, Steps m 4 (μ.state q K (allocatorEntry layout elementSize 2))
      (μ'.state q K (2, (allocatorEntry layout elementSize 2).2.drop 4)) ∧
      μ'.temps.size = 13 ∧ μ'.temps[0]? = μ.temps[0]? ∧ μ'.temps[7]? = μ.temps[7]? ∧
      μ'.temps[5]? = some (some (.pointer (some ⟨μ.memory.count, 0⟩))) ∧ μ'.output = μ.output ∧
      μ'.memory = (μ.memory.allocate (arrayBytes n elementSize).toInt.toNat).2 := by
  obtain ⟨μ₂, hsteps₂, hsize₂, hlength₂, hslot₂, hbytes₂, hout₂, hmemory₂⟩ :=
    steps_bytes (m := m) (q := q) (K := K) layout elementSize hsize hlength
  let μ₃ := μ₂.allocate 4 (arrayBytes n elementSize).toInt.toNat
  let μ₄ := μ₃.set 5 (.pointer (some ⟨μ₂.memory.count, 0⟩))
  have hsize₃ : μ₃.temps.size = 13 := (Config.size_temps_set).trans hsize₂
  have halloc : step m (μ₂.state q K (2, (allocatorEntry layout elementSize 2).2.drop 2)) =
      .running (μ₃.state q K (2, (allocatorEntry layout elementSize 2).2.drop 3)) :=
    step_alloc (Config.value?_temp hbytes₂) hbytes
  have hcast : step m (μ₃.state q K (2, (allocatorEntry layout elementSize 2).2.drop 3)) =
      .running (μ₄.state q K (2, (allocatorEntry layout elementSize 2).2.drop 4)) :=
    step_bitcast (Config.value?_set_self (hsize₂ ▸ by decide))
  have hkept : ∀ id, id ≠ 4 → id ≠ 5 → μ₄.temps[id]? = μ₂.temps[id]? := fun id h4 h5 =>
    (Config.temps_set_of_ne h5).trans (Config.temps_set_of_ne h4)
  refine ⟨μ₄, hsteps₂.trans (.head halloc (.one hcast)), (Config.size_temps_set).trans hsize₃,
    (hkept 0 (by decide) (by decide)).trans hlength₂,
    (hkept 7 (by decide) (by decide)).trans hslot₂, ?_, hout₂, ?_⟩ <;> rw [← hmemory₂]
  · exact Config.temps_set_self (hsize₃ ▸ by decide)
  · rfl

omit hsize hlength in
/-- The address of the length is that of the array. -/
theorem step_lengthAddress
    (hs : m.structs[layout.struct]? = some ⟨name, ArrayLayout.fields layout.element⟩)
    (hflat : layout.element.Flat)
    (harray : μ.temps[5]? = some (some (.pointer (some ⟨a, 0⟩)))) :
    step m (μ.state q K (2, (allocatorEntry layout elementSize 2).2.drop 4)) =
      .running ((μ.set 6 (.pointer (some ⟨a, 0⟩))).state q K
        (2, (allocatorEntry layout elementSize 2).2.drop 5)) := by
  have hword : 0 < UInt32.size := by decide
  exact step_elementPtr (a := ⟨a, 0⟩) (Config.value?_temp harray) hq.array
    (pointerOffset_field (k := 0) hs (ArrayLayout.fields_flat hflat) Nat.two_pos (by decide) hword)
    hword

/-- The length of the array and the counter are set. -/
theorem steps_setLength
    (hs : m.structs[layout.struct]? = some ⟨name, ArrayLayout.fields layout.element⟩)
    (hflat : layout.element.Flat)
    (harray : μ.temps[5]? = some (some (.pointer (some ⟨a, 0⟩))))
    (hslot : μ.temps[7]? = some (some (.pointer (some ⟨slot, 0⟩))))
    (hcovers : μ.memory.Covers ⟨a, 0⟩) (hcovers' : μ.memory.Covers ⟨slot, 0⟩) :
    ∃ μ' : Config, Steps m 4
      (μ.state q K (2, (allocatorEntry layout elementSize 2).2.drop 4))
      (μ'.state q K (allocatorEntry layout elementSize 3)) ∧
      μ'.temps.size = 13 ∧ μ'.temps[0]? = μ.temps[0]? ∧ μ'.temps[5]? = μ.temps[5]? ∧
      μ'.temps[7]? = μ.temps[7]? ∧ μ'.output = μ.output ∧
      μ'.memory = (μ.memory.put ⟨a, 0⟩ (.int n)).put ⟨slot, 0⟩ (.int 0) := by
  let μ₁ := μ.set 6 (.pointer (some ⟨a, 0⟩))
  let μ₂ := μ₁.write ⟨a, 0⟩ (.int n)
  let μ₃ := μ₂.write ⟨slot, 0⟩ (.int 0)
  have hkept : ∀ id, id ≠ 6 → μ₁.temps[id]? = μ.temps[id]? := fun id h6 =>
    Config.temps_set_of_ne h6
  have haddressStep := step_lengthAddress (K := K) hq hs hflat harray
  have hlengthStep : step m (μ₁.state q K (2,
      (allocatorEntry layout elementSize 2).2.drop 5)) =
      .running (μ₂.state q K (2, (allocatorEntry layout elementSize 2).2.drop 6)) :=
    step_store (Config.value?_set_self (hsize ▸ by decide))
      (Config.value?_temp ((hkept 0 (by decide)).trans hlength)) hcovers
  have hcounterStep : step m (μ₂.state q K (2,
      (allocatorEntry layout elementSize 2).2.drop 6)) = .running (μ₃.state q K (2, [])) :=
    step_store (Config.value?_temp ((hkept 7 (by decide)).trans hslot)) rfl
      (Memory.covers_put.2 hcovers')
  have hjumpStep : step m (μ₃.state q K (2, [])) =
      .running (μ₃.state q K (allocatorEntry layout elementSize 3)) :=
    step_jump (hq.block 2) rfl (hq.block 3)
  exact ⟨μ₃, .head haddressStep (.head hlengthStep (.head hcounterStep (.one hjumpStep))),
    (Config.size_temps_set).trans hsize, hkept 0 (by decide), hkept 5 (by decide),
    hkept 7 (by decide), rfl, rfl⟩

end start

/-- What the entry of the loop is: an array without elements that were set. -/
theorem filledTo_start (hsize : μ.temps.size = 13) (hlength : μ.temps[0]? = some (some (.int n)))
    (harray : μ.temps[5]? = some (some (.pointer (some ⟨memory.count + 1, 0⟩))))
    (hslot : μ.temps[7]? = some (some (.pointer (some ⟨memory.count, 0⟩))))
    (hmemory : μ.memory = (((memory.allocate 4).2.allocate bytes).2.put
      ⟨memory.count + 1, 0⟩ (.int n)).put ⟨memory.count, 0⟩ (.int 0)) (hbytes : 0 < bytes)
    (hout : μ.output = output) :
    FilledTo layout n memory.count (memory.count + 1) bytes memory output 0 μ := by
  have hcount : (memory.allocate 4).2.count = memory.count + 1 := Memory.count_allocate
  have hslotSize : ((memory.allocate 4).2.allocate bytes).2.sizeAt? memory.count = some 4 :=
    (Memory.sizeAt?_congr (Memory.allocations_allocate_of_lt (by omega))).trans
      Memory.sizeAt?_allocate
  have harraySize : ((memory.allocate 4).2.allocate bytes).2.sizeAt? (memory.count + 1) =
      some bytes := by
    rw [← hcount]
    exact Memory.sizeAt?_allocate
  refine ⟨hsize, hlength, harray, hslot, hout, ?_, ?_, ?_, ?_, ?_, nofun, fun b hb => ?_⟩ <;>
    rw [hmemory]
  · rw [Memory.count_put, Memory.count_put, Memory.count_allocate, hcount]
    omega
  · exact Memory.covers_put.2 (Memory.covers_put.2 ⟨4, hslotSize, Nat.succ_pos _⟩)
  · exact Memory.get?_put_self (Memory.covers_put.2 ⟨4, hslotSize, Nat.succ_pos _⟩)
  · rw [Memory.sizeAt?_put, Memory.sizeAt?_put, harraySize]
  · rw [Memory.get?_put_of_ne (by simp)]
    exact Memory.get?_put_self ⟨_, harraySize, hbytes⟩
  · rw [Memory.allocations_put_of_ne (Nat.ne_of_lt hb),
      Memory.allocations_put_of_ne (by simp only; omega),
      Memory.allocations_allocate_of_lt (by omega), Memory.allocations_allocate_of_lt hb]

section outcomes

variable (hq : IsAllocator layout elementSize q)
  (hs : m.structs[layout.struct]? = some ⟨name, ArrayLayout.fields layout.element⟩)
  (hsize : μ.temps.size = 13) (hlength : μ.temps[0]? = some (some (.int n)))
include hq hsize hlength

/-- An allocator halts if the length is negative. -/
theorem exists_halted (hn : n < 0) :
    ∃ μ' : Config, Steps m 3 (μ.state q K (allocatorEntry layout elementSize 0))
      (μ'.state q K (1, [])) ∧ μ'.output = μ.output ∧
        step m (μ'.state q K (1, [])) =
          .stopped ⟨μ'.memory, μ'.output⟩ (.error (.halt "Array Size must be positive")) := by
  obtain ⟨μ', hsteps, _, _, _, hout, _⟩ := steps_checkSize (m := m) (K := K) hq hsize hlength
  rw [if_pos hn] at hsteps
  exact ⟨μ', hsteps, hout, step_halt (hq.block 1) rfl⟩

variable (hn : 0 ≤ n)
include hs hn

/-- Memory for an array is taken and its length is set, if there is room for it. -/
theorem exists_started (hflat : layout.element.Flat) (hbytes : 0 ≤ arrayBytes n elementSize)
    (hpos : 0 < (arrayBytes n elementSize).toInt.toNat) :
    ∃ k μ', Steps m k (μ.state q K (allocatorEntry layout elementSize 0))
      (μ'.state q K (allocatorEntry layout elementSize 3)) ∧
      FilledTo layout n μ.memory.count (μ.memory.count + 1)
        (arrayBytes n elementSize).toInt.toNat μ.memory μ.output 0 μ' := by
  obtain ⟨μ₁, hsteps₁, hsize₁, hlength₁, hslot₁, hout₁, hmemory₁⟩ :=
    steps_checkSize (m := m) (K := K) hq hsize hlength
  rw [if_neg (Int32.not_lt.2 hn)] at hsteps₁
  have hcount : μ₁.memory.count = μ.memory.count + 1 := by
    rw [hmemory₁, Memory.count_allocate]
  obtain ⟨μ₂, hsteps₂, hsize₂, hlength₂, hslot₂, harray₂, hout₂, hmemory₂⟩ :=
    steps_takeArray (m := m) (q := q) (K := K) layout hsize₁ hlength₁ hbytes
  rw [hcount] at harray₂
  obtain ⟨μ₃, hsteps₃, hsize₃, hlength₃, harray₃, hslot₃, hout₃, hmemory₃⟩ :=
    steps_setLength (K := K) hq hsize₂ (hlength₂.trans hlength₁) hs hflat
      harray₂ (hslot₂.trans hslot₁)
      ⟨_, by rw [hmemory₂, ← hcount]; exact Memory.sizeAt?_allocate, hpos⟩
      ⟨4, by
        rw [hmemory₂, Memory.sizeAt?_congr (Memory.allocations_allocate_of_lt
          (hcount ▸ Nat.lt_succ_self _)), hmemory₁]
        exact Memory.sizeAt?_allocate, Nat.succ_pos _⟩
  refine ⟨_, μ₃, hsteps₁.trans (hsteps₂.trans hsteps₃), filledTo_start hsize₃
    (hlength₃.trans (hlength₂.trans hlength₁)) (harray₃.trans harray₂)
    (hslot₃.trans (hslot₂.trans hslot₁)) ?_ hpos (hout₃.trans (hout₂.trans hout₁))⟩
  rw [hmemory₃, hmemory₂, hmemory₁]

variable (hflat : layout.element.Flat) (hpos : 0 < layout.element.size)
  (hsmall : layout.element.size ≤ 8) (hsizes : elementSize = layout.element.size)
include hflat hpos hsmall hsizes

/-- An allocator makes an array that is not too large. -/
theorem exists_array (hle : 4 + n.toNatClampNeg * layout.element.size ≤ maxBytes) :
    ∃ k μ', Steps m k (μ.state q K (allocatorEntry layout elementSize 0))
      (μ'.state q K (5, [])) ∧
      FilledTo layout n μ.memory.count (μ.memory.count + 1)
        (4 + n.toNatClampNeg * layout.element.size) μ.memory μ.output n.toNatClampNeg μ' := by
  subst hsizes
  have hint := toInt_arrayBytes_of_le hn hsmall hle
  have hbytes : (arrayBytes n layout.element.size).toInt.toNat =
      4 + n.toNatClampNeg * layout.element.size := by
    rw [hint, Int.toNat_natCast]
  obtain ⟨k₁, μ₁, hsteps₁, h₁⟩ := exists_started (K := K) hq hs hsize hlength hn hflat
    (Int32.le_iff_toInt_le.2 (by rw [hint]; exact Int.natCast_nonneg _)) (by omega)
  rw [hbytes] at h₁
  have hfits : ∀ j < n.toNatClampNeg, 4 + j * layout.element.size <
      4 + n.toNatClampNeg * layout.element.size := fun j hj =>
    Nat.add_lt_add_left (Nat.mul_lt_mul_of_pos_right hj hpos) 4
  obtain ⟨k₂, μ₂, hsteps₂, h₂⟩ := exists_filledTo (K := K) hq hs hflat hsmall hpos hn le_rfl
    (Nat.le_succ _) (Nat.ne_of_lt (Nat.lt_succ_self _)) le_rfl hle hfits h₁ (Nat.zero_le _)
  obtain ⟨μ₃, hsteps₃, h₃⟩ := steps_condition (m := m) (K := K) hq h₂ hn le_rfl
  rw [if_neg (Nat.lt_irrefl _)] at hsteps₃
  exact ⟨_, μ₃, hsteps₁.trans (hsteps₂.trans hsteps₃), h₃⟩

/-- An allocator misuses memory if an array is too large: its bytes are counted with 32 bits, so
what it asks for is negative, or too little for the elements that it sets. -/
theorem exists_misuse (hlt : maxBytes < 4 + n.toNatClampNeg * layout.element.size) :
    ∃ k s cause, Steps m k (μ.state q K (allocatorEntry layout elementSize 0)) s ∧
      step m s = .stopped s.world (.error (.access cause)) := by
  subst hsizes
  have hmax : maxBytes = 2147483647 := rfl
  obtain ⟨μ₁, hsteps₁, hsize₁, hlength₁, hslot₁, hout₁, hmemory₁⟩ :=
    steps_checkSize (m := m) (K := K) hq hsize hlength
  rw [if_neg (Int32.not_lt.2 hn)] at hsteps₁
  rcases arrayBytes_of_lt hn hsmall hlt with hnegative | ⟨hbytes, hle, hfew⟩
  · obtain ⟨μ₂, hsteps₂, _, _, _, hbytes₂, _⟩ := steps_bytes (m := m) (q := q)
      (K := K) layout layout.element.size hsize₁ hlength₁
    exact ⟨_, _, _, hsteps₁.trans hsteps₂,
      step_alloc_negative (Config.value?_temp hbytes₂) hnegative⟩
  rcases Nat.eq_zero_or_pos (arrayBytes n layout.element.size).toInt.toNat with hzero | hroom
  · obtain ⟨μ₂, hsteps₂, hsize₂, hlength₂, _, harray₂, _, hmemory₂⟩ := steps_takeArray (m := m)
      (q := q) (K := K) layout hsize₁ hlength₁ hbytes
    rw [hzero] at hmemory₂
    refine ⟨_, _, _, (hsteps₁.trans hsteps₂).trans (.one (step_lengthAddress hq hs hflat harray₂)),
      step_store_outside (n := 0) (Config.value?_set_self (hsize₂ ▸ by decide))
        (Config.value?_temp ((Config.temps_set_of_ne (by decide)).trans (hlength₂.trans hlength₁)))
        ?_ le_rfl⟩
    rw [Config.memory_set, hmemory₂]
    exact Memory.sizeAt?_allocate
  · generalize hB : (arrayBytes n layout.element.size).toInt.toNat = bytes at hle hfew hroom
    obtain ⟨k₁, μ₁, hsteps₁, h₁⟩ := exists_started (K := K) hq hs hsize hlength hn hflat hbytes
      (hB ▸ hroom)
    rw [hB] at h₁
    obtain ⟨i, hi, hfits, hout, hnear⟩ := exists_first_outside hpos hsmall hfew
    obtain ⟨k₂, μ₂, hsteps₂, h₂⟩ := exists_filledTo (K := K) hq hs hflat hsmall hpos hn le_rfl
      (Nat.le_succ _) (Nat.ne_of_lt (Nat.lt_succ_self _)) hi.le hle hfits h₁ (Nat.zero_le _)
    obtain ⟨μ₃, hsteps₃, h₃⟩ := steps_condition (m := m) (K := K) hq h₂ hn hi.le
    rw [if_pos hi] at hsteps₃
    have hword : UInt32.size = 4294967296 := rfl
    obtain ⟨k₄, s, cause, hsteps₄, hstop⟩ := exists_outside (K := K) hq hs hflat hsmall h₃ hi
      (by omega) hout
    exact ⟨_, s, cause, hsteps₁.trans (hsteps₂.trans (hsteps₃.trans hsteps₄)), hstop⟩

end outcomes

end runs

section serving

variable {p : Program} {arrays : ArrayTypes} {structs : ClassStructs} {T : Target} {t : PlainType}
  {component : ValueType} {returnType : Ty} {layout : ArrayLayout} {name : String} {id : Nat}

/-- An allocator makes the arrays of its type, if these are not too large. -/
theorem serves_allocator (hr : Represents p arrays structs T t layout.element)
    (hs : T.module.structs[layout.struct]? = some ⟨name, ArrayLayout.fields layout.element⟩)
    (hproc : T.module.procedures[id]? =
      some (allocatorCode component returnType layout (T.module.sizeOf layout.element)))
    (bound : Nat) (θ : Census) (σ : Store) (n : Int32) :
    Serves T.module p bound id [.int n] θ σ (createArray t n σ) (.array t) := by
  have hsizeOf : T.module.sizeOf layout.element = layout.element.size := sizeOf_flat hr.flat
  obtain ⟨q, hqdef⟩ : ∃ q, q = allocatorCode component returnType layout
    (T.module.sizeOf layout.element) := ⟨_, rfl⟩
  have hq : IsAllocator layout (T.module.sizeOf layout.element) q := by
    rw [hqdef, allocatorCode_eq]
    exact ⟨rfl, rfl⟩
  have hparams : q.params = [0] := by
    rw [hqdef, allocatorCode_eq]
    rfl
  have htemps : q.temps.size = 13 := by
    rw [hq.temps]
    rfl
  rw [← hqdef] at hproc
  refine ⟨_, enter_eq hproc (by rw [hparams]; rfl) (hq.block 0),
    fun memory output K hheap hout => ?_⟩
  let μ : Config := ⟨memory, output,
    assignAll (Array.replicate q.temps.size none) (q.params.zip [.int n])⟩
  have hsize : μ.temps.size = 13 := by
    simp only [μ, size_assignAll, Array.size_replicate, htemps]
  have hlength : μ.temps[0]? = some (some (.int n)) := by
    refine getElem?_assignAll ?_ ?_ ?_ <;> simp [hparams, htemps]
  change Simulates T.module bound
    (μ.state q K (allocatorEntry layout (T.module.sizeOf layout.element) 0)) _ _
  rw [createArray]
  split_ifs with hn hle
  · obtain ⟨μ₁, hsteps, hout₁, hhalt⟩ :=
      exists_halted (m := T.module) (K := K) hq hsize hlength hn
    exact ⟨3, _, hsteps, hhalt, (congrArg Array.toList hout₁).trans hout⟩
  · have hn' : 0 ≤ n := Int32.not_lt.1 hn
    have hpos := hr.size_pos
    rw [← hr.size] at hle
    obtain ⟨k, μ₄, hsteps, h₄⟩ := exists_array (K := K) hq hs hsize hlength hn' hr.flat
      hpos (hr.size ▸ t.size_le) hsizeOf hle
    let e : Entity := .array t (List.replicate n.toNatClampNeg t.default)
    let θ' : Census := θ ++ [(e.kind, memory.count + 1)]
    refine ⟨_, _, hsteps, θ',
      ⟨⟨.pointer (some ⟨memory.count + 1, 0⟩), step_ret (hq.block 5) rfl
        (Config.value?_temp h₄.arrayTemp), ?_⟩, rfl, ?_, ?_⟩, List.prefix_append _ _,
        fun b hb => ?_,
      h₄.count, fun b hb _ => h₄.elsewhere b hb⟩
    · refine .array (n := n.toNatClampNeg) ?_
      simp [θ', e, Entity.kind, hheap.length_eq]
    · refine hheap.add (fun hm => ?_) (fun b hb => h₄.elsewhere b (hheap.lt_count hb))
        ⟨?_, ?_, ?_, fun j v hj => ?_⟩
      · exact Nat.not_succ_lt_self (hheap.lt_count hm)
      · rw [List.length_replicate, ← hr.size]
        exact h₄.arraySize
      · rwa [List.length_replicate, ← hr.size]
      · rw [List.length_replicate]
        rw [Int32.ofNat_toNatClampNeg n hn']
        exact h₄.length
      · rw [List.getElem?_replicate] at hj
        split_ifs at hj with hlt
        cases hj
        rw [← hr.size]
        exact ⟨_, h₄.elements j hlt, shows_initial hr⟩
    · exact (congrArg Array.toList h₄.output).trans hout
    · rw [Census.places, List.map_append, List.mem_append] at hb
      exact hb.imp_right fun hb => (List.mem_singleton.1 hb).ge.trans' (Nat.le_succ _)
  · have hn' : 0 ≤ n := Int32.not_lt.1 hn
    have hlarge : maxBytes < 4 + n.toNatClampNeg * layout.element.size := hr.size ▸ Nat.not_le.1 hle
    refine ⟨0, _, .refl _, ⟨⟨component, returnType, layout, n, hqdef, hlength, ?_⟩,
      exists_misuse (K := K) hq hs hsize hlength hn' hr.flat hr.size_pos (hr.size ▸ t.size_le)
        hsizeOf hlarge⟩, hout⟩
    rw [hsizeOf, toInt_of_nonneg hn']
    exact_mod_cast hlarge

end serving

end ObjectLang
