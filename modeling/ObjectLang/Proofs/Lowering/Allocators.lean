import Mathlib.Tactic
import ObjectLang.Proofs.IR.Supplies
import ObjectLang.Proofs.IR.Types
import ObjectLang.Proofs.Lowering.Procedures

/-!
# The code of allocators

The procedure that makes arrays: it halts if the length is negative, takes memory, and sets the
length. Then a loop stores the default in one element after the other; its counter is kept in a
slot.
-/
namespace ObjectLang

open IR

section code

variable (component : ValueType) (returnType : Ty) (layout : ArrayLayout) (elementSize : Nat)

/-- The blocks of an allocator. -/
def allocatorBlocks : List Block :=
  [⟨"init", [.alloca 7 .int, .binary 1 .slt (.temp 0) (.int 0)], some (.branch (.temp 1) 1 2)⟩,
    ⟨"negative_size", [], some (.halt "Array Size must be positive")⟩,
    ⟨"good_size",
      [.binary 2 .mul (.temp 0) (.int (Int32.ofNat elementSize)),
        .binary 3 .add (.temp 2) (.int 4),
        .alloc 4 (.temp 3),
        .bitcast 5 (.temp 4),
        .elementPtr 6 (.temp 5) [.int 0, .int 0],
        .store (.temp 6) (.temp 0),
        .store (.temp 7) (.int 0)],
      some (.jump 3)⟩,
    ⟨"loop_cond", [.load 8 (.temp 7), .binary 9 .slt (.temp 8) (.temp 0)],
      some (.branch (.temp 9) 4 5)⟩,
    ⟨"loop_body",
      [.load 10 (.temp 7),
        .elementPtr 11 (.temp 5) [.int 0, .int 1, .temp 10],
        .store (.temp 11) layout.element.defaultValue,
        .binary 12 .add (.temp 10) (.int 1),
        .store (.temp 7) (.temp 12)],
      some (.jump 3)⟩,
    ⟨"done", [], some (.ret (.temp 5))⟩]

/-- The temporaries of an allocator. -/
def allocatorTemps : List Temp :=
  [⟨.int, some "size"⟩, ⟨.bool, none⟩, ⟨.int, none⟩, ⟨.int, none⟩, ⟨.pointer .byte, none⟩,
    ⟨layout.pointerType, none⟩, ⟨.pointer .int, none⟩, ⟨.pointer .int, none⟩, ⟨.int, none⟩,
    ⟨.bool, none⟩, ⟨.int, none⟩, ⟨.pointer layout.element, none⟩, ⟨.int, none⟩]

/-- An allocator as far as it has been built. -/
def allocatorBuilder (temps : List Temp) (blocks : List Block) (current : Option Nat)
    (moves : Array Move) : Builder :=
  ⟨{ name := allocatorName component
     returnType
     params := [0]
     temps := temps.toArray
     blocks := blocks.toArray }, current, moves⟩

section steps

variable {component returnType} {temps : List Temp} {blocks : List Block} {c : Nat}
  {current : Option Nat} {moves : Array Move}

theorem allocatorBuilder_emit {i : Instruction} :
    (allocatorBuilder component returnType temps blocks (some c) moves).emit i =
      allocatorBuilder component returnType temps (blocks.modify c (·.push i)) (some c)
        (moves.push (.emit i)) := by
  simp [allocatorBuilder, Builder.emit, Builder.record, Procedure.modifyBlock]

theorem allocatorBuilder_define {type : Ty} {f : Nat → Instruction} :
    (allocatorBuilder component returnType temps blocks (some c) moves).define type f =
      (.temp temps.length, allocatorBuilder component returnType (temps ++ [⟨type, none⟩])
        (blocks.modify c (·.push (f temps.length))) (some c)
        ((moves.push (.temp type)).push (.emit (f temps.length)))) := by
  simp [allocatorBuilder, Builder.define, Builder.newTemp, Procedure.newTemp, Builder.emit,
    Builder.record, Procedure.modifyBlock]

theorem allocatorBuilder_terminate {t : Terminator} :
    (allocatorBuilder component returnType temps blocks (some c) moves).terminate t =
      allocatorBuilder component returnType temps
        (blocks.modify c fun b => { b with terminator := some t }) none
        (moves.push (.terminate t)) := by
  simp [allocatorBuilder, Builder.terminate, Builder.record, Procedure.modifyBlock]

theorem allocatorBuilder_newBlock {name : String} :
    (allocatorBuilder component returnType temps blocks current moves).newBlock name =
      (blocks.length, allocatorBuilder component returnType temps (blocks ++ [⟨name, [], none⟩])
        current (moves.push (.block name))) := by
  simp [allocatorBuilder, Builder.newBlock, Builder.record, Procedure.newBlock]

theorem allocatorBuilder_switchTo {block : Nat} :
    (allocatorBuilder component returnType temps blocks current moves).switchTo block =
      allocatorBuilder component returnType temps blocks (some block)
        (moves.push (.switchTo block)) :=
  rfl

theorem allocatorBuilder_slot {type : Ty} :
    (allocatorBuilder component returnType temps blocks current moves).slot type =
      (temps.length, allocatorBuilder component returnType (temps ++ [⟨.pointer type, none⟩])
        (blocks.modify 0 (·.pushSlot (.alloca temps.length type))) current
        (moves.push (.slot type))) := by
  simp [allocatorBuilder, Builder.slot, Builder.record, Procedure.slot, Procedure.newTemp,
    Procedure.modifyBlock]

theorem allocatorBuilder_typeOf {id : Nat} :
    (allocatorBuilder component returnType temps blocks current moves).typeOf (.temp id) =
      ((temps[id]?.map Temp.type).getD .void) := by
  simp [allocatorBuilder, Builder.typeOf, Procedure.typeOf?]

/-- The procedure does not depend on the record. -/
theorem procedure_allocatorBuilder :
    (allocatorBuilder component returnType temps blocks current moves).procedure =
      (allocatorBuilder component returnType temps blocks none #[]).procedure :=
  rfl

end steps

theorem allocatorCode_eq : allocatorCode component returnType layout elementSize =
    (allocatorBuilder component returnType (allocatorTemps layout)
      (allocatorBlocks layout elementSize) none #[]).procedure := by
  have hstart : Builder.start (allocatorSkeleton component returnType) "init" =
      allocatorBuilder component returnType [⟨.int, some "size"⟩] [⟨"init", [], none⟩] (some 0)
        #[.block "init", .switchTo 0] :=
    rfl
  rw [allocatorCode, hstart]
  simp only [buildAllocator, Builder.binary, Builder.load, Builder.store, Builder.elementPtr,
    Builder.bitcast, Builder.alloc, Builder.jump, Builder.branch, Builder.ret, Builder.halt,
    allocatorBuilder_emit, allocatorBuilder_define, allocatorBuilder_terminate,
    allocatorBuilder_newBlock, allocatorBuilder_switchTo, allocatorBuilder_slot,
    allocatorBuilder_typeOf, List.length_append, List.length_cons, List.length_nil]
  rw [procedure_allocatorBuilder]
  rfl

end code

section typing

variable {m : Module} {component : ValueType} {layout : ArrayLayout} {elementSize : Nat}
  {name : String}

/-- The blocks of an allocator end, and fit every procedure with its temporaries. -/
theorem allocatorBlocks_fit {q : Procedure}
    (hs : m.structs[layout.struct]? = some ⟨name, ArrayLayout.fields layout.element⟩)
    (hdefault : q.Passes layout.element.defaultValue layout.element)
    (htemps : q.temps = (allocatorTemps layout).toArray) (hblocks : q.blocks.size = 6)
    (hreturn : q.returnType = layout.pointerType) :
    ∀ b ∈ allocatorBlocks layout elementSize, b.terminator ≠ none ∧ b.Fits m q := by
  have ht : ∀ id, q.typeOf? (.temp id) = (allocatorTemps layout)[id]?.map Temp.type := by
    intro id
    rw [Procedure.typeOf?, htemps, List.getElem?_toArray]
  have hlt : ∀ i < 6, i < q.blocks.size := fun i hi => hblocks ▸ hi
  have hfit : ∀ {name : String} {is : List Instruction} {t : Terminator},
      (∀ i ∈ is, i.Fits m q) → t.Fits q →
        Block.terminator ⟨name, is, some t⟩ ≠ none ∧ Block.Fits m q ⟨name, is, some t⟩ :=
    fun hi ht => ⟨Option.some_ne_none _, hi, fun _ heq => Option.some.inj heq ▸ ht⟩
  simp only [allocatorBlocks, List.forall_mem_cons, List.not_mem_nil, IsEmpty.forall_iff,
    implies_true, and_true]
  refine ⟨hfit ?_ (.branch (ht 1) (hlt 1 (by decide)) (hlt 2 (by decide))),
    hfit (List.forall_mem_nil _) .halt, hfit ?_ (.jump (hlt 3 (by decide))),
    hfit ?_ (.branch (ht 9) (hlt 4 (by decide)) (hlt 5 (by decide))),
    hfit ?_ (.jump (hlt 3 (by decide))),
    hfit (List.forall_mem_nil _) (.ret (.inl (hreturn ▸ ht 5)))⟩ <;>
    simp only [List.forall_mem_cons, List.not_mem_nil, IsEmpty.forall_iff, implies_true, and_true]
  · exact ⟨.alloca (ht 7), .binary ⟨ht 0, rfl⟩ (ht 1)⟩
  · exact ⟨.binary ⟨ht 0, rfl⟩ (ht 2), .binary ⟨ht 2, rfl⟩ (ht 3), .alloc (ht 3) (ht 4),
      .bitcast (ht 4) (ht 5), .elementPtr (k := 0) (ht 5) hs rfl rfl .whole (ht 6),
      .store (ht 6) (.inl (ht 0)), .store (ht 7) (.inl rfl)⟩
  · exact ⟨.load (ht 7) (ht 8), .binary ⟨ht 8, ht 0⟩ (ht 9)⟩
  · exact ⟨.load (ht 7) (ht 10), .elementPtr (k := 1) (ht 5) hs rfl rfl
      (.element (ht 10) .whole) (ht 11), .store (ht 11) hdefault, .binary ⟨ht 10, rfl⟩ (ht 12),
      .store (ht 7) (.inl (ht 12))⟩

/-- An allocator is well typed if the struct of its array type is there and its elements have a
default. -/
theorem allocatorCode_wellTyped
    (hs : m.structs[layout.struct]? = some ⟨name, ArrayLayout.fields layout.element⟩)
    (hdefault : ∀ q : Procedure, q.Passes layout.element.defaultValue layout.element) :
    (allocatorCode component layout.pointerType layout elementSize).WellTyped m := by
  rw [allocatorCode_eq]
  refine ⟨Nat.succ_pos _, fun i b hb => ?_⟩
  exact allocatorBlocks_fit hs (hdefault _) rfl rfl rfl b
    (List.mem_of_getElem? ((List.getElem?_toArray ..).symm.trans hb))

/-- An allocator assigns before it reads. In the loop and behind it the array is assigned. -/
theorem allocatorCode_disciplined {returnType : Ty} :
    (allocatorCode component returnType layout elementSize).Disciplined := by
  rw [allocatorCode_eq]
  generalize hp : (allocatorBuilder component returnType (allocatorTemps layout)
    (allocatorBlocks layout elementSize) none #[]).procedure = p
  have hparams : p.params = [0] := hp ▸ rfl
  have hdests : p.dests = [7, 1, 2, 3, 4, 5, 6, 8, 9, 10, 11, 12] := hp ▸ rfl
  have htemps : p.temps.size = 13 := hp ▸ rfl
  have hsize : p.blocks.size = 6 := hp ▸ rfl
  have hslots : destsOf p.slots = [7] := hp ▸ rfl
  have hblocks : ∀ i : Nat, p.blocks[i]? = (allocatorBlocks layout elementSize)[i]? := fun i =>
    hp ▸ List.getElem?_toArray ..
  let known : Nat → Set Nat := fun i => {t | 3 ≤ i ∧ t = 5}
  have hstart : ∀ i, p.atStart known i = {t | (3 ≤ i ∧ t = 5) ∨ t = 0 ∨ t = 7} := by
    intro i
    ext t
    simp [Procedure.atStart, hparams, hslots, known]
  have hall : ∀ (i : Nat) (b : Block), p.blocks[i]? = some b → (i ≠ 0 → b.slots = []) ∧
      ((∀ j ∈ b.code, j.isAlloca = false) ∧ Covered (p.atStart known i) b.code) ∧
      ∀ t, b.terminator = some t → t.reads ⊆ p.atEnd known i ∧
        ∀ target ∈ t.successors, target < p.blocks.size ∧ known target ⊆ p.atEnd known i := by
    intro i b hb
    rw [Procedure.atEnd, hstart, Procedure.code_of_getElem? hb, hsize]
    rw [hblocks] at hb
    rcases i with _ | _ | _ | _ | _ | _ | i <;> cases hb
    all_goals
      simp [Block.code, Block.slots, Covered, destsOf, Instruction.isAlloca, Instruction.dest?,
        List.dropWhile_cons, List.takeWhile_cons,
        Instruction.reads_subset, Instruction.operands, in_temp, Terminator.reads, tempsOf_subset,
        Terminator.operand?, Terminator.successors, known]
  suffices hcertified : p.Certified known from hcertified.disciplined
  refine ⟨fun t ht => absurd ht.1 (by decide), ?_, ?_, hdests ▸ by decide,
    fun i b hb => (hall i b hb).1, fun i b hb => (hall i b hb).2.1,
    fun i b t hb ht => (hall i b hb).2.2 t ht⟩
  · rw [hparams, htemps, hdests]
    decide
  · rw [htemps, hdests]
    decide

end typing

end ObjectLang
