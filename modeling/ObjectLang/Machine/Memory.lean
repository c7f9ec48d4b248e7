import ObjectLang.Machine.Fault
import Std.Data.TreeMap

/-!
# Memory

Memory is a growing list of allocations of fixed sizes; nothing is ever freed. A value is stored as
a whole at the byte that its address names, and can be read back from that byte only.
-/
namespace ObjectLang.Machine

/-- Some bytes of memory, with the values that were stored among them. -/
structure Allocation where
  size : Nat
  cells : Std.TreeMap Nat Value := ∅
deriving Inhabited

structure Memory where
  allocations : Array Allocation := #[]
deriving Inhabited

namespace Memory

/-- How many allocations there are. -/
def count (m : Memory) : Nat :=
  m.allocations.size

/-- Memory with a new allocation, and the address of its first byte. -/
def allocate (m : Memory) (size : Nat) : Address × Memory :=
  (⟨m.count, 0⟩, { m with allocations := m.allocations.push ⟨size, ∅⟩ })

/-- The address of a pointer, which has to be inside of an allocation. -/
def resolve (m : Memory) (pointer : Option Address) : Except Fault Address :=
  match pointer with
  | none => .error (.access .nullPointer)
  | some a =>
    match m.allocations[a.allocation]? with
    | none => .error (.access (.unknownAllocation a.allocation))
    | some allocation =>
      if a.offset < allocation.size then .ok a
      else .error (.access (.outside a.offset allocation.size))

/-- The value that was last put at an address. -/
def get? (m : Memory) (a : Address) : Option Value :=
  m.allocations[a.allocation]?.bind fun allocation => allocation.cells[a.offset]?

/-- Memory with a value put at an address. -/
def put (m : Memory) (a : Address) (value : Value) : Memory :=
  { m with
    allocations := m.allocations.modify a.allocation fun allocation =>
      { allocation with cells := allocation.cells.insert a.offset value } }

/-- The value that was last stored where a pointer points. -/
def load (m : Memory) (pointer : Option Address) : Except Fault Value := do
  let a ← m.resolve pointer
  match m.get? a with
  | some value => return value
  | none => throw (.uninitialized a.offset)

/-- Memory with a value stored where a pointer points. -/
def store (m : Memory) (pointer : Option Address) (value : Value) : Except Fault Memory := do
  return m.put (← m.resolve pointer) value

end Memory
end ObjectLang.Machine
