import Mathlib.Tactic
import ObjectLang.Machine.Memory

/-!
# What memory operations do

A store changes the one cell that it names, and an allocation changes nothing that was there
before.
-/
namespace ObjectLang.Machine

namespace Memory

variable {m : Memory} {a b : Address} {v w : Value}

/-- How many bytes an allocation has. -/
def sizeAt? (m : Memory) (id : Nat) : Option Nat :=
  m.allocations[id]?.map Allocation.size

/-- An address is inside of an allocation. -/
def Covers (m : Memory) (a : Address) : Prop :=
  ∃ size, m.sizeAt? a.allocation = some size ∧ a.offset < size

theorem Covers.resolve (h : m.Covers a) : m.resolve (some a) = .ok a := by
  obtain ⟨size, hs, hlt⟩ := h
  obtain ⟨allocation, hallocation, rfl⟩ := Option.map_eq_some_iff.1 hs
  simp only [Memory.resolve, hallocation, hlt, if_true]

/-- Outside of its allocation, an address cannot be used. -/
theorem resolve_outside {size : Nat} (hs : m.sizeAt? a.allocation = some size)
    (hle : size ≤ a.offset) : m.resolve (some a) = .error (.access (.outside a.offset size)) := by
  obtain ⟨allocation, hallocation, rfl⟩ := Option.map_eq_some_iff.1 hs
  simp only [Memory.resolve, hallocation, Nat.not_lt.2 hle, if_false]

theorem Covers.load (h : m.Covers a) (hv : m.get? a = some v) : m.load (some a) = .ok v := by
  simp only [Memory.load, h.resolve, bind, Except.bind, hv]
  rfl

theorem Covers.lt_count (h : m.Covers a) : a.allocation < m.count := by
  obtain ⟨size, hs, _⟩ := h
  obtain ⟨allocation, hallocation, _⟩ := Option.map_eq_some_iff.1 hs
  exact (Array.getElem?_eq_some_iff.1 hallocation).1

theorem lt_count_of_sizeAt? {id size : Nat} (h : m.sizeAt? id = some size) : id < m.count := by
  obtain ⟨allocation, hallocation, _⟩ := Option.map_eq_some_iff.1 h
  exact (Array.getElem?_eq_some_iff.1 hallocation).1

section put

@[simp] theorem count_put : (m.put a v).count = m.count := by
  simp [put, count]

theorem allocations_put_of_ne {id : Nat} (h : id ≠ a.allocation) :
    (m.put a v).allocations[id]? = m.allocations[id]? := by
  simp [put, Array.getElem?_modify, h.symm]

@[simp] theorem sizeAt?_put {id : Nat} : (m.put a v).sizeAt? id = m.sizeAt? id := by
  simp only [sizeAt?, put, Array.getElem?_modify]
  split_ifs with h
  · subst h
    cases m.allocations[a.allocation]? <;> rfl
  · rfl

theorem covers_put : (m.put a v).Covers b ↔ m.Covers b := by
  simp only [Covers, sizeAt?_put]

theorem get?_put_self (h : m.Covers a) : (m.put a v).get? a = some v := by
  obtain ⟨size, hs, _⟩ := h
  obtain ⟨allocation, hallocation, _⟩ := Option.map_eq_some_iff.1 hs
  simp [get?, put, Array.getElem?_modify, hallocation]

theorem get?_put_of_ne (h : b ≠ a) : (m.put a v).get? b = m.get? b := by
  simp only [get?, put, Array.getElem?_modify]
  split_ifs with hid
  · have hoffset : a.offset ≠ b.offset := by
      intro ho
      apply h
      cases a
      cases b
      simp_all
    cases m.allocations[b.allocation]? with
    | none => rfl
    | some allocation => simp [Std.TreeMap.getElem?_insert, hoffset]
  · rfl

end put

section allocate

variable {size : Nat}

@[simp] theorem count_allocate : (m.allocate size).2.count = m.count + 1 := by
  simp [allocate, count]

theorem allocations_allocate_of_lt {id : Nat} (h : id < m.count) :
    (m.allocate size).2.allocations[id]? = m.allocations[id]? := by
  simp only [allocate]
  exact Array.getElem?_push_lt h |>.trans (Array.getElem?_eq_getElem h).symm

theorem sizeAt?_allocate : (m.allocate size).2.sizeAt? m.count = some size := by
  simp [sizeAt?, allocate, count]

end allocate

theorem get?_congr {m' : Memory}
    (h : m'.allocations[a.allocation]? = m.allocations[a.allocation]?) :
    m'.get? a = m.get? a := by
  rw [get?, get?, h]

theorem sizeAt?_congr {m' : Memory} {id : Nat} (h : m'.allocations[id]? = m.allocations[id]?) :
    m'.sizeAt? id = m.sizeAt? id := by
  rw [sizeAt?, sizeAt?, h]

end Memory
end ObjectLang.Machine
