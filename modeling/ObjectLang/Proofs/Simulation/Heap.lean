import Mathlib.Tactic
import ObjectLang.Proofs.Layout.Types
import ObjectLang.Proofs.Machine.Memory
import ObjectLang.Proofs.Semantics.Fields

/-!
# Objects and arrays in memory

Each object and each array of a program has an allocation of its own. A census says of what sort
each of them is and where it stands; it only grows. A value of the machine shows a value of the
program at a type if it is the same number or truth value, or a pointer to what is referred to,
which has the type; so all values in memory have the types that the rules give them.
-/
namespace ObjectLang

open Machine

/-- What sort of thing a reference refers to. -/
inductive Kind where
  | object (cls : String)
  | array (element : PlainType) (length : Nat)
deriving Repr, DecidableEq

def Entity.kind : Entity → Kind
  | .object cls _ => .object cls
  | .array element items => .array element items.length

/-- The objects and arrays, each with its allocation. -/
abbrev Census :=
  List (Kind × Nat)

/-- The allocations of all objects and arrays. -/
def Census.places (θ : Census) : List Nat :=
  θ.map Prod.snd

/-- A value of the machine shows a value of a type. -/
inductive Shows (p : Program) (θ : Census) : Datum → PlainType → Value → Prop
  | int {n : Int32} : Shows p θ (.int n) .int (.int n)
  | bool {b : Bool} : Shows p θ (.bool b) .bool (.bool b)
  | null {t : PlainType} : p.Subtype .null t → Shows p θ .null t (.pointer none)
  | object {r a : Nat} {c d : String} : θ[r]? = some (.object c, a) → p.Below c d →
      Shows p θ (.ref r) (.object d) (.pointer (some ⟨a, 0⟩))
  | array {r a n : Nat} {t : PlainType} : θ[r]? = some (.array t n, a) →
      Shows p θ (.ref r) (.array t) (.pointer (some ⟨a, 0⟩))

variable {p : Program} {θ θ' : Census} {v w : Datum} {t u : PlainType} {mv mw : Value}

namespace Shows

theorem mono (h : Shows p θ v t mv) (hθ : θ <+: θ') : Shows p θ' v t mv := by
  obtain ⟨new, rfl⟩ := hθ
  cases h with
  | int => exact .int
  | bool => exact .bool
  | null ht => exact .null ht
  | object hr hb =>
      exact .object ((List.getElem?_append_left (List.getElem?_eq_some_iff.1 hr).1).trans hr) hb
  | array hr =>
      exact .array ((List.getElem?_append_left (List.getElem?_eq_some_iff.1 hr).1).trans hr)

theorem null_of_subtype {t u : PlainType} (h : p.Subtype .null t) (hs : p.Subtype t u) :
    p.Subtype .null u := by
  cases hs with
  | refl => exact h
  | nullArray => exact .nullArray _
  | nullObject => exact .nullObject _
  | object _ => exact .nullObject _

theorem subtype (h : Shows p θ v t mv) (hs : p.Subtype t u) : Shows p θ v u mv := by
  cases h with
  | int =>
      cases hs
      exact .int
  | bool =>
      cases hs
      exact .bool
  | null ht => exact .null (null_of_subtype ht hs)
  | object hr hb =>
      cases hs with
      | refl => exact .object hr hb
      | object hb' => exact .object hr (hb.trans hb')
  | array hr =>
      cases hs
      exact .array hr

/-- Values of the machine are the same exactly if the values that they show are. -/
theorem eq_iff (hθ : θ.places.Nodup) (hv : Shows p θ v t mv) (hw : Shows p θ w u mw)
    (htu : p.Subtype t u ∨ p.Subtype u t) : mv = mw ↔ v = w := by
  have hinj : ∀ {r r' : Nat} {k k' : Kind} {a : Nat}, θ[r]? = some (k, a) →
      θ[r']? = some (k', a) → r = r' := by
    intro r r' k k' a hr hr'
    have hlt := (List.getElem?_eq_some_iff.1 hr).1
    refine (List.getElem?_inj (by simpa [Census.places] using hlt) hθ).1 ?_
    rw [Census.places, List.getElem?_map, List.getElem?_map, hr, hr']
    rfl
  have hrefs : ∀ {r r' a a' : Nat} {k k' : Kind}, θ[r]? = some (k, a) → θ[r']? = some (k', a') →
      (Value.pointer (some ⟨a, 0⟩) = .pointer (some ⟨a', 0⟩) ↔ Datum.ref r = .ref r') := by
    intro r r' a a' k k' hr hr'
    constructor
    · intro h
      cases h
      rw [hinj hr hr']
    · intro h
      cases h
      rw [hr] at hr'
      cases hr'
      rfl
  cases hv with
  | int => cases hw <;> simp
  | bool => cases hw <;> simp
  | null _ => cases hw <;> simp
  | object hr _ =>
      cases hw with
      | object hr' _ => exact hrefs hr hr'
      | array hr' => exact hrefs hr hr'
      | _ => simp
  | array hr =>
      cases hw with
      | object hr' _ => exact hrefs hr hr'
      | array hr' => exact hrefs hr hr'
      | _ => simp

end Shows

/-- An allocation holds an object or an array. -/
def Entity.Stored (p : Program) (θ : Census) (memory : Memory) (a : Nat) : Entity → Prop
  | .object c fields =>
    memory.sizeAt? a = some (p.objectSize c) ∧ p.objectSize c ≤ maxBytes ∧
      ∀ (k : Nat) (owner : String) (d : VarDecl), (p.fieldsOf c)[k]? = some (owner, d) →
        ∃ mv, memory.get? ⟨a, p.offsetAt c k⟩ = some mv ∧
          Shows p θ (fields owner d.name.name) d.plain mv
  | .array t items =>
    memory.sizeAt? a = some (4 + items.length * t.size) ∧ 4 + items.length * t.size ≤ maxBytes ∧
      memory.get? ⟨a, 0⟩ = some (.int (Int32.ofNat items.length)) ∧
      ∀ (i : Nat) (v : Datum), items[i]? = some v →
        ∃ mv, memory.get? ⟨a, 4 + i * t.size⟩ = some mv ∧ Shows p θ v t mv

/-- The memory holds all objects and arrays where the census says, each by itself. -/
structure HeapShown (p : Program) (θ : Census) (heap : List Entity) (memory : Memory) : Prop where
  kinds : heap.map Entity.kind = θ.map Prod.fst
  apart : θ.places.Nodup
  stored : ∀ (r : Nat) (e : Entity) (k : Kind) (a : Nat), heap[r]? = some e → θ[r]? = some (k, a) →
    e.Stored p θ memory a

theorem Entity.Stored.congr {e : Entity} {a : Nat} {memory memory' : Memory}
    (h : e.Stored p θ memory a) (hθ : θ <+: θ')
    (hm : memory'.allocations[a]? = memory.allocations[a]?) : e.Stored p θ' memory' a := by
  have hget : ∀ offset, memory'.get? ⟨a, offset⟩ = memory.get? ⟨a, offset⟩ := fun offset =>
    Memory.get?_congr hm
  cases e with
  | object c fields =>
      obtain ⟨hsize, hle, hfields⟩ := h
      refine ⟨(Memory.sizeAt?_congr hm).trans hsize, hle, fun k owner d hk => ?_⟩
      obtain ⟨mv, hmv, hshows⟩ := hfields k owner d hk
      exact ⟨mv, (hget _).trans hmv, hshows.mono hθ⟩
  | array t items =>
      obtain ⟨hsize, hle, hlength, hitems⟩ := h
      refine ⟨(Memory.sizeAt?_congr hm).trans hsize, hle, (hget _).trans hlength, fun i v hi => ?_⟩
      obtain ⟨mv, hmv, hshows⟩ := hitems i v hi
      exact ⟨mv, (hget _).trans hmv, hshows.mono hθ⟩

theorem Entity.Stored.lt_count {e : Entity} {a : Nat} {memory : Memory}
    (h : e.Stored p θ memory a) : a < memory.count := by
  cases e with
  | object c fields => exact Memory.lt_count_of_sizeAt? h.1
  | array t items => exact Memory.lt_count_of_sizeAt? h.1

namespace HeapShown

variable {heap : List Entity} {memory memory' : Memory} (h : HeapShown p θ heap memory)
include h

theorem length_eq : heap.length = θ.length := by
  simpa using congrArg List.length h.kinds

/-- What the census has is there. -/
theorem exists_entity {r a : Nat} {k : Kind} (hr : θ[r]? = some (k, a)) :
    ∃ e, heap[r]? = some e ∧ e.kind = k ∧ e.Stored p θ memory a := by
  have hlt : r < heap.length := h.length_eq ▸ (List.getElem?_eq_some_iff.1 hr).1
  have hget := List.getElem?_eq_getElem hlt
  have hkind := congrArg (·[r]?) h.kinds
  simp only [List.getElem?_map, hget, hr, Option.map_some, Option.some.injEq] at hkind
  exact ⟨_, hget, hkind, h.stored r _ k a hget hr⟩

theorem exists_object {r a : Nat} {c : String} (hr : θ[r]? = some (.object c, a)) :
    ∃ fields, heap[r]? = some (.object c fields) ∧
      (Entity.object c fields).Stored p θ memory a := by
  obtain ⟨e, hget, hkind, hs⟩ := h.exists_entity hr
  cases e with
  | object c' fields =>
      cases hkind
      exact ⟨fields, hget, hs⟩
  | array => cases hkind

theorem exists_array {r a n : Nat} {t : PlainType} (hr : θ[r]? = some (.array t n, a)) :
    ∃ items, heap[r]? = some (.array t items) ∧ items.length = n ∧
      (Entity.array t items).Stored p θ memory a := by
  obtain ⟨e, hget, hkind, hs⟩ := h.exists_entity hr
  cases e with
  | object => cases hkind
  | array t' items =>
      cases hkind
      exact ⟨items, hget, rfl, hs⟩

theorem lt_count {a : Nat} (ha : a ∈ θ.places) : a < memory.count := by
  obtain ⟨⟨k, a⟩, hm, rfl⟩ := List.mem_map.1 ha
  obtain ⟨r, hr⟩ := List.mem_iff_getElem?.1 hm
  obtain ⟨e, _, _, hs⟩ := h.exists_entity hr
  exact hs.lt_count

/-- What happens elsewhere in memory has no effect on objects and arrays. -/
theorem congr (hm : ∀ a ∈ θ.places, memory'.allocations[a]? = memory.allocations[a]?) :
    HeapShown p θ heap memory' := by
  refine ⟨h.kinds, h.apart, fun r e k a he hr => ?_⟩
  exact (h.stored r e k a he hr).congr (List.prefix_refl _)
    (hm a (List.mem_map.2 ⟨_, List.mem_of_getElem? hr, rfl⟩))

/-- A new object or array in an allocation of its own. -/
theorem add {e : Entity} {a : Nat} (ha : a ∉ θ.places)
    (hm : ∀ b ∈ θ.places, memory'.allocations[b]? = memory.allocations[b]?)
    (he : e.Stored p (θ ++ [(e.kind, a)]) memory' a) :
    HeapShown p (θ ++ [(e.kind, a)]) (heap ++ [e]) memory' := by
  have hlength := h.length_eq
  refine ⟨by simp [h.kinds], ?_, fun r f k b hf hr => ?_⟩
  · rw [Census.places, List.map_append, List.map_singleton]
    exact List.nodup_append.2 ⟨h.apart, List.nodup_singleton _, fun x hx y hy hxy => by
      obtain rfl : x = a := hxy.trans (List.mem_singleton.1 hy)
      exact ha hx⟩
  · rcases Nat.lt_or_ge r heap.length with hlt | hge
    · rw [List.getElem?_append_left hlt] at hf
      rw [List.getElem?_append_left (hlength ▸ hlt)] at hr
      exact (h.stored r f k b hf hr).congr (List.prefix_append _ _)
        (hm b (List.mem_map.2 ⟨_, List.mem_of_getElem? hr, rfl⟩))
    · rw [List.getElem?_append_right hge] at hf
      rw [List.getElem?_append_right (hlength ▸ hge), ← hlength] at hr
      cases hi : r - heap.length with
      | zero =>
          rw [hi] at hf hr
          cases hf
          cases hr
          exact he
      | succ i =>
          rw [hi] at hf
          cases hf

/-- One object or array is changed, which keeps its kind. -/
theorem set {r a : Nat} {k : Kind} {e : Entity} (hr : θ[r]? = some (k, a)) (hk : e.kind = k)
    (hm : ∀ b, b ≠ a → memory'.allocations[b]? = memory.allocations[b]?)
    (he : e.Stored p θ memory' a) : HeapShown p θ (heap.set r e) memory' := by
  refine ⟨?_, h.apart, fun r' f k' b hf hr' => ?_⟩
  · rw [List.map_set, h.kinds]
    refine List.ext_getElem? fun i => ?_
    rw [List.getElem?_set]
    split_ifs with hi hlt
    · subst hi
      rw [List.getElem?_map, hr, hk]
      rfl
    · subst hi
      have := (List.getElem?_eq_some_iff.1 hr).1
      simp at hlt
      omega
    · rfl
  · rw [List.getElem?_set] at hf
    split_ifs at hf with hi hlt
    · subst hi
      cases hf
      rw [hr] at hr'
      cases hr'
      exact he
    · refine (h.stored r' f k' b hf hr').congr (List.prefix_refl _) (hm b fun hb => hi ?_)
      subst hb
      have hlt := (List.getElem?_eq_some_iff.1 hr).1
      refine (List.getElem?_inj (by simpa [Census.places] using hlt) h.apart).1 ?_
      rw [Census.places, List.getElem?_map, List.getElem?_map, hr, hr']
      rfl

section fields

variable {r a k : Nat} {c owner : String} {d : VarDecl} {fields : String → String → Datum}

theorem covers_field (hr : θ[r]? = some (.object c, a))
    (hk : (p.fieldsOf c)[k]? = some (owner, d)) : memory.Covers ⟨a, p.offsetAt c k⟩ := by
  obtain ⟨_, _, hsize, _⟩ := h.exists_object hr
  have hle := Program.offsetAt_add_le hk
  have hpos := d.plain.size_pos
  exact ⟨_, hsize, by simp only; omega⟩

/-- A field of an object is assigned. -/
theorem write_field (hp : ((p.fieldsOf c).map Program.fieldKey).Nodup)
    (hr : θ[r]? = some (.object c, a)) (hheap : heap[r]? = some (.object c fields))
    (hk : (p.fieldsOf c)[k]? = some (owner, d)) (hv : Shows p θ v d.plain mv) :
    HeapShown p θ (heap.set r (.object c (setField fields owner d.name.name v)))
      (memory.put ⟨a, p.offsetAt c k⟩ mv) := by
  obtain ⟨hsize, hle, hfields⟩ := h.stored r _ _ a hheap hr
  refine h.set hr rfl (fun b hb => Memory.allocations_put_of_ne hb)
    ⟨by rw [Memory.sizeAt?_put, hsize], hle, fun j o x hj => ?_⟩
  by_cases hjk : j = k
  · subst hjk
    rw [hk] at hj
    cases hj
    rw [setField, if_pos ⟨rfl, rfl⟩]
    exact ⟨mv, Memory.get?_put_self (h.covers_field hr hk), hv⟩
  · obtain ⟨mw, hmw, hw⟩ := hfields j o x hj
    refine ⟨mw, ?_, ?_⟩
    · rw [Memory.get?_put_of_ne, hmw]
      intro heq
      injection heq with _ hoffset
      exact hjk (Program.eq_of_offsetAt_eq hj hk hoffset)
    · rw [setField, if_neg]
      · exact hw
      · rintro ⟨rfl, hname⟩
        have hlt := (List.getElem?_eq_some_iff.1 hj).1
        refine hjk ((List.getElem?_inj (by simpa using hlt) hp).1 ?_)
        rw [List.getElem?_map, List.getElem?_map, hj, hk]
        simp [Program.fieldKey, hname]

end fields

section elements

variable {r a n i : Nat} {items : List Datum}

theorem covers_length (hr : θ[r]? = some (.array t n, a)) : memory.Covers ⟨a, 0⟩ := by
  obtain ⟨_, _, _, hsize, _⟩ := h.exists_array hr
  exact ⟨_, hsize, by simp only; omega⟩

theorem covers_element (hr : θ[r]? = some (.array t n, a)) (hi : i < n) :
    memory.Covers ⟨a, 4 + i * t.size⟩ := by
  obtain ⟨items, _, rfl, hsize, _⟩ := h.exists_array hr
  have hmul := Nat.mul_le_mul_right t.size (Nat.succ_le_of_lt hi)
  have hpos := t.size_pos
  rw [Nat.succ_mul] at hmul
  exact ⟨_, hsize, by simp only; omega⟩

/-- An element of an array is assigned. -/
theorem write_element (hr : θ[r]? = some (.array t n, a))
    (hheap : heap[r]? = some (.array t items)) (hi : i < n) (hv : Shows p θ v t mv) :
    HeapShown p θ (heap.set r (.array t (items.set i v))) (memory.put ⟨a, 4 + i * t.size⟩ mv) := by
  obtain ⟨items', hheap', rfl, hsize, hle, hlength, hitems⟩ := h.exists_array hr
  obtain rfl : items' = items := by
    rw [hheap] at hheap'
    cases hheap'
    rfl
  have hpos := t.size_pos
  have hcovers := h.covers_element hr hi
  have hne : ∀ j, j ≠ i → (⟨a, 4 + j * t.size⟩ : Address) ≠ ⟨a, 4 + i * t.size⟩ := by
    intro j hj heq
    injection heq with _ hoffset
    exact hj (Nat.eq_of_mul_eq_mul_right hpos (Nat.add_left_cancel hoffset))
  refine h.set hr ?_ (fun b hb => Memory.allocations_put_of_ne hb) ?_
  · simp [Entity.kind]
  · refine ⟨by rw [Memory.sizeAt?_put, hsize, List.length_set], by rwa [List.length_set], ?_,
      fun j w hj => ?_⟩
    · rw [Memory.get?_put_of_ne, hlength, List.length_set]
      intro heq
      injection heq with _ hoffset
      omega
    · rw [List.getElem?_set] at hj
      split_ifs at hj with hij
      · subst hij
        cases hj
        exact ⟨mv, Memory.get?_put_self hcovers, hv⟩
      · obtain ⟨mw, hmw, hw⟩ := hitems j w hj
        exact ⟨mw, by rw [Memory.get?_put_of_ne (hne j (Ne.symm hij)), hmw], hw⟩

end elements

end HeapShown
end ObjectLang
