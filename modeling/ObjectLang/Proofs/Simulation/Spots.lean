import Mathlib.Tactic
import ObjectLang.Proofs.Simulation.Activation

/-!
# Values and spots at hand

An operand holds a value of the program if the machine has a value there that shows it. Each spot
where the program keeps a value has an address: that of a slot of the function, of a field of an
object, or of an element of an array. What is read at a spot is what the memory has there, and what
is written to the spot is written there.
-/
namespace ObjectLang

open Machine IR

namespace Act

/-- An operand holds a value of a type. -/
def Holds (A : Act) (θ : Census) (μ : Config) (x : Operand) (t : PlainType) (v : Datum) : Prop :=
  ∃ mv, μ.value? x = some mv ∧ Shows A.job.program θ v t mv

/-- A spot for values of a type has an address. -/
inductive Keeps (A : Act) (θ : Census) : Spot → PlainType → Address → Prop
  | slot {x : VarDecl × Nat} : x ∈ A.job.vars →
      A.Keeps θ (.slot x.1.id) x.1.plain ⟨A.place x.2, 0⟩
  | field {r a k : Nat} {c owner : String} {d : VarDecl} : θ[r]? = some (.object c, a) →
      (A.job.program.fieldsOf c)[k]? = some (owner, d) →
      A.Keeps θ (.field r owner d.name.name) d.plain ⟨a, A.job.program.offsetAt c k⟩
  | element {r a n i : Nat} {t : PlainType} : θ[r]? = some (.array t n, a) → i < n →
      A.Keeps θ (.element r i) t ⟨a, 4 + i * t.size⟩

/-- An operand points to a spot. -/
def Points (A : Act) (θ : Census) (μ : Config) (x : Operand) (t : PlainType) (spot : Spot) : Prop :=
  ∃ a, μ.value? x = some (.pointer (some a)) ∧ A.Keeps θ spot t a

variable {A : Act} {locals : Locals} {θ θ' : Census} {σ : Store} {μ μ' : Config} {lo : Nat}
  {x : Operand} {t u : PlainType} {v : Datum} {mv : Value} {spot : Spot} {a : Address}

theorem Holds.follows (h : A.Holds θ μ x t v) (hf : A.Follows lo θ μ θ' μ') (hx : x.Fits lo) :
    A.Holds θ' μ' x t v := by
  obtain ⟨mv, hmv, hs⟩ := h
  exact ⟨mv, (hf.value? hx).trans hmv, hs.mono hf.census⟩

theorem Holds.subtype (h : A.Holds θ μ x t v) (hs : A.job.program.Subtype t u) :
    A.Holds θ μ x u v := by
  obtain ⟨mv, hmv, hshows⟩ := h
  exact ⟨mv, hmv, hshows.subtype hs⟩

theorem Holds.int (h : A.Holds θ μ x .int v) : ∃ n, v = .int n ∧ μ.value? x = some (.int n) := by
  obtain ⟨_, hmv, hs⟩ := h
  cases hs with
  | int => exact ⟨_, rfl, hmv⟩
  | null hs => cases hs

theorem Holds.bool (h : A.Holds θ μ x .bool v) : ∃ b, v = .bool b ∧
    μ.value? x = some (.bool b) := by
  obtain ⟨_, hmv, hs⟩ := h
  cases hs with
  | bool => exact ⟨_, rfl, hmv⟩
  | null hs => cases hs

/-- An object or null. -/
theorem Holds.object {c : String} (h : A.Holds θ μ x (.object c) v) :
    (v = .null ∧ μ.value? x = some (.pointer none)) ∨
      ∃ r a sub, v = .ref r ∧ θ[r]? = some (.object sub, a) ∧ A.job.program.Below sub c ∧
        μ.value? x = some (.pointer (some ⟨a, 0⟩)) := by
  obtain ⟨_, hmv, hs⟩ := h
  cases hs with
  | null _ => exact .inl ⟨rfl, hmv⟩
  | object hr hb => exact .inr ⟨_, _, _, rfl, hr, hb, hmv⟩

/-- An array or null. -/
theorem Holds.array (h : A.Holds θ μ x (.array t) v) :
    (v = .null ∧ μ.value? x = some (.pointer none)) ∨
      ∃ r a n, v = .ref r ∧ θ[r]? = some (.array t n, a) ∧
        μ.value? x = some (.pointer (some ⟨a, 0⟩)) := by
  obtain ⟨_, hmv, hs⟩ := h
  cases hs with
  | null _ => exact .inl ⟨rfl, hmv⟩
  | array hr => exact .inr ⟨_, _, _, rfl, hr, hmv⟩

theorem Keeps.mono (h : A.Keeps θ spot t a) (hθ : θ <+: θ') : A.Keeps θ' spot t a := by
  have hget : ∀ {r : Nat} {k : Kind × Nat}, θ[r]? = some k → θ'[r]? = some k := by
    intro r k hr
    obtain ⟨new, rfl⟩ := hθ
    exact (List.getElem?_append_left (List.getElem?_eq_some_iff.1 hr).1).trans hr
  cases h with
  | slot hx => exact .slot hx
  | field hr hk => exact .field (hget hr) hk
  | element hr hi => exact .element (hget hr) hi

theorem Points.follows (h : A.Points θ μ x t spot) (hf : A.Follows lo θ μ θ' μ') (hx : x.Fits lo) :
    A.Points θ' μ' x t spot := by
  obtain ⟨a, ha, hk⟩ := h
  exact ⟨a, (hf.value? hx).trans ha, hk.mono hf.census⟩

section running

variable (h : A.Running locals θ σ μ)
include h

/-- What is read at a spot is what the memory has there. -/
theorem Running.read (hp : A.Placed) (hk : A.Keeps θ spot t a) :
    ∃ v mv, spot.read locals σ = (.ok v, σ) ∧ μ.memory.Covers a ∧ μ.memory.get? a = some mv ∧
      Shows A.job.program θ v t mv := by
  cases hk with
  | @slot x hx =>
      obtain ⟨type, hs⟩ := hp.slots x hx
      obtain ⟨_, hcovers, _⟩ := h.slots x.2 type hs
      obtain ⟨mv, hget, hshows⟩ := h.vars x hx
      exact ⟨_, mv, rfl, hcovers, hget, hshows⟩
  | @field r a k c owner d hr hd =>
      obtain ⟨fields, hheap, _, _, hfields⟩ := h.heap.exists_object hr
      obtain ⟨mv, hget, hshows⟩ := hfields k owner d hd
      refine ⟨_, mv, ?_, h.heap.covers_field hr hd, hget, hshows⟩
      rw [Spot.read, Eval.run_bind, entity_eq hheap]
      rfl
  | @element r a n i t hr hi =>
      obtain ⟨items, hheap, hlength, _, _, _, hitems⟩ := h.heap.exists_array hr
      have hget := List.getElem?_eq_getElem (l := items) (i := i) (hlength ▸ hi)
      obtain ⟨mv, hmv, hshows⟩ := hitems i _ hget
      refine ⟨_, mv, ?_, h.heap.covers_element hr hi, hmv, hshows⟩
      rw [Spot.read, Eval.run_bind, itemsOf_eq hheap]
      simp only [hget, Eval.run_pure]

/-- What is written to a spot is written to its address. -/
theorem Running.write (hh : A.job.program.WellFormed A.job.printName) (hp : A.Placed)
    (hk : A.Keeps θ spot t a) (hv : Shows A.job.program θ v t mv) :
    ∃ locals' σ', spot.write locals v σ = (.ok locals', σ') ∧ μ.memory.Covers a ∧
      A.Running locals' θ σ' (μ.write a mv) ∧ A.Follows lo θ μ θ (μ.write a mv) := by
  cases hk with
  | @slot x hx =>
      obtain ⟨type, hs⟩ := hp.slots x hx
      obtain ⟨_, hcovers, _⟩ := h.slots x.2 type hs
      exact ⟨_, σ, rfl, hcovers, h.write_var hp hx hv, .write (.inl ⟨_, type, hs, rfl⟩)⟩
  | @field r a k c owner d hr hd =>
      obtain ⟨fields, hheap, _⟩ := h.heap.exists_object hr
      have hplace : a ∈ θ.places := List.mem_map.2 ⟨_, List.mem_of_getElem? hr, rfl⟩
      have hnodup := hh.hierarchy.nodup_fieldsOf hh.fieldNames c
      refine ⟨locals, _, ?_, h.heap.covers_field hr hd,
        h.write_heap hp hplace (h.heap.write_field hnodup hr hheap hd hv), .write (.inr hplace)⟩
      rw [Spot.write, Eval.run_bind, entity_eq hheap]
      rfl
  | @element r a n i t hr hi =>
      obtain ⟨items, hheap, _⟩ := h.heap.exists_array hr
      have hplace : a ∈ θ.places := List.mem_map.2 ⟨_, List.mem_of_getElem? hr, rfl⟩
      refine ⟨locals, _, ?_, h.heap.covers_element hr hi,
        h.write_heap hp hplace (h.heap.write_element hr hheap hi hv), .write (.inr hplace)⟩
      rw [Spot.write, Eval.run_bind, entity_eq hheap]
      rfl

end running

end Act
end ObjectLang
