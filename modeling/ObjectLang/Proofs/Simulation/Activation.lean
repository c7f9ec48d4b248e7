import Mathlib.Tactic
import ObjectLang.Proofs.Lowering.Stage
import ObjectLang.Proofs.Machine.Moves
import ObjectLang.Proofs.Simulation.Heap
import ObjectLang.Proofs.Simulation.Simulates

/-!
# Activations

A function that runs has an allocation for each of its slots, apart from all objects and arrays and
from what belongs to the functions that wait for it. Its variables are kept in some of the slots.
What the code of the function does to the memory stays within its slots, the objects and arrays,
and new allocations; and code only assigns temporaries that it has made itself.
-/
namespace ObjectLang

open Machine IR

/-- A function that runs as a procedure of the finished code. -/
structure Act where
  job : Job
  target : Target
  allocators : List (ValueType × Nat)
  procedure : Procedure
  /-- The receiver, if the function is a method. -/
  self : Option Datum
  /-- The allocations that the temporaries of the slots point to. -/
  place : Nat → Nat
  callers : List (Nat × Frame)

namespace Act

/-- The state of the machine that has come as far as a builder of the procedure. -/
def «at» (A : Act) (b : Builder) (μ : Config) : State :=
  μ.state A.procedure A.callers (b.point A.procedure)

/-- An allocation belongs to the activation. -/
def Owns (A : Act) (a : Nat) : Prop :=
  ∃ dest type, .alloca dest type ∈ A.procedure.slots ∧ A.place dest = a

/-- A temporary that neither points to a slot nor holds the receiver. -/
def Free (A : Act) (dest : Nat) : Prop :=
  (∀ type, .alloca dest type ∉ A.procedure.slots) ∧ A.job.body.this ≠ some dest

/-- The variables have slots of their own. -/
structure Placed (A : Act) : Prop where
  slots : ∀ x ∈ A.job.vars, ∃ type, .alloca x.2 type ∈ A.procedure.slots
  temps : (A.job.vars.map Prod.snd).Nodup
  ids : (A.job.vars.map (·.1.id)).Nodup

/-- The machine shows the store, the variables and the receiver of a function that runs. -/
structure Running (A : Act) (locals : Locals) (θ : Census) (σ : Store) (μ : Config) : Prop where
  size : μ.temps.size = A.procedure.temps.size
  output : μ.output.toList = σ.output
  heap : HeapShown A.job.program θ σ.heap μ.memory
  slots : ∀ dest type, .alloca dest type ∈ A.procedure.slots →
    μ.temps[dest]? = some (some (.pointer (some ⟨A.place dest, 0⟩))) ∧
      μ.memory.Covers ⟨A.place dest, 0⟩ ∧ A.place dest ∉ θ.places
  apart : ∀ dest type dest' type', .alloca dest type ∈ A.procedure.slots →
    .alloca dest' type' ∈ A.procedure.slots → A.place dest = A.place dest' → dest = dest'
  vars : ∀ x ∈ A.job.vars, ∃ mv, μ.memory.get? ⟨A.place x.2, 0⟩ = some mv ∧
    Shows A.job.program θ (locals x.1.id) x.1.plain mv
  self : ∀ t, A.job.body.this = some t → ∃ r c mv, A.self = some (.ref r) ∧ A.job.current = some c ∧
    μ.temps[t]? = some (some mv) ∧ Shows A.job.program θ (.ref r) (.object c) mv

/-- What code changes whose temporaries start at `lo`. -/
structure Follows (A : Act) (lo : Nat) (θ : Census) (μ : Config) (θ' : Census) (μ' : Config) :
    Prop where
  temps : ∀ t, t < lo → μ'.temps[t]? = μ.temps[t]?
  census : θ <+: θ'
  fresh : ∀ a ∈ θ'.places, a ∈ θ.places ∨ μ.memory.count ≤ a
  count : μ.memory.count ≤ μ'.memory.count
  memory : ∀ a < μ.memory.count, a ∉ θ.places → ¬ A.Owns a →
    μ'.memory.allocations[a]? = μ.memory.allocations[a]?

variable {A : Act} {locals : Locals} {θ θ' θ'' : Census} {σ σ' : Store} {μ μ' μ'' : Config}
  {lo lo' dest : Nat} {v : Datum} {mv : Value}

namespace Follows

theorem rfl : A.Follows lo θ μ θ μ :=
  ⟨fun _ _ => Eq.refl _, List.prefix_refl _, fun _ h => .inl h, le_rfl, fun _ _ _ _ => Eq.refl _⟩

theorem trans (h : A.Follows lo θ μ θ' μ') (h' : A.Follows lo' θ' μ' θ'' μ'') (hlo : lo ≤ lo') :
    A.Follows lo θ μ θ'' μ'' := by
  refine ⟨fun t ht => ?_, h.census.trans h'.census, fun a ha => ?_, h.count.trans h'.count,
    fun a ha hθ hown => ?_⟩
  · exact (h'.temps t (Nat.lt_of_lt_of_le ht hlo)).trans (h.temps t ht)
  · rcases h'.fresh a ha with ha | ha
    · exact h.fresh a ha
    · exact .inr (h.count.trans ha)
  · refine (h'.memory a (Nat.lt_of_lt_of_le ha h.count) (fun hm => ?_) hown).trans
      (h.memory a ha hθ hown)
    rcases h.fresh a hm with hm | hm
    · exact hθ hm
    · omega

theorem weaken (h : A.Follows lo θ μ θ' μ') (hlo : lo' ≤ lo) : A.Follows lo' θ μ θ' μ' :=
  { h with temps := fun t ht => h.temps t (Nat.lt_of_lt_of_le ht hlo) }

/-- An operand that was there before has the value that it had. -/
theorem value? (h : A.Follows lo θ μ θ' μ') {x : Operand} (hx : x.Fits lo) :
    μ'.value? x = μ.value? x := by
  cases x with
  | temp id => simp only [Config.value?, h.temps id hx]
  | _ => exact Eq.refl _

theorem set (hlo : lo ≤ dest) : A.Follows lo θ μ θ (μ.set dest mv) := by
  refine ⟨fun t ht => ?_, List.prefix_refl _, fun _ h => .inl h, le_rfl, fun _ _ _ _ => Eq.refl _⟩
  exact Config.temps_set_of_ne (by omega)

/-- A store to a slot, an object or an array. -/
theorem write {a : Address} (ha : A.Owns a.allocation ∨ a.allocation ∈ θ.places) :
    A.Follows lo θ μ θ (μ.write a mv) := by
  refine ⟨fun _ _ => Eq.refl _, List.prefix_refl _, fun _ h => .inl h, ?_, fun b _ hθ hown => ?_⟩
  · simp
  · refine Memory.allocations_put_of_ne fun hb => ?_
    subst hb
    exact ha.elim hown hθ

theorem print {n : Int32} : A.Follows lo θ μ θ (μ.print n) :=
  ⟨fun _ _ => Eq.refl _, List.prefix_refl _, fun _ h => .inl h, le_rfl, fun _ _ _ _ => Eq.refl _⟩

end Follows

namespace Running

variable (h : A.Running locals θ σ μ)
include h

theorem set (hd : A.Free dest) : A.Running locals θ σ (μ.set dest mv) := by
  refine ⟨?_, h.output, h.heap, fun d type hs => ?_, h.apart, h.vars, fun t ht => ?_⟩
  · rw [Config.size_temps_set, h.size]
  · obtain ⟨htemp, hcovers, hplace⟩ := h.slots d type hs
    refine ⟨?_, hcovers, hplace⟩
    rw [Config.temps_set_of_ne, htemp]
    rintro rfl
    exact hd.1 type hs
  · obtain ⟨r, c, mw, hself, hc, htemp, hshows⟩ := h.self t ht
    refine ⟨r, c, mw, hself, hc, ?_, hshows⟩
    rw [Config.temps_set_of_ne, htemp]
    rintro rfl
    exact hd.2 ht

/-- A store to an allocation of the activation that holds no variable. -/
theorem write_scratch {type : Ty} (hs : .alloca dest type ∈ A.procedure.slots) (hp : A.Placed)
    (hvars : ∀ x ∈ A.job.vars, x.2 ≠ dest) :
    A.Running locals θ σ (μ.write ⟨A.place dest, 0⟩ mv) := by
  have hplace := (h.slots dest type hs).2.2
  refine ⟨h.size, h.output, h.heap.congr fun a ha => ?_, fun d type hs => ?_, h.apart,
    fun x hx => ?_, h.self⟩
  · refine Memory.allocations_put_of_ne fun heq => hplace ?_
    rwa [show a = _ from heq] at ha
  · obtain ⟨htemp, hcovers, hplace⟩ := h.slots d type hs
    exact ⟨htemp, Memory.covers_put.2 hcovers, hplace⟩
  · obtain ⟨mw, hget, hshows⟩ := h.vars x hx
    obtain ⟨type', hs'⟩ := hp.slots x hx
    refine ⟨mw, ?_, hshows⟩
    rw [Config.memory_write, Memory.get?_put_of_ne, hget]
    intro heq
    injection heq with hplace
    exact hvars x hx (h.apart _ _ _ _ hs' hs hplace)

/-- A variable is assigned. -/
theorem write_var (hp : A.Placed) {x : VarDecl × Nat} (hx : x ∈ A.job.vars)
    (hv : Shows A.job.program θ v x.1.plain mv) :
    A.Running (locals.set x.1.id v) θ σ (μ.write ⟨A.place x.2, 0⟩ mv) := by
  obtain ⟨type, hs⟩ := hp.slots x hx
  obtain ⟨_, hcovers, hplace⟩ := h.slots x.2 type hs
  refine ⟨h.size, h.output, h.heap.congr fun a ha => ?_, fun d type hs => ?_, h.apart,
    fun y hy => ?_, h.self⟩
  · refine Memory.allocations_put_of_ne fun heq => hplace ?_
    rwa [show a = _ from heq] at ha
  · obtain ⟨htemp, hcovers, hplace⟩ := h.slots d type hs
    exact ⟨htemp, Memory.covers_put.2 hcovers, hplace⟩
  · by_cases hxy : y = x
    · subst hxy
      refine ⟨mv, Memory.get?_put_self hcovers, ?_⟩
      rw [Locals.set, if_pos rfl]
      exact hv
    · obtain ⟨mw, hget, hshows⟩ := h.vars y hy
      obtain ⟨type', hs'⟩ := hp.slots y hy
      have htemp : y.2 ≠ x.2 := fun heq => hxy (List.inj_on_of_nodup_map hp.temps hy hx heq)
      have hid : y.1.id ≠ x.1.id := fun heq => hxy (List.inj_on_of_nodup_map hp.ids hy hx heq)
      refine ⟨mw, ?_, ?_⟩
      · rw [Config.memory_write, Memory.get?_put_of_ne, hget]
        intro heq
        injection heq with hplace
        exact htemp (h.apart _ _ _ _ hs' hs hplace)
      · rw [Locals.set, if_neg hid]
        exact hshows

/-- An object or array is changed. -/
theorem write_heap (hp : A.Placed) {heap : List Entity} {a : Address} (ha : a.allocation ∈ θ.places)
    (hheap : HeapShown A.job.program θ heap (μ.memory.put a mv)) :
    A.Running locals θ { σ with heap } (μ.write a mv) := by
  have hne : ∀ {d : Nat} {type : Ty}, .alloca d type ∈ A.procedure.slots →
      A.place d ≠ a.allocation := fun hs heq => (h.slots _ _ hs).2.2 (heq ▸ ha)
  refine ⟨h.size, h.output, hheap, fun d type hs => ?_, h.apart, fun x hx => ?_, h.self⟩
  · obtain ⟨htemp, hcovers, hplace⟩ := h.slots d type hs
    exact ⟨htemp, Memory.covers_put.2 hcovers, hplace⟩
  · obtain ⟨mw, hget, hshows⟩ := h.vars x hx
    obtain ⟨type, hs⟩ := hp.slots x hx
    refine ⟨mw, ?_, hshows⟩
    rw [Config.memory_write, Memory.get?_put_of_ne, hget]
    rintro rfl
    exact hne hs rfl

theorem print (n : Int32) : A.Running locals θ (σ.print n) (μ.print n) := by
  refine ⟨h.size, ?_, h.heap, h.slots, h.apart, h.vars, h.self⟩
  simp [Config.print, Store.print, h.output]

/-- Other functions have run: they changed objects and arrays and made new allocations. -/
theorem elsewhere (hp : A.Placed) {memory : Memory} {output : Array Int32}
    (hheap : HeapShown A.job.program θ' σ'.heap memory) (hout : output.toList = σ'.output)
    (hθ : θ <+: θ') (hfresh : ∀ a ∈ θ'.places, a ∈ θ.places ∨ μ.memory.count ≤ a)
    (hmemory : ∀ a < μ.memory.count, a ∉ θ.places →
      memory.allocations[a]? = μ.memory.allocations[a]?) :
    A.Running locals θ' σ' { μ with memory, output } := by
  have hkeep : ∀ {d : Nat} {type : Ty}, .alloca d type ∈ A.procedure.slots →
      memory.allocations[A.place d]? = μ.memory.allocations[A.place d]? := by
    intro d type hs
    obtain ⟨_, hcovers, hplace⟩ := h.slots d type hs
    exact hmemory _ hcovers.lt_count hplace
  refine ⟨h.size, hout, hheap, fun d type hs => ?_, h.apart, fun x hx => ?_, fun t ht => ?_⟩
  · obtain ⟨htemp, hcovers, hplace⟩ := h.slots d type hs
    refine ⟨htemp, ?_, fun hm => ?_⟩
    · obtain ⟨size, hsize, hlt⟩ := hcovers
      exact ⟨size, (Memory.sizeAt?_congr (hkeep hs)).trans hsize, hlt⟩
    · rcases hfresh _ hm with hm | hm
      · exact hplace hm
      · exact Nat.lt_irrefl _ (Nat.lt_of_lt_of_le hcovers.lt_count hm)
  · obtain ⟨mw, hget, hshows⟩ := h.vars x hx
    obtain ⟨type, hs⟩ := hp.slots x hx
    exact ⟨mw, (Memory.get?_congr (hkeep hs)).trans hget, hshows.mono hθ⟩
  · obtain ⟨r, c, mw, hself, hc, htemp, hshows⟩ := h.self t ht
    exact ⟨r, c, mw, hself, hc, htemp, hshows.mono hθ⟩

end Running

end Act
end ObjectLang
