import Mathlib.Tactic
import ObjectLang.Proofs.Machine.Moves

/-!
# Entering a procedure

A procedure that is entered has its arguments in the temporaries of its parameters. Then it takes
memory for its slots, one after the other: each slot gets an allocation of its own, and nothing that
was there before changes.
-/
namespace ObjectLang.Machine

open IR

section arguments

/-- Temporaries with some of them assigned, one after the other. -/
def assignAll (temps : Array (Option Value)) (values : List (Nat × Value)) : Array (Option Value) :=
  values.foldl (fun temps (id, v) => temps.setIfInBounds id (some v)) temps

theorem size_assignAll (values : List (Nat × Value)) (temps : Array (Option Value)) :
    (assignAll temps values).size = temps.size := by
  induction values generalizing temps with
  | nil => rfl
  | cons x values ih => exact (ih _).trans Array.size_setIfInBounds

theorem getElem?_assignAll_of_notMem {values : List (Nat × Value)} {temps : Array (Option Value)}
    {id : Nat} (h : id ∉ values.map Prod.fst) : (assignAll temps values)[id]? = temps[id]? := by
  induction values generalizing temps with
  | nil => rfl
  | cons x values ih =>
      simp only [List.map_cons, List.mem_cons, not_or] at h
      refine (ih h.2).trans ?_
      rw [Array.getElem?_setIfInBounds, if_neg (Ne.symm h.1)]

theorem getElem?_assignAll {values : List (Nat × Value)} {temps : Array (Option Value)}
    (hkeys : (values.map Prod.fst).Nodup) {id : Nat} {v : Value} (hid : id < temps.size)
    (h : (id, v) ∈ values) : (assignAll temps values)[id]? = some (some v) := by
  induction values generalizing temps with
  | nil => cases h
  | cons x values ih =>
      obtain ⟨hx, hkeys⟩ := List.nodup_cons.1 hkeys
      rcases List.mem_cons.1 h with rfl | h
      · refine (getElem?_assignAll_of_notMem hx).trans ?_
        rw [Array.getElem?_setIfInBounds, if_pos rfl, if_pos hid]
      · exact ih hkeys (by simpa using hid) h

/-- The frame of a procedure that is entered. -/
theorem enter_eq {m : Module} {id : Nat} {p : Procedure} {args : List Value} {entry : Block}
    (hp : m.procedures[id]? = some p) (hargs : p.params.length = args.length)
    (hentry : p.blocks[0]? = some entry) :
    enter m id args = .ok ⟨p, 0, entry.instructions,
      assignAll (Array.replicate p.temps.size none) (p.params.zip args)⟩ := by
  have hfold : ∀ (values : List (Nat × Value)) (temps : Array (Option Value)),
      values.foldl (fun f (id, v) => f.set id v) (Frame.mk p 0 entry.instructions temps) =
        ⟨p, 0, entry.instructions, assignAll temps values⟩ := by
    intro values
    induction values with
    | nil => exact fun _ => rfl
    | cons x values ih => exact fun temps => ih _
  simp only [enter, hp, hargs, ne_eq, not_true_eq_false, if_false, hentry]
  exact congrArg _ (hfold _ _)

end arguments

/-- The slots of a procedure have been taken: each has an allocation at a place of its own. -/
structure Reserved (allocas : List Instruction) (μ : Config) (place : Nat → Nat) (μ' : Config) :
    Prop where
  size : μ'.temps.size = μ.temps.size
  output : μ'.output = μ.output
  slots : ∀ dest type, .alloca dest type ∈ allocas →
    μ'.temps[dest]? = some (some (.pointer (some ⟨place dest, 0⟩))) ∧
      μ'.memory.Covers ⟨place dest, 0⟩ ∧ μ.memory.count ≤ place dest
  apart : ∀ dest type dest' type', .alloca dest type ∈ allocas → .alloca dest' type' ∈ allocas →
    place dest = place dest' → dest = dest'
  temps : ∀ t, (∀ type, .alloca t type ∉ allocas) → μ'.temps[t]? = μ.temps[t]?
  count : μ.memory.count ≤ μ'.memory.count
  memory : ∀ a < μ.memory.count, μ'.memory.allocations[a]? = μ.memory.allocations[a]?

variable {m : Module} {p : Procedure} {callers : List (Nat × Frame)} {c : Nat}
  {rest : List Instruction}

/-- One more slot is taken before others. -/
theorem Reserved.cons {slots : List Instruction} {μ μ' : Config} {place : Nat → Nat} {dest : Nat}
    {type : Ty} {size : Nat} (h : Reserved slots (μ.allocate dest size) place μ')
    (hdest : dest < μ.temps.size) (hsize : 0 < size) :
    ∃ place', Reserved (.alloca dest type :: slots) μ place' μ' := by
  classical
  have hcount : (μ.allocate dest size).memory.count = μ.memory.count + 1 := by
    simp [Config.allocate]
  have hkept : ∀ a < μ.memory.count,
      μ'.memory.allocations[a]? = μ.memory.allocations[a]? := fun a ha =>
    (h.memory a (by omega)).trans (Memory.allocations_allocate_of_lt ha)
  -- A temporary that gets several slots points to the last one.
  let place' := fun d => if ∃ type, .alloca d type ∈ slots then place d else μ.memory.count
  have hlater : ∀ {d : Nat} {type : Ty}, .alloca d type ∈ slots → place' d = place d :=
    fun hd => if_pos ⟨_, hd⟩
  have hhere : ∀ {d : Nat}, (∀ type, .alloca d type ∉ slots) → place' d = μ.memory.count :=
    fun hd => if_neg fun ⟨type, ht⟩ => hd type ht
  have hslots : ∀ d type', .alloca d type' ∈ Instruction.alloca dest type :: slots →
      (∃ type, .alloca d type ∈ slots) ∨ (∀ type, .alloca d type ∉ slots) ∧ d = dest := by
    intro d type' hd
    by_cases hex : ∃ type, .alloca d type ∈ slots
    · exact .inl hex
    · refine .inr ⟨fun t ht => hex ⟨t, ht⟩, ?_⟩
      rcases List.mem_cons.1 hd with hd | hd
      · injection hd
      · exact (hex ⟨_, hd⟩).elim
  refine ⟨place', ?_, h.output, fun d type' hd => ?_, fun d t d' t' hd hd' heq => ?_,
    fun t ht => ?_, by have := h.count; omega, hkept⟩
  · rw [h.size, Config.allocate, Config.size_temps_set]
  · rcases hslots d type' hd with ⟨t, ht⟩ | ⟨hnone, rfl⟩
    · obtain ⟨htemp, hcovers, hle⟩ := h.slots d t ht
      rw [hlater ht]
      exact ⟨htemp, hcovers, by omega⟩
    · rw [hhere hnone]
      refine ⟨?_, ⟨size, ?_, hsize⟩, le_rfl⟩
      · rw [h.temps d hnone]
        simp [Config.allocate, Config.set, hdest]
      · rw [Memory.sizeAt?_congr (h.memory _ (by simp only; omega))]
        exact Memory.sizeAt?_allocate
  · rcases hslots d t hd with ⟨t, ht⟩ | ⟨hnone, rfl⟩ <;>
      rcases hslots d' t' hd' with ⟨t', ht'⟩ | ⟨hnone', rfl⟩
    · rw [hlater ht, hlater ht'] at heq
      exact h.apart _ _ _ _ ht ht' heq
    · have := (h.slots d t ht).2.2
      rw [hlater ht, hhere hnone'] at heq
      omega
    · have := (h.slots d' t' ht').2.2
      rw [hlater ht', hhere hnone] at heq
      omega
    · rfl
  · have hne : t ≠ dest := fun heq => ht type (heq ▸ List.mem_cons_self ..)
    rw [h.temps t fun type hm => ht type (List.mem_cons_of_mem _ hm)]
    exact Config.temps_set_of_ne hne

/-- The slots that a block starts with are taken one after the other. -/
theorem exists_reserved : ∀ (slots : List Instruction) (μ : Config),
    (∀ i ∈ slots, ∃ dest type size, i = .alloca dest type ∧ dest < μ.temps.size ∧
      m.measure Profile.overflow.word type = .ok size ∧ 0 < size) →
    ∃ place μ', Steps m slots.length (μ.state p callers (c, slots ++ rest))
      (μ'.state p callers (c, rest)) ∧ Reserved slots μ place μ'
  | [], μ, _ => ⟨fun _ => 0, μ, .refl _, rfl, rfl, nofun, nofun, fun _ _ => rfl, le_rfl,
      fun _ _ => rfl⟩
  | i :: slots, μ, h => by
      simp only [List.forall_mem_cons] at h
      obtain ⟨⟨dest, type, size, rfl, hdest, hsize, hpos⟩, h⟩ := h
      obtain ⟨place, μ', hsteps, hreserved⟩ := exists_reserved slots (μ.allocate dest size)
        (by simpa [Config.allocate] using h)
      obtain ⟨place', hreserved'⟩ := Reserved.cons hreserved hdest hpos
      exact ⟨place', μ', .head (step_alloca hsize) hsteps, hreserved'⟩

end ObjectLang.Machine
