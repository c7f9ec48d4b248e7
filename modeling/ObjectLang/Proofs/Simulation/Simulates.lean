import Mathlib.Tactic
import ObjectLang.Proofs.Lowering.Procedures
import ObjectLang.Proofs.Machine.Steps
import ObjectLang.Proofs.Semantics.Evaluation

/-!
# Runs that show an evaluation

A run of the machine simulates an evaluation of the program: it gets to a state where the value is
at hand, or it halts with the same message, or it asks for more memory than one object or array may
have and misuses memory then, or it takes at least as many steps as the bound of the evaluation
says. What was printed is the same. No run simulates an evaluation that is stuck.
-/
namespace ObjectLang

open Machine IR

section

variable {α β : Type}

/-- The run from a state stops because it misuses memory. -/
def Misuses (m : Module) (s : State) : Prop :=
  ∃ n s' cause, Steps m n s s' ∧ step m s' = .stopped s'.world (.error (.access cause))

/-- The run from a state simulates an evaluation, and gets to a state with some property if that has
a value. -/
def Simulates (m : Module) (bound : Nat) (s : State) (r : Except Stop α × Store)
    (post : α → Store → State → Prop) : Prop :=
  match r with
  | (.ok a, σ) => ∃ n s', Steps m n s s' ∧ post a σ s'
  | (.error (.halt message), σ) =>
    ∃ n s', Steps m n s s' ∧ step m s' = .stopped s'.world (.error (.halt message)) ∧
      s'.world.output.toList = σ.output
  | (.error (.tooLarge what), σ) =>
    ∃ n s', Steps m n s s' ∧ (Oversized m what s' ∧ Misuses m s') ∧
      s'.world.output.toList = σ.output
  | (.error .timeout, σ) =>
    ∃ n s', bound ≤ n ∧ Steps m n s s' ∧ s'.world.output.toList = σ.output
  | (.error .stuck, _) => False

namespace Simulates

variable {m : Module} {bound bound' n : Nat} {s s' : State} {σ : Store}
  {r : Except Stop α × Store} {post post' : α → Store → State → Prop}
  {post'' : β → Store → State → Prop}

theorem timeout (h : s.world.output.toList = σ.output) :
    Simulates m 0 s ((throw .timeout : Eval α) σ) post :=
  ⟨0, s, Nat.zero_le _, .refl s, h⟩

/-- Some steps come first. -/
theorem steps (hs : Steps m n s s') (h : Simulates m bound s' r post) :
    Simulates m (n + bound) s r post := by
  obtain ⟨a | a, σ⟩ := r
  · cases a with
    | halt message =>
        obtain ⟨k, t, ht, hhalt⟩ := h
        exact ⟨n + k, t, hs.trans ht, hhalt⟩
    | tooLarge what =>
        obtain ⟨k, t, ht, hlarge⟩ := h
        exact ⟨n + k, t, hs.trans ht, hlarge⟩
    | timeout =>
        obtain ⟨k, t, hk, ht, hout⟩ := h
        exact ⟨n + k, t, Nat.add_le_add_left hk n, hs.trans ht, hout⟩
    | stuck => exact h
  · obtain ⟨k, t, ht, hpost⟩ := h
    exact ⟨n + k, t, hs.trans ht, hpost⟩

theorem mono (h : Simulates m bound s r post) (hb : bound' ≤ bound)
    (hpost : ∀ a σ s', post a σ s' → post' a σ s') : Simulates m bound' s r post' := by
  obtain ⟨a | a, σ⟩ := r
  · cases a with
    | halt message => exact h
    | tooLarge what => exact h
    | timeout =>
        obtain ⟨k, t, hk, ht⟩ := h
        exact ⟨k, t, hb.trans hk, ht⟩
    | stuck => exact h
  · obtain ⟨k, t, ht, hp⟩ := h
    exact ⟨k, t, ht, hpost a σ t hp⟩

/-- Some steps come first, which are not counted. -/
theorem after (hs : Steps m n s s') (h : Simulates m bound s' r post) :
    Simulates m bound s r post :=
  (h.steps hs).mono (Nat.le_add_left _ _) fun _ _ _ hp => hp

/-- More steps come once the value is at hand. -/
theorem extend (h : Simulates m bound s r post)
    (hpost : ∀ a σ s', post a σ s' → ∃ n t, Steps m n s' t ∧ post' a σ t) :
    Simulates m bound s r post' := by
  obtain ⟨a | a, σ⟩ := r
  · cases a <;> exact h
  · obtain ⟨k, t, ht, hp⟩ := h
    obtain ⟨n, u, hu, hp'⟩ := hpost a σ t hp
    exact ⟨k + n, u, ht.trans hu, hp'⟩

/-- One evaluation after the other. -/
theorem bind {x : Eval α} {f : α → Eval β} (h : Simulates m bound s (x σ) post)
    (hf : ∀ a σ' s', post a σ' s' → Simulates m bound s' (f a σ') post'') :
    Simulates m bound s ((x >>= f) σ) post'' := by
  rw [Eval.run_bind]
  cases hx : x σ with
  | mk a σ' =>
      rw [hx] at h
      cases a with
      | ok a =>
          obtain ⟨k, t, ht, hpost⟩ := h
          exact (hf a σ' t hpost).after ht
      | error e => cases e <;> exact h

end Simulates

end

end ObjectLang
