import ObjectLang.Proofs.Analysis.Recorded
import ObjectLang.Proofs.Analysis.Tables

/-!
# Declarations one after the other

Fields, methods and parameters are declared one after the other, each under a name that none before
it has. The three go the same way: what one declaration does is repeated for all of them.
-/
namespace ObjectLang

variable {p : Program}

namespace Check

open Findings

variable {σ δ : Type}

/-- A declaration is silent exactly if its name is new and it is fine in itself. -/
structure Declares (p : Program) (name : δ → String) (known : ArrayTypes → σ → List δ → Prop)
    (ok : δ → Prop) (recorded : ArrayTypes → Notes → δ → Prop) (earlier : List δ) (d : δ)
    (m : Check σ) (f : Findings) : Prop where
  sound : Silent m f → (∀ x ∈ earlier, name x ≠ name d) ∧ ok d ∧
    known (m.after f).arrays (m.value f) (earlier ++ [d]) ∧
      recorded (m.after f).arrays (m.after f).notes d ∧ f.Grows p [] (m.after f)
  complete : (∀ x ∈ earlier, name x ≠ name d) → ok d → Silent m f

/-- All declarations are silent exactly if their names are different and each is fine in itself. -/
theorem foldlM_spec (name : δ → String) (known : ArrayTypes → σ → List δ → Prop) (ok : δ → Prop)
    (recorded : ArrayTypes → Notes → δ → Prop) {g : σ → δ → Check σ} [∀ s d, Adds (g s d)]
    (hrecorded : ∀ (f h : Findings) d, f.Grows p [] h → recorded f.arrays f.notes d →
      recorded h.arrays h.notes d) {ds : List δ}
    (hg : ∀ d ∈ ds, ∀ s earlier f, f.Sound p → known f.arrays s earlier →
      Declares p name known ok recorded earlier d (g s d) f) :
    ∀ {s : σ} (earlier : List δ) {f : Findings}, f.Sound p → known f.arrays s earlier →
      (earlier.map name).Nodup →
      (Silent (ds.foldlM g s) f → ((earlier ++ ds).map name).Nodup ∧ (∀ d ∈ ds, ok d) ∧
        known (Check.after (ds.foldlM g s) f).arrays (Check.value (ds.foldlM g s) f)
          (earlier ++ ds) ∧
        (∀ d ∈ ds, recorded (Check.after (ds.foldlM g s) f).arrays
          (Check.after (ds.foldlM g s) f).notes d) ∧
        f.Grows p [] (Check.after (ds.foldlM g s) f)) ∧
      (((earlier ++ ds).map name).Nodup → (∀ d ∈ ds, ok d) → Silent (ds.foldlM g s) f) := by
  induction ds with
  | nil =>
      intro s earlier f _ hknown hnodup
      rw [List.append_nil]
      exact ⟨fun _ => ⟨hnodup, by simp, hknown, by simp, .rfl⟩, fun _ _ => rfl⟩
  | cons d ds ih =>
      intro s earlier f hf hknown hnodup
      rw [List.forall_mem_cons] at hg
      obtain ⟨hsound, hcomplete⟩ := hg.1 s earlier f hf hknown
      have hnew : (∀ x ∈ earlier, name x ≠ name d) ↔ ((earlier ++ [d]).map name).Nodup := by
        rw [List.map_append, List.nodup_append']
        simp [hnodup, List.disjoint_singleton]
      have happend : earlier ++ d :: ds = (earlier ++ [d]) ++ ds := by simp
      have hrest := fun h => ih hg.2 (earlier ++ [d]) ((hsound h).2.2.2.2.sound hf) (hsound h).2.2.1
        (hnew.1 (hsound h).1)
      rw [List.foldlM_cons, silent_bind, happend]
      simp only [after_bind, value_bind]
      constructor
      · rintro ⟨h, h'⟩
        obtain ⟨_, hok, _, hr, hgrow⟩ := hsound h
        obtain ⟨hnodup', hoks, hk, hrs, hgrows⟩ := (hrest h).1 h'
        refine ⟨hnodup', List.forall_mem_cons.2 ⟨hok, hoks⟩, hk, ?_, hgrow.trans hgrows⟩
        exact List.forall_mem_cons.2 ⟨hrecorded _ _ _ hgrows hr, hrs⟩
      · intro hnodup' hok
        rw [List.forall_mem_cons] at hok
        have hd : ((earlier ++ [d]).map name).Nodup := by
          rw [List.map_append] at hnodup'
          exact (List.nodup_append'.1 hnodup').1
        have h := hcomplete (hnew.2 hd) hok.1
        exact ⟨h, (hrest h).2 hnodup' hok.2⟩

end Check

/-- A name is taken among the fields of a class exactly if a declared one has it. -/
theorem isSome_find?_iff {α β : Type} {R : α → β → Prop} (name : α → String) (name' : β → String)
    (hR : ∀ x y, R x y → name x = name' y) {xs : List α} {ys : List β} (h : List.Forall₂ R xs ys)
    (n : String) : (xs.find? (name · == n)).isSome = false ↔ ∀ y ∈ ys, name' y ≠ n := by
  induction h with
  | nil => simp
  | @cons x y _ _ hxy _ ih =>
      rw [List.find?_cons, List.forall_mem_cons, ← ih, hR _ _ hxy]
      by_cases hn : name' y = n
      · simp [hn]
      · simp [beq_eq_false_iff_ne.2 hn, hn]

end ObjectLang
