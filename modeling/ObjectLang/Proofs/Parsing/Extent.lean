import Mathlib.Tactic
import ObjectLang.Proofs.Parsing.Identities
import ObjectLang.Proofs.Semantics.Fields

/-!
# How large objects are

A text has at most as many fields as characters, as each field has a token of its own. So only the
objects of a huge program are huge.
-/
namespace ObjectLang

namespace Token

/-- Each token has a character of its own. -/
theorem length_scanFrom_le (p : Place) (text : List Char) :
    (scanFrom p text).tokens.length ≤ text.length := by
  fun_induction scanFrom p text with
  | case1 p => exact Nat.le_refl 0
  | case2 p c text _ ih => exact Nat.le_succ_of_le ih
  | case3 p c text _ _ comment ih =>
      exact Nat.le_succ_of_le (ih.trans (length_dropWhile_le _ _))
  | case4 p c text _ _ _ body rest hclose ih =>
      have hlength := length_closeComment hclose
      rw [List.length_tail] at hlength
      rw [List.length_cons]
      omega
  | case5 p c text => exact Nat.zero_le _
  | case6 p c text _ _ _ lexeme ih =>
      exact Nat.succ_le_succ (ih.trans (length_lead_le c text))

theorem length_scan_le (source : String) : (scan source).tokens.length ≤ source.length :=
  length_scanFrom_le _ _

end Token

/-- How many fields the classes of a program declare. -/
def Program.fieldCount (p : Program) : Nat :=
  (p.classes.map (·.fields.length)).sum

namespace Parsing

theorem length_members_le {s : Stream} {r : Parsed s 0 (List Member)} (h : members s = .ok r) :
    r.value.length + r.rest.size ≤ s.size := by
  rw [members] at h
  split at h
  · cases h
    exact (Nat.zero_add _).le
  · obtain ⟨m, hm, h⟩ := bind_eq_ok.1 h
    obtain ⟨ms, hms, h⟩ := bind_eq_ok.1 h
    cases h
    have hrest := length_members_le hms
    have hused := m.used
    simp only [Parsed.weaken, Parsed.map, Parsed.join, List.length_cons]
    omega
termination_by s.size
decreasing_by
  have := m.used
  omega

theorem length_fields_le {s : Stream} {r : Parsed s 1 ClassDecl} (h : classDecl s = .ok r) :
    r.value.fields.length + r.rest.size ≤ s.size := by
  simp only [classDecl, Parsed.andThen, bind_eq_ok] at h
  obtain ⟨start, hstart, name, ⟨n, hn, hname⟩, superclass, ⟨x, hx, hsuper⟩, opened,
    ⟨o, ho, hopen⟩, ms, ⟨m, hm, hms⟩, close, ⟨c, hc, hclose⟩, hr⟩ := h
  cases hms
  cases hclose
  cases hr
  have hmembers := length_members_le hm
  have hfields := List.length_filterMap_le Member.field? m.value
  have hopened := opened.used
  have hused := c.used
  simp only [Parsed.join, Parsed.map] at hused hfields ⊢
  omega

theorem fieldCount_declarations_le {s : Stream}
    {r : Parsed s 0 (List ClassDecl × List FunctionDecl)} (h : declarations s = .ok r) :
    (r.value.1.map (·.fields.length)).sum + r.rest.size ≤ s.size := by
  rw [declarations] at h
  split at h
  · cases h
    exact (Nat.zero_add _).le
  · split at h
    · obtain ⟨c, hc, h⟩ := bind_eq_ok.1 h
      obtain ⟨more, hmore, h⟩ := bind_eq_ok.1 h
      cases h
      have hused := c.used
      have hfirst := length_fields_le hc
      have hrest := fieldCount_declarations_le hmore
      simp only [Parsed.weaken, Parsed.map, Parsed.join, List.map_cons, List.sum_cons]
      omega
    · obtain ⟨f, hf, h⟩ := bind_eq_ok.1 h
      obtain ⟨more, hmore, h⟩ := bind_eq_ok.1 h
      cases h
      have hused := f.used
      exact (fieldCount_declarations_le hmore).trans (by omega)
termination_by s.size
decreasing_by all_goals omega

end Parsing

namespace Program

variable {p : Program}

/-- A text has at most as many fields as characters. -/
theorem fieldCount_ofText_le {source : String} (h : ofText source = .ok p) :
    p.fieldCount ≤ source.length := by
  obtain ⟨_, r, hr, rfl⟩ := ofText_eq_ok.1 h
  exact (Nat.le_add_right ..).trans
    ((Parsing.fieldCount_declarations_le hr).trans (Token.length_scan_le source))

/-- An object has no more fields than the program. -/
theorem Hierarchy.length_fieldsOf_le (hh : p.Hierarchy)
    (hf : ∀ c ∈ p.classes, (c.fields.map (·.name.name)).Nodup) (cls : String) :
    (p.fieldsOf cls).length ≤ p.fieldCount := by
  have hsub : p.fieldsOf cls ⊆
      p.classes.flatMap fun c => c.fields.map fun d => (c.name.name, d) := by
    intro x hx
    obtain ⟨c, hc, hx⟩ := List.mem_flatMap.1 hx
    exact List.mem_flatMap.2 ⟨c, mem_classes_of_mem_lineage (List.mem_reverse.1 hc), hx⟩
  have hlength := (((hh.nodup_fieldsOf hf cls).of_map).subperm hsub).length_le
  simpa [fieldCount, List.length_flatMap] using hlength

/-- An object takes at most eight bytes for each field of the program. -/
theorem Hierarchy.objectSize_le (hh : p.Hierarchy)
    (hf : ∀ c ∈ p.classes, (c.fields.map (·.name.name)).Nodup) (cls : String) :
    p.objectSize cls ≤ 8 * p.fieldCount := by
  have hsizes : ∀ n ∈ (p.fieldsOf cls).map fun field => field.2.plain.size, n ≤ 8 := by
    intro n hn
    obtain ⟨field, _, rfl⟩ := List.mem_map.1 hn
    exact field.2.plain.size_le
  have hsum := List.sum_le_card_nsmul _ 8 hsizes
  rw [List.length_map, smul_eq_mul] at hsum
  have hlength := hh.length_fieldsOf_le hf cls
  rw [objectSize]
  omega

end Program

end ObjectLang
