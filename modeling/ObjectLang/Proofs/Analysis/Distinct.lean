import Mathlib.Tactic
import ObjectLang.Proofs.Analysis.EarlySites
import ObjectLang.Proofs.Analysis.ProgramSites

/-!
# Diagnostics differ

A program that was read has no two nodes of one sort with the same span, and each concern of each
node is reported at most once, whatever is wrong with the program. So no two diagnostics have one
site, and in particular none is there twice.
-/
namespace ObjectLang

/-- Whether a diagnostic says that a class is not declared that is named at a place. -/
def Diagnostic.isUndeclaredAt (span : Span) : Diagnostic → Bool
  | .undeclaredClass _ span' => span' == span
  | _ => false

theorem Diagnostic.site_of_isUndeclaredAt {span : Span} {d : Diagnostic}
    (h : d.isUndeclaredAt span = true) : d.site = (.reference, some span) := by
  cases d with
  | undeclaredClass name span' =>
      obtain rfl : span' = span := beq_iff_eq.1 h
      rfl
  | _ => cases h

namespace Program

variable {source : String} {p : Program}

/-- All sites at which something can be wrong with a program: that it has no start, and each concern
of each node. -/
def sites (p : Program) : List Site :=
  (.start, none) :: Phrase.sitesOf (fun n => n.earlyConcerns ++ n.lateConcerns) p.nodes

theorem count_sites (p : Program) (x : Site) : p.sites.count x =
    [(Concern.start, none)].count x + earlyAt x p.nodes + lateAt x p.nodes := by
  rw [sites, ← List.singleton_append, List.count_append, Nat.add_assoc]
  exact congrArg _ Phrase.sitesAt_add

/-- In a program that was read from a text, no two sites are the same. -/
theorem nodup_sites (h : ofText source = .ok p) : p.sites.Nodup := by
  refine List.nodup_cons.2 ⟨fun hmem => ?_, Phrase.nodup_sitesOf (nodup_marks h)⟩
  obtain ⟨n, _, hn⟩ := List.mem_flatMap.1 hmem
  obtain ⟨_, _, heq⟩ := List.mem_map.1 hn
  cases heq

/-- At each site something is reported at most as often as the program has it. -/
theorem count_diagnostics (hp : p.ids.Nodup) (printName : String) (x : Site) :
    ((p.analyze printName).diagnostics.map Diagnostic.site).count x ≤ p.sites.count x := by
  rw [(p.judged hp printName).diagnostics, count_map_append, count_sites]
  exact Nat.add_le_add (p.count_early x printName) (p.count_reports x)

/-- No two diagnostics have one site. -/
theorem nodup_diagnosticSites (h : ofText source = .ok p) (printName : String) :
    ((p.analyze printName).diagnostics.map Diagnostic.site).Nodup := by
  refine List.nodup_iff_count_le_one.2 fun x => ?_
  exact (count_diagnostics (p.numbered_ofText h).nodup printName x).trans
    (List.nodup_iff_count_le_one.1 (nodup_sites h) x)

/-- The diagnostics of a program that was read from a text are pairwise different, whatever is wrong
with it, and what stands at a place is reported as an undeclared class at most once. -/
theorem diagnostics_nodup (h : ofText source = .ok p) (printName : String) :
    (p.analyze printName).diagnostics.Nodup ∧
      ∀ span, (p.analyze printName).diagnostics.countP (Diagnostic.isUndeclaredAt span) ≤ 1 := by
  have hsites := nodup_diagnosticSites h printName
  refine ⟨List.Nodup.of_map Diagnostic.site hsites, fun span => ?_⟩
  have hle := List.nodup_iff_count_le_one.1 hsites (.reference, some span)
  rw [List.count, List.countP_map] at hle
  refine (List.countP_mono_left fun d _ hd => ?_).trans hle
  exact beq_iff_eq.2 (Diagnostic.site_of_isUndeclaredAt hd)

/-- Two signatures that name an undeclared class twice each, one overriding the other, with calls of
both from two bodies. -/
def signaturesText : String :=
  "class A { Foo m(Foo x) { return x; } } "
    ++ "class B extends A { Foo m(Foo x) { return this.m(this.m(x)); } } "
    ++ "int main() { B b; b = new B(); b.m(b.m(null)); return 0; }"

theorem diagnostics_nodup_signatures : ∃ p, ofText signaturesText = .ok p ∧
    ((p.analyze "printInt").diagnostics.Nodup ∧
      ∀ span, (p.analyze "printInt").diagnostics.countP (Diagnostic.isUndeclaredAt span) ≤ 1) ∧
    (p.analyze "printInt").diagnostics.map Diagnostic.message =
      List.replicate 4 "the type Foo is an undeclared class" := by
  obtain ⟨p, hp, hmessages⟩ := exists_ok_of_any (r := ofText signaturesText)
    (f := fun p => (p.analyze "printInt").diagnostics.map Diagnostic.message ==
      List.replicate 4 "the type Foo is an undeclared class") (by decide +kernel)
  exact ⟨p, hp, diagnostics_nodup hp "printInt", eq_of_beq hmessages⟩

end Program
end ObjectLang
