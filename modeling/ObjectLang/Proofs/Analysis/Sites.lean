import Mathlib.Tactic
import ObjectLang.Analysis.Diagnostic
import ObjectLang.Proofs.Parsing.Marks

/-!
# Where diagnostics stand

A diagnostic points to a node of the program and says something of some concern about it. Each node
has a few concerns, which belong to its sort alone; so in a program that was read, each concern of
each node has a site of its own, and diagnostics with different sites differ.
-/
namespace ObjectLang

/-- What a diagnostic is about. -/
inductive Concern where
  | hierarchy
  | superclass
  | function
  | start
  | startResult
  | startParameters
  | startEnding
  | ending
  | reached
  | reference
  | arity
  | parameter
  | result
  | value
  | use
  | returned
deriving DecidableEq

/-- A concern with the place of the node that it is about. -/
abbrev Site :=
  Concern × Option Span

/-- Whether a site is that of a concern at a place, as a number. -/
def Concern.at (c : Concern) (span : Span) (x : Site) : Nat :=
  [(c, some span)].count x

theorem count_sites {α : Type} (site : α → Site) (x : Site) (l : List α) :
    (l.map site).count x = (l.map fun a => [site a].count x).sum := by
  induction l with
  | nil => rfl
  | cons a l ih =>
      rw [List.map_cons, List.map_cons, List.sum_cons, ← ih, ← List.count_append]
      rfl

namespace Diagnostic

def concern : Diagnostic → Concern
  | .duplicateClass .. | .cyclicInheritance .. => .hierarchy
  | .undeclaredSuperclass .. => .superclass
  | .duplicateFunction .. => .function
  | .missingMain => .start
  | .mainReturnType _ => .startResult
  | .mainParameters _ => .startParameters
  | .mainMissingReturn _ => .startEnding
  | .missingReturn .. => .ending
  | .unreachableStatement _ => .reached
  | .duplicateField .. | .duplicateMethod .. | .duplicateParameter .. | .duplicateVariable ..
  | .undeclaredClass .. | .unknownVariable .. | .unknownField .. | .unknownMethod ..
  | .unknownFunction .. => .reference
  | .overrideParameterCount .. => .arity
  | .overrideParameterType .. => .parameter
  | .overrideReturnType .. => .result
  | .incomparableTypes .. | .thisOutsideMethod _ | .tooManyArguments ..
  | .notEnoughArguments .. => .value
  | .typeMismatch .. | .notAnArray .. | .notAClass .. | .invalidAssignment ..
  | .invalidCondition .. => .use
  | .invalidReturn .. => .returned

/-- Where a diagnostic stands, without its kind and what it says. -/
def site (d : Diagnostic) : Site :=
  (d.concern, d.span?)

end Diagnostic

section counting

variable (x : Site)

theorem count_map_append (ds es : List Diagnostic) : ((ds ++ es).map Diagnostic.site).count x =
    (ds.map Diagnostic.site).count x + (es.map Diagnostic.site).count x := by
  rw [List.map_append, List.count_append]

theorem count_unless (condition : Bool) (d : Diagnostic) :
    ((if condition then [] else [d]).map Diagnostic.site).count x ≤ [d.site].count x := by
  cases condition with
  | true => exact Nat.zero_le _
  | false => exact Nat.le_refl _

theorem count_flatMap {α : Type} (k : α → List Diagnostic) (l : List α) :
    ((l.flatMap k).map Diagnostic.site).count x =
      (l.map fun a => ((k a).map Diagnostic.site).count x).sum := by
  rw [List.map_flatMap, List.count_flatMap]
  rfl

end counting

namespace Phrase

/-- What can be wrong with a node before the bodies are looked at. -/
def earlyConcerns : Phrase → List Concern
  | .name _ => [.hierarchy, .superclass, .function, .startEnding, .ending]
  | .type _ => [.startResult]
  | .param _ => [.startParameters]
  | .stmt _ => [.reached]
  | .expr _ | .location _ | .decl _ | .body .. | .function _ | .cls _ => []

/-- What else can be wrong with a node. -/
def lateConcerns : Phrase → List Concern
  | .name _ => [.reference, .arity]
  | .type _ => [.result]
  | .expr _ => [.value, .use]
  | .param _ => [.parameter]
  | .stmt _ => [.returned]
  | .location _ | .decl _ | .body .. | .function _ | .cls _ => []

/-- The sites of some concerns of some nodes. -/
def sitesOf (concerns : Phrase → List Concern) (ns : List Phrase) : List Site :=
  ns.flatMap fun n => (concerns n).map (·, some n.span)

/-- How often a site is that of some concerns of some nodes. -/
def sitesAt (concerns : Phrase → List Concern) (x : Site) (ns : List Phrase) : Nat :=
  (sitesOf concerns ns).count x

variable {concerns concerns' : Phrase → List Concern} {x : Site} {n : Phrase} {ns ms : List Phrase}

theorem sitesAt_append : sitesAt concerns x (ns ++ ms) =
    sitesAt concerns x ns + sitesAt concerns x ms := by
  simp [sitesAt, sitesOf]

theorem sitesAt_cons : sitesAt concerns x (n :: ns) =
    ((concerns n).map fun c => c.at n.span x).sum + sitesAt concerns x ns := by
  rw [sitesAt, sitesOf, List.flatMap_cons, List.count_append, count_sites]
  rfl

theorem sitesAt_flatMap {α : Type} {k : α → List Phrase} {l : List α} :
    sitesAt concerns x (l.flatMap k) = (l.map fun a => sitesAt concerns x (k a)).sum := by
  rw [sitesAt, sitesOf, List.flatMap_assoc, List.count_flatMap]
  rfl

theorem sitesAt_le_of_sublist (h : ns.Sublist ms) : sitesAt concerns x ns ≤ sitesAt concerns x ms :=
  (h.flatMap _).count_le x

theorem sitesAt_add : sitesAt (fun n => concerns n ++ concerns' n) x ns =
    sitesAt concerns x ns + sitesAt concerns' x ns := by
  induction ns with
  | nil => rfl
  | cons n ns ih =>
      rw [sitesAt_cons, sitesAt_cons, sitesAt_cons, ih, List.map_append, List.sum_append]
      omega

/-- A concern belongs to one sort of nodes. -/
theorem mark_eq_of_concern {m n : Phrase} {c : Concern}
    (hm : c ∈ m.earlyConcerns ++ m.lateConcerns) (hn : c ∈ n.earlyConcerns ++ n.lateConcerns)
    (hspan : m.span = n.span) : m.mark = n.mark := by
  cases c <;> cases m <;> simp [earlyConcerns, lateConcerns] at hm <;>
    cases n <;> simp [earlyConcerns, lateConcerns] at hn <;>
      simp_all [mark, tier, extent, span]

theorem nodup_sitesOf (h : (ns.map mark).Nodup) :
    (sitesOf (fun n => n.earlyConcerns ++ n.lateConcerns) ns).Nodup := by
  refine List.nodup_flatMap.2 ⟨fun n _ => ?_, (List.pairwise_map.1 h).imp fun hne => ?_⟩
  · refine List.Nodup.map (fun _ _ heq => (Prod.mk.inj heq).1) ?_
    cases n <;> simp [earlyConcerns, lateConcerns]
  · intro x hm hn
    obtain ⟨c, hc, rfl⟩ := List.mem_map.1 hm
    obtain ⟨d, hd, heq⟩ := List.mem_map.1 hn
    obtain ⟨rfl, hspan⟩ := Prod.mk.inj heq
    exact hne (mark_eq_of_concern hc hd (Option.some.inj hspan).symm)

end Phrase

end ObjectLang
