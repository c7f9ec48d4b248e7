import Mathlib.Tactic
import ObjectLang.Proofs.Analysis.ReorderingPrograms
import ObjectLang.Proofs.Renaming

/-!
# The order of declarations does not matter

Classes and functions may be declared in any order, as long as they have different names. The
analysis then says the same about a program, if not in the same order, and the program shows the
same when it runs, although its procedures and structs have other numbers.
-/
namespace ObjectLang

namespace Program.Reordered

variable {p p' : Program} (h : p.Reordered p')
include h

theorem counterpart : p.Counterpart id p' where
  injective := Function.injective_id
  classes := by
    have hsame : (fun c : ClassDecl => c.relabel (.rename id)) = id := funext ClassDecl.relabel_same
    rw [hsame, List.map_id]
    exact h.classes
  functions := by
    have hsame : (fun f : FunctionDecl => f.relabel (.rename id)) = id :=
      funext FunctionDecl.relabel_same
    rw [hsame, List.map_id]
    exact h.functions
  classNames := h.classNames
  functionNames := h.functionNames

theorem isAccepted {printName : String} (hp : p.ids.Nodup)
    (ha : (p.analyze printName).isAccepted = true) : (p'.analyze printName).isAccepted = true := by
  have hsame : SameReports (p.analyze printName).diagnostics (p'.analyze printName).diagnostics :=
    h.sameReports hp
  rw [Analysis.isAccepted, List.isEmpty_iff] at ha ⊢
  rw [ha] at hsame
  exact List.length_eq_zero_iff.1 hsame.length_eq.symm

/-- An accepted program runs in any order of its classes and functions as it does in another one. -/
theorem runsLike (options : CompileOptions) (hp : p.ids.Nodup)
    (ha : (p.analyze options.printFunction).isAccepted = true) :
    p.RunsLike p' options options :=
  h.counterpart.runsLike rfl rfl rfl hp (h.ids_perm.nodup_iff.1 hp) ha (h.isAccepted hp ha)

end Program.Reordered

/-- A program with its classes and functions in another order is reported on and runs as before. -/
theorem ofText_reorder {source : String} {options : CompileOptions} {p p' : Program}
    (hparse : Program.ofText source = .ok p) (hclassNames : (p.classes.map (·.name.name)).Nodup)
    (hfunctionNames : (p.functions.map (·.name.name)).Nodup)
    (hclasses : p.classes.Perm p'.classes) (hfunctions : p.functions.Perm p'.functions) :
    SameReports (p.analyze options.printFunction).diagnostics
        (p'.analyze options.printFunction).diagnostics ∧
      ((p.analyze options.printFunction).isAccepted = true → p.RunsLike p' options options) := by
  have h : p.Reordered p' := ⟨hclasses, hfunctions, hclassNames, hfunctionNames⟩
  have hp := (p.numbered_ofText hparse).nodup
  exact ⟨h.sameReports hp, h.runsLike options hp⟩

/-- A program whose functions and classes can all be used before they are declared. -/
def usingText : String :=
  "int main() { return get(new Even()); } int get(Odd o) { return o.number(); } " ++
    "class Even extends Odd { } class Odd { int n; int number() { n = n + 1; return n; } }"

theorem ofText_reorder_reverse : ∃ p : Program, Program.ofText usingText = .ok p ∧
    p.classes.map (·.name.name) = ["Even", "Odd"] ∧
    p.functions.map (·.name.name) = ["main", "get"] ∧
    p.RunsLike { p with classes := p.classes.reverse, functions := p.functions.reverse } {} {} := by
  obtain ⟨p, hp, hok⟩ := exists_ok_of_any (r := Program.ofText usingText) (f := fun p =>
    (p.analyze "printInt").isAccepted && (p.classes.map (·.name.name) == ["Even", "Odd"]) &&
      (p.functions.map (·.name.name) == ["main", "get"])) (by decide +kernel)
  simp only [Bool.and_eq_true, beq_iff_eq] at hok
  obtain ⟨⟨haccepted, hclasses⟩, hfunctions⟩ := hok
  have hsame := @ofText_reorder _ {} _
    { p with classes := p.classes.reverse, functions := p.functions.reverse } hp
    (hclasses ▸ by decide) (hfunctions ▸ by decide) (List.reverse_perm _).symm
    (List.reverse_perm _).symm
  exact ⟨p, hp, hclasses, hfunctions, hsame.2 haccepted⟩

end ObjectLang
