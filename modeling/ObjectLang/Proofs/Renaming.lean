import Mathlib.Tactic
import ObjectLang.Proofs.Analysis.RenamingPrograms
import ObjectLang.Proofs.Lowering.Twins

/-!
# Names do not matter

The names of a program are there for its readers only. If all names are replaced by other ones, so
that different names stay different, the analysis finds fault with the same places for the same
reasons, and the program shows the same when it runs. The names of procedures and structs are put
together from those of the program, so they may well become the same by it: nothing but the function
that a program starts with is ever looked up by them.
-/
namespace ObjectLang

open Machine

theorem Program.ids_rename (ρ : String → String) (p : Program) :
    (p.relabel (.rename ρ)).ids = p.ids := by
  simp [Program.relabel, Program.ids, List.flatMap_map]

/-- Two programs have modules, and these show the same when they run. -/
def Program.RunsLike (p p' : Program) (options options' : CompileOptions) : Prop :=
  ∃ m m', p.compile options = .ok m ∧ p'.compile options' = .ok m' ∧
    ∀ limit, execute m mainName limit = execute m' mainName limit

/-- A counterpart of a program runs like the program. -/
theorem Program.Counterpart.runsLike {ρ : String → String} {p p' : Program}
    (h : p.Counterpart ρ p') (hmain : ρ mainName = mainName) {options options' : CompileOptions}
    (hprint : options'.printFunction = ρ options.printFunction)
    (hcomments : options'.emitComments = options.emitComments) (hp : p.ids.Nodup)
    (hp' : p'.ids.Nodup) (ha : (p.analyze options.printFunction).isAccepted = true)
    (ha' : (p'.analyze options'.printFunction).isAccepted = true) :
    p.RunsLike p' options options' := by
  obtain ⟨body, routines, s, rfl, hc, hm⟩ := p.exists_compile hp ha
  obtain ⟨body', routines', s', rfl, hc', hm'⟩ := p'.exists_compile hp' ha'
  obtain ⟨T₀, h₀⟩ := hc.built
  obtain ⟨T₀', h₀'⟩ := hc'.built
  have H : Twins ρ p p' body body' :=
    ⟨h, hc.prepared, hc'.prepared, h₀.distinct, h₀'.distinct, hcomments, hprint⟩
  exact ⟨_, _, hm, hm', H.execute_eq hc hc' hmain⟩

/-- A program with other names is reported on and runs as it did before. -/
theorem ofText_rename {source : String} {options : CompileOptions} {ρ : String → String}
    {p : Program} (hparse : Program.ofText source = .ok p) (hρ : ρ.Injective)
    (hmain : ρ mainName = mainName) (hprint : ρ options.printFunction = options.printFunction) :
    ((p.relabel (.rename ρ)).analyze options.printFunction).diagnostics.map Diagnostic.unnamed =
        (p.analyze options.printFunction).diagnostics.map Diagnostic.unnamed ∧
      ((p.analyze options.printFunction).isAccepted = true →
        p.RunsLike (p.relabel (.rename ρ)) options options) := by
  have hdiagnostics := (Program.analyze_rename hρ hmain hprint p).diagnostics
  refine ⟨hdiagnostics, fun ha => ?_⟩
  have hp := (p.numbered_ofText hparse).nodup
  have hw := (Program.isAccepted_iff hp).1 ha
  have ha' : ((p.relabel (.rename ρ)).analyze options.printFunction).isAccepted = true := by
    rw [Analysis.isAccepted, List.isEmpty_iff, ← List.map_eq_nil_iff (f := Diagnostic.unnamed),
      hdiagnostics, List.isEmpty_iff.1 ha, List.map_nil]
  have hcounterpart : p.Counterpart ρ (p.relabel (.rename ρ)) :=
    ⟨hρ, .refl _, .refl _, hw.hierarchy.names, hw.functionNames⟩
  exact hcounterpart.runsLike hmain hprint.symm rfl hp (p.ids_rename ρ ▸ hp) ha ha'

/-- A program that makes an array in a function. -/
def makingText : String :=
  "int[] make(int n) { return new int[n]; } int main() { printInt(make(3).length); return 0; }"

/-- The function gets the name that the procedure for its arrays has. -/
theorem ofText_rename_make : ∃ (p : Program) (ρ : String → String),
    Program.ofText makingText = .ok p ∧ ρ.Injective ∧ ρ mainName = mainName ∧
      ρ "printInt" = "printInt" ∧ ρ "make" = allocatorName .int ∧
      ((p.relabel (.rename ρ)).analyze "printInt").diagnostics.map Diagnostic.unnamed =
        (p.analyze "printInt").diagnostics.map Diagnostic.unnamed ∧
      p.RunsLike (p.relabel (.rename ρ)) {} {} := by
  obtain ⟨p, hp, hok⟩ := exists_ok_of_any (r := Program.ofText makingText)
    (f := fun p => (p.analyze "printInt").isAccepted) (by decide +kernel)
  have hmain : Equiv.swap "make" (allocatorName .int) mainName = mainName :=
    Equiv.swap_apply_of_ne_of_ne (by decide) (by decide)
  have hprint : Equiv.swap "make" (allocatorName .int) "printInt" = "printInt" :=
    Equiv.swap_apply_of_ne_of_ne (by decide) (by decide)
  have hsame := @ofText_rename _ {} _ _ hp
    (Equiv.swap "make" (allocatorName .int)).injective hmain hprint
  exact ⟨p, _, hp, Equiv.injective _, hmain, hprint, Equiv.swap_apply_left _ _, hsame.1,
    hsame.2 hok⟩

end ObjectLang
