import ObjectLang.IR.Verify
import ObjectLang.Lowering.Programs
import ObjectLang.Machine.Run
import ObjectLang.Parsing.Programs

/-!
# From source text to code and results

A source text is read, analysed and turned into code, and the code is run. What cannot be read, and
what analysis does not accept, is no program.
-/
namespace ObjectLang

/-- Why a source text has no code. -/
inductive CompileError where
  | parse (errors : List ParseError)
  | rejected (diagnostics : List Diagnostic)
  | incomplete (fact : MissingFact)
deriving Inhabited

/-- All that is wrong with a source text, one thing a line. -/
def CompileError.message : CompileError → String
  | .parse errors => ParseError.listText errors
  | .rejected diagnostics => Diagnostic.listText diagnostics
  | .incomplete _ => "internal compiler error: a fact about an accepted program is missing"

/-- The module of a program. -/
def Program.compile (p : Program) (options : CompileOptions) : Except CompileError IR.Module :=
  let a := p.analyze options.printFunction
  if a.isAccepted then (p.lower a options).mapError .incomplete
  else .error (.rejected a.diagnostics)

/-- The module of a source text. -/
def compile (source : String) (options : CompileOptions) : Except CompileError IR.Module := do
  let p ← (Program.ofText source).mapError .parse
  p.compile options

/-- A run of the program that a source text is. -/
def run (source : String) (options : CompileOptions) (limit : Nat) :
    Except CompileError Machine.Execution := do
  let m ← compile source options
  return Machine.execute m mainName limit

end ObjectLang
