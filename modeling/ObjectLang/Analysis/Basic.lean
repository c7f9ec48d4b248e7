import ObjectLang.Analysis.Members
import ObjectLang.Analysis.Returns
import ObjectLang.Analysis.Statements

/-!
# Analysis of programs

A program is analysed as a whole and to its end, whatever is wrong with it: its classes and global
functions, its start and the placing of returns, then the members of all classes, then overriding,
and last the bodies of all methods and functions. A program is accepted if nothing is reported.
-/
namespace ObjectLang

/-- What is known about a program after its analysis. -/
structure Analysis where
  classes : ClassTable
  functions : FunctionTable
  members : MemberTable
  arrays : ArrayTypes
  notes : Notes
  diagnostics : List Diagnostic
deriving Inhabited

/-- Whether a program is accepted. -/
def Analysis.isAccepted (a : Analysis) : Bool :=
  a.diagnostics.isEmpty

/-- The parameters of a function, in a scope that has some already. -/
def declareParameters (env : Surroundings) (scope : Scope) (params : List VarDecl) :
    Check Scope :=
  params.foldlM (fun scope p => do
    Check.require (scope.find? p.name.name).isNone (.duplicateParameter p.name.name p.name.span)
    return scope.declare p (← checkType env.classes p.type)) scope

/-- A function: its signature and its body. -/
def checkFunction (env : Surroundings) (f : FunctionDecl) : Check Unit := do
  let returnType ← checkType env.classes f.returnType
  let scope ← declareParameters env ⟨f.name.name, returnType, []⟩ f.params
  checkBlock env scope.enter f.body

namespace Program

/-- What is wrong with the returns of all functions and methods. -/
def returnDiagnostics (p : Program) (classes : ClassTable) : List Diagnostic :=
  p.functions.flatMap (fun f => f.returnDiagnostics (f.name.name == mainName))
    ++ classes.classes.flatMap fun cls =>
      (p.classDecl cls).methods.flatMap (·.returnDiagnostics false)

/-- The members of all classes, and the bodies of all methods and functions. -/
def checkAll (p : Program) (classes : ClassTable) (functions : FunctionTable) :
    Check MemberTable := do
  let members ← classes.classes.mapM fun cls => declareMembers classes cls (p.classDecl cls)
  let env : Surroundings := { classes, functions, members := ⟨members⟩ }
  classes.classes.forM fun cls => (classOverrides env.members cls).forM Check.report
  classes.classes.forM fun cls =>
    (p.classDecl cls).methods.forM (checkFunction { env with current := some cls })
  p.functions.forM (checkFunction env)
  return env.members

/-- The analysis of a program, where `printName` calls the built-in function. -/
def analyze (p : Program) (printName : String) : Analysis :=
  let (classes, hierarchy) := ClassTable.build p.classes
  let (functions, names) := FunctionTable.build printName p.functions
  let early := hierarchy ++ names ++ p.mainDiagnostics ++ p.returnDiagnostics classes
  let (members, f) := (p.checkAll classes functions).run { diagnostics := early.toArray }
  ⟨classes, functions, members, f.arrays, f.notes, f.diagnostics.toList⟩

end Program
end ObjectLang
