import ObjectLang.Analysis.Expressions

/-!
# Checking statements

A declaration is visible to the statements behind it, up to the end of its block. A name that is
visible already may not be declared again, be it in a nested block.
-/
namespace ObjectLang

/-- A declaration: the scope behind it. -/
def checkDeclaration (env : Surroundings) (scope : Scope) (decl : VarDecl) : Check Scope := do
  Check.require (scope.find? decl.name.name).isNone
    (.duplicateVariable decl.name.name scope.function decl.name.span)
  return scope.declare decl (← checkType env.classes decl.type)

/-- A value is assigned to a location that can hold it. -/
def checkAssignment (env : Surroundings) (scope : Scope) (target : Location) (value : Expr) :
    Check Unit := do
  let expected ← checkLocation env scope target
  let found ← checkExpr env scope value
  Check.require (found.isSubtype expected)
    (.invalidAssignment expected.text found.text value.span)

/-- A condition is a truth value. -/
def checkCondition (env : Surroundings) (scope : Scope) (construct : Conditional)
    (condition : Expr) : Check Unit := do
  let found ← checkExpr env scope condition
  Check.require (found.isSubtype .bool) (.invalidCondition construct found.text condition.span)

/-- What is returned fits the function. -/
def checkReturn (env : Surroundings) (scope : Scope) (span : Span) (value : Expr) :
    Check Unit := do
  let found ← checkExpr env scope value
  Check.require (found.isSubtype scope.returnType)
    (.invalidReturn scope.returnType.text found.text span)

mutual

/-- A statement: the scope behind it. -/
def checkStmt (env : Surroundings) (scope : Scope) (s : Stmt) : Check Scope := do
  match s with
  | .declare decl => checkDeclaration env scope decl
  | .eval value => do
    let _ ← checkExpr env scope value
    return scope
  | .assign _ target value => do
    checkAssignment env scope target value
    return scope
  | .branch _ condition onTrue none => do
    checkCondition env scope .branch condition
    let _ ← checkStmt env scope.enter onTrue
    return scope
  | .branch _ condition onTrue (some onFalse) => do
    checkCondition env scope .branch condition
    let _ ← checkStmt env scope.enter onTrue
    let _ ← checkStmt env scope.enter onFalse
    return scope
  | .loop _ condition body => do
    checkCondition env scope .loop condition
    let _ ← checkStmt env scope.enter body
    return scope
  | .return span value => do
    checkReturn env scope span value
    return scope
  | .block _ body => do
    checkBlock env scope.enter body
    return scope
termination_by structural s

/-- The statements of a block, one after the other. -/
def checkBlock (env : Surroundings) (scope : Scope) (body : List Stmt) : Check Unit := do
  match body with
  | [] => return
  | s :: rest =>
    let scope ← checkStmt env scope s
    checkBlock env scope rest
termination_by structural body

end

end ObjectLang
