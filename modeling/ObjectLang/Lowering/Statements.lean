import ObjectLang.Lowering.Expressions

/-!
# Code for statements

Statements become blocks: one for each arm of a conditional statement, three for a loop, each with
a block behind it where control meets again. Declarations make no code where they stand; the
memory of all variables is taken when the procedure is entered.
-/
namespace ObjectLang

/-- The word for a sort of statement in comments. -/
def Stmt.describe : Stmt → String
  | .declare _ => "declaration"
  | .eval _ => "expression"
  | .assign _ _ _ => "assignment"
  | .branch _ _ _ _ => "if"
  | .loop _ _ _ => "while"
  | .return _ _ => "return"
  | .block _ _ => "block"

/-- A comment with the line and the sort of a statement, if comments are asked for. -/
def commentOn (body : Body) (s : Stmt) : Lower Unit :=
  if body.options.emitComments then
    perform (·.comment ("line " ++ toString s.span.line ++ ": " ++ s.describe))
  else pure ()

/-- A value is stored at an address, as a value of the type that the address points to. -/
def assign (address value : IR.Operand) : Lower Unit := do
  let type ← typeOfOperand address
  let value ← cast value (type.target?.getD .void)
  perform (·.store address value)

/-- A value is returned, as a value of the type that the procedure returns. -/
def returnValue (value : IR.Operand) : Lower Unit := do
  let value ← cast value (← get).builder.procedure.returnType
  perform (·.ret value)

mutual

/-- Code for a statement. -/
def lowerStmt (body : Body) (s : Stmt) : Lower Unit := do
  match s with
  | .declare _ => return
  | .eval value => do
    commentOn body (.eval value)
    let _ ← lowerExpr body value
  | .assign span target value => do
    commentOn body (.assign span target value)
    let address ← lowerLocation body target
    let value ← lowerExpr body value
    assign address value
  | .branch span test onTrue onFalse => do
    commentOn body (.branch span test onTrue onFalse)
    let condition ← lowerExpr body test
    let first ← compute (·.newBlock "if_true")
    let second ← compute (·.newBlock "if_false")
    let done ← compute (·.newBlock "if_end")
    perform (·.branch condition first second)
    perform (·.switchTo first)
    lowerStmt body onTrue
    perform (·.jump done)
    perform (·.switchTo second)
    match onFalse with
    | some onFalse => lowerStmt body onFalse
    | none => pure ()
    perform (·.jump done)
    perform (·.switchTo done)
  | .loop span test repeated => do
    commentOn body (.loop span test repeated)
    let check ← compute (·.newBlock "while_cond")
    let again ← compute (·.newBlock "while_body")
    let done ← compute (·.newBlock "while_end")
    perform (·.jump check)
    perform (·.switchTo check)
    let condition ← lowerExpr body test
    perform (·.branch condition again done)
    perform (·.switchTo again)
    lowerStmt body repeated
    perform (·.jump check)
    perform (·.switchTo done)
  | .return span value => do
    commentOn body (.return span value)
    let value ← lowerExpr body value
    returnValue value
  | .block span stmts => do
    commentOn body (.block span stmts)
    lowerStmts body stmts
termination_by structural s

/-- Code for statements, one after the other. -/
def lowerStmts (body : Body) (stmts : List Stmt) : Lower Unit := do
  match stmts with
  | [] => return
  | s :: rest =>
    lowerStmt body s
    lowerStmts body rest
termination_by structural stmts

end

mutual

/-- The variables that are declared in a statement. -/
def Stmt.locals : Stmt → List VarDecl
  | .declare decl => [decl]
  | .block _ stmts => localsOf stmts
  | .branch _ _ onTrue none => onTrue.locals
  | .branch _ _ onTrue (some onFalse) => onTrue.locals ++ onFalse.locals
  | .loop _ _ repeated => repeated.locals
  | .eval _ | .assign _ _ _ | .return _ _ => []
termination_by structural s => s

/-- The variables that are declared in some statements, in the order of the text. -/
def localsOf : List Stmt → List VarDecl
  | [] => []
  | s :: rest => s.locals ++ localsOf rest
termination_by structural stmts => stmts

end

/-- Memory for a parameter, which is copied there. -/
def lowerParameter (temp : Nat) (decl : VarDecl) : Lower (Nat × Nat) := do
  let type ← typeOfOperand (.temp temp)
  let slot ← compute (·.slot type)
  perform (·.store (.temp slot) (.temp temp))
  return (decl.id, slot)

/-- Memory for a variable, which gets its default. -/
def lowerLocal (body : Body) (decl : VarDecl) : Lower (Nat × Nat) := do
  let type ← body.lowerTypeExpr decl.type
  let slot ← compute (·.slot type)
  perform (·.store (.temp slot) type.defaultValue)
  return (decl.id, slot)

/-- Code for the body of a function, in a procedure that has its parameters already; `isMethod`
says whether the first one is the receiver. -/
def lowerBody (body : Body) (isMethod : Bool) (f : FunctionDecl) : Lower Unit := do
  let temps := (← get).builder.procedure.params
  let (this, temps) := if isMethod then (temps.head?, temps.tail) else (none, temps)
  let params ← (temps.zip f.params).mapM fun (temp, decl) => lowerParameter temp decl
  let locals ← (localsOf f.body).mapM (lowerLocal body)
  lowerStmts { body with this, slots := params ++ locals } f.body

end ObjectLang
