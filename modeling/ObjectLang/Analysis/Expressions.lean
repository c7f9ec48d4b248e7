import ObjectLang.Analysis.ClassTable
import ObjectLang.Analysis.Findings
import ObjectLang.Analysis.FunctionTable

/-!
# Typing expressions

Each expression and each location gets a type, which is noted, and each variable, field and call a
meaning. What cannot be typed gets the type `any` and a diagnostic; an operand that has it already
never causes another one. Operands are checked from left to right.
-/
namespace ObjectLang

/-- What the body of a function is checked against. -/
structure Surroundings where
  classes : ClassTable
  functions : FunctionTable
  members : MemberTable := {}
  /-- The class whose method is checked. -/
  current : Option ClassRef := none
deriving Inhabited

/-- The meaning of a written type, noted when it is first asked for. -/
def checkType (classes : ClassTable) (t : TypeExpr) : Check ValueType := do
  match (← get).notes.typeExpr? t.id with
  | some type => return type
  | none =>
    let type ← match t with
      | .int _ => pure .int
      | .bool _ => pure .bool
      | .named _ name =>
        match classes.find? name.name with
        | some cls => pure (.object cls)
        | none => do
          Check.report (.undeclaredClass name.name name.span)
          pure .any
      | .array _ component => do Check.arrayOf (← checkType classes component)
    Check.noteTypeExpr t.id type
    return type

/-- A value of type `found` is where one of type `expected` has to be. -/
def requireType (expected found : ValueType) (span : Span) : Check Unit :=
  Check.require (found.isSubtype expected) (.typeMismatch expected.text found.text span)

/-- A value of type `found` is where an array has to be. -/
def requireArray (found : ValueType) (span : Span) : Check ValueType :=
  match found with
  | .array _ _ | .any => pure found
  | _ => do
    Check.report (.notAnArray found.text span)
    return .any

/-- A value of type `found` is where an object has to be. -/
def requireObject (found : ValueType) (span : Span) : Check (Option ClassRef) :=
  match found with
  | .object cls => pure (some cls)
  | .any => pure none
  | _ => do
    Check.report (.notAClass found.text span)
    return none

/-- The meaning of a field that is looked for from a class upwards. -/
def bindField (env : Surroundings) (id : Nat) (cls : ClassRef) (name : String)
    (unknown : Diagnostic) : Check ValueType := do
  match env.members.field? cls name with
  | some (owner, field) =>
    Check.noteBinding id (.field owner field.decl)
    return field.type
  | none =>
    Check.report unknown
    return .any

/-- The meaning of a variable: a variable of the function, or else a field of the class that the
function belongs to or of one above. -/
def bindVariable (env : Surroundings) (scope : Scope) (id : Nat) (name : Ident) :
    Check ValueType := do
  let unknown := Diagnostic.unknownVariable name.name name.span
  match scope.find? name.name with
  | some var =>
    Check.noteBinding id (.variable var.decl)
    return var.type
  | none =>
    match env.current with
    | some cls => bindField env id cls name.name unknown
    | none =>
      Check.report unknown
      return .any

/-- The class that `new` makes an object of. -/
def checkNewObject (env : Surroundings) (name : Ident) : Check ValueType :=
  match env.classes.find? name.name with
  | some cls => pure (.object cls)
  | none => do
    Check.report (.undeclaredClass name.name name.span)
    return .any

/-- The operand type of the operators that have one, and the type of their result. -/
def operandType : BinaryOp → ValueType
  | .and => .bool
  | .equal => .any
  | .less | .add | .sub | .mul | .div => .int

def resultType : BinaryOp → ValueType
  | .and | .equal | .less => .bool
  | .add | .sub | .mul | .div => .int

def unaryType : UnaryOp → ValueType
  | .neg => .int
  | .not => .bool

/-- What a call asks for and gives: the types of its parameters, its target and its type. -/
structure Callee where
  params : List ValueType
  target : CallTarget
  returnType : ValueType

/-- The method of a name from a class upwards. -/
def methodCallee? (env : Surroundings) (cls : ClassRef) (name : String) : Option Callee :=
  (env.members.method? cls name).map fun (owner, method) =>
    ⟨method.params, .method owner method.decl, method.returnType⟩

/-- What a name calls by itself: a method of the class around it or of one above, or else a global
function. -/
def callee? (env : Surroundings) (name : Ident) : Check (Option Callee) := do
  match env.current.bind fun cls => methodCallee? env cls name.name with
  | some callee => return some callee
  | none =>
    match env.functions.find? name.name with
    | some .print => return some ⟨[.int], .print, .int⟩
    | some (.declared decl) =>
      let params ← decl.params.mapM fun p => checkType env.classes p.type
      let returnType ← checkType env.classes decl.returnType
      return some ⟨params, .function decl, returnType⟩
    | none =>
      Check.report (.unknownFunction name.name name.span)
      return none

/-- A call has as many arguments as its target has parameters. -/
def checkArity (expected found : Nat) (span : Span) : Check Bool := do
  if expected < found then
    Check.report (.tooManyArguments expected found span)
    return false
  else if found < expected then
    Check.report (.notEnoughArguments expected found span)
    return false
  else return true

mutual

/-- The type of an expression. -/
def checkExpr (env : Surroundings) (scope : Scope) (e : Expr) : Check ValueType := do
  let type ← match e with
    | .unary _ op operand => do
      let found ← checkExpr env scope operand
      requireType (unaryType op) found operand.span
      pure (unaryType op)
    | .binary tag op left right => do
      if op = .equal then
        let l ← checkExpr env scope left
        let r ← checkExpr env scope right
        Check.require (l.isSubtype r || r.isSubtype l) (.incomparableTypes l.text r.text tag.span)
      else
        let l ← checkExpr env scope left
        requireType (operandType op) l left.span
        let r ← checkExpr env scope right
        requireType (operandType op) r right.span
      pure (resultType op)
    | .number _ _ => pure .int
    | .bool _ _ => pure .bool
    | .null _ => pure .null
    | .this tag =>
      match env.current with
      | some cls => pure (.object cls)
      | none => do
        Check.report (.thisOutsideMethod tag.span)
        pure .any
    | .read _ location => checkLocation env scope location
    | .arrayLength _ array => do
      let found ← checkExpr env scope array
      let _ ← requireArray found array.span
      pure .int
    | .newObject _ cls => checkNewObject env cls
    | .newArray _ element size => do
      let found ← checkExpr env scope size
      requireType .int found size.span
      Check.arrayOf (← checkType env.classes element)
    | .call tag name args => do
      match ← callee? env name with
      | none => pure .any
      | some callee => do
        if ← checkArity callee.params.length args.length tag.span then
          checkArguments env scope args callee.params
        Check.noteCall tag.id callee.target
        pure callee.returnType
    | .methodCall tag receiver name args => do
      let found ← checkExpr env scope receiver
      match ← requireObject found receiver.span with
      | none => pure .any
      | some cls =>
        match methodCallee? env cls name.name with
        | none => do
          Check.report (.unknownMethod name.name cls.name name.span)
          pure .any
        | some callee => do
          if ← checkArity callee.params.length args.length tag.span then
            checkArguments env scope args callee.params
          Check.noteCall tag.id callee.target
          pure callee.returnType
  Check.noteType e.id type
  return type
termination_by structural e

/-- The type of what a location holds. -/
def checkLocation (env : Surroundings) (scope : Scope) (l : Location) : Check ValueType := do
  let type ← match l with
    | .var tag name => bindVariable env scope tag.id name
    | .field tag receiver name => do
      let found ← checkExpr env scope receiver
      match ← requireObject found receiver.span with
      | none => pure .any
      | some cls =>
        bindField env tag.id cls name.name (.unknownField name.name cls.name name.span)
    | .index _ array index => do
      let found ← checkExpr env scope array
      let arrayType ← requireArray found array.span
      let found ← checkExpr env scope index
      requireType .int found index.span
      match arrayType with
      | .array _ component => pure component
      | _ => pure .any
  Check.noteType l.id type
  return type
termination_by structural l

/-- Arguments against the types of the parameters they are for. -/
def checkArguments (env : Surroundings) (scope : Scope) (args : List Expr)
    (params : List ValueType) : Check Unit := do
  match args, params with
  | arg :: args, param :: params =>
    let found ← checkExpr env scope arg
    requireType param found arg.span
    checkArguments env scope args params
  | _, _ => return
termination_by structural args

end

end ObjectLang
