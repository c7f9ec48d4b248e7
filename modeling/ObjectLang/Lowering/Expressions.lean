import ObjectLang.Lowering.Basic

/-!
# Code for expressions

The operand that holds the value of an expression, after the code that computes it; for a location,
the operand that points to it. Operands are computed from left to right, and what can go wrong is
checked before it does: a null receiver before the arguments are computed, an index after it is
known, a divisor before the division. The right side of `&&` runs only if the left side is true.
-/
namespace ObjectLang

/-- The name that allocators of array types start with. -/
def allocatorName (component : ValueType) : String :=
  "newArray_" ++ component.fragment

/-- The procedure that makes arrays with a component, declared when it is first asked for. -/
def allocator (body : Body) (component : ValueType) : Lower Nat := do
  match (← get).allocators.find? (·.1.same component) with
  | some (_, id) => return id
  | none =>
    let layout ← onTarget (arrayLayout body.layouts.structs component)
    let p : IR.Procedure := { name := allocatorName component, returnType := layout.pointerType }
    let id ← onTarget (modifyGet (·.addProcedure (p.newParam "size" .int).2))
    modify fun s => { s with allocators := s.allocators ++ [(component, id)] }
    return id

/-- The address of a field in an object that is seen as one of a class. -/
def fieldAddress (body : Body) (object : IR.Operand) (cls owner : ClassRef) (field : VarDecl) :
    Lower IR.Operand := do
  let layout ← body.classLayout cls
  let index ← known (layout.fieldIndex? owner.name field.name.name)
    (.fieldSlot owner.name field.name.name)
  let type ← body.lowerTypeExpr field.type
  compute (·.elementPtr object [.int 0, .int (Int32.ofNat index)] type)

/-- The quotient of two numbers. The program stops if the second is zero; the least number divided
by minus one is itself, and found without dividing. -/
def quotient (dividend divisor : IR.Operand) (span : Span) : Lower IR.Operand := do
  let isZero ← compute (·.binary .eq divisor (.int 0))
  stopIf isZero "div_by_zero" "div_non_zero" ("Division by zero in line " ++ toString span.line)
  let result ← compute (·.slot .int)
  let minusOne ← compute (·.binary .eq divisor (.int (-1)))
  let least ← compute (·.binary .eq dividend (.int Int32.minValue))
  let overflow ← compute (·.binary .and minusOne least)
  perform (·.store (.temp result) (.int Int32.minValue))
  let divide ← compute (·.newBlock "div_no_overflow")
  let done ← compute (·.newBlock "div_end")
  perform (·.branch overflow done divide)
  perform (·.switchTo divide)
  let value ← compute (·.binary .sdiv dividend divisor)
  perform (·.store (.temp result) value)
  perform (·.jump done)
  perform (·.switchTo done)
  compute (·.load (.temp result))

/-- Whether two values are equal. Objects of two classes are compared as objects of the one that is
above. -/
def equality (leftType rightType : ValueType) (left right : IR.Operand) : Lower IR.Operand := do
  let leftTy ← typeOfOperand left
  let rightTy ← typeOfOperand right
  let rightIsBelow :=
    match leftType.class?, rightType.class? with
    | some l, some r => r.isSubclass l
    | _, _ => true
  if rightIsBelow then
    let right ← cast right leftTy
    compute (·.binary .eq left right)
  else
    let left ← cast left rightTy
    compute (·.binary .eq left right)

mutual

/-- Code for an expression. -/
def lowerExpr (body : Body) (e : Expr) : Lower IR.Operand := do
  match e with
  | .unary _ .neg operand => do
    let value ← lowerExpr body operand
    compute (·.binary .sub (.int 0) value)
  | .unary _ .not operand => do
    let value ← lowerExpr body operand
    compute (·.binary .eq (.bool false) value)
  | .binary tag op left right =>
    match op with
    | .and => do
      let result ← compute (·.slot .bool)
      let first ← lowerExpr body left
      perform (·.store (.temp result) first)
      let onTrue ← compute (·.newBlock "and_right")
      let done ← compute (·.newBlock "and_end")
      perform (·.branch first onTrue done)
      perform (·.switchTo onTrue)
      let second ← lowerExpr body right
      perform (·.store (.temp result) second)
      perform (·.jump done)
      perform (·.switchTo done)
      compute (·.load (.temp result))
    | .div => do
      let dividend ← lowerExpr body left
      let divisor ← lowerExpr body right
      quotient dividend divisor tag.span
    | .equal => do
      let first ← lowerExpr body left
      let second ← lowerExpr body right
      equality (← body.typeOf left.id) (← body.typeOf right.id) first second
    | .add => do
      let first ← lowerExpr body left
      let second ← lowerExpr body right
      compute (·.binary .add first second)
    | .sub => do
      let first ← lowerExpr body left
      let second ← lowerExpr body right
      compute (·.binary .sub first second)
    | .mul => do
      let first ← lowerExpr body left
      let second ← lowerExpr body right
      compute (·.binary .mul first second)
    | .less => do
      let first ← lowerExpr body left
      let second ← lowerExpr body right
      compute (·.binary .slt first second)
  | .number _ value => return .int (Int32.ofNat value)
  | .bool _ value => return .bool value
  | .null _ => return .null
  | .this _ => return .temp (← known body.this .receiver)
  | .read _ location => do
    let address ← lowerLocation body location
    compute (·.load address)
  | .arrayLength _ array => do
    let base ← lowerExpr body array
    nullCheck base array.span
    arrayLength base
  | .newObject tag _ => do
    let cls ← body.classOf tag.id
    let layout ← body.classLayout cls
    compute (·.call layout.constructor [] layout.pointerType)
  | .newArray tag _ size => do
    let type ← body.typeOf tag.id
    let component ← known type.component? (.arrayType tag.id)
    let procedure ← allocator body component
    let length ← lowerExpr body size
    let pointer ← body.lower type
    compute (·.call procedure [length] pointer)
  | .call tag _ args => do
    match ← known (body.analysis.notes.call? tag.id) (.callTarget tag.id) with
    | .print => do
      let values ← lowerArguments body args [.int]
      let value ← known values.head? (.printArgument tag.id)
      perform (·.print value)
      return .int 0
    | .function decl => do
      let s ← known (body.layouts.function? decl.name.name) (.signature decl.name.name)
      let values ← lowerArguments body args s.params
      compute (·.call s.procedure values s.returnType)
    | .method owner decl => do
      let receiver ← thisAs body owner
      let layout ← body.classLayout owner
      let s ← known (layout.method? decl.name.name) (.signature decl.name.name)
      let values ← lowerArguments body args s.params
      compute (·.call s.procedure (receiver :: values) s.returnType)
  | .methodCall tag receiver _ args => do
    let object ← lowerExpr body receiver
    nullCheck object receiver.span
    match ← known (body.analysis.notes.call? tag.id) (.callTarget tag.id) with
    | .method owner decl => do
      let layout ← body.classLayout owner
      let object ← cast object layout.pointerType
      let s ← known (layout.method? decl.name.name) (.signature decl.name.name)
      let values ← lowerArguments body args s.params
      compute (·.call s.procedure (object :: values) s.returnType)
    | .print | .function _ => throw (.callTarget tag.id)
termination_by structural e

/-- Code for a location. -/
def lowerLocation (body : Body) (l : Location) : Lower IR.Operand := do
  match l with
  | .var tag _ =>
    match ← known (body.analysis.notes.binding? tag.id) (.binding tag.id) with
    | .variable decl => body.slot decl
    | .field owner decl => do
      let object ← thisAs body owner
      fieldAddress body object owner owner decl
  | .field tag receiver _ => do
    let object ← lowerExpr body receiver
    nullCheck object receiver.span
    let cls ← body.classOf receiver.id
    match ← known (body.analysis.notes.binding? tag.id) (.binding tag.id) with
    | .field owner decl => fieldAddress body object cls owner decl
    | .variable _ => throw (.binding tag.id)
  | .index tag array index => do
    let base ← lowerExpr body array
    nullCheck base array.span
    let position ← lowerExpr body index
    boundsCheck base position tag.span
    let element ← body.lower (← body.typeOf tag.id)
    compute (·.elementPtr base [.int 0, .int 1, position] element)
termination_by structural l

/-- Code for the arguments of a call, each as a value of the type of its parameter. -/
def lowerArguments (body : Body) (args : List Expr) (params : List IR.Ty) :
    Lower (List IR.Operand) := do
  match args, params with
  | arg :: args, type :: params =>
    let value ← lowerExpr body arg
    let value ← cast value type
    return value :: (← lowerArguments body args params)
  | _, _ => return []
termination_by structural args

end

end ObjectLang
