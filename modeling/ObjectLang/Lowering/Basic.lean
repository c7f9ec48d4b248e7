import ObjectLang.Layout.Basic

/-!
# Making code

The state in which code is made: the module so far, the procedure that is being built, and the
allocators that were asked for. Making code looks up what analysis and layout have found out; a
look-up that fails is reported as a missing fact. An accepted program has none.
-/
namespace ObjectLang

/-- How code is made: with comments or without, and which name calls the built-in function. -/
structure CompileOptions where
  emitComments : Bool := false
  printFunction : String := "printInt"
deriving Repr, DecidableEq, Inhabited

/-- Something that code needs and that was not found. -/
inductive MissingFact where
  | exprType (id : Nat)
  | typeExpr (id : Nat)
  | binding (id : Nat)
  | callTarget (id : Nat)
  | receiver
  | receiverClass (id : Nat)
  | arrayType (id : Nat)
  | variableSlot (decl : Nat)
  | fieldSlot (owner name : String)
  | classLayout (name : String)
  | signature (name : String)
  | procedure (id : Nat)
  | printArgument (id : Nat)
deriving Repr, DecidableEq, Inhabited

/-- The module so far, with the allocators of array types by component, and the procedure that is
being built. -/
structure LowerState where
  target : Target := {}
  allocators : List (ValueType × Nat) := []
  builder : IR.Builder := default
deriving Inhabited

/-- A part of the making of code, which may lack a fact. -/
abbrev Lower :=
  StateT LowerState (Except MissingFact)

/-- A fact that has to be there. -/
def known {α : Type} (fact : Option α) (missing : MissingFact) : Lower α :=
  match fact with
  | some a => pure a
  | none => throw missing

/-- What is made of the module. -/
def onTarget {α : Type} (build : Build α) : Lower α :=
  modifyGet fun s =>
    let (a, target) := build.run s.target
    (a, { s with target })

/-- Something that the builder does and gives. -/
def compute {α : Type} (f : IR.Builder → α × IR.Builder) : Lower α :=
  modifyGet fun s =>
    let (a, builder) := f s.builder
    (a, { s with builder })

/-- Something that the builder does. -/
def perform (f : IR.Builder → IR.Builder) : Lower Unit :=
  modify fun s => { s with builder := f s.builder }

/-- The type of an operand in the procedure that is being built. -/
def typeOfOperand (x : IR.Operand) : Lower IR.Ty := do
  return (← get).builder.typeOf x

/-- What the body of a function is made from. -/
structure Body where
  analysis : Analysis
  layouts : Layouts
  options : CompileOptions
  /-- The parameter that holds the receiver of a method. -/
  this : Option Nat := none
  /-- Where the parameters and variables are, by their declarations. -/
  slots : List (Nat × Nat) := []
deriving Inhabited

namespace Body

def typeOf (body : Body) (id : Nat) : Lower ValueType :=
  known (body.analysis.notes.type? id) (.exprType id)

/-- The class that an expression has objects of. -/
def classOf (body : Body) (id : Nat) : Lower ClassRef := do
  known (← body.typeOf id).class? (.receiverClass id)

def lower (body : Body) (type : ValueType) : Lower IR.Ty :=
  onTarget (lowerType body.layouts.structs type)

def lowerTypeExpr (body : Body) (t : TypeExpr) : Lower IR.Ty := do
  body.lower (← known (body.analysis.notes.typeExpr? t.id) (.typeExpr t.id))

def classLayout (body : Body) (cls : ClassRef) : Lower ClassLayout :=
  known (body.layouts.class? cls.name) (.classLayout cls.name)

/-- Where a variable is. -/
def slot (body : Body) (decl : VarDecl) : Lower IR.Operand := do
  let (_, temp) ← known (body.slots.find? (·.1 == decl.id)) (.variableSlot decl.id)
  return .temp temp

end Body

/-- A value as one of another type, where both types are pointers. All else is left as it is. -/
def cast (value : IR.Operand) (target : IR.Ty) : Lower IR.Operand := do
  let type ← typeOfOperand value
  if type.target?.isSome && target.target?.isSome && type ≠ target then
    compute (·.bitcast value target)
  else return value

/-- The receiver of the method, as an object of one of its classes. -/
def thisAs (body : Body) (cls : ClassRef) : Lower IR.Operand := do
  let this ← known body.this .receiver
  let layout ← body.classLayout cls
  cast (.temp this) layout.pointerType

/-- A block that stops the program with a message, and another one where it goes on; control goes
to the first if a condition holds. -/
def stopIf (condition : IR.Operand) (stopName goName message : String) : Lower Unit := do
  let stop ← compute (·.newBlock stopName)
  let go ← compute (·.newBlock goName)
  perform (·.branch condition stop go)
  perform (·.switchTo stop)
  perform (·.halt message)
  perform (·.switchTo go)

/-- The program stops if a pointer is null. -/
def nullCheck (value : IR.Operand) (span : Span) : Lower Unit := do
  let isNull ← compute (·.binary .eq value .null)
  stopIf isNull "is_null" "not_null" ("Nullpointer exception in line " ++ toString span.line)

/-- The length of an array that is not null. -/
def arrayLength (array : IR.Operand) : Lower IR.Operand := do
  let address ← compute (·.elementPtr array [.int 0, .int 0] .int)
  compute (·.load address)

/-- The program stops unless an index is in an array that is not null. -/
def boundsCheck (array index : IR.Operand) (span : Span) : Lower Unit := do
  let length ← arrayLength array
  let negative ← compute (·.binary .slt index (.int 0))
  let last ← compute (·.binary .sub length (.int 1))
  let tooLarge ← compute (·.binary .slt last index)
  let outside ← compute (·.binary .or negative tooLarge)
  stopIf outside "out_of_bounds" "index_in_range"
    ("Index out of bounds error in line " ++ toString span.line)

end ObjectLang
