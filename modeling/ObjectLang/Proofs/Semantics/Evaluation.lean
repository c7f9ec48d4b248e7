import ObjectLang.Lowering.Statements
import ObjectLang.Proofs.Semantics.Store
import ObjectLang.Proofs.Typing.StaticType

/-!
# The meaning of programs

A program means what this evaluation of its tree does. Operands are evaluated from left to right.
The object or array of a location is evaluated and checked before anything else is: before the
index, before the arguments of a call, and before the value that is assigned. What a name refers to
and what a call calls is settled by the rules, from the static type of the receiver.

The bound of an evaluation limits how deep calls nest and how often each loop repeats.
-/
namespace ObjectLang

/-- What calling a function or method does, given the receiver and the arguments. -/
abbrev Invoke :=
  Callable → Option Datum → List Datum → Eval Datum

/-- Where a value is kept while a program runs. -/
inductive Spot where
  | slot (id : Nat)
  | field (object : Nat) (owner name : String)
  | element (array : Nat) (index : Nat)
deriving Repr, DecidableEq, Inhabited

section halts

variable {α : Type}

def haltNull (span : Span) : Eval α :=
  throw (.halt ("Nullpointer exception in line " ++ toString span.line))

def haltBounds (span : Span) : Eval α :=
  throw (.halt ("Index out of bounds error in line " ++ toString span.line))

def haltZero (span : Span) : Eval α :=
  throw (.halt ("Division by zero in line " ++ toString span.line))

def haltSize : Eval α :=
  throw (.halt "Array Size must be positive")

end halts

/-- The reference that a value has to be. The text of the expression is where a null is reported. -/
def reference (v : Datum) (span : Span) : Eval Nat :=
  match v with
  | .ref id => pure id
  | .null => haltNull span
  | .int _ | .bool _ => throw .stuck

def number : Datum → Eval Int32
  | .int n => pure n
  | _ => throw .stuck

def truth : Datum → Eval Bool
  | .bool b => pure b
  | _ => throw .stuck

/-- What a reference refers to. -/
def entity (id : Nat) : Eval Entity := do
  match (← get).heap[id]? with
  | some e => return e
  | none => throw .stuck

theorem entity_eq {σ : Store} {id : Nat} {e : Entity} (h : σ.heap[id]? = some e) :
    entity id σ = (.ok e, σ) := by
  rw [entity, Eval.run_bind, show (get : Eval Store) σ = (.ok σ, σ) from rfl]
  simp only [h, Eval.run_pure]

/-- The elements of an array. -/
def itemsOf (id : Nat) : Eval (List Datum) := do
  match ← entity id with
  | .array _ items => return items
  | .object _ _ => throw .stuck

theorem itemsOf_eq {σ : Store} {id : Nat} {t : PlainType} {items : List Datum}
    (h : σ.heap[id]? = some (.array t items)) : itemsOf id σ = (.ok items, σ) := by
  rw [itemsOf, Eval.run_bind, entity_eq h]
  rfl

/-- The value that is kept at a spot. -/
def Spot.read (locals : Locals) : Spot → Eval Datum
  | .slot id => pure (locals id)
  | .field object owner name => do
    match ← entity object with
    | .object _ fields => return fields owner name
    | .array _ _ => throw .stuck
  | .element array index => do
    match (← itemsOf array)[index]? with
    | some v => return v
    | none => throw .stuck

/-- A spot gets a value; the variables are given back. -/
def Spot.write (locals : Locals) (v : Datum) : Spot → Eval Locals
  | .slot id => pure (locals.set id v)
  | .field object owner name => do
    match ← entity object with
    | .object cls fields =>
      modify fun σ =>
        { σ with heap := σ.heap.set object (.object cls (setField fields owner name v)) }
      return locals
    | .array _ _ => throw .stuck
  | .element array index => do
    match ← entity array with
    | .array t items =>
      modify fun σ => { σ with heap := σ.heap.set array (.array t (items.set index v)) }
      return locals
    | .object _ _ => throw .stuck

/-- The result of an arithmetic operator or a comparison. -/
def BinaryOp.apply (op : BinaryOp) (span : Span) (v w : Datum) : Eval Datum :=
  match op, v, w with
  | .add, .int a, .int b => pure (.int (a + b))
  | .sub, .int a, .int b => pure (.int (a - b))
  | .mul, .int a, .int b => pure (.int (a * b))
  | .div, .int a, .int b => if b = 0 then haltZero span else pure (.int (a / b))
  | .less, .int a, .int b => pure (.bool (decide (a < b)))
  | .equal, v, w => pure (.bool (decide (v = w)))
  | _, _, _ => throw .stuck

/-- The fields of an object of a class, each with the class that declares it; those of a class stand
behind those of its superclass. -/
def Program.fieldsOf (p : Program) (cls : String) : List (String × VarDecl) :=
  (p.lineage cls).reverse.flatMap fun c => c.fields.map fun d => (c.name.name, d)

/-- How many bytes an object of a class takes. -/
def Program.objectSize (p : Program) (cls : String) : Nat :=
  ((p.fieldsOf cls).map fun field => field.2.plain.size).sum

/-- What the fields of a new object hold. -/
def Program.newFields (p : Program) (owner name : String) : Datum :=
  match (p.class? owner).bind fun c => c.field? name with
  | some d => d.plain.default
  | none => .null

/-- A new object of a class. -/
def Program.create (p : Program) (cls : String) : Eval Datum :=
  if p.objectSize cls ≤ maxBytes then modifyGet (·.add (.object cls p.newFields))
  else throw (.tooLarge .object)

/-- A new array of some length. -/
def createArray (element : PlainType) (n : Int32) : Eval Datum :=
  if n < 0 then haltSize
  else if 4 + n.toNatClampNeg * element.size ≤ maxBytes then
    modifyGet (·.add (.array element (List.replicate n.toNatClampNeg element.default)))
  else throw (.tooLarge .array)

/-- The built-in function prints its argument and gives zero. -/
def printArgument (args : List Datum) : Eval Datum := do
  match args with
  | [.int n] =>
    modify (·.print n)
    return .int 0
  | _ => throw .stuck

mutual

/-- The value of an expression. -/
def evalExpr (invoke : Invoke) (Γ : Context) (self : Option Datum) (locals : Locals)
    (e : Expr) : Eval Datum := do
  match e with
  | .unary _ .neg operand => do
    return .int (-(← number (← evalExpr invoke Γ self locals operand)))
  | .unary _ .not operand => do
    return .bool (!(← truth (← evalExpr invoke Γ self locals operand)))
  | .binary tag op left right =>
    match op with
    | .and => do
      if ← truth (← evalExpr invoke Γ self locals left) then
        return .bool (← truth (← evalExpr invoke Γ self locals right))
      else return .bool false
    | op => do
      let v ← evalExpr invoke Γ self locals left
      let w ← evalExpr invoke Γ self locals right
      op.apply tag.span v w
  | .number _ value => return .int (Int32.ofNat value)
  | .bool _ value => return .bool value
  | .null _ => return .null
  | .this _ =>
    match self with
    | some v => return v
    | none => throw .stuck
  | .read _ location => do
    (← evalLocation invoke Γ self locals location).read locals
  | .arrayLength _ array => do
    let id ← reference (← evalExpr invoke Γ self locals array) array.span
    return .int (Int32.ofNat (← itemsOf id).length)
  | .newObject _ cls => Γ.program.create cls.name
  | .newArray _ element size => do
    createArray element.plain (← number (← evalExpr invoke Γ self locals size))
  | .call _ f args =>
    match Γ.callable? f.name with
    | some .print => do printArgument (← evalArguments invoke Γ self locals args)
    | some (.function decl) => do
      invoke (.function decl) none (← evalArguments invoke Γ self locals args)
    | some (.method owner decl) => do
      invoke (.method owner decl) self (← evalArguments invoke Γ self locals args)
    | none => throw .stuck
  | .methodCall _ receiver f args => do
    let id ← reference (← evalExpr invoke Γ self locals receiver) receiver.span
    match ((Γ.typeOf? receiver).bind PlainType.class?).bind fun c => Γ.method? c f.name with
    | some method => do
      invoke method (some (.ref id)) (← evalArguments invoke Γ self locals args)
    | none => throw .stuck
termination_by structural e

/-- Where a location keeps its value. -/
def evalLocation (invoke : Invoke) (Γ : Context) (self : Option Datum) (locals : Locals)
    (l : Location) : Eval Spot := do
  match l with
  | .var _ x =>
    match Γ.resolve? x.name, self with
    | some (.slot decl), _ => return .slot decl.id
    | some (.field owner decl), some (.ref id) => return .field id owner decl.name.name
    | _, _ => throw .stuck
  | .field _ receiver x => do
    let id ← reference (← evalExpr invoke Γ self locals receiver) receiver.span
    match ((Γ.typeOf? receiver).bind PlainType.class?).bind fun c => Γ.field? c x.name with
    | some (.field owner decl) => return .field id owner decl.name.name
    | _ => throw .stuck
  | .index tag array index => do
    let id ← reference (← evalExpr invoke Γ self locals array) array.span
    let i ← number (← evalExpr invoke Γ self locals index)
    if 0 ≤ i ∧ i.toNatClampNeg < (← itemsOf id).length then
      return .element id i.toNatClampNeg
    else haltBounds tag.span
termination_by structural l

/-- The values of arguments. -/
def evalArguments (invoke : Invoke) (Γ : Context) (self : Option Datum) (locals : Locals)
    (args : List Expr) : Eval (List Datum) := do
  match args with
  | [] => return []
  | arg :: args =>
    let v ← evalExpr invoke Γ self locals arg
    return v :: (← evalArguments invoke Γ self locals args)
termination_by structural args

end

/-- Where a statement leads: to what stands behind it, or out of the function. -/
inductive Flow where
  | next (locals : Locals)
  | returned (v : Datum)

/-- A loop that repeats at most some number of times. -/
def repeatWhile (test : Locals → Eval Datum) (body : Locals → Eval Flow) :
    Nat → Locals → Eval Flow
  | 0, _ => throw .timeout
  | bound + 1, locals => do
    if ← truth (← test locals) then
      match ← body locals with
      | .next locals => repeatWhile test body bound locals
      | .returned v => return .returned v
    else return .next locals

mutual

/-- What a statement does to the variables. -/
def execStmt (invoke : Invoke) (bound : Nat) (self : Option Datum) (Γ : Context)
    (locals : Locals) (s : Stmt) : Eval Flow := do
  match s with
  | .declare _ => return .next locals
  | .eval e => do
    let _ ← evalExpr invoke Γ self locals e
    return .next locals
  | .assign _ l e => do
    let spot ← evalLocation invoke Γ self locals l
    let v ← evalExpr invoke Γ self locals e
    return .next (← spot.write locals v)
  | .branch _ c onTrue none => do
    if ← truth (← evalExpr invoke Γ self locals c) then
      execStmt invoke bound self Γ locals onTrue
    else return .next locals
  | .branch _ c onTrue (some onFalse) => do
    if ← truth (← evalExpr invoke Γ self locals c) then
      execStmt invoke bound self Γ locals onTrue
    else execStmt invoke bound self Γ locals onFalse
  | .loop _ c body =>
    repeatWhile (fun locals => evalExpr invoke Γ self locals c)
      (fun locals => execStmt invoke bound self Γ locals body) bound locals
  | .return _ e => do
    return .returned (← evalExpr invoke Γ self locals e)
  | .block _ body => execBody invoke bound self Γ locals body
termination_by structural s

/-- Statements one after the other, until one returns. The variables that a block declares are
those of the function, only their names end with it. -/
def execBody (invoke : Invoke) (bound : Nat) (self : Option Datum) (Γ : Context)
    (locals : Locals) (body : List Stmt) : Eval Flow := do
  match body with
  | [] => return .next locals
  | s :: rest =>
    match ← execStmt invoke bound self Γ locals s with
    | .next locals => execBody invoke bound self (Stmt.after Γ s) locals rest
    | .returned v => return .returned v
termination_by structural body

end

section equations

variable {invoke : Invoke} {bound : Nat} {self : Option Datum} {Γ : Context} {locals : Locals}
  {span : Span} {c e : Expr} {l : Location} {s : Stmt} {body : List Stmt}

theorem execStmt_declare {d : VarDecl} :
    execStmt invoke bound self Γ locals (.declare d) = pure (.next locals) :=
  rfl

theorem execStmt_eval : execStmt invoke bound self Γ locals (.eval e) = (do
    let _ ← evalExpr invoke Γ self locals e
    return .next locals) :=
  rfl

theorem execStmt_assign : execStmt invoke bound self Γ locals (.assign span l e) = (do
    let spot ← evalLocation invoke Γ self locals l
    let v ← evalExpr invoke Γ self locals e
    return .next (← spot.write locals v)) :=
  rfl

theorem execStmt_branch {other : Option Stmt} :
    execStmt invoke bound self Γ locals (.branch span c s other) = (do
      if ← truth (← evalExpr invoke Γ self locals c) then execStmt invoke bound self Γ locals s
      else other.elim (pure (.next locals)) (execStmt invoke bound self Γ locals)) := by
  cases other <;> rfl

theorem execStmt_loop : execStmt invoke bound self Γ locals (.loop span c s) =
    repeatWhile (fun locals => evalExpr invoke Γ self locals c)
      (fun locals => execStmt invoke bound self Γ locals s) bound locals :=
  rfl

theorem execStmt_return : execStmt invoke bound self Γ locals (.return span e) = (do
    return .returned (← evalExpr invoke Γ self locals e)) :=
  rfl

theorem execStmt_block : execStmt invoke bound self Γ locals (.block span body) =
    execBody invoke bound self Γ locals body :=
  rfl

theorem execBody_cons : execBody invoke bound self Γ locals (s :: body) = (do
    match ← execStmt invoke bound self Γ locals s with
    | .next locals => execBody invoke bound self (Stmt.after Γ s) locals body
    | .returned v => return .returned v) :=
  rfl

end equations

/-- The variables of a function that is entered: its parameters hold the arguments, all others hold
the defaults of their types. -/
def FunctionDecl.initial (f : FunctionDecl) (args : List Datum) : Locals := fun id =>
  match (f.params.zip args).find? (·.1.id == id) with
  | some (_, v) => v
  | none =>
    match (localsOf f.body).find? (·.id == id) with
    | some d => d.plain.default
    | none => .null

/-- The value that the body of a function returns. -/
def FunctionDecl.evaluate (p : Program) (printName : String) (invoke : Invoke) (bound : Nat)
    (current : Option String) (f : FunctionDecl) (self : Option Datum) (args : List Datum) :
    Eval Datum := do
  match ← execBody invoke bound self (f.context p printName current) (f.initial args) f.body with
  | .returned v => return v
  | .next _ => throw .stuck

/-- What calls do whose nesting is bounded. -/
def Program.invoke (p : Program) (printName : String) : Nat → Invoke
  | 0 => fun _ _ _ => throw .timeout
  | bound + 1 => fun f self args =>
    match f with
    | .print => printArgument args
    | .function decl =>
      decl.evaluate p printName (p.invoke printName bound) (bound + 1) none none args
    | .method owner decl =>
      decl.evaluate p printName (p.invoke printName bound) (bound + 1) (some owner) self args

/-- What a program does up to a bound: the value of its main function, or the reason why there is
none, and the store in the end. -/
def Program.evaluate (p : Program) (printName : String) (bound : Nat) :
    Except Stop Datum × Store :=
  match p.function? mainName with
  | some f => p.invoke printName bound (.function f) none [] {}
  | none => (.error .stuck, {})

end ObjectLang
