import Mathlib.Tactic
import ObjectLang.Analysis.Basic
import ObjectLang.Analysis.Members
import ObjectLang.Proofs.Typing.Outline
import ObjectLang.Proofs.Typing.Rules

/-!
# Verdicts

What analysis says about the parts of a program, whatever was analysed before them: the outlines of
types, and what happens one after the other. Reporting something is an event, and so is coming to a
written type, as an undeclared class in it is reported only the first time. Nothing here knows the
order of the classes, the numbers of array types or what was noted.
-/
namespace ObjectLang

/-- Something that happens in the analysis of a part of a program. -/
inductive Event where
  | report (d : Diagnostic)
  | resolve (t : TypeExpr)

/-- What a part of a program amounts to, and all that happens in its analysis. -/
structure Verdict (α : Type) where
  value : α
  events : List Event := []

namespace Verdict

instance : Monad Verdict where
  pure a := ⟨a, []⟩
  bind v k := ⟨(k v.value).value, v.events ++ (k v.value).events⟩

instance : LawfulMonad Verdict := LawfulMonad.mk' _
  (fun _ => congrArg (Verdict.mk _) (List.append_nil _))
  (fun _ _ => rfl)
  (fun _ _ _ => congrArg (Verdict.mk _) (List.append_assoc ..))

variable {α β : Type}

@[simp]
theorem value_pure (a : α) : (pure a : Verdict α).value = a :=
  rfl

@[simp]
theorem events_pure (a : α) : (pure a : Verdict α).events = [] :=
  rfl

@[simp]
theorem value_bind (v : Verdict α) (k : α → Verdict β) : (v >>= k).value = (k v.value).value :=
  rfl

@[simp]
theorem events_bind (v : Verdict α) (k : α → Verdict β) :
    (v >>= k).events = v.events ++ (k v.value).events :=
  rfl

theorem value_mapM (k : α → Verdict β) (l : List α) :
    (l.mapM k).value = l.map fun x => (k x).value := by
  induction l with
  | nil => rfl
  | cons x l ih => rw [List.mapM_cons, value_bind, value_bind, value_pure, ih, List.map_cons]

theorem value_foldlM (k : β → α → Verdict β) (l : List α) (b : β) :
    (l.foldlM k b).value = l.foldl (fun b x => (k b x).value) b := by
  induction l generalizing b with
  | nil => rfl
  | cons x l ih => exact ih _

theorem events_forM (k : α → Verdict PUnit) (l : List α) :
    (l.forM k).events = l.flatMap fun x => (k x).events := by
  induction l with
  | nil => rfl
  | cons x l ih =>
      rw [List.flatMap_cons, ← ih]
      rfl

theorem mem_events_foldlM {k : β → α → Verdict β} {l : List α} {x : α} {e : Event} (hx : x ∈ l)
    (h : ∀ b, e ∈ (k b x).events) (b : β) : e ∈ (l.foldlM k b).events := by
  induction l generalizing b with
  | nil => cases hx
  | cons y l ih =>
      rw [List.foldlM_cons, events_bind, List.mem_append]
      rcases List.mem_cons.1 hx with rfl | hx
      · exact .inl (h b)
      · exact .inr (ih hx _)

def report (d : Diagnostic) : Verdict Unit :=
  ⟨(), [.report d]⟩

/-- Reports something unless a condition holds. -/
def require (condition : Bool) (d : Diagnostic) : Verdict Unit :=
  if condition then pure () else report d

end Verdict

/-- The outline of a written type, where `declares` says which classes there are. -/
def TypeExpr.outline (declares : String → Bool) : TypeExpr → Outline
  | .int _ => .int
  | .bool _ => .bool
  | .named _ name => if declares name.name then .object name.name else .any
  | .array _ component => .array (component.outline declares)

/-- What the elements of something are that is indexed. -/
def Outline.component : Outline → Outline
  | .array o => o
  | _ => .any

/-- The outline of a method. -/
structure MethodOutline where
  params : List Outline
  returnType : Outline

def FunctionDecl.outline (declares : String → Bool) (f : FunctionDecl) : MethodOutline :=
  ⟨f.params.map fun p => p.type.outline declares, f.returnType.outline declares⟩

/-- All that the analysis of a body needs to know of its program. -/
structure Setting where
  /-- The names of a declared class and of the classes above it. -/
  ancestors? : String → Option (List String)
  /-- What a name calls by itself. -/
  function? : String → Option GlobalFunction
  /-- The type of a field that is looked for from a class upwards. -/
  field? : String → String → Option Outline
  /-- The method of a name that is looked for from a class upwards. -/
  method? : String → String → Option MethodOutline

/-- The first of each name among some members. -/
def firsts {α : Type} (name : α → String) (members : List α) : List α :=
  members.foldl (fun found x => if found.any (name · == name x) then found else found ++ [x]) []

/-- The function that a place belongs to, and the variables visible there, the latest first. -/
structure ScopeOutline where
  function : String
  returnType : Outline
  vars : List (String × Outline) := []

namespace ScopeOutline

def declare (s : ScopeOutline) (name : String) (type : Outline) : ScopeOutline :=
  { s with vars := (name, type) :: s.vars }

def find? (s : ScopeOutline) (name : String) : Option Outline :=
  (s.vars.find? (·.1 == name)).map (·.2)

end ScopeOutline

namespace Setting

variable (S : Setting)

def declares (name : String) : Bool :=
  (S.ancestors? name).isSome

def isSubclass (c d : String) : Bool :=
  (S.ancestors? c).any fun names => names.any (· == d)

def isSubtype (o o' : Outline) : Bool :=
  o.isSubtype S.isSubclass o'

/-- The meaning of a written type. -/
def outline (t : TypeExpr) : Outline :=
  t.outline S.declares

def resolve (t : TypeExpr) : Verdict Outline :=
  ⟨S.outline t, [.resolve t]⟩

def requireType (expected found : Outline) (span : Span) : Verdict Unit :=
  Verdict.require (S.isSubtype found expected) (.typeMismatch expected.text found.text span)

def requireArray (found : Outline) (span : Span) : Verdict Outline :=
  match found with
  | .array _ | .any => pure found
  | _ => do
    Verdict.report (.notAnArray found.text span)
    return .any

def requireObject (found : Outline) (span : Span) : Verdict (Option String) :=
  match found with
  | .object cls => pure (some cls)
  | .any => pure none
  | _ => do
    Verdict.report (.notAClass found.text span)
    return none

/-- The type of a field that is looked for from a class upwards. -/
def field (cls name : String) (unknown : Diagnostic) : Verdict Outline :=
  match S.field? cls name with
  | some o => pure o
  | none => do
    Verdict.report unknown
    return .any

/-- The type of a variable. -/
def typeOfVariable (current : Option String) (scope : ScopeOutline) (name : Ident) :
    Verdict Outline :=
  let unknown := Diagnostic.unknownVariable name.name name.span
  match scope.find? name.name with
  | some o => pure o
  | none =>
    match current with
    | some cls => S.field cls name.name unknown
    | none => do
      Verdict.report unknown
      return .any

def newObject (name : Ident) : Verdict Outline :=
  if S.declares name.name then pure (.object name.name)
  else do
    Verdict.report (.undeclaredClass name.name name.span)
    return .any

/-- The types of the parameters and of the result of what a name calls by itself. -/
def callee? (current : Option String) (name : Ident) : Verdict (Option MethodOutline) :=
  match current.bind fun cls => S.method? cls name.name with
  | some method => pure (some method)
  | none =>
    match S.function? name.name with
    | some .print => pure (some ⟨[.int], .int⟩)
    | some (.declared decl) => do
      let params ← decl.params.mapM fun p => S.resolve p.type
      let returnType ← S.resolve decl.returnType
      return some ⟨params, returnType⟩
    | none => do
      Verdict.report (.unknownFunction name.name name.span)
      return none

def arity (expected found : Nat) (span : Span) : Verdict Bool :=
  if expected < found then do
    Verdict.report (.tooManyArguments expected found span)
    return false
  else if found < expected then do
    Verdict.report (.notEnoughArguments expected found span)
    return false
  else pure true

end Setting

namespace Setting

variable (S : Setting)

/-- An operand that has to be of a type. -/
def operand (expected : Outline) (operand : Verdict Outline) (span : Span) : Verdict Unit := do
  S.requireType expected (← operand) span

/-- Operands that are compared. -/
def comparison (left right : Verdict Outline) (span : Span) : Verdict Unit := do
  let l ← left
  let r ← right
  Verdict.require (S.isSubtype l r || S.isSubtype r l) (.incomparableTypes l.text r.text span)

/-- A call of what was found for it. -/
def applied (args : List Outline → Verdict Unit) (count : Nat) (span : Span)
    (callee : MethodOutline) : Verdict Outline := do
  let fits ← arity callee.params.length count span
  (if fits then args callee.params else pure ())
  return callee.returnType

/-- A call of a method of a class. -/
def methodApplied (args : List Outline → Verdict Unit) (count : Nat) (span : Span) (name : Ident)
    (cls : String) : Verdict Outline :=
  (S.method? cls name.name).elim
    (do
      Verdict.report (.unknownMethod name.name cls name.span)
      return .any)
    (applied args count span)

end Setting

mutual

/-- The type of an expression, and all that happens in it. -/
def Expr.verdict (S : Setting) (current : Option String) (scope : ScopeOutline) :
    Expr → Verdict Outline
  | .unary _ op operand => do
    S.operand (unaryType op).outline (operand.verdict S current scope) operand.span
    return (unaryType op).outline
  | .binary tag op left right =>
    if op = .equal then do
      S.comparison (left.verdict S current scope) (right.verdict S current scope) tag.span
      return .bool
    else do
      S.operand (operandType op).outline (left.verdict S current scope) left.span
      S.operand (operandType op).outline (right.verdict S current scope) right.span
      return (resultType op).outline
  | .number _ _ => pure .int
  | .bool _ _ => pure .bool
  | .null _ => pure .null
  | .this tag =>
    match current with
    | some cls => pure (.object cls)
    | none => do
      Verdict.report (.thisOutsideMethod tag.span)
      return .any
  | .read _ location => location.verdict S current scope
  | .arrayLength _ array => do
    let _ ← Setting.requireArray (← array.verdict S current scope) array.span
    return .int
  | .newObject _ cls => S.newObject cls
  | .newArray _ element size => do
    S.operand .int (size.verdict S current scope) size.span
    return .array (← S.resolve element)
  | .call tag name args => do
    (← S.callee? current name).elim (pure .any)
      (Setting.applied (verdictOfArguments S current scope args) args.length tag.span)
  | .methodCall tag receiver name args => do
    let found ← receiver.verdict S current scope
    (← Setting.requireObject found receiver.span).elim (pure .any)
      (S.methodApplied (verdictOfArguments S current scope args) args.length tag.span name)
termination_by structural e => e

def Location.verdict (S : Setting) (current : Option String) (scope : ScopeOutline) :
    Location → Verdict Outline
  | .var _ name => S.typeOfVariable current scope name
  | .field _ receiver name => do
    let found ← receiver.verdict S current scope
    (← Setting.requireObject found receiver.span).elim (pure .any) fun cls =>
      S.field cls name.name (.unknownField name.name cls name.span)
  | .index _ array index => do
    let found ← array.verdict S current scope
    let arrayType ← Setting.requireArray found array.span
    S.operand .int (index.verdict S current scope) index.span
    return arrayType.component
termination_by structural l => l

def verdictOfArguments (S : Setting) (current : Option String) (scope : ScopeOutline) :
    List Expr → List Outline → Verdict Unit
  | arg :: args, param :: params => do
    S.operand param (arg.verdict S current scope) arg.span
    verdictOfArguments S current scope args params
  | [], _ | _ :: _, [] => pure ()
termination_by structural args => args

end

namespace Setting

variable (S : Setting)

/-- A declaration: the scope behind it. -/
def declaration (scope : ScopeOutline) (decl : VarDecl) : Verdict ScopeOutline := do
  Verdict.require (scope.find? decl.name.name).isNone
    (.duplicateVariable decl.name.name scope.function decl.name.span)
  return scope.declare decl.name.name (← S.resolve decl.type)

def assignment (current : Option String) (scope : ScopeOutline) (target : Location)
    (value : Expr) : Verdict Unit := do
  let expected ← target.verdict S current scope
  let found ← value.verdict S current scope
  Verdict.require (S.isSubtype found expected)
    (.invalidAssignment expected.text found.text value.span)

def condition (current : Option String) (scope : ScopeOutline) (construct : Conditional)
    (e : Expr) : Verdict Unit := do
  let found ← e.verdict S current scope
  Verdict.require (S.isSubtype found .bool) (.invalidCondition construct found.text e.span)

def returns (current : Option String) (scope : ScopeOutline) (span : Span) (value : Expr) :
    Verdict Unit := do
  let found ← value.verdict S current scope
  Verdict.require (S.isSubtype found scope.returnType)
    (.invalidReturn scope.returnType.text found.text span)

end Setting

mutual

/-- The scope behind a statement, and all that happens in it. -/
def Stmt.verdict (S : Setting) (current : Option String) (scope : ScopeOutline) :
    Stmt → Verdict ScopeOutline
  | .declare decl => S.declaration scope decl
  | .eval value => do
    let _ ← value.verdict S current scope
    return scope
  | .assign _ target value => do
    S.assignment current scope target value
    return scope
  | .branch _ condition onTrue none => do
    S.condition current scope .branch condition
    let _ ← onTrue.verdict S current scope
    return scope
  | .branch _ condition onTrue (some onFalse) => do
    S.condition current scope .branch condition
    let _ ← onTrue.verdict S current scope
    let _ ← onFalse.verdict S current scope
    return scope
  | .loop _ condition body => do
    S.condition current scope .loop condition
    let _ ← body.verdict S current scope
    return scope
  | .return span value => do
    S.returns current scope span value
    return scope
  | .block _ body => do
    verdictOfBody S current scope body
    return scope
termination_by structural s => s

def verdictOfBody (S : Setting) (current : Option String) (scope : ScopeOutline) :
    List Stmt → Verdict Unit
  | [] => pure ()
  | s :: rest => do
    let scope ← s.verdict S current scope
    verdictOfBody S current scope rest
termination_by structural body => body

end

namespace Setting

variable (S : Setting)

/-- A parameter: the scope behind it. -/
def parameter (scope : ScopeOutline) (p : VarDecl) : Verdict ScopeOutline := do
  Verdict.require (scope.find? p.name.name).isNone (.duplicateParameter p.name.name p.name.span)
  return scope.declare p.name.name (← S.resolve p.type)

/-- A function: its signature and its body. -/
def function (current : Option String) (f : FunctionDecl) : Verdict Unit := do
  let returnType ← S.resolve f.returnType
  let scope ← f.params.foldlM S.parameter ⟨f.name.name, returnType, []⟩
  verdictOfBody S current scope f.body

/-- Some members with one more, unless its name is taken. -/
def addMember {α : Type} (name : α → String) (taken : α → Diagnostic) (members : List α) (x : α) :
    Verdict (List α) :=
  if members.any (name · == name x) then do
    Verdict.report (taken x)
    return members
  else return members ++ [x]

def declareField (cls : String) (fields : List VarDecl) (d : VarDecl) : Verdict (List VarDecl) := do
  let _ ← S.resolve d.type
  addMember (·.name.name) (fun d => .duplicateField d.name.name cls d.name.span) fields d

def declareMethod (cls : String) (methods : List FunctionDecl) (f : FunctionDecl) :
    Verdict (List FunctionDecl) := do
  let _ ← f.params.mapM fun p => S.resolve p.type
  let _ ← S.resolve f.returnType
  addMember (·.name.name) (fun f => .duplicateMethod f.name.name cls f.name.span) methods f

theorem value_addMember {α : Type} (name : α → String) (taken : α → Diagnostic) (members : List α)
    (x : α) : (addMember name taken members x).value =
      if members.any (name · == name x) then members else members ++ [x] := by
  rw [addMember]
  split_ifs <;> rfl

theorem value_declareFields (cls : String) (fields : List VarDecl) :
    (fields.foldlM (S.declareField cls) []).value = firsts (·.name.name) fields := by
  rw [Verdict.value_foldlM, firsts]
  exact congrArg (List.foldl · [] fields) (funext fun _ => funext fun _ => value_addMember ..)

theorem value_declareMethods (cls : String) (methods : List FunctionDecl) :
    (methods.foldlM (S.declareMethod cls) []).value = firsts (·.name.name) methods := by
  rw [Verdict.value_foldlM, firsts]
  exact congrArg (List.foldl · [] methods) (funext fun _ => funext fun _ => value_addMember ..)

/-- All members of a class. -/
def members (c : ClassDecl) : Verdict Unit := do
  let _ ← c.fields.foldlM (S.declareField c.name.name) []
  let _ ← c.methods.foldlM (S.declareMethod c.name.name) []

/-- What a method has wrong if it overrides another one. -/
def overrides (d : FunctionDecl) (overridden : MethodOutline) : List Diagnostic :=
  let name := d.name.name
  if d.params.length = overridden.params.length then
    let pairs := d.params.zip overridden.params
    let changed := pairs.filter fun (p, expected) =>
      !(S.isSubtype (S.outline p.type) expected && S.isSubtype expected (S.outline p.type))
    changed.map (fun (p, _) => .overrideParameterType name p.span)
      ++ if S.isSubtype (S.outline d.returnType) overridden.returnType then []
        else [.overrideReturnType name d.returnType.span]
  else [.overrideParameterCount name d.name.span]

/-- What the methods of a class have wrong that override methods of its ancestors. -/
def classOverrides (c : ClassDecl) : List Diagnostic :=
  ((S.ancestors? c.name.name).bind fun names => names[1]?).elim [] fun superclass =>
    (firsts (·.name.name) c.methods).flatMap fun f =>
      (S.method? superclass f.name.name).elim [] (S.overrides f)

/-- All that happens in the classes and functions of a program. -/
def program (classes : List ClassDecl) (functions : List FunctionDecl) : Verdict Unit := do
  classes.forM S.members
  classes.forM fun c => (S.classOverrides c).forM Verdict.report
  classes.forM fun c => c.methods.forM (S.function (some c.name.name))
  functions.forM (S.function none)

end Setting

namespace Program

variable (p : Program) (printName : String)

/-- The class table of a program. -/
def classTable : ClassTable :=
  (ClassTable.build p.classes).1

/-- The names of an accepted class and of the classes above it. -/
def ancestors? (name : String) : Option (List String) :=
  (p.classTable.find? name).map fun c => c.ancestors.map ClassRef.name

/-- What the nearest class upwards has that has it. -/
def upwards? {α : Type} (cls : String) (own? : ClassDecl → Option α) : Option α :=
  ((p.ancestors? cls).getD []).findSome? fun owner => (p.class? owner).bind own?

/-- The first class of each name. -/
def acceptedClasses : List ClassDecl :=
  p.classTable.classes.map p.classDecl

/-- What a program declares. -/
def setting : Setting :=
  let declares name := (p.ancestors? name).isSome
  { ancestors? := p.ancestors?
    function? := (FunctionTable.build printName p.functions).1.find?
    field? := fun cls name =>
      p.upwards? cls fun c => (c.field? name).map fun d => d.type.outline declares
    method? := fun cls name =>
      p.upwards? cls fun c => (c.method? name).map fun f => f.outline declares }

end Program

end ObjectLang
