import Mathlib.Logic.Relation
import ObjectLang.Analysis.Returns
import ObjectLang.Tree.Basic

/-!
# The rules of the language

What a program has to keep, said of its tree alone: the hierarchy of its classes, the types of its
expressions and statements, overriding, and the placing of returns. There is no type for what could
not be determined here. A name means the nearest declaration upwards from a class, and every
expression has at most one type; subtyping is used where a value is assigned, passed or returned.
-/
namespace ObjectLang

/-- A type of the language. -/
inductive PlainType where
  | int
  | bool
  | null
  | array (component : PlainType)
  | object (cls : String)
deriving Repr, DecidableEq, Inhabited

/-- The type that is written. -/
def TypeExpr.plain : TypeExpr → PlainType
  | .int _ => .int
  | .bool _ => .bool
  | .named _ name => .object name.name
  | .array _ component => .array component.plain

/-- No written type is that of `null`. -/
theorem TypeExpr.plain_ne_null (t : TypeExpr) : t.plain ≠ .null := by
  cases t <;> exact PlainType.noConfusion

def VarDecl.plain (d : VarDecl) : PlainType :=
  d.type.plain

namespace Program

/-- A class names another one as its superclass. -/
def Extends (p : Program) (c d : String) : Prop :=
  ∃ decl ∈ p.classes, decl.name.name = c ∧ ∃ s, decl.superclass = some s ∧ s.name = d

/-- A class is another one or below it. -/
def Below (p : Program) : String → String → Prop :=
  Relation.ReflTransGen p.Extends

def Declares (p : Program) (c : String) : Prop :=
  ∃ decl ∈ p.classes, decl.name.name = c

/-- The first class of a name. -/
def class? (p : Program) (name : String) : Option ClassDecl :=
  p.classes.find? (·.name.name == name)

/-- A class and the classes above it, at most `steps` in all. -/
def lineageWithin (p : Program) : Nat → String → List ClassDecl
  | 0, _ => []
  | steps + 1, name =>
    match p.class? name with
    | none => []
    | some c => c :: c.superclass.elim [] fun s => p.lineageWithin steps s.name

/-- A class and the classes above it, itself first. Without cycles there are no more of them than
the program has classes. -/
def lineage (p : Program) (name : String) : List ClassDecl :=
  p.lineageWithin p.classes.length name

/-- The nearest class upwards that declares a field, and the field. -/
def field? (p : Program) (cls name : String) : Option (ClassDecl × VarDecl) :=
  (p.lineage cls).findSome? fun owner => (owner.field? name).map fun decl => (owner, decl)

/-- The nearest class upwards that declares a method, and the method. -/
def method? (p : Program) (cls name : String) : Option (ClassDecl × FunctionDecl) :=
  (p.lineage cls).findSome? fun owner => (owner.method? name).map fun decl => (owner, decl)

/-- Every value of the first type can stand where one of the second is asked for. -/
inductive Subtype (p : Program) : PlainType → PlainType → Prop
  | refl (t : PlainType) : p.Subtype t t
  | nullArray (t : PlainType) : p.Subtype .null (.array t)
  | nullObject (c : String) : p.Subtype .null (.object c)
  | object {c d : String} : p.Below c d → p.Subtype (.object c) (.object d)

end Program

/-- All classes in a type are declared. -/
def PlainType.Known (p : Program) : PlainType → Prop
  | .object c => p.Declares c
  | .array t => t.Known p
  | .int | .bool | .null => True

/-- A place of a function body: the class that the function is a method of, if it is one, and the
variables that are visible there, the latest first. -/
structure Context where
  program : Program
  printName : String
  current : Option String := none
  locals : List VarDecl := []

/-- What a variable refers to. -/
inductive Variable where
  | slot (decl : VarDecl)
  | field (owner : String) (decl : VarDecl)

def Variable.type : Variable → PlainType
  | .slot decl => decl.plain
  | .field _ decl => decl.plain

/-- What a call calls. -/
inductive Callable where
  | print
  | function (decl : FunctionDecl)
  | method (owner : String) (decl : FunctionDecl)

namespace Callable

def params : Callable → List PlainType
  | .print => [.int]
  | .function decl => decl.params.map VarDecl.plain
  | .method _ decl => decl.params.map VarDecl.plain

def returnType : Callable → PlainType
  | .print => .int
  | .function decl => decl.returnType.plain
  | .method _ decl => decl.returnType.plain

end Callable

namespace Context

def declare (Γ : Context) (decl : VarDecl) : Context :=
  { Γ with locals := decl :: Γ.locals }

def local? (Γ : Context) (name : String) : Option VarDecl :=
  Γ.locals.find? (·.name.name == name)

/-- The field of a name from a class upwards. -/
def field? (Γ : Context) (cls name : String) : Option Variable :=
  (Γ.program.field? cls name).map fun (owner, decl) => .field owner.name.name decl

/-- The variable of a name: one of the function, or else a field of the class around it. -/
def resolve? (Γ : Context) (name : String) : Option Variable :=
  match Γ.local? name with
  | some decl => some (.slot decl)
  | none => Γ.current.bind fun cls => Γ.field? cls name

/-- The method of a name from a class upwards. -/
def method? (Γ : Context) (cls name : String) : Option Callable :=
  (Γ.program.method? cls name).map fun (owner, decl) => .method owner.name.name decl

/-- What a name calls by itself: a method of the class around it, or else a global function. -/
def callable? (Γ : Context) (name : String) : Option Callable :=
  match Γ.current.bind fun cls => Γ.method? cls name with
  | some method => some method
  | none =>
    if name = Γ.printName then some .print
    else (Γ.program.function? name).map .function

end Context

mutual

/-- The type of an expression. -/
inductive HasType (Γ : Context) : Expr → PlainType → Prop
  | neg {tag : Tag} {e : Expr} : HasType Γ e .int → HasType Γ (.unary tag .neg e) .int
  | not {tag : Tag} {e : Expr} : HasType Γ e .bool → HasType Γ (.unary tag .not e) .bool
  | and {tag : Tag} {l r : Expr} : HasType Γ l .bool → HasType Γ r .bool →
      HasType Γ (.binary tag .and l r) .bool
  | equal {tag : Tag} {l r : Expr} {t u : PlainType} : HasType Γ l t → HasType Γ r u →
      Γ.program.Subtype t u ∨ Γ.program.Subtype u t → HasType Γ (.binary tag .equal l r) .bool
  | less {tag : Tag} {l r : Expr} : HasType Γ l .int → HasType Γ r .int →
      HasType Γ (.binary tag .less l r) .bool
  | arithmetic {tag : Tag} {op : BinaryOp} {l r : Expr} : op.isArithmetic = true →
      HasType Γ l .int → HasType Γ r .int → HasType Γ (.binary tag op l r) .int
  | number {tag : Tag} {n : Nat} : HasType Γ (.number tag n) .int
  | bool {tag : Tag} {b : Bool} : HasType Γ (.bool tag b) .bool
  | null {tag : Tag} : HasType Γ (.null tag) .null
  | this {tag : Tag} {c : String} : Γ.current = some c → HasType Γ (.this tag) (.object c)
  | read {tag : Tag} {l : Location} {t : PlainType} : Location.HasType Γ l t →
      HasType Γ (.read tag l) t
  | arrayLength {tag : Tag} {a : Expr} {t : PlainType} : HasType Γ a (.array t) →
      HasType Γ (.arrayLength tag a) .int
  | newObject {tag : Tag} {c : Ident} : Γ.program.Declares c.name →
      HasType Γ (.newObject tag c) (.object c.name)
  | newArray {tag : Tag} {element : TypeExpr} {size : Expr} :
      element.plain.Known Γ.program → HasType Γ size .int →
      HasType Γ (.newArray tag element size) (.array element.plain)
  | call {tag : Tag} {f : Ident} {args : List Expr} {f' : Callable} :
      Γ.callable? f.name = some f' → HaveTypes Γ args f'.params →
      HasType Γ (.call tag f args) f'.returnType
  | methodCall {tag : Tag} {receiver : Expr} {c : String} {f : Ident} {args : List Expr}
      {f' : Callable} : HasType Γ receiver (.object c) → Γ.method? c f.name = some f' →
      HaveTypes Γ args f'.params →
      HasType Γ (.methodCall tag receiver f args) f'.returnType

/-- The type of what a location holds. -/
inductive Location.HasType (Γ : Context) : Location → PlainType → Prop
  | var {tag : Tag} {x : Ident} {v : Variable} : Γ.resolve? x.name = some v →
      Location.HasType Γ (.var tag x) v.type
  | field {tag : Tag} {receiver : Expr} {c : String} {x : Ident} {v : Variable} :
      HasType Γ receiver (.object c) → Γ.field? c x.name = some v →
      Location.HasType Γ (.field tag receiver x) v.type
  | index {tag : Tag} {a i : Expr} {t : PlainType} : HasType Γ a (.array t) →
      HasType Γ i .int → Location.HasType Γ (.index tag a i) t

/-- As many arguments as parameters, each of a type that fits its parameter. -/
inductive HaveTypes (Γ : Context) : List Expr → List PlainType → Prop
  | nil : HaveTypes Γ [] []
  | cons {e : Expr} {es : List Expr} {t u : PlainType} {us : List PlainType} :
      HasType Γ e t → Γ.program.Subtype t u → HaveTypes Γ es us → HaveTypes Γ (e :: es) (u :: us)

end

mutual

/-- A statement keeps the rules in a function that returns values of type `result`, and the place
behind it is another one. -/
inductive Stmt.WellTyped (result : PlainType) : Context → Stmt → Context → Prop
  | declare {Γ : Context} {d : VarDecl} : Γ.local? d.name.name = none → d.plain.Known Γ.program →
      Stmt.WellTyped result Γ (.declare d) (Γ.declare d)
  | eval {Γ : Context} {e : Expr} {t : PlainType} : HasType Γ e t →
      Stmt.WellTyped result Γ (.eval e) Γ
  | assign {Γ : Context} {span : Span} {l : Location} {e : Expr} {t u : PlainType} :
      l.HasType Γ u → HasType Γ e t → Γ.program.Subtype t u →
      Stmt.WellTyped result Γ (.assign span l e) Γ
  | branch {Γ Γ₁ : Context} {span : Span} {c : Expr} {s : Stmt} : HasType Γ c .bool →
      Stmt.WellTyped result Γ s Γ₁ → Stmt.WellTyped result Γ (.branch span c s none) Γ
  | branchElse {Γ Γ₁ Γ₂ : Context} {span : Span} {c : Expr} {s s' : Stmt} : HasType Γ c .bool →
      Stmt.WellTyped result Γ s Γ₁ → Stmt.WellTyped result Γ s' Γ₂ →
      Stmt.WellTyped result Γ (.branch span c s (some s')) Γ
  | loop {Γ Γ₁ : Context} {span : Span} {c : Expr} {s : Stmt} : HasType Γ c .bool →
      Stmt.WellTyped result Γ s Γ₁ → Stmt.WellTyped result Γ (.loop span c s) Γ
  | return {Γ : Context} {span : Span} {e : Expr} {t : PlainType} : HasType Γ e t →
      Γ.program.Subtype t result → Stmt.WellTyped result Γ (.return span e) Γ
  | block {Γ : Context} {span : Span} {body : List Stmt} : BodyWellTyped result Γ body →
      Stmt.WellTyped result Γ (.block span body) Γ

/-- Statements keep the rules, one behind the other. -/
inductive BodyWellTyped (result : PlainType) : Context → List Stmt → Prop
  | nil {Γ : Context} : BodyWellTyped result Γ []
  | cons {Γ Γ' : Context} {s : Stmt} {rest : List Stmt} : Stmt.WellTyped result Γ s Γ' →
      BodyWellTyped result Γ' rest → BodyWellTyped result Γ (s :: rest)

end

/-- The place behind a statement. -/
def Stmt.after (Γ : Context) : Stmt → Context
  | .declare d => Γ.declare d
  | _ => Γ

@[simp]
theorem Stmt.after_program (Γ : Context) (s : Stmt) : (s.after Γ).program = Γ.program := by
  cases s <;> rfl

mutual

/-- No statement stands behind a `return` of its block, loops apart. -/
inductive Stmt.Tidy : Stmt → Prop
  | declare {d : VarDecl} : Stmt.Tidy (.declare d)
  | eval {e : Expr} : Stmt.Tidy (.eval e)
  | assign {span : Span} {l : Location} {e : Expr} : Stmt.Tidy (.assign span l e)
  | branch {span : Span} {c : Expr} {s : Stmt} : s.Tidy → Stmt.Tidy (.branch span c s none)
  | branchElse {span : Span} {c : Expr} {s s' : Stmt} : s.Tidy → s'.Tidy →
      Stmt.Tidy (.branch span c s (some s'))
  | loop {span : Span} {c : Expr} {s : Stmt} : Stmt.Tidy (.loop span c s)
  | return {span : Span} {e : Expr} : Stmt.Tidy (.return span e)
  | block {span : Span} {body : List Stmt} : BodyTidy body → Stmt.Tidy (.block span body)

inductive BodyTidy : List Stmt → Prop
  | nil : BodyTidy []
  | last {s : Stmt} : s.Tidy → BodyTidy [s]
  | cons {s : Stmt} {rest : List Stmt} : ¬ s.isReturn → s.Tidy → BodyTidy rest →
      BodyTidy (s :: rest)

end

/-- The place where the body of a function starts. -/
def FunctionDecl.context (f : FunctionDecl) (p : Program) (printName : String)
    (current : Option String) : Context :=
  ⟨p, printName, current, f.params.reverse⟩

/-- A function, or a method of a class, keeps the rules. -/
structure FunctionDecl.WellFormed (p : Program) (printName : String) (current : Option String)
    (f : FunctionDecl) : Prop where
  returnType : f.returnType.plain.Known p
  paramTypes : ∀ x ∈ f.params, x.plain.Known p
  paramNames : (f.params.map (·.name.name)).Nodup
  body : BodyWellTyped f.returnType.plain (f.context p printName current) f.body
  returns : ∃ init span e, f.body = init ++ [.return span e]
  tidy : BodyTidy f.body

/-- A method can stand in for one of its name further up. -/
structure FunctionDecl.Overrides (p : Program) (f g : FunctionDecl) : Prop where
  params : f.params.map VarDecl.plain = g.params.map VarDecl.plain
  returnType : p.Subtype f.returnType.plain g.returnType.plain

/-- The classes of a program have different names and superclasses that are declared, and no class
is its own ancestor. -/
structure Program.Hierarchy (p : Program) : Prop where
  names : (p.classes.map (·.name.name)).Nodup
  superclasses : ∀ c ∈ p.classes, ∀ s, c.superclass = some s → p.Declares s.name
  acyclic : ∀ c, ¬ Relation.TransGen p.Extends c c

/-- A program keeps all rules of the language, where `printName` calls the built-in function. -/
structure Program.WellFormed (p : Program) (printName : String) : Prop where
  hierarchy : p.Hierarchy
  fieldNames : ∀ c ∈ p.classes, (c.fields.map (·.name.name)).Nodup
  methodNames : ∀ c ∈ p.classes, (c.methods.map (·.name.name)).Nodup
  fieldTypes : ∀ c ∈ p.classes, ∀ x ∈ c.fields, x.plain.Known p
  overriding : ∀ c ∈ p.classes, ∀ f ∈ c.methods, ∀ s, c.superclass = some s →
    ∀ owner g, p.method? s.name f.name.name = some (owner, g) → f.Overrides p g
  methods : ∀ c ∈ p.classes, ∀ f ∈ c.methods, f.WellFormed p printName (some c.name.name)
  functionNames : (p.functions.map (·.name.name)).Nodup
  printFree : ∀ f ∈ p.functions, f.name.name ≠ printName
  functions : ∀ f ∈ p.functions, f.WellFormed p printName none
  main : ∃ f ∈ p.functions, f.name.name = mainName ∧ f.returnType.plain = .int ∧ f.params = []

end ObjectLang
