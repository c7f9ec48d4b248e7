import ObjectLang.Source.Span

/-!
# Syntax trees

Programs as trees: classes and functions, statements, expressions, and the locations that can be
read and assigned. Every node that analysis says something about carries a tag with an identity of
its own, so that what is found out about it can be kept beside the tree.
-/
namespace ObjectLang

/-- The identity of a node of a tree, and the source text it was read from. -/
structure Tag where
  id : Nat
  span : Span
deriving Repr, DecidableEq, Inhabited

/-- A name where it is written. -/
structure Ident where
  name : String
  span : Span
deriving Repr, DecidableEq, Inhabited

/-- A type as it is written. -/
inductive TypeExpr where
  | int (tag : Tag)
  | bool (tag : Tag)
  | named (tag : Tag) (name : Ident)
  | array (tag : Tag) (component : TypeExpr)
deriving Repr, DecidableEq, Inhabited

namespace TypeExpr

def tag : TypeExpr → Tag
  | .int tag => tag
  | .bool tag => tag
  | .named tag _ => tag
  | .array tag _ => tag

def id (t : TypeExpr) : Nat :=
  t.tag.id

def span (t : TypeExpr) : Span :=
  t.tag.span

def text : TypeExpr → String
  | .int _ => "int"
  | .bool _ => "boolean"
  | .named _ name => name.name
  | .array _ component => component.text ++ "[]"

end TypeExpr

/-- The operators before an operand. -/
inductive UnaryOp where
  | neg
  | not
deriving Repr, DecidableEq, Inhabited

def UnaryOp.text : UnaryOp → String
  | .neg => "-"
  | .not => "!"

/-- The operators between two operands. -/
inductive BinaryOp where
  | and
  | equal
  | less
  | add
  | sub
  | mul
  | div
deriving Repr, DecidableEq, Inhabited

namespace BinaryOp

def text : BinaryOp → String
  | .and => "&&"
  | .equal => "=="
  | .less => "<"
  | .add => "+"
  | .sub => "-"
  | .mul => "*"
  | .div => "/"

/-- How tightly an operator binds. -/
def level : BinaryOp → Nat
  | .and => 1
  | .equal => 2
  | .less => 3
  | .add | .sub => 4
  | .mul | .div => 5

/-- Whether an operator takes numbers to a number. -/
def isArithmetic : BinaryOp → Bool
  | .add | .sub | .mul | .div => true
  | .and | .equal | .less => false

end BinaryOp

mutual

/-- An expression. -/
inductive Expr where
  | unary (tag : Tag) (op : UnaryOp) (operand : Expr)
  | binary (tag : Tag) (op : BinaryOp) (left right : Expr)
  | number (tag : Tag) (value : Nat)
  | bool (tag : Tag) (value : Bool)
  | null (tag : Tag)
  | this (tag : Tag)
  | read (tag : Tag) (location : Location)
  | arrayLength (tag : Tag) (array : Expr)
  | newObject (tag : Tag) (cls : Ident)
  | newArray (tag : Tag) (element : TypeExpr) (size : Expr)
  | call (tag : Tag) (name : Ident) (args : List Expr)
  | methodCall (tag : Tag) (receiver : Expr) (method : Ident) (args : List Expr)

/-- What holds a value and can be assigned: a variable, a field of an object, an element of an
array. -/
inductive Location where
  | var (tag : Tag) (name : Ident)
  | field (tag : Tag) (receiver : Expr) (name : Ident)
  | index (tag : Tag) (array index : Expr)

end

instance : Inhabited Expr :=
  ⟨.null default⟩

namespace Expr

def tag : Expr → Tag
  | .unary tag .. => tag
  | .binary tag .. => tag
  | .number tag _ => tag
  | .bool tag _ => tag
  | .null tag => tag
  | .this tag => tag
  | .read tag _ => tag
  | .arrayLength tag _ => tag
  | .newObject tag _ => tag
  | .newArray tag .. => tag
  | .call tag .. => tag
  | .methodCall tag .. => tag

def id (e : Expr) : Nat :=
  e.tag.id

def span (e : Expr) : Span :=
  e.tag.span

end Expr

namespace Location

def tag : Location → Tag
  | .var tag _ => tag
  | .field tag .. => tag
  | .index tag .. => tag

def id (l : Location) : Nat :=
  l.tag.id

def span (l : Location) : Span :=
  l.tag.span

end Location

/-- A variable with its type: a field, a parameter or a local. -/
structure VarDecl where
  tag : Tag
  type : TypeExpr
  name : Ident
deriving Repr, DecidableEq, Inhabited

def VarDecl.id (d : VarDecl) : Nat :=
  d.tag.id

def VarDecl.span (d : VarDecl) : Span :=
  d.tag.span

/-- A statement. A declaration is one too, though it may only stand directly in a block. -/
inductive Stmt where
  | declare (decl : VarDecl)
  | eval (value : Expr)
  | assign (span : Span) (target : Location) (value : Expr)
  | branch (span : Span) (condition : Expr) (onTrue : Stmt) (onFalse : Option Stmt)
  | loop (span : Span) (condition : Expr) (body : Stmt)
  | return (span : Span) (value : Expr)
  | block (span : Span) (body : List Stmt)

instance : Inhabited Stmt :=
  ⟨.eval default⟩

def Stmt.span : Stmt → Span
  | .declare decl => decl.span
  | .eval value => value.span
  | .assign span .. => span
  | .branch span .. => span
  | .loop span .. => span
  | .return span _ => span
  | .block span _ => span

/-- A function, or a method of a class. -/
structure FunctionDecl where
  tag : Tag
  returnType : TypeExpr
  name : Ident
  params : List VarDecl
  bodySpan : Span
  body : List Stmt
deriving Inhabited

def FunctionDecl.id (f : FunctionDecl) : Nat :=
  f.tag.id

/-- A class with the members that it declares itself. -/
structure ClassDecl where
  tag : Tag
  name : Ident
  superclass : Option Ident
  fields : List VarDecl
  methods : List FunctionDecl
deriving Inhabited

namespace ClassDecl

def id (c : ClassDecl) : Nat :=
  c.tag.id

/-- The first field of a name that the class declares itself. -/
def field? (c : ClassDecl) (name : String) : Option VarDecl :=
  c.fields.find? (·.name.name == name)

/-- The first method of a name that the class declares itself. -/
def method? (c : ClassDecl) (name : String) : Option FunctionDecl :=
  c.methods.find? (·.name.name == name)

end ClassDecl

/-- A whole program, with the number of identities that its nodes use. -/
structure Program where
  classes : List ClassDecl
  functions : List FunctionDecl
  nodeCount : Nat
deriving Inhabited

/-- The first function of a name. -/
def Program.function? (p : Program) (name : String) : Option FunctionDecl :=
  p.functions.find? (·.name.name == name)

end ObjectLang
