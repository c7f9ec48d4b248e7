import ObjectLang.Parsing.Statements

/-!
# Reading programs

A program is any sequence of classes and functions. Reading stops at the first error; a text whose
tokens are already faulty is not read at all, and all its faulty tokens are reported.
-/
namespace ObjectLang.Parsing

/-- A parameter. -/
def parameter (s : Stream) : Reading (Parsed s 1 VarDecl) := do
  let type ← typeExpr s
  let name ← type.andThen ident
  return name.node (type.value.span.merge name.value.span) (⟨·, type.value, name.value⟩)

/-- One or more parameters, separated by commas. -/
def parameters (s : Stream) : Reading (Parsed s 1 (List VarDecl)) := do
  let p ← parameter s
  match take? p.rest (.symbol .comma) with
  | some comma =>
    let ps ← parameters comma.rest
    return ((p.join comma).join ps).map (p.value :: ·)
  | none => return p.map ([·])
termination_by s.size
decreasing_by
  have := p.used
  have := comma.used
  omega

/-- A parameter list with its parentheses. -/
def parameterList (s : Stream) : Reading (Parsed s 1 (List VarDecl)) := do
  let start ← symbol s .leftParen
  match take? start.rest (.symbol .rightParen) with
  | some close => return (start.join close).map fun _ => []
  | none =>
    let params ← start.andThen parameters
    let close ← params.andThen (symbol · .rightParen)
    return close.map fun _ => params.value

/-- The parameters and the body of a function whose return type and name are read already. -/
def functionBehind (returnType : TypeExpr) (name : Ident) (s : Stream) :
    Reading (Parsed s 1 FunctionDecl) := do
  let ⟨params, s₁, h₁⟩ ← parameterList s.bump
  let ⟨(bodySpan, body), s₂, h₂⟩ ← block s₁
  return ⟨⟨s.tag (returnType.span.merge bodySpan), returnType, name, params, bodySpan, body⟩, s₂,
    by simp only [Stream.size_bump] at h₁; omega⟩

/-- A member of a class. -/
inductive Member where
  | field (decl : VarDecl)
  | method (decl : FunctionDecl)

namespace Member

def field? : Member → Option VarDecl
  | .field decl => some decl
  | .method _ => none

def method? : Member → Option FunctionDecl
  | .field _ => none
  | .method decl => some decl

end Member

/-- A field or a method. -/
def member (s : Stream) : Reading (Parsed s 1 Member) := do
  let type ← typeExpr s
  let name ← type.andThen ident
  if name.rest.sees (.symbol .leftParen) then
    let decl ← name.andThen (functionBehind type.value name.value)
    return decl.map .method
  else
    let close ← name.andThen (symbol · .semicolon)
    return close.node (s.peek.span.merge close.value.span) fun tag =>
      .field ⟨tag, type.value, name.value⟩

/-- Members up to a closing brace. -/
def members (s : Stream) : Reading (Parsed s 0 (List Member)) :=
  if s.sees (.symbol .rightBrace) then return ⟨[], s, by simp⟩
  else do
    let m ← member s
    let ms ← members m.rest
    return ((m.join ms).map (m.value :: ·)).weaken
termination_by s.size
decreasing_by
  have := m.used
  omega

/-- The superclass that a class names, if it names one. -/
def extending (s : Stream) : Reading (Parsed s 0 (Option Ident)) :=
  match take? s (.keyword .extending) with
  | some start => do
    let name ← start.andThen ident
    return (name.map some).weaken
  | none => return ⟨none, s, by simp⟩

/-- A class. -/
def classDecl (s : Stream) : Reading (Parsed s 1 ClassDecl) := do
  let start ← keyword s .classDecl
  let name ← start.bump.andThen ident
  let superclass ← name.andThen extending
  let opened ← superclass.andThen (symbol · .leftBrace)
  let ms ← opened.andThen members
  let close ← ms.andThen (symbol · .rightBrace)
  return close.map fun close =>
    { tag := start.rest.tag (start.value.span.merge close.span)
      name := name.value
      superclass := superclass.value
      fields := ms.value.filterMap Member.field?
      methods := ms.value.filterMap Member.method? }

/-- A function. -/
def functionDecl (s : Stream) : Reading (Parsed s 1 FunctionDecl) := do
  let type ← typeExpr s
  let name ← type.andThen ident
  name.andThen (functionBehind type.value name.value)

/-- Classes and functions up to the end of the text. -/
def declarations (s : Stream) : Reading (Parsed s 0 (List ClassDecl × List FunctionDecl)) :=
  if s.tokens.isEmpty then return ⟨([], []), s, by simp⟩
  else if s.sees (.keyword .classDecl) then do
    let c ← classDecl s
    let more ← declarations c.rest
    return ((c.join more).map fun (cs, fs) => (c.value :: cs, fs)).weaken
  else do
    let f ← functionDecl s
    let more ← declarations f.rest
    return ((f.join more).map fun (cs, fs) => (cs, f.value :: fs)).weaken
termination_by s.size
decreasing_by
  · have := c.used
    omega
  · have := f.used
    omega

/-- A source text read by some reader, or all that is wrong with it. -/
def readText {α : Type} (source : String) (reader : Stream → Except ParseError α) :
    Except (List ParseError) α :=
  let scan := Token.scan source
  if scan.errors.isEmpty then (reader (.ofScan scan)).mapError fun e => [e] else .error scan.errors

end Parsing

open Parsing

/-- The expression that a whole text is. -/
def Expr.ofText (source : String) : Except (List ParseError) Expr :=
  readText source fun s => do
    let ⟨e, rest, _⟩ ← expression 0 s
    atEnd rest
    return e

/-- The statement or declaration that a whole text is. -/
def Stmt.ofText (source : String) : Except (List ParseError) Stmt :=
  readText source fun s => do
    let ⟨item, rest, _⟩ ← blockItem s
    atEnd rest
    return item

/-- The program that a source text is. -/
def Program.ofText (source : String) : Except (List ParseError) Program :=
  readText source fun s => do
    let ⟨(classes, functions), rest, _⟩ ← declarations s
    return ⟨classes, functions, rest.fresh⟩

end ObjectLang
