import ObjectLang.Parsing.Expressions

/-!
# Reading statements

A statement is known by its first word; what starts with none of `if`, `while`, `return` and a
brace is an expression, alone or as the target of an assignment. Directly in a block, a type
followed by a name starts a declaration.
-/
namespace ObjectLang.Parsing

/-- Whether a name stands next, behind any number of bracket pairs. -/
def nameBehindBrackets : List Token → Bool
  | t :: u :: tokens =>
    if t.kind = .symbol .leftBracket ∧ u.kind = .symbol .rightBracket then
      nameBehindBrackets tokens
    else t.kind == .identifier
  | [t] => t.kind == .identifier
  | [] => false

/-- Whether some tokens start with a declaration. -/
def startsDeclaration : List Token → Bool
  | t :: tokens =>
    match t.kind with
    | .keyword .intType | .keyword .boolType => true
    | .identifier => nameBehindBrackets tokens
    | _ => false
  | [] => false

/-- A declaration of a local variable. -/
def declaration (s : Stream) : Reading (Parsed s 1 VarDecl) := do
  let type ← typeExpr s
  let name ← type.andThen ident
  let close ← name.andThen (symbol · .semicolon)
  return close.node (type.value.span.merge close.value.span) (⟨·, type.value, name.value⟩)

/-- A condition in its parentheses. -/
def condition (s : Stream) : Reading (Parsed s 1 Expr) := do
  let start ← symbol s .leftParen
  let e ← start.andThen (expression 0)
  let close ← e.andThen (symbol · .rightParen)
  return close.map fun _ => e.value

/-- The error of an assignment to what is no location. -/
def notAssignable (span : Span) : ParseError :=
  ⟨.invalidAssignTarget, span,
    "left side of an assignment must be a variable, field or array element"⟩

/-- A statement that starts with an expression. -/
def evaluation (s : Stream) : Reading (Parsed s 1 Stmt) := do
  let e ← expression 0 s
  match take? e.rest (.symbol .equal) with
  | some sign =>
    match e.value with
    | .read tag target =>
      let value ← (e.join sign).andThen (expression 0)
      let close ← value.andThen (symbol · .semicolon)
      return close.map fun close => .assign (tag.span.merge close.span) target value.value
    | _ => .error (notAssignable sign.value.span)
  | none =>
    let close ← e.andThen (symbol · .semicolon)
    return close.map fun _ => .eval e.value

mutual

/-- A statement. -/
def statement (s : Stream) : Reading (Parsed s 1 Stmt) :=
  match take? s (.keyword .ifStmt) with
  | some ⟨start, s₁, h₁⟩ => do
    let ⟨test, s₂, h₂⟩ ← condition s₁
    let ⟨onTrue, s₃, h₃⟩ ← statement s₂
    match take? s₃ (.keyword .elseStmt) with
    | some ⟨_, s₄, h₄⟩ =>
      let ⟨onFalse, s₅, h₅⟩ ← statement s₄
      return ⟨.branch (start.span.merge onFalse.span) test onTrue (some onFalse), s₅, by omega⟩
    | none => return ⟨.branch (start.span.merge onTrue.span) test onTrue none, s₃, by omega⟩
  | none =>
    match take? s (.keyword .whileStmt) with
    | some ⟨start, s₁, h₁⟩ => do
      let ⟨test, s₂, h₂⟩ ← condition s₁
      let ⟨body, s₃, h₃⟩ ← statement s₂
      return ⟨.loop (start.span.merge body.span) test body, s₃, by omega⟩
    | none =>
      match take? s (.keyword .returnStmt) with
      | some ⟨start, s₁, h₁⟩ => do
        let ⟨value, s₂, h₂⟩ ← expression 0 s₁
        let ⟨close, s₃, h₃⟩ ← symbol s₂ .semicolon
        return ⟨.return (start.span.merge close.span) value, s₃, by omega⟩
      | none =>
        if s.sees (.symbol .leftBrace) then do
          let ⟨(span, body), s₁, h₁⟩ ← block s
          return ⟨.block span body, s₁, h₁⟩
        else evaluation s
termination_by 4 * s.size + 1

/-- A block: its place and its statements. -/
def block (s : Stream) : Reading (Parsed s 1 (Span × List Stmt)) := do
  let ⟨start, s₁, h₁⟩ ← symbol s .leftBrace
  let ⟨body, s₂, h₂⟩ ← blockItems s₁
  let ⟨close, s₃, h₃⟩ ← symbol s₂ .rightBrace
  return ⟨(start.span.merge close.span, body), s₃, by omega⟩
termination_by 4 * s.size

/-- Statements and declarations up to a closing brace or the end of the text. -/
def blockItems (s : Stream) : Reading (Parsed s 0 (List Stmt)) :=
  if s.tokens.isEmpty || s.sees (.symbol .rightBrace) then return ⟨[], s, by simp⟩
  else do
    let ⟨item, s₁, h₁⟩ ← blockItem s
    let ⟨items, s₂, h₂⟩ ← blockItems s₁
    return ⟨item :: items, s₂, by omega⟩
termination_by 4 * s.size + 3

/-- A statement or a declaration. -/
def blockItem (s : Stream) : Reading (Parsed s 1 Stmt) :=
  if startsDeclaration s.tokens then do
    let ⟨decl, s₁, h₁⟩ ← declaration s
    return ⟨.declare decl, s₁, h₁⟩
  else statement s
termination_by 4 * s.size + 2

end

end ObjectLang.Parsing
