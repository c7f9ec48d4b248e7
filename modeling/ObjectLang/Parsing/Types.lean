import ObjectLang.Parsing.Stream

/-!
# Reading types

A type is `int`, `boolean` or the name of a class, followed by any number of bracket pairs.
-/
namespace ObjectLang.Parsing

/-- A type without brackets. -/
def baseType (s : Stream) : Reading (Parsed s 1 TypeExpr) :=
  let typeOf? (t : Token) : Option TypeExpr :=
    match t.kind with
    | .keyword .intType => some (.int (s.tag t.span))
    | .keyword .boolType => some (.bool (s.tag t.span))
    | .identifier => some (.named (s.tag t.span) ⟨t.lexeme, t.span⟩)
    | _ => none
  match next? s typeOf? with
  | some ⟨type, rest, used⟩ => .ok ⟨type, rest.bump, used⟩
  | none =>
    .error ⟨.expectedType, s.peek.span, "expected type, found " ++ s.peek.description⟩

/-- The next two tokens, if they are the brackets of an array type; gives the closing one. -/
def brackets? (s : Stream) : Option (Parsed s 2 Token) :=
  match take? s (.symbol .leftBracket) with
  | some ⟨_, s₁, h₁⟩ =>
    match take? s₁ (.symbol .rightBracket) with
    | some ⟨close, s₂, h₂⟩ => some ⟨close, s₂, by omega⟩
    | none => none
  | none => none

/-- A component type with all the bracket pairs that follow it. The second value is the place of
the last bracket, or `stop` if there is none. -/
def arraysOf (component : TypeExpr) (stop : Span) (s : Stream) : Parsed s 0 (TypeExpr × Span) :=
  match brackets? s with
  | some ⟨close, s₁, h₁⟩ =>
    let type := TypeExpr.array (s₁.tag (component.span.merge close.span)) component
    let ⟨found, s₂, h₂⟩ := arraysOf type close.span s₁.bump
    ⟨found, s₂, by simp only [Stream.size_bump] at h₂; omega⟩
  | none => ⟨(component, stop), s, by simp⟩
termination_by s.size
decreasing_by simp only [Stream.size_bump]; omega

/-- A type. -/
def typeExpr (s : Stream) : Reading (Parsed s 1 TypeExpr) := do
  let base ← baseType s
  let found ← base.andThen fun rest => return arraysOf base.value base.value.span rest
  return found.map Prod.fst

end ObjectLang.Parsing
