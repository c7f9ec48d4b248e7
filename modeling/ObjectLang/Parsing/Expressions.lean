import ObjectLang.Parsing.Types

/-!
# Reading expressions

Operators between operands associate to the left and bind in five levels, from `&&` over `==`, `<`
and `+ -` to `* /`; the operators before an operand bind tighter, and what follows an operand, such
as a field access or an index, binds tightest. A number directly behind a minus may be one larger
than any other, so that the least integer can be written.
-/
namespace ObjectLang.Parsing

/-- The largest number that can stand anywhere. -/
def maxLiteral : Nat :=
  2147483647

/-- The largest number that can stand behind a minus. -/
def maxNegatedLiteral : Nat :=
  2147483648

/-- The number that some digits denote. -/
def literalValue (digits : String) : Nat :=
  digits.toList.foldl (fun n c => 10 * n + (c.toNat - '0'.toNat)) 0

/-- The operator between operands that a token is. -/
def binaryOf? (t : Token) : Option BinaryOp :=
  match t.kind with
  | .symbol .andAnd => some .and
  | .symbol .equalEqual => some .equal
  | .symbol .less => some .less
  | .symbol .plus => some .add
  | .symbol .minus => some .sub
  | .symbol .star => some .mul
  | .symbol .slash => some .div
  | _ => none

/-- The operator before an operand that a token is, and where it stands. -/
def unaryOf? (t : Token) : Option (UnaryOp × Span) :=
  match t.kind with
  | .symbol .minus => some (.neg, t.span)
  | .symbol .bang => some (.not, t.span)
  | _ => none

/-- The expression that a token is by itself, numbers and names apart. -/
def constantOf? (s : Stream) (t : Token) : Option Expr :=
  match t.kind with
  | .keyword .trueLit => some (.bool (s.tag t.span) true)
  | .keyword .falseLit => some (.bool (s.tag t.span) false)
  | .keyword .nullLit => some (.null (s.tag t.span))
  | .keyword .thisExpr => some (.this (s.tag t.span))
  | _ => none

/-- A number of at most `limit`, if a number stands next. -/
def literal? (limit : Nat) (s : Stream) : Option (Reading (Parsed s 1 Expr)) :=
  (take? s .intLiteral).map fun ⟨t, rest, used⟩ =>
    if literalValue t.lexeme ≤ limit then
      .ok ⟨.number (rest.tag t.span) (literalValue t.lexeme), rest.bump, used⟩
    else
      .error ⟨.invalidLiteral, t.span, "integer literal " ++ t.lexeme ++ " is too large"⟩

/-- An expression that reads a location; the location takes the first of two identities. -/
def reading (s : Stream) (span : Span) (location : Tag → Location) : Expr :=
  .read (s.bump.tag span) (location (s.tag span))

/-- The error of a token that starts no expression. -/
def noExpression (s : Stream) : ParseError :=
  if s.tokens.isEmpty then endedError s "expression"
  else .expectedExpression s.peek.span s.peek.description

mutual

/-- An expression whose operators outside of parentheses all have at least a level. -/
def expression (level : Nat) (s : Stream) : Reading (Parsed s 1 Expr) := do
  let ⟨left, s₁, h₁⟩ ← operand s
  let ⟨e, s₂, h₂⟩ ← operations level left s₁
  return ⟨e, s₂, by omega⟩
termination_by 5 * s.size + 3

/-- What operators of at least a level make of their left operand. -/
def operations (level : Nat) (left : Expr) (s : Stream) : Reading (Parsed s 0 Expr) :=
  match next? s binaryOf? with
  | some ⟨op, s₁, h₁⟩ =>
    if op.level < level then return ⟨left, s, by simp⟩
    else do
      let ⟨right, s₂, h₂⟩ ← expression (op.level + 1) s₁
      let e := .binary (s₂.tag (left.span.merge right.span)) op left right
      let ⟨e, s₃, h₃⟩ ← operations level e s₂.bump
      return ⟨e, s₃, by simp only [Stream.size_bump] at h₃; omega⟩
  | none => return ⟨left, s, by simp⟩
termination_by 5 * s.size

/-- An operand of operators: one with operators before it, or one with accesses behind it. -/
def operand (s : Stream) : Reading (Parsed s 1 Expr) :=
  match next? s unaryOf? with
  | some ⟨(op, start), s₁, h₁⟩ => do
    let ⟨e, s₂, h₂⟩ : Parsed s₁ 1 Expr ← do
      match if op = .neg then literal? maxNegatedLiteral s₁ else none with
      | some number =>
        let ⟨e, s₂, h₂⟩ ← number
        let ⟨e, s₃, h₃⟩ ← accesses e s₂
        pure ⟨e, s₃, by omega⟩
      | none => operand s₁
    return ⟨.unary (s₂.tag (start.merge e.span)) op e, s₂.bump,
      by simp only [Stream.size_bump]; omega⟩
  | none => do
    let ⟨e, s₁, h₁⟩ ← primary s
    let ⟨e, s₂, h₂⟩ ← accesses e s₁
    return ⟨e, s₂, by omega⟩
termination_by 5 * s.size + 2

/-- What field accesses, method calls, lengths and indices make of the expression before them. -/
def accesses (e : Expr) (s : Stream) : Reading (Parsed s 0 Expr) :=
  match take? s (.symbol .dot) with
  | some ⟨_, s₁, h₁⟩ =>
    match take? s₁ (.keyword .length) with
    | some ⟨length, s₂, h₂⟩ => do
      let e := .arrayLength (s₂.tag (e.span.merge length.span)) e
      let ⟨e, s₃, h₃⟩ ← accesses e s₂.bump
      return ⟨e, s₃, by simp only [Stream.size_bump] at h₃; omega⟩
    | none => do
      let ⟨name, s₂, h₂⟩ ← ident s₁
      if s₂.sees (.symbol .leftParen) then
        let ⟨args, s₃, h₃⟩ ← arguments s₂
        let e := .methodCall (s₃.tag (e.span.merge s₃.last)) e name args
        let ⟨e, s₄, h₄⟩ ← accesses e s₃.bump
        return ⟨e, s₄, by simp only [Stream.size_bump] at h₄; omega⟩
      else
        let e := reading s₂ (e.span.merge name.span) fun tag => .field tag e name
        let ⟨e, s₃, h₃⟩ ← accesses e s₂.bump.bump
        return ⟨e, s₃, by simp only [Stream.size_bump] at h₃; omega⟩
  | none =>
    match take? s (.symbol .leftBracket) with
    | some ⟨_, s₁, h₁⟩ => do
      let ⟨index, s₂, h₂⟩ ← expression 0 s₁
      let ⟨close, s₃, h₃⟩ ← symbol s₂ .rightBracket
      let e := reading s₃ (e.span.merge close.span) fun tag => .index tag e index
      let ⟨e, s₄, h₄⟩ ← accesses e s₃.bump.bump
      return ⟨e, s₄, by simp only [Stream.size_bump] at h₄; omega⟩
    | none => return ⟨e, s, by simp⟩
termination_by 5 * s.size

/-- An expression without operators and accesses outside of parentheses. -/
def primary (s : Stream) : Reading (Parsed s 1 Expr) :=
  match literal? maxLiteral s with
  | some number => number
  | none =>
    match next? s (constantOf? s) with
    | some ⟨e, s₁, h₁⟩ => return ⟨e, s₁.bump, h₁⟩
    | none =>
      match take? s (.symbol .leftParen) with
      | some ⟨_, s₁, h₁⟩ => do
        let ⟨e, s₂, h₂⟩ ← expression 0 s₁
        let ⟨_, s₃, h₃⟩ ← symbol s₂ .rightParen
        return ⟨e, s₃, by omega⟩
      | none =>
        match take? s (.keyword .newExpr) with
        | some ⟨start, s₁, h₁⟩ => do
          let ⟨e, s₂, h₂⟩ ← creation start.span s₁
          return ⟨e, s₂, by omega⟩
        | none =>
          match next? s identOf? with
          | some ⟨name, s₁, h₁⟩ =>
            if s₁.sees (.symbol .leftParen) then do
              let ⟨args, s₂, h₂⟩ ← arguments s₁
              return ⟨.call (s₂.tag (name.span.merge s₂.last)) name args, s₂.bump,
                by simp only [Stream.size_bump]; omega⟩
            else
              return ⟨reading s₁ name.span fun tag => .var tag name, s₁.bump.bump, h₁⟩
          | none => .error (noExpression s)
termination_by 5 * s.size + 1

/-- What stands behind `new`: a class with empty parentheses, or an element type with the size of
an array and further bracket pairs. -/
def creation (start : Span) (s : Stream) : Reading (Parsed s 1 Expr) :=
  if s.sees .identifier && (s.peekAt 1).kind == .symbol .leftParen then do
    let ⟨name, s₁, h₁⟩ ← ident s
    let ⟨_, s₂, h₂⟩ ← symbol s₁ .leftParen
    let ⟨close, s₃, h₃⟩ ← symbol s₂ .rightParen
    return ⟨.newObject (s₃.tag (start.merge close.span)) name, s₃.bump,
      by simp only [Stream.size_bump]; omega⟩
  else do
    let ⟨base, s₁, h₁⟩ ← baseType s
    let ⟨_, s₂, h₂⟩ ← symbol s₁ .leftBracket
    let ⟨size, s₃, h₃⟩ ← expression 0 s₂
    let ⟨close, s₄, h₄⟩ ← symbol s₃ .rightBracket
    let ⟨(element, stop), s₅, h₅⟩ := arraysOf base close.span s₄
    return ⟨.newArray (s₅.tag (start.merge stop)) element size, s₅.bump,
      by simp only [Stream.size_bump]; omega⟩
termination_by 5 * s.size

/-- The arguments of a call, with their parentheses. -/
def arguments (s : Stream) : Reading (Parsed s 1 (List Expr)) := do
  let ⟨_, s₁, h₁⟩ ← symbol s .leftParen
  match take? s₁ (.symbol .rightParen) with
  | some ⟨_, s₂, h₂⟩ => return ⟨[], s₂, by omega⟩
  | none =>
    let ⟨args, s₂, h₂⟩ ← expressions s₁
    let ⟨_, s₃, h₃⟩ ← symbol s₂ .rightParen
    return ⟨args, s₃, by omega⟩
termination_by 5 * s.size

/-- One or more expressions, separated by commas. -/
def expressions (s : Stream) : Reading (Parsed s 1 (List Expr)) := do
  let ⟨e, s₁, h₁⟩ ← expression 0 s
  match take? s₁ (.symbol .comma) with
  | some ⟨_, s₂, h₂⟩ =>
    let ⟨es, s₃, h₃⟩ ← expressions s₂
    return ⟨e :: es, s₃, by omega⟩
  | none => return ⟨[e], s₁, h₁⟩
termination_by 5 * s.size + 4

end

end ObjectLang.Parsing
