import ObjectLang.Source.Span
import ObjectLang.Text.Lines

/-!
# Parse errors

What can be wrong with a text before it is a tree. Each error has a kind, a place and a message;
it can be shown in one line, or together with the source line it points into.
-/
namespace ObjectLang

/-- The kinds of errors that reading a source text can meet. -/
inductive ParseError.Kind where
  | unexpectedChar
  | unterminatedComment
  | expectedToken
  | unexpectedEnd
  | expectedExpression
  | expectedType
  | expectedIdentifier
  | expectedStatement
  | invalidAssignTarget
  | invalidLiteral
deriving Repr, DecidableEq, Inhabited

/-- The name of a kind of error in messages. -/
def ParseError.Kind.text : ParseError.Kind → String
  | .unexpectedChar => "unexpected character"
  | .unterminatedComment => "unterminated comment"
  | .expectedToken => "expected token"
  | .unexpectedEnd => "unexpected end of file"
  | .expectedExpression => "expected expression"
  | .expectedType => "expected type"
  | .expectedIdentifier => "expected identifier"
  | .expectedStatement => "expected statement"
  | .invalidAssignTarget => "invalid assignment target"
  | .invalidLiteral => "invalid literal"

/-- An error at a place of the source text. -/
structure ParseError where
  kind : ParseError.Kind
  span : Span
  message : String
deriving Repr, DecidableEq, Inhabited

namespace ParseError

/-- One thing was expected and another stands there. -/
def expectedToken (span : Span) (expected found : String) : ParseError :=
  ⟨.expectedToken, span, "expected " ++ expected ++ ", found " ++ found⟩

def expectedIdentifier (span : Span) (found : String) : ParseError :=
  ⟨.expectedIdentifier, span, "expected identifier, found " ++ found⟩

def expectedExpression (span : Span) (found : String) : ParseError :=
  ⟨.expectedExpression, span, "expected expression, found " ++ found⟩

/-- The error in one line: kind, place, message. -/
def text (e : ParseError) : String :=
  e.kind.text ++ " at " ++ e.span.text ++ ": " ++ e.message

/-- A number set flush right in a field of three places. -/
private def marginNumber (n : Nat) : String :=
  let digits := toString n
  String.ofList (List.replicate (3 - digits.length) ' ') ++ digits

/-- A caret under the first column of a span, and a tilde under each further one. -/
def caretLine (span : Span) : String :=
  "  | " ++ String.ofList (List.replicate (span.col - 1) ' ') ++ "^"
    ++ String.ofList (List.replicate (span.len - 1) '~') ++ "\n"

/-- The source line that a span starts in, with the caret line below it. -/
def excerpt (span : Span) (sourceLine : String) : String :=
  "  |\n" ++ marginNumber span.line ++ " | " ++ sourceLine ++ "\n" ++ caretLine span

/-- The number of the source line stands flush right before a bar. -/
theorem excerpt_eq (span : Span) (sourceLine : String) : excerpt span sourceLine =
    "  |\n" ++ (String.ofList (List.replicate (3 - (toString span.line).length) ' ') ++
      toString span.line) ++ " | " ++ sourceLine ++ "\n" ++ caretLine span :=
  rfl

/-- The error with its message and, if the source text has it, the line that it points into. -/
def render (source : String) (e : ParseError) : String :=
  "Error at " ++ e.span.text ++ ": " ++ e.kind.text ++ "\n"
    ++ (if e.message.isEmpty then "" else "  " ++ e.message ++ "\n")
    ++ ((Text.lines source)[e.span.line - 1]?.elim "" (excerpt e.span))

/-- Several errors, one a line. -/
def listText (errors : List ParseError) : String :=
  Text.joinLines (errors.map text)

end ParseError
end ObjectLang
