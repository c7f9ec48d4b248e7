import ObjectLang.Token.Scan
import ObjectLang.Tree.Basic

/-!
# Token streams

The tokens that are still to be read, and the identities that are still to be given out. Whatever
is read from a stream comes with the stream that is left, and with the fact that this stream is
shorter; every reader of trees ends because of that.
-/
namespace ObjectLang.Parsing

/-- The tokens still to be read, where the text ends, the place of the token read last, and the
next identity. -/
structure Stream where
  tokens : List Token
  stop : Span
  last : Span
  fresh : Nat

namespace Stream

/-- The stream of a text that was read without errors. -/
def ofScan (s : Token.Scan) : Stream :=
  ⟨s.tokens, s.stop, default, 0⟩

def size (s : Stream) : Nat :=
  s.tokens.length

/-- The token that stands `n` places ahead. -/
def peekAt (s : Stream) (n : Nat) : Token :=
  s.tokens[n]?.getD (Token.endOfText s.stop)

def peek (s : Stream) : Token :=
  s.peekAt 0

/-- Whether the next token is of a sort. -/
def sees (s : Stream) (kind : Token.Kind) : Bool :=
  s.peek.kind == kind

/-- The stream behind a token. -/
def behind (s : Stream) (t : Token) (rest : List Token) : Stream :=
  { s with tokens := rest, last := t.span }

/-- The next identity, for a node that stands at a place. -/
def tag (s : Stream) (span : Span) : Tag :=
  ⟨s.fresh, span⟩

/-- The stream after an identity was given out. -/
def bump (s : Stream) : Stream :=
  { s with fresh := s.fresh + 1 }

@[simp]
theorem size_behind (s : Stream) (t : Token) (rest : List Token) :
    (s.behind t rest).size = rest.length :=
  rfl

@[simp]
theorem size_bump (s : Stream) : s.bump.size = s.size :=
  rfl

theorem size_of_tokens {s : Stream} {t : Token} {rest : List Token} (h : s.tokens = t :: rest) :
    s.size = rest.length + 1 := by
  simp [size, h]

end Stream

/-- What was read from the stream `s`, and the stream that is left, which has at least `k` tokens
less. -/
structure Parsed (s : Stream) (k : Nat) (α : Type) where
  value : α
  rest : Stream
  used : rest.size + k ≤ s.size

/-- The result of reading: what was read, or the first error. -/
abbrev Reading :=
  Except ParseError

namespace Parsed

/-- Something made of what was read. -/
def map {s : Stream} {k : Nat} {α β : Type} (p : Parsed s k α) (f : α → β) : Parsed s k β :=
  ⟨f p.value, p.rest, p.used⟩

/-- What was read, with one more identity given out behind it. -/
def bump {s : Stream} {k : Nat} {α : Type} (p : Parsed s k α) : Parsed s k α :=
  ⟨p.value, p.rest.bump, p.used⟩

/-- A node with the next identity, which ends with what was read. -/
def node {s : Stream} {k : Nat} {α β : Type} (p : Parsed s k α) (span : Span) (f : Tag → β) :
    Parsed s k β :=
  ⟨f (p.rest.tag span), p.rest.bump, p.used⟩

/-- The same reading, of which only is said that it took nothing back. -/
def weaken {s : Stream} {α : Type} (p : Parsed s 1 α) : Parsed s 0 α :=
  ⟨p.value, p.rest, by have := p.used; omega⟩

/-- The second of two things that were read one behind the other. -/
def join {s : Stream} {k : Nat} {α β : Type} (p : Parsed s 1 α) (q : Parsed p.rest k β) :
    Parsed s 1 β :=
  ⟨q.value, q.rest, by have := p.used; have := q.used; omega⟩

/-- What is read behind something else. -/
def andThen {s : Stream} {k : Nat} {α β : Type} (p : Parsed s 1 α)
    (read : (rest : Stream) → Reading (Parsed rest k β)) : Reading (Parsed s 1 β) := do
  return p.join (← read p.rest)

end Parsed

/-- The next token, if its sort is one that `accept` gives a meaning to. -/
def next? {α : Type} (s : Stream) (accept : Token → Option α) : Option (Parsed s 1 α) :=
  match h : s.tokens with
  | [] => none
  | t :: rest => (accept t).map fun a => ⟨a, s.behind t rest, by simp [s.size_of_tokens h]⟩

/-- The next token, if it is of a sort. -/
def take? (s : Stream) (kind : Token.Kind) : Option (Parsed s 1 Token) :=
  next? s fun t => if t.kind = kind then some t else none

/-- The error of a text that ends where something else was expected. -/
def endedError (s : Stream) (expected : String) : ParseError :=
  ⟨.unexpectedEnd, s.stop, "expected " ++ expected ++ ", found end of file"⟩

/-- The next token, which has to be of a sort. -/
def expect (s : Stream) (kind : Token.Kind) : Reading (Parsed s 1 Token) :=
  match take? s kind with
  | some parsed => .ok parsed
  | none =>
    .error <|
      if s.tokens.isEmpty then endedError s kind.description
      else .expectedToken s.peek.span kind.description s.peek.description

def symbol (s : Stream) (x : Symbol) : Reading (Parsed s 1 Token) :=
  expect s (.symbol x)

def keyword (s : Stream) (k : Keyword) : Reading (Parsed s 1 Token) :=
  expect s (.keyword k)

/-- The text has to end here. -/
def atEnd (s : Stream) : Except ParseError Unit :=
  if s.tokens.isEmpty then .ok ()
  else .error (.expectedToken s.peek.span Token.Kind.endOfText.description s.peek.description)

/-- The name that a token is. -/
def identOf? (t : Token) : Option Ident :=
  if t.kind = .identifier then some ⟨t.lexeme, t.span⟩ else none

/-- The next token, which has to be a name. -/
def ident (s : Stream) : Reading (Parsed s 1 Ident) :=
  match next? s identOf? with
  | some parsed => .ok parsed
  | none => .error (.expectedIdentifier s.peek.span s.peek.description)

end ObjectLang.Parsing
