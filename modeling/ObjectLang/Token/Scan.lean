import ObjectLang.Source.ParseError
import ObjectLang.Text.Blank
import ObjectLang.Token.Basic

/-!
# From text to tokens

A text is read from left to right as gaps and tokens. A gap is white space, a comment up to the
end of its line, or a comment between `/*` and the first `*/` after it. A run of digits or of word
characters is one token, taken as long as possible, and a symbol of two characters is preferred
to its first character. A character that starts nothing is an invalid token of its own, and an
error is reported for it; a block comment that is never closed swallows the rest of the text.
-/
namespace ObjectLang

/-- A place between two characters of a text: line, and column in bytes, both from one. -/
structure Place where
  line : Nat := 1
  col : Nat := 1
deriving Repr, DecidableEq, Inhabited

namespace Place

/-- The place behind a character. -/
def after (p : Place) (c : Char) : Place :=
  if c = '\n' then ⟨p.line + 1, 1⟩ else ⟨p.line, p.col + c.utf8Size⟩

/-- The place behind some characters. -/
def afterAll (p : Place) (text : List Char) : Place :=
  text.foldl after p

/-- The span of some bytes from a place on. -/
def span (p : Place) (len : Nat) : Span :=
  ⟨p.line, p.col, len⟩

end Place

namespace Token

/-- How many bytes a text has. -/
def byteLength : List Char → Nat
  | [] => 0
  | c :: text => c.utf8Size + byteLength text

/-- Whether a character can start a word. -/
def isWordStart (c : Char) : Bool :=
  c.isAlpha || c == '_'

/-- Whether a character can stand inside a word. -/
def isWordPart (c : Char) : Bool :=
  c.isAlphanum || c == '_'

/-- A word is a keyword if it is spelled like one, and a name otherwise. -/
def wordKind (word : List Char) : Kind :=
  (Keyword.ofText? (String.ofList word)).elim .identifier .keyword

/-- The sort of token that a symbol, or a character that starts nothing, is the start of, and how
many characters it takes after its first one. -/
def symbolKind (c : Char) (text : List Char) : Kind × Nat :=
  match text.head?.bind (Symbol.ofPair? c) with
  | some s => (.symbol s, 1)
  | none => ((Symbol.ofChar? c).elim .invalid .symbol, 0)

/-- The token that starts with the character `c` and goes on in `text`: its sort, what it takes of
`text`, and what it leaves. -/
def lead (c : Char) (text : List Char) : Kind × List Char × List Char :=
  if c.isDigit then
    (.intLiteral, text.takeWhile Char.isDigit, text.dropWhile Char.isDigit)
  else if isWordStart c then
    let word := text.takeWhile isWordPart
    (wordKind (c :: word), word, text.dropWhile isWordPart)
  else
    let (kind, more) := symbolKind c text
    (kind, text.take more, text.drop more)

/-- The part of a block comment after its opening, up to and with its end, and the text after
that; nothing if the comment is never closed. -/
def closeComment : List Char → Option (List Char × List Char)
  | '*' :: '/' :: text => some (['*', '/'], text)
  | c :: text => (closeComment text).map fun (body, rest) => (c :: body, rest)
  | [] => none

/-- The result of reading a text: its tokens, the empty span where it ends, and what was wrong. -/
structure Scan where
  tokens : List Token
  stop : Span
  errors : List ParseError
deriving Repr, DecidableEq, Inhabited

namespace Scan

/-- The token that ends every token list. -/
def last (s : Scan) : Token :=
  endOfText s.stop

/-- All tokens, the end of the text included. -/
def all (s : Scan) : List Token :=
  s.tokens ++ [s.last]

/-- A scan with one more token in front, and an error if that token is invalid. -/
def cons (t : Token) (s : Scan) : Scan :=
  { s with
    tokens := t :: s.tokens
    errors :=
      if t.kind = .invalid then
        ⟨.unexpectedChar, t.span, "unexpected character '" ++ t.lexeme ++ "'"⟩ :: s.errors
      else s.errors }

/-- The scan of a text that ends here. -/
def ended (p : Place) : Scan :=
  ⟨[], Span.point p.line p.col, []⟩

/-- The scan of a text that ends inside a block comment. -/
def unclosed (start stop : Place) : Scan :=
  { ended stop with
    errors := [⟨.unterminatedComment, start.span 2, "block comment is never closed"⟩] }

end Scan

theorem length_dropWhile_le {α : Type} (p : α → Bool) (l : List α) :
    (l.dropWhile p).length ≤ l.length := by
  induction l with
  | nil => simp
  | cons a l ih => grind [List.dropWhile_cons]

theorem length_lead_le (c : Char) (text : List Char) :
    (lead c text).2.2.length ≤ text.length := by
  unfold lead
  split
  · exact length_dropWhile_le _ _
  · split
    · exact length_dropWhile_le _ _
    · simp

theorem length_closeComment {text body rest : List Char}
    (h : closeComment text = some (body, rest)) : text.length = body.length + rest.length := by
  fun_induction closeComment text generalizing body rest with
  | case1 text =>
    obtain ⟨rfl, rfl⟩ := Prod.mk.injEq .. ▸ Option.some.injEq .. ▸ h
    simp only [List.length_cons, List.length_nil]
    omega
  | case2 c text _ ih =>
    obtain ⟨⟨body', rest'⟩, hsome, heq⟩ := Option.map_eq_some_iff.1 h
    obtain ⟨rfl, rfl⟩ := Prod.mk.injEq .. ▸ heq
    have := ih hsome
    simp only [List.length_cons]
    omega
  | case3 => simp at h

/-- The tokens of a text that starts at a place. -/
def scanFrom (p : Place) (text : List Char) : Scan :=
  match text with
  | [] => .ended p
  | c :: text =>
    if Text.isBlank c then
      scanFrom (p.after c) text
    else if c = '/' ∧ text.head? = some '/' then
      let comment := text.takeWhile (· ≠ '\n')
      scanFrom (p.afterAll (c :: comment)) (text.dropWhile (· ≠ '\n'))
    else if c = '/' ∧ text.head? = some '*' then
      match _h : closeComment text.tail with
      | some (body, rest) => scanFrom (p.afterAll (c :: '*' :: body)) rest
      | none => .unclosed p (p.afterAll (c :: text))
    else
      let lexeme := c :: (lead c text).2.1
      .cons ⟨(lead c text).1, String.ofList lexeme, p.span (byteLength lexeme)⟩
        (scanFrom (p.afterAll lexeme) (lead c text).2.2)
termination_by text.length
decreasing_by
  · simp
  · have := length_dropWhile_le (· ≠ '\n') text
    simp only [List.length_cons, gt_iff_lt]
    omega
  · have := length_closeComment ‹closeComment text.tail = some _›
    simp only [List.length_tail, List.length_cons] at *
    omega
  · have := length_lead_le c text
    simp only [List.length_cons]
    omega

/-- The tokens of a source text. -/
def scan (source : String) : Scan :=
  scanFrom {} source.toList

end Token
end ObjectLang
