/-!
# Spans

Where something stands in a source text. Lines and columns count from one, columns and lengths in
bytes. The length of a span that covers several lines has no meaning of its own; only its start is
shown to a reader.
-/
namespace ObjectLang

/-- A piece of source text: where it starts and how many bytes it has. -/
structure Span where
  line : Nat := 0
  col : Nat := 0
  len : Nat := 0
deriving Repr, DecidableEq, Inhabited

namespace Span

/-- The empty span at a place. -/
def point (line col : Nat) : Span :=
  ⟨line, col, 0⟩

def isEmpty (s : Span) : Bool :=
  s.len == 0

/-- The column after the last byte of a span on one line. -/
def stop (s : Span) : Nat :=
  s.col + s.len

/-- The least span on the line that covers both. On different lines the start of the first is
kept and the lengths add up. -/
def merge (s t : Span) : Span :=
  if s.line = t.line then
    let start := min s.col t.col
    ⟨s.line, start, max t.stop s.stop - start⟩
  else ⟨s.line, s.col, s.len + t.len⟩

/-- A span is shown by its start. -/
def text (s : Span) : String :=
  toString s.line ++ ":" ++ toString s.col

instance : ToString Span :=
  ⟨text⟩

end Span
end ObjectLang
