import ObjectLang.Text.Unprintable

/-!
# Quoted texts

A text between double quotes in which every character that would be ambiguous or invisible is
written as an escape: the quote and the backslash by a backslash, the common controls by a letter,
and any other character without a glyph by its number in braces.
-/
namespace ObjectLang.Text

/-- How one character is written between the quotes. -/
def quoteChar (c : Char) : String :=
  match c with
  | '"' => "\\\""
  | '\\' => "\\\\"
  | '\n' => "\\n"
  | '\t' => "\\t"
  | '\r' => "\\r"
  | '\x00' => "\\0"
  | c =>
    if isUnprintable c then
      "\\u\x7b" ++ String.ofList (Nat.toDigits 16 c.toNat) ++ "\x7d"
    else c.toString

/-- The quoted form of a text. -/
def quote (text : String) : String :=
  "\"" ++ String.join (text.toList.map quoteChar) ++ "\""

end ObjectLang.Text
