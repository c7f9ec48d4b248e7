import ObjectLang.Source.Span
import ObjectLang.Text.Quoted

/-!
# Tokens

The words of the language: literals, names, keywords and symbols. A token keeps the text it was
read from and the place of that text.
-/
namespace ObjectLang

/-- The reserved words. -/
inductive Keyword where
  | classDecl
  | extending
  | intType
  | boolType
  | ifStmt
  | elseStmt
  | whileStmt
  | returnStmt
  | newExpr
  | thisExpr
  | nullLit
  | trueLit
  | falseLit
  | length
deriving Repr, DecidableEq, Inhabited

namespace Keyword

/-- How a keyword is spelled. -/
def text : Keyword → String
  | .classDecl => "class"
  | .extending => "extends"
  | .intType => "int"
  | .boolType => "boolean"
  | .ifStmt => "if"
  | .elseStmt => "else"
  | .whileStmt => "while"
  | .returnStmt => "return"
  | .newExpr => "new"
  | .thisExpr => "this"
  | .nullLit => "null"
  | .trueLit => "true"
  | .falseLit => "false"
  | .length => "length"

/-- A keyword's label in token listings. -/
def label : Keyword → String
  | .classDecl => "Class"
  | .extending => "Extends"
  | .intType => "Int"
  | .boolType => "Boolean"
  | .ifStmt => "If"
  | .elseStmt => "Else"
  | .whileStmt => "While"
  | .returnStmt => "Return"
  | .newExpr => "New"
  | .thisExpr => "This"
  | .nullLit => "Null"
  | .trueLit => "True"
  | .falseLit => "False"
  | .length => "Length"

def all : List Keyword :=
  [.classDecl, .extending, .intType, .boolType, .ifStmt, .elseStmt, .whileStmt, .returnStmt,
    .newExpr, .thisExpr, .nullLit, .trueLit, .falseLit, .length]

/-- The keyword spelled like a given word. -/
def ofText? (word : String) : Option Keyword :=
  all.find? (·.text == word)

end Keyword

/-- Operators and punctuation. -/
inductive Symbol where
  | equal
  | equalEqual
  | less
  | plus
  | minus
  | star
  | slash
  | andAnd
  | bang
  | leftParen
  | rightParen
  | leftBrace
  | rightBrace
  | leftBracket
  | rightBracket
  | semicolon
  | comma
  | dot
deriving Repr, DecidableEq, Inhabited

namespace Symbol

/-- How a symbol is written. -/
def text : Symbol → String
  | .equal => "="
  | .equalEqual => "=="
  | .less => "<"
  | .plus => "+"
  | .minus => "-"
  | .star => "*"
  | .slash => "/"
  | .andAnd => "&&"
  | .bang => "!"
  | .leftParen => "("
  | .rightParen => ")"
  | .leftBrace => "\x7b"
  | .rightBrace => "\x7d"
  | .leftBracket => "["
  | .rightBracket => "]"
  | .semicolon => ";"
  | .comma => ","
  | .dot => "."

/-- A symbol's label in token listings. -/
def label : Symbol → String
  | .equal => "Equal"
  | .equalEqual => "EqualEqual"
  | .less => "Less"
  | .plus => "Plus"
  | .minus => "Minus"
  | .star => "Star"
  | .slash => "Slash"
  | .andAnd => "AmpAmp"
  | .bang => "Bang"
  | .leftParen => "LeftParen"
  | .rightParen => "RightParen"
  | .leftBrace => "LeftBrace"
  | .rightBrace => "RightBrace"
  | .leftBracket => "LeftBracket"
  | .rightBracket => "RightBracket"
  | .semicolon => "Semicolon"
  | .comma => "Comma"
  | .dot => "Dot"

/-- The symbol that one character is by itself. -/
def ofChar? : Char → Option Symbol
  | '=' => some .equal
  | '<' => some .less
  | '+' => some .plus
  | '-' => some .minus
  | '*' => some .star
  | '/' => some .slash
  | '!' => some .bang
  | '(' => some .leftParen
  | ')' => some .rightParen
  | '{' => some .leftBrace
  | '}' => some .rightBrace
  | '[' => some .leftBracket
  | ']' => some .rightBracket
  | ';' => some .semicolon
  | ',' => some .comma
  | '.' => some .dot
  | _ => none

/-- The symbol that a character and the one after it are together. -/
def ofPair? : Char → Char → Option Symbol
  | '=', '=' => some .equalEqual
  | '&', '&' => some .andAnd
  | _, _ => none

end Symbol

/-- What sort of word a token is. -/
inductive Token.Kind where
  | intLiteral
  | identifier
  | keyword (k : Keyword)
  | symbol (s : Symbol)
  | invalid
  | endOfText
deriving Repr, DecidableEq, Inhabited

namespace Token.Kind

/-- How error messages speak of a sort of token. -/
def description : Kind → String
  | .intLiteral => "integer literal"
  | .identifier => "identifier"
  | .keyword k => "'" ++ k.text ++ "'"
  | .symbol s => "'" ++ s.text ++ "'"
  | .invalid => "invalid token"
  | .endOfText => "end of file"

/-- The label of a sort of token in token listings. -/
def label : Kind → String
  | .intLiteral => "IntLiteral"
  | .identifier => "Identifier"
  | .keyword k => k.label
  | .symbol s => s.label
  | .invalid => "Error"
  | .endOfText => "Eof"

end Token.Kind

/-- A word of a source text. -/
structure Token where
  kind : Token.Kind
  lexeme : String
  span : Span
deriving Repr, DecidableEq, Inhabited

namespace Token

/-- The token that stands where the text ends. -/
def endOfText (span : Span) : Token :=
  ⟨.endOfText, "", span⟩

/-- What an error message says was found: names and numbers by their text, all else by its sort. -/
def description (t : Token) : String :=
  match t.kind with
  | .identifier => "'" ++ t.lexeme ++ "'"
  | .intLiteral => "'" ++ t.lexeme ++ "'"
  | kind => kind.description

/-- A token in a token listing: sort, text and place. -/
def listing (t : Token) : String :=
  t.kind.label ++ "(" ++ Text.quote t.lexeme ++ " @ " ++ t.span.text ++ ")"

end Token
end ObjectLang
