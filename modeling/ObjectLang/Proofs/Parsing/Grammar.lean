import ObjectLang.Parsing.Expressions
import ObjectLang.Proofs.Tree.Relabel

/-!
# The grammar

Which tokens form which tree. Tags and places of the tree are free, and so is the `if` that an
`else` belongs to. Operators between operands have five levels and associate to the left; an
operator before an operand binds tighter than those, and what follows an operand binds tightest.
Parentheses leave no trace in the tree.
-/
namespace ObjectLang

def UnaryOp.symbol : UnaryOp → Symbol
  | .neg => .minus
  | .not => .bang

def BinaryOp.symbol : BinaryOp → Symbol
  | .and => .andAnd
  | .equal => .equalEqual
  | .less => .less
  | .add => .plus
  | .sub => .minus
  | .mul => .star
  | .div => .slash

namespace Grammar

open Parsing

/-- The name that a token is, at any place. -/
inductive IsName (t : Token) : Ident → Prop
  | intro (span : Span) : t.kind = .identifier → IsName t ⟨t.lexeme, span⟩

/-- A type without brackets. -/
inductive IsBase (t : Token) : TypeExpr → Prop
  | int (tag : Tag) : t.kind = .keyword .intType → IsBase t (.int tag)
  | bool (tag : Tag) : t.kind = .keyword .boolType → IsBase t (.bool tag)
  | named (tag : Tag) {name : Ident} : IsName t name → IsBase t (.named tag name)

/-- A type with the bracket pairs behind it. -/
inductive IsArrays (base : TypeExpr) : List Token → TypeExpr → Prop
  | base : IsArrays base [] base
  | array (tag : Tag) {ts : List Token} {type : TypeExpr} {l r : Token} : IsArrays base ts type →
      l.kind = .symbol .leftBracket → r.kind = .symbol .rightBracket →
      IsArrays base (ts ++ [l, r]) (.array tag type)

inductive IsType : List Token → TypeExpr → Prop
  | intro {t : Token} {base type : TypeExpr} {ts : List Token} : IsBase t base →
      IsArrays base ts type → IsType (t :: ts) type

/-- The largest number that can stand behind an operator. -/
def limitBehind : UnaryOp → Nat
  | .neg => maxNegatedLiteral
  | .not => maxLiteral

/-- The expressions that are one word. -/
inductive IsConstant (t : Token) : Expr → Prop
  | true (tag : Tag) : t.kind = .keyword .trueLit → IsConstant t (.bool tag true)
  | false (tag : Tag) : t.kind = .keyword .falseLit → IsConstant t (.bool tag false)
  | null (tag : Tag) : t.kind = .keyword .nullLit → IsConstant t (.null tag)
  | this (tag : Tag) : t.kind = .keyword .thisExpr → IsConstant t (.this tag)

mutual

/-- An expression whose operators outside of parentheses have at least a level. -/
inductive IsExpr : Nat → List Token → Expr → Prop
  | operand {level : Nat} {ts : List Token} {e : Expr} : IsOperand maxLiteral ts e →
      IsExpr level ts e
  | binary (tag : Tag) {level : Nat} {op : BinaryOp} {ls rs : List Token} {t : Token}
      {left right : Expr} : level ≤ op.level → IsExpr op.level ls left →
      t.kind = .symbol op.symbol → IsExpr (op.level + 1) rs right →
      IsExpr level (ls ++ t :: rs) (.binary tag op left right)

/-- An operand, in which a number that stands first is at most `limit`. -/
inductive IsOperand : Nat → List Token → Expr → Prop
  | unary (tag : Tag) {limit : Nat} {op : UnaryOp} {t : Token} {ts : List Token} {e : Expr} :
      t.kind = .symbol op.symbol → IsOperand (limitBehind op) ts e →
      IsOperand limit (t :: ts) (.unary tag op e)
  | path {limit : Nat} {ts : List Token} {e : Expr} : IsPath limit ts e → IsOperand limit ts e

/-- An expression with accesses behind it. -/
inductive IsPath : Nat → List Token → Expr → Prop
  | primary {limit : Nat} {ts : List Token} {e : Expr} : IsPrimary limit ts e → IsPath limit ts e
  | length (tag : Tag) {limit : Nat} {ts : List Token} {e : Expr} {dot t : Token} :
      IsPath limit ts e → dot.kind = .symbol .dot → t.kind = .keyword .length →
      IsPath limit (ts ++ [dot, t]) (.arrayLength tag e)
  | field (tag tag' : Tag) {limit : Nat} {ts : List Token} {e : Expr} {dot t : Token}
      {name : Ident} : IsPath limit ts e → dot.kind = .symbol .dot → IsName t name →
      IsPath limit (ts ++ [dot, t]) (.read tag (.field tag' e name))
  | method (tag : Tag) {limit : Nat} {ts us : List Token} {e : Expr} {dot t : Token}
      {name : Ident} {args : List Expr} : IsPath limit ts e → dot.kind = .symbol .dot →
      IsName t name → IsArguments us args →
      IsPath limit (ts ++ dot :: t :: us) (.methodCall tag e name args)
  | index (tag tag' : Tag) {limit : Nat} {ts us : List Token} {e i : Expr} {l r : Token} :
      IsPath limit ts e → l.kind = .symbol .leftBracket → IsExpr 0 us i →
      r.kind = .symbol .rightBracket →
      IsPath limit (ts ++ l :: (us ++ [r])) (.read tag (.index tag' e i))

/-- An expression without operators and accesses outside of parentheses. -/
inductive IsPrimary : Nat → List Token → Expr → Prop
  | number (tag : Tag) {limit : Nat} {t : Token} : t.kind = .intLiteral →
      literalValue t.lexeme ≤ limit → IsPrimary limit [t] (.number tag (literalValue t.lexeme))
  | constant {limit : Nat} {t : Token} {e : Expr} : IsConstant t e → IsPrimary limit [t] e
  | paren {limit : Nat} {l r : Token} {ts : List Token} {e : Expr} :
      l.kind = .symbol .leftParen → IsExpr 0 ts e → r.kind = .symbol .rightParen →
      IsPrimary limit (l :: (ts ++ [r])) e
  | newObject (tag : Tag) {limit : Nat} {new t l r : Token} {name : Ident} :
      new.kind = .keyword .newExpr → IsName t name → l.kind = .symbol .leftParen →
      r.kind = .symbol .rightParen → IsPrimary limit [new, t, l, r] (.newObject tag name)
  | newArray (tag : Tag) {limit : Nat} {new t l r : Token} {base element : TypeExpr}
      {ts us : List Token} {size : Expr} : new.kind = .keyword .newExpr → IsBase t base →
      l.kind = .symbol .leftBracket → IsExpr 0 ts size → r.kind = .symbol .rightBracket →
      IsArrays base us element →
      IsPrimary limit (new :: t :: l :: (ts ++ r :: us)) (.newArray tag element size)
  | call (tag : Tag) {limit : Nat} {t : Token} {name : Ident} {ts : List Token}
      {args : List Expr} : IsName t name → IsArguments ts args →
      IsPrimary limit (t :: ts) (.call tag name args)
  | var (tag tag' : Tag) {limit : Nat} {t : Token} {name : Ident} : IsName t name →
      IsPrimary limit [t] (.read tag (.var tag' name))

/-- The arguments of a call, with their parentheses. -/
inductive IsArguments : List Token → List Expr → Prop
  | none {l r : Token} : l.kind = .symbol .leftParen → r.kind = .symbol .rightParen →
      IsArguments [l, r] []
  | some {l r : Token} {ts : List Token} {es : List Expr} : l.kind = .symbol .leftParen →
      IsExprs ts es → r.kind = .symbol .rightParen → IsArguments (l :: (ts ++ [r])) es

/-- One or more expressions, separated by commas. -/
inductive IsExprs : List Token → List Expr → Prop
  | one {ts : List Token} {e : Expr} : IsExpr 0 ts e → IsExprs ts [e]
  | cons {ts us : List Token} {e : Expr} {es : List Expr} {comma : Token} : IsExpr 0 ts e →
      comma.kind = .symbol .comma → IsExprs us es → IsExprs (ts ++ comma :: us) (e :: es)

end

/-- A declaration of a variable or of a field. -/
inductive IsDecl : List Token → VarDecl → Prop
  | intro (tag : Tag) {ts : List Token} {type : TypeExpr} {t close : Token} {name : Ident} :
      IsType ts type → IsName t name → close.kind = .symbol .semicolon →
      IsDecl (ts ++ [t, close]) ⟨tag, type, name⟩

/-- A condition in its parentheses. -/
inductive IsCondition : List Token → Expr → Prop
  | intro {l r : Token} {ts : List Token} {e : Expr} : l.kind = .symbol .leftParen →
      IsExpr 0 ts e → r.kind = .symbol .rightParen → IsCondition (l :: (ts ++ [r])) e

mutual

/-- A statement, which a declaration is not. -/
inductive IsStmt : List Token → Stmt → Prop
  | eval {ts : List Token} {e : Expr} {close : Token} : IsExpr 0 ts e →
      close.kind = .symbol .semicolon → IsStmt (ts ++ [close]) (.eval e)
  | assign (span : Span) {tag : Tag} {ts us : List Token} {target : Location} {value : Expr}
      {sign close : Token} : IsExpr 0 ts (.read tag target) → sign.kind = .symbol .equal →
      IsExpr 0 us value → close.kind = .symbol .semicolon →
      IsStmt (ts ++ sign :: (us ++ [close])) (.assign span target value)
  | branch (span : Span) {start : Token} {ts us : List Token} {c : Expr} {onTrue : Stmt} :
      start.kind = .keyword .ifStmt → IsCondition ts c → IsStmt us onTrue →
      IsStmt (start :: (ts ++ us)) (.branch span c onTrue none)
  | branchElse (span : Span) {start other : Token} {ts us vs : List Token} {c : Expr}
      {onTrue onFalse : Stmt} : start.kind = .keyword .ifStmt → IsCondition ts c →
      IsStmt us onTrue → other.kind = .keyword .elseStmt → IsStmt vs onFalse →
      IsStmt (start :: (ts ++ (us ++ other :: vs))) (.branch span c onTrue (some onFalse))
  | loop (span : Span) {start : Token} {ts us : List Token} {c : Expr} {body : Stmt} :
      start.kind = .keyword .whileStmt → IsCondition ts c → IsStmt us body →
      IsStmt (start :: (ts ++ us)) (.loop span c body)
  | return (span : Span) {start close : Token} {ts : List Token} {e : Expr} :
      start.kind = .keyword .returnStmt → IsExpr 0 ts e → close.kind = .symbol .semicolon →
      IsStmt (start :: (ts ++ [close])) (.return span e)
  | block (span : Span) {ts : List Token} {body : List Stmt} : IsBlock ts body →
      IsStmt ts (.block span body)

/-- The statements and declarations of a block, with its braces. -/
inductive IsBlock : List Token → List Stmt → Prop
  | intro {l r : Token} {ts : List Token} {body : List Stmt} : l.kind = .symbol .leftBrace →
      IsItems ts body → r.kind = .symbol .rightBrace → IsBlock (l :: (ts ++ [r])) body

/-- Statements and declarations, one behind the other. -/
inductive IsItems : List Token → List Stmt → Prop
  | nil : IsItems [] []
  | stmt {ts us : List Token} {s : Stmt} {rest : List Stmt} : IsStmt ts s → IsItems us rest →
      IsItems (ts ++ us) (s :: rest)
  | declare {ts us : List Token} {d : VarDecl} {rest : List Stmt} : IsDecl ts d →
      IsItems us rest → IsItems (ts ++ us) (.declare d :: rest)

end

/-- One or more parameters, separated by commas. -/
inductive IsParams : List Token → List VarDecl → Prop
  | one (tag : Tag) {ts : List Token} {type : TypeExpr} {t : Token} {name : Ident} :
      IsType ts type → IsName t name → IsParams (ts ++ [t]) [⟨tag, type, name⟩]
  | cons (tag : Tag) {ts us : List Token} {type : TypeExpr} {t comma : Token} {name : Ident}
      {ds : List VarDecl} : IsType ts type → IsName t name → comma.kind = .symbol .comma →
      IsParams us ds → IsParams (ts ++ t :: comma :: us) (⟨tag, type, name⟩ :: ds)

/-- A parameter list with its parentheses. -/
inductive IsParamList : List Token → List VarDecl → Prop
  | none {l r : Token} : l.kind = .symbol .leftParen → r.kind = .symbol .rightParen →
      IsParamList [l, r] []
  | some {l r : Token} {ts : List Token} {ds : List VarDecl} : l.kind = .symbol .leftParen →
      IsParams ts ds → r.kind = .symbol .rightParen → IsParamList (l :: (ts ++ [r])) ds

/-- A function or a method. -/
inductive IsFunction : List Token → FunctionDecl → Prop
  | intro (tag : Tag) (bodySpan : Span) {ts us vs : List Token} {type : TypeExpr} {t : Token}
      {name : Ident} {params : List VarDecl} {body : List Stmt} : IsType ts type →
      IsName t name → IsParamList us params → IsBlock vs body →
      IsFunction (ts ++ t :: (us ++ vs)) ⟨tag, type, name, params, bodySpan, body⟩

/-- The fields and the methods of a class. -/
inductive IsMembers : List Token → List VarDecl → List FunctionDecl → Prop
  | nil : IsMembers [] [] []
  | field {ts us : List Token} {d : VarDecl} {fields : List VarDecl}
      {methods : List FunctionDecl} : IsDecl ts d → IsMembers us fields methods →
      IsMembers (ts ++ us) (d :: fields) methods
  | method {ts us : List Token} {f : FunctionDecl} {fields : List VarDecl}
      {methods : List FunctionDecl} : IsFunction ts f → IsMembers us fields methods →
      IsMembers (ts ++ us) fields (f :: methods)

/-- The superclass that a class names, if it names one. -/
inductive IsExtending : List Token → Option Ident → Prop
  | none : IsExtending [] none
  | some {start t : Token} {name : Ident} : start.kind = .keyword .extending → IsName t name →
      IsExtending [start, t] (some name)

inductive IsClass : List Token → ClassDecl → Prop
  | intro (tag : Tag) {start t l r : Token} {ts us : List Token} {name : Ident}
      {superclass : Option Ident} {fields : List VarDecl} {methods : List FunctionDecl} :
      start.kind = .keyword .classDecl → IsName t name → IsExtending ts superclass →
      l.kind = .symbol .leftBrace → IsMembers us fields methods →
      r.kind = .symbol .rightBrace →
      IsClass (start :: t :: (ts ++ l :: (us ++ [r]))) ⟨tag, name, superclass, fields, methods⟩

/-- Classes and functions, one behind the other. -/
inductive IsProgram : List Token → List ClassDecl → List FunctionDecl → Prop
  | nil : IsProgram [] [] []
  | cls {ts us : List Token} {c : ClassDecl} {classes : List ClassDecl}
      {functions : List FunctionDecl} : IsClass ts c → IsProgram us classes functions →
      IsProgram (ts ++ us) (c :: classes) functions
  | function {ts us : List Token} {f : FunctionDecl} {classes : List ClassDecl}
      {functions : List FunctionDecl} : IsFunction ts f → IsProgram us classes functions →
      IsProgram (ts ++ us) classes (f :: functions)

end Grammar

/-- Whether an `else` behind a statement could belong to an `if` in it. -/
def Stmt.isOpen : Stmt → Bool
  | .branch _ _ _ none => true
  | .branch _ _ _ (some onFalse) => onFalse.isOpen
  | .loop _ _ body => body.isOpen
  | .declare _ | .eval _ | .assign .. | .return .. | .block .. => false
termination_by structural s => s

mutual

/-- Each `else` belongs to the nearest `if` that it could belong to. -/
def Stmt.NearestElse : Stmt → Prop
  | .branch _ _ onTrue none => onTrue.NearestElse
  | .branch _ _ onTrue (some onFalse) =>
    onTrue.NearestElse ∧ onTrue.isOpen = false ∧ onFalse.NearestElse
  | .loop _ _ body => body.NearestElse
  | .block _ body => NearestElseIn body
  | .declare _ | .eval _ | .assign .. | .return .. => True
termination_by structural s => s

def NearestElseIn : List Stmt → Prop
  | [] => True
  | s :: rest => s.NearestElse ∧ NearestElseIn rest
termination_by structural body => body

end

/-- In all bodies of a program each `else` belongs to the nearest `if`. -/
def Program.NearestElse (p : Program) : Prop :=
  (∀ f ∈ p.functions, NearestElseIn f.body) ∧
    ∀ c ∈ p.classes, ∀ f ∈ c.methods, NearestElseIn f.body

end ObjectLang
