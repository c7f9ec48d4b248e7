import Mathlib.Tactic
import ObjectLang.Parsing.Programs
import ObjectLang.Proofs.Tree.Relabel

/-!
# Two texts read side by side

Two streams have the same words, at places that belong together in one way or another. The readers
look at the sorts and texts of tokens and never at their places, so both streams give the same tree
with the same identities, only with other places in it, or both are faulty in the same way, at
places that belong together.
-/
namespace ObjectLang

/-- Places are forgotten; identities and names are kept. -/
def Relabel.unplaced : Relabel where
  tag t := ⟨t.id, default⟩
  span _ := default

namespace Relabel

@[simp]
theorem unplaced_tag (t : Tag) : unplaced.tag t = ⟨t.id, default⟩ :=
  rfl

@[simp]
theorem unplaced_span (span : Span) : unplaced.span span = default :=
  rfl

@[simp]
theorem unplaced_name (name : String) : unplaced.name name = name :=
  rfl

end Relabel

variable {R : Span → Span → Prop}

/-- Two tokens of one sort and text, at places that belong together. -/
structure Token.Beside (R : Span → Span → Prop) (t t' : Token) : Prop where
  kind : t.kind = t'.kind
  lexeme : t.lexeme = t'.lexeme
  span : R t.span t'.span

theorem Token.Beside.description {t t' : Token} (h : t.Beside R t') :
    t.description = t'.description := by
  rw [Token.description, Token.description, h.kind, h.lexeme]

/-- Two errors of one kind and message, at places that belong together. -/
structure ParseError.Beside (R : Span → Span → Prop) (e e' : ParseError) : Prop where
  kind : e.kind = e'.kind
  message : e.message = e'.message
  span : R e.span e'.span

namespace Parsing

/-- Two streams with the same words and the same identities to give out. -/
structure Stream.Beside (R : Span → Span → Prop) (s s' : Stream) : Prop where
  tokens : List.Forall₂ (Token.Beside R) s.tokens s'.tokens
  stop : R s.stop s'.stop
  fresh : s.fresh = s'.fresh

/-- Two things read that are the same in some way, with streams left that are the same. -/
inductive Parsed.Beside {α : Type} (R : Span → Span → Prop) (Same : α → α → Prop) {s s' : Stream}
    {k : Nat} : Parsed s k α → Parsed s' k α → Prop
  | mk {a a' : α} {rest rest' : Stream} {used : rest.size + k ≤ s.size}
      {used' : rest'.size + k ≤ s'.size} : Same a a' → rest.Beside R rest' →
        Parsed.Beside R Same ⟨a, rest, used⟩ ⟨a', rest', used'⟩

/-- Two results: both are something, and the same in some way, or both are errors that are. -/
inductive Beside {α β : Type} (R : Span → Span → Prop) (Same : α → β → Prop) :
    Except ParseError α → Except ParseError β → Prop
  | ok {a : α} {b : β} : Same a b → Beside R Same (.ok a) (.ok b)
  | error {e e' : ParseError} : e.Beside R e' → Beside R Same (.error e) (.error e')

/-- Two readings of streams that are beside each other. -/
abbrev Agree {α : Type} (R : Span → Span → Prop) (Same : α → α → Prop) {s s' : Stream} {k : Nat} :
    Reading (Parsed s k α) → Reading (Parsed s' k α) → Prop :=
  Beside R (Parsed.Beside R Same)

namespace Beside

variable {α β γ δ : Type} {Same : α → β → Prop} {Same' : γ → δ → Prop}

theorem bind {x : Except ParseError α} {x' : Except ParseError β} {f : α → Except ParseError γ}
    {f' : β → Except ParseError δ} (h : Beside R Same x x')
    (hf : ∀ a b, Same a b → Beside R Same' (f a) (f' b)) :
    Beside R Same' (x >>= f) (x' >>= f') := by
  cases h with
  | ok h => exact hf _ _ h
  | error h => exact .error h

end Beside

namespace Parsed.Beside

variable {α : Type} {Same : α → α → Prop} {s s' : Stream} {k : Nat} {p : Parsed s k α}
  {p' : Parsed s' k α}

theorem value (h : p.Beside R Same p') : Same p.value p'.value := by
  obtain ⟨h, -⟩ := h
  exact h

theorem rest (h : p.Beside R Same p') : p.rest.Beside R p'.rest := by
  obtain ⟨-, h⟩ := h
  exact h

end Parsed.Beside

namespace Stream.Beside

variable {s s' : Stream}

theorem isEmpty (h : s.Beside R s') : s.tokens.isEmpty = s'.tokens.isEmpty := by
  have htokens := h.tokens
  generalize s.tokens = ts, s'.tokens = ts' at htokens
  cases htokens <;> rfl

/-- The tokens ahead belong together, and the ends of the texts where there are none. -/
theorem peekAt (h : s.Beside R s') (n : Nat) : (s.peekAt n).Beside R (s'.peekAt n) := by
  obtain ⟨tokens, stop, last, fresh⟩ := s
  obtain ⟨tokens', stop', last', fresh'⟩ := s'
  obtain ⟨htokens, hstop, -⟩ := h
  simp only at htokens hstop
  induction htokens generalizing n with
  | nil => exact ⟨rfl, rfl, hstop⟩
  | cons ht _ ih =>
      cases n with
      | zero => exact ht
      | succ n => exact ih n

theorem peek (h : s.Beside R s') : s.peek.Beside R s'.peek :=
  h.peekAt 0

theorem sees (h : s.Beside R s') (kind : Token.Kind) : s.sees kind = s'.sees kind := by
  rw [Stream.sees, Stream.sees, h.peek.kind]

theorem bump (h : s.Beside R s') : s.bump.Beside R s'.bump :=
  ⟨h.tokens, h.stop, congrArg (· + 1) h.fresh⟩

/-- Both give out the same identity. -/
theorem tag (h : s.Beside R s') (span span' : Span) :
    Relabel.unplaced.tag (s.tag span) = Relabel.unplaced.tag (s'.tag span') :=
  congrArg (Tag.mk · default) h.fresh

end Stream.Beside

section tokens

variable {α : Type} {Same : α → α → Prop} {s s' : Stream}

theorem next?_beside {accept accept' : Token → Option α} (hs : s.Beside R s')
    (h : ∀ t t' : Token, t.Beside R t' → Option.Rel Same (accept t) (accept' t')) :
    Option.Rel (Parsed.Beside R Same) (next? s accept) (next? s' accept') := by
  have htokens := hs.tokens
  unfold next?
  split <;> split
  · exact .none
  · next hnil _ _ hcons =>
    rw [hnil, hcons] at htokens
    cases htokens
  · next hcons hnil =>
    rw [hnil, hcons] at htokens
    cases htokens
  · next t rest hcons t' rest' hcons' =>
    rw [hcons, hcons'] at htokens
    obtain ⟨ht, hrest⟩ := List.forall₂_cons.1 htokens
    have haccept := h t t' ht
    generalize accept t = a, accept' t' = a' at haccept
    cases haccept with
    | none => exact .none
    | some hsame => exact .some ⟨hsame, hrest, hs.stop, hs.fresh⟩

theorem take?_beside (hs : s.Beside R s') (kind : Token.Kind) :
    Option.Rel (Parsed.Beside R (Token.Beside R)) (take? s kind) (take? s' kind) := by
  refine next?_beside hs fun t t' ht => ?_
  rw [ht.kind]
  split
  · exact .some ht
  · exact .none

theorem endedError_beside (hs : s.Beside R s') (expected : String) :
    (endedError s expected).Beside R (endedError s' expected) :=
  ⟨rfl, rfl, hs.stop⟩

theorem expect_beside (hs : s.Beside R s') (kind : Token.Kind) :
    Agree R (Token.Beside R) (expect s kind) (expect s' kind) := by
  have htake := take?_beside hs kind
  unfold expect
  generalize take? s kind = o, take? s' kind = o' at htake
  cases htake with
  | some h => exact .ok h
  | none =>
      refine .error ?_
      simp only [hs.isEmpty]
      split
      · exact endedError_beside hs _
      · exact ⟨rfl, by rw [ParseError.expectedToken, hs.peek.description]; rfl, hs.peek.span⟩

theorem symbol_beside (hs : s.Beside R s') (x : Symbol) :
    Agree R (Token.Beside R) (symbol s x) (symbol s' x) :=
  expect_beside hs _

theorem atEnd_beside (hs : s.Beside R s') : Beside R Eq (atEnd s) (atEnd s') := by
  unfold atEnd
  rw [hs.isEmpty]
  split
  · exact .ok rfl
  · exact .error ⟨rfl, by rw [ParseError.expectedToken, hs.peek.description]; rfl, hs.peek.span⟩

/-- Two names that are written alike. -/
abbrev SameIdent (x x' : Ident) : Prop :=
  x.relabel .unplaced = x'.relabel .unplaced

theorem identOf?_beside {t t' : Token} (h : t.Beside R t') :
    Option.Rel SameIdent (identOf? t) (identOf? t') := by
  unfold identOf?
  rw [h.kind, h.lexeme]
  split
  · exact .some rfl
  · exact .none

theorem ident_beside (hs : s.Beside R s') : Agree R SameIdent (ident s) (ident s') := by
  have hnext := next?_beside hs fun _ _ h => identOf?_beside h
  unfold ident
  generalize next? s identOf? = o, next? s' identOf? = o' at hnext
  cases hnext with
  | some h => exact .ok h
  | none =>
      exact .error
        ⟨rfl, by rw [ParseError.expectedIdentifier, hs.peek.description]; rfl, hs.peek.span⟩

end tokens

section types

variable {s s' : Stream}

abbrev SameType (t t' : TypeExpr) : Prop :=
  t.relabel .unplaced = t'.relabel .unplaced

theorem baseType_beside (hs : s.Beside R s') : Agree R SameType (baseType s) (baseType s') := by
  unfold baseType
  simp only
  generalize ho : next? s _ = o
  generalize ho' : next? s' _ = o'
  have hnext : Option.Rel (Parsed.Beside R SameType) o o' := by
    rw [← ho, ← ho']
    refine next?_beside hs fun t t' ht => ?_
    simp only [ht.kind]
    split
    · exact .some (congrArg TypeExpr.int (hs.tag ..))
    · exact .some (congrArg TypeExpr.bool (hs.tag ..))
    · exact .some (congrArg₂ TypeExpr.named (hs.tag ..) (congrArg (Ident.mk · default) ht.lexeme))
    · exact .none
  cases hnext with
  | some h => exact .ok ⟨h.value, h.rest.bump⟩
  | none => exact .error ⟨rfl, by rw [hs.peek.description], hs.peek.span⟩

theorem brackets?_beside (hs : s.Beside R s') :
    Option.Rel (Parsed.Beside R (Token.Beside R)) (brackets? s) (brackets? s') := by
  have hopen := take?_beside hs (.symbol .leftBracket)
  unfold brackets?
  generalize take? s (.symbol .leftBracket) = o, take? s' (.symbol .leftBracket) = o' at hopen
  obtain @⟨_, _, @⟨_, _, s₁, s₁', h₁, h₁', -, hs₁⟩⟩ | _ := hopen
  · have hclose := take?_beside hs₁ (.symbol .rightBracket)
    simp only
    generalize take? s₁ (.symbol .rightBracket) = o, take? s₁' (.symbol .rightBracket) = o'
      at hclose
    obtain @⟨⟨_, s₂, h₂⟩, ⟨_, s₂', h₂'⟩, h⟩ | _ := hclose
    · exact .some ⟨h.value, h.rest⟩
    · exact .none
  · exact .none

theorem arraysOf_beside {component component' : TypeExpr} {s s' : Stream}
    (hcomponent : SameType component component') (hs : s.Beside R s') (stop stop' : Span) :
    (arraysOf component stop s).Beside R (fun t t' => SameType t.1 t'.1)
      (arraysOf component' stop' s') := by
  have hbrackets := brackets?_beside hs
  rw [arraysOf, arraysOf]
  generalize brackets? s = o, brackets? s' = o' at hbrackets
  obtain @⟨_, _, @⟨close, close', s₁, s₁', h₁, h₁', -, hs₁⟩⟩ | _ := hbrackets
  · have harray : SameType (.array (s₁.tag (component.span.merge close.span)) component)
        (.array (s₁'.tag (component'.span.merge close'.span)) component') :=
      congrArg₂ TypeExpr.array (hs₁.tag ..) hcomponent
    have h := arraysOf_beside harray hs₁.bump close.span close'.span
    exact ⟨h.value, h.rest⟩
  · exact ⟨hcomponent, hs⟩
termination_by s.size
decreasing_by simp only [Stream.size_bump]; omega

theorem andThen_beside {α β : Type} {Same : α → α → Prop} {Same' : β → β → Prop} {k : Nat}
    {p : Parsed s 1 α} {p' : Parsed s' 1 α} (hp : p.Beside R Same p')
    {read read' : (rest : Stream) → Reading (Parsed rest k β)}
    (h : ∀ {t t' : Stream}, t.Beside R t' → Agree R Same' (read t) (read' t')) :
    Agree R Same' (p.andThen read) (p'.andThen read') :=
  .bind (h hp.rest) fun _ _ hq => .ok ⟨hq.value, hq.rest⟩

theorem typeExpr_beside (hs : s.Beside R s') : Agree R SameType (typeExpr s) (typeExpr s') := by
  refine .bind (baseType_beside hs) fun base base' hbase => ?_
  refine .bind (andThen_beside hbase fun ht => .ok (arraysOf_beside hbase.value ht _ _)) ?_
  exact fun found found' hfound => .ok ⟨hfound.value, hfound.rest⟩

end types

section expressions

abbrev SameExpr (e e' : Expr) : Prop :=
  e.relabel .unplaced = e'.relabel .unplaced

abbrev SameLocation (l l' : Location) : Prop :=
  l.relabel .unplaced = l'.relabel .unplaced

abbrev SameArguments (es es' : List Expr) : Prop :=
  relabelArguments .unplaced es = relabelArguments .unplaced es'

section leaves

variable {s s' : Stream}

theorem binaryOf?_beside {t t' : Token} (h : t.Beside R t') :
    Option.Rel Eq (binaryOf? t) (binaryOf? t') := by
  rw [binaryOf?, binaryOf?, h.kind]
  split <;> first | exact .some rfl | exact .none

theorem unaryOf?_beside {t t' : Token} (h : t.Beside R t') :
    Option.Rel (fun x x' => x.1 = x'.1) (unaryOf? t) (unaryOf? t') := by
  rw [unaryOf?, unaryOf?, h.kind]
  split <;> first | exact .some rfl | exact .none

theorem constantOf?_beside (hs : s.Beside R s') {t t' : Token} (h : t.Beside R t') :
    Option.Rel SameExpr (constantOf? s t) (constantOf? s' t') := by
  rw [constantOf?, constantOf?, h.kind]
  split
  · exact .some (congrArg (Expr.bool · true) (hs.tag ..))
  · exact .some (congrArg (Expr.bool · false) (hs.tag ..))
  · exact .some (congrArg Expr.null (hs.tag ..))
  · exact .some (congrArg Expr.this (hs.tag ..))
  · exact .none

theorem literal?_beside (hs : s.Beside R s') (limit : Nat) :
    Option.Rel (Agree R SameExpr) (literal? limit s) (literal? limit s') := by
  have htake := take?_beside hs .intLiteral
  unfold literal?
  generalize take? s .intLiteral = o, take? s' .intLiteral = o' at htake
  obtain @⟨_, _, @⟨t, t', rest, rest', used, used', ht, hrest⟩⟩ | _ := htake
  · refine .some ?_
    simp only at ht ⊢
    rw [ht.lexeme]
    split
    · exact .ok ⟨congrArg (Expr.number · _) (hrest.tag ..), hrest.bump⟩
    · exact .error ⟨rfl, rfl, ht.span⟩
  · exact .none

theorem reading_beside (hs : s.Beside R s') {span span' : Span}
    {location location' : Tag → Location}
    (h : SameLocation (location (s.tag span)) (location' (s'.tag span'))) :
    SameExpr (reading s span location) (reading s' span' location') :=
  congrArg₂ Expr.read (hs.bump.tag ..) h

theorem noExpression_beside (hs : s.Beside R s') :
    (noExpression s).Beside R (noExpression s') := by
  unfold noExpression
  rw [hs.isEmpty]
  split
  · exact endedError_beside hs _
  · exact ⟨rfl, by rw [ParseError.expectedExpression, hs.peek.description]; rfl, hs.peek.span⟩

end leaves

mutual

theorem expression_beside (level : Nat) {s s' : Stream} (hs : s.Beside R s') :
    Agree R SameExpr (expression level s) (expression level s') := by
  rw [expression.eq_def level s, expression.eq_def level s']
  refine .bind (operand_beside hs) ?_
  rintro _ _ @⟨left, left', s₁, s₁', h₁, h₁', hleft, hs₁⟩
  refine .bind (operations_beside level hleft hs₁) ?_
  rintro _ _ @⟨e, e', s₂, s₂', h₂, h₂', he, hs₂⟩
  exact .ok ⟨he, hs₂⟩
termination_by (s.size, 3)

theorem operations_beside (level : Nat) {left left' : Expr} (hleft : SameExpr left left')
    {s s' : Stream} (hs : s.Beside R s') :
    Agree R SameExpr (operations level left s) (operations level left' s') := by
  have hnext := next?_beside hs fun _ _ h => binaryOf?_beside h
  rw [operations.eq_def level left s, operations.eq_def level left' s']
  generalize next? s binaryOf? = o, next? s' binaryOf? = o' at hnext
  obtain @⟨_, _, @⟨op, op', s₁, s₁', h₁, h₁', hop, hs₁⟩⟩ | _ := hnext
  · cases hop
    simp only
    split
    · exact .ok ⟨hleft, hs⟩
    · refine .bind (expression_beside (op.level + 1) hs₁) ?_
      rintro _ _ @⟨right, right', s₂, s₂', h₂, h₂', hright, hs₂⟩
      have he : SameExpr (.binary (s₂.tag (left.span.merge right.span)) op left right)
          (.binary (s₂'.tag (left'.span.merge right'.span)) op left' right') := by
        simp only [SameExpr, Expr.relabel, hs₂.tag _ (left'.span.merge right'.span), hleft, hright]
      refine .bind (operations_beside level he hs₂.bump) ?_
      rintro _ _ @⟨e, e', s₃, s₃', h₃, h₃', he, hs₃⟩
      exact .ok ⟨he, hs₃⟩
  · exact .ok ⟨hleft, hs⟩
termination_by (s.size, 0)

theorem operand_beside {s s' : Stream} (hs : s.Beside R s') :
    Agree R SameExpr (operand s) (operand s') := by
  have hnext := next?_beside hs fun _ _ h => unaryOf?_beside h
  rw [operand.eq_def s, operand.eq_def s']
  generalize next? s unaryOf? = o, next? s' unaryOf? = o' at hnext
  obtain @⟨_, _, @⟨⟨op, start⟩, ⟨op', start'⟩, s₁, s₁', h₁, h₁', hop, hs₁⟩⟩ | _ := hnext
  · cases hop
    simp only
    have hnumber : Option.Rel (Agree R SameExpr)
        (if op = .neg then literal? maxNegatedLiteral s₁ else none)
        (if op = .neg then literal? maxNegatedLiteral s₁' else none) := by
      split
      · exact literal?_beside hs₁ _
      · exact .none
    generalize (if op = .neg then literal? maxNegatedLiteral s₁ else none) = o,
      (if op = .neg then literal? maxNegatedLiteral s₁' else none) = o' at hnumber
    obtain hnumber | _ := hnumber
    · refine .bind hnumber ?_
      rintro _ _ @⟨e, e', s₂, s₂', h₂, h₂', he, hs₂⟩
      refine .bind (accesses_beside he hs₂) ?_
      rintro _ _ @⟨e, e', s₃, s₃', h₃, h₃', he, hs₃⟩
      exact .ok ⟨congrArg₂ (Expr.unary · op ·) (hs₃.tag ..) he, hs₃.bump⟩
    · refine .bind (operand_beside hs₁) ?_
      rintro _ _ @⟨e, e', s₂, s₂', h₂, h₂', he, hs₂⟩
      exact .ok ⟨congrArg₂ (Expr.unary · op ·) (hs₂.tag ..) he, hs₂.bump⟩
  · refine .bind (primary_beside hs) ?_
    rintro _ _ @⟨e, e', s₁, s₁', h₁, h₁', he, hs₁⟩
    refine .bind (accesses_beside he hs₁) ?_
    rintro _ _ @⟨e, e', s₂, s₂', h₂, h₂', he, hs₂⟩
    exact .ok ⟨he, hs₂⟩
termination_by (s.size, 2)

theorem accesses_beside {e e' : Expr} (he : SameExpr e e') {s s' : Stream} (hs : s.Beside R s') :
    Agree R SameExpr (accesses e s) (accesses e' s') := by
  have hdot := take?_beside hs (.symbol .dot)
  rw [accesses.eq_def e s, accesses.eq_def e' s']
  generalize take? s (.symbol .dot) = o, take? s' (.symbol .dot) = o' at hdot
  obtain @⟨_, _, @⟨_, _, s₁, s₁', h₁, h₁', -, hs₁⟩⟩ | _ := hdot
  · have hlength := take?_beside hs₁ (.keyword .length)
    simp only
    generalize take? s₁ (.keyword .length) = o, take? s₁' (.keyword .length) = o' at hlength
    obtain @⟨_, _, @⟨length, length', s₂, s₂', h₂, h₂', -, hs₂⟩⟩ | _ := hlength
    · have harray : SameExpr (.arrayLength (s₂.tag (e.span.merge length.span)) e)
          (.arrayLength (s₂'.tag (e'.span.merge length'.span)) e') :=
        congrArg₂ Expr.arrayLength (hs₂.tag ..) he
      refine .bind (accesses_beside harray hs₂.bump) ?_
      rintro _ _ @⟨e, e', s₃, s₃', h₃, h₃', he, hs₃⟩
      exact .ok ⟨he, hs₃⟩
    · refine .bind (ident_beside hs₁) ?_
      rintro _ _ @⟨name, name', s₂, s₂', h₂, h₂', hname, hs₂⟩
      simp only [hs₂.sees]
      split
      · refine .bind (arguments_beside hs₂) ?_
        rintro _ _ @⟨args, args', s₃, s₃', h₃, h₃', hargs, hs₃⟩
        have hcall : SameExpr (.methodCall (s₃.tag (e.span.merge s₃.last)) e name args)
            (.methodCall (s₃'.tag (e'.span.merge s₃'.last)) e' name' args') := by
          simp only [SameExpr, Expr.relabel, hs₃.tag _ (e'.span.merge s₃'.last), he, hname, hargs]
        refine .bind (accesses_beside hcall hs₃.bump) ?_
        rintro _ _ @⟨e, e', s₄, s₄', h₄, h₄', he, hs₄⟩
        exact .ok ⟨he, hs₄⟩
      · have hfield : SameLocation (.field (s₂.tag (e.span.merge name.span)) e name)
            (.field (s₂'.tag (e'.span.merge name'.span)) e' name') := by
          simp only [SameLocation, Location.relabel, hs₂.tag _ (e'.span.merge name'.span), he,
            hname]
        refine .bind (accesses_beside (reading_beside hs₂ hfield) hs₂.bump.bump) ?_
        rintro _ _ @⟨e, e', s₃, s₃', h₃, h₃', he, hs₃⟩
        exact .ok ⟨he, hs₃⟩
  · have hopen := take?_beside hs (.symbol .leftBracket)
    simp only
    generalize take? s (.symbol .leftBracket) = o, take? s' (.symbol .leftBracket) = o' at hopen
    obtain @⟨_, _, @⟨_, _, s₁, s₁', h₁, h₁', -, hs₁⟩⟩ | _ := hopen
    · refine .bind (expression_beside 0 hs₁) ?_
      rintro _ _ @⟨index, index', s₂, s₂', h₂, h₂', hindex, hs₂⟩
      refine .bind (symbol_beside hs₂ _) ?_
      rintro _ _ @⟨close, close', s₃, s₃', h₃, h₃', -, hs₃⟩
      have hlocation : SameLocation (.index (s₃.tag (e.span.merge close.span)) e index)
          (.index (s₃'.tag (e'.span.merge close'.span)) e' index') := by
        simp only [SameLocation, Location.relabel, hs₃.tag _ (e'.span.merge close'.span), he,
          hindex]
      refine .bind (accesses_beside (reading_beside hs₃ hlocation) hs₃.bump.bump) ?_
      rintro _ _ @⟨e, e', s₄, s₄', h₄, h₄', he, hs₄⟩
      exact .ok ⟨he, hs₄⟩
    · exact .ok ⟨he, hs⟩
termination_by (s.size, 0)

theorem primary_beside {s s' : Stream} (hs : s.Beside R s') :
    Agree R SameExpr (primary s) (primary s') := by
  have hnumber := literal?_beside hs maxLiteral
  have hconstant := next?_beside hs fun _ _ h => constantOf?_beside hs h
  have hopen := take?_beside hs (.symbol .leftParen)
  have hnew := take?_beside hs (.keyword .newExpr)
  have hname := next?_beside hs fun _ _ h => identOf?_beside h
  rw [primary.eq_def s, primary.eq_def s']
  generalize literal? maxLiteral s = o, literal? maxLiteral s' = o' at hnumber
  obtain h | _ := hnumber
  · exact h
  simp only
  generalize next? s (constantOf? s) = o, next? s' (constantOf? s') = o' at hconstant
  obtain @⟨_, _, @⟨_, _, s₁, s₁', h₁, h₁', he, hs₁⟩⟩ | _ := hconstant
  · exact .ok ⟨he, hs₁.bump⟩
  simp only
  generalize take? s (.symbol .leftParen) = o, take? s' (.symbol .leftParen) = o' at hopen
  obtain @⟨_, _, @⟨_, _, s₁, s₁', h₁, h₁', -, hs₁⟩⟩ | _ := hopen
  · refine .bind (expression_beside 0 hs₁) ?_
    rintro _ _ @⟨e, e', s₂, s₂', h₂, h₂', he, hs₂⟩
    refine .bind (symbol_beside hs₂ _) ?_
    rintro _ _ @⟨_, _, s₃, s₃', h₃, h₃', -, hs₃⟩
    exact .ok ⟨he, hs₃⟩
  simp only
  generalize take? s (.keyword .newExpr) = o, take? s' (.keyword .newExpr) = o' at hnew
  obtain @⟨_, _, @⟨start, start', s₁, s₁', h₁, h₁', -, hs₁⟩⟩ | _ := hnew
  · refine .bind (creation_beside start.span start'.span hs₁) ?_
    rintro _ _ @⟨e, e', s₂, s₂', h₂, h₂', he, hs₂⟩
    exact .ok ⟨he, hs₂⟩
  simp only
  generalize next? s identOf? = o, next? s' identOf? = o' at hname
  obtain @⟨_, _, @⟨name, name', s₁, s₁', h₁, h₁', hname, hs₁⟩⟩ | _ := hname
  · simp only [hs₁.sees]
    split
    · refine .bind (arguments_beside hs₁) ?_
      rintro _ _ @⟨args, args', s₂, s₂', h₂, h₂', hargs, hs₂⟩
      refine .ok ⟨?_, hs₂.bump⟩
      simp only [SameExpr, Expr.relabel, hs₂.tag _ (name'.span.merge s₂'.last), hname, hargs]
    · have hlocation : SameLocation (.var (s₁.tag name.span) name)
        (.var (s₁'.tag name'.span) name') :=
        congrArg₂ Location.var (hs₁.tag ..) hname
      exact .ok ⟨reading_beside hs₁ hlocation, hs₁.bump.bump⟩
  · exact .error (noExpression_beside hs)
termination_by (s.size, 1)

theorem creation_beside (start start' : Span) {s s' : Stream} (hs : s.Beside R s') :
    Agree R SameExpr (creation start s) (creation start' s') := by
  rw [creation.eq_def start s, creation.eq_def start' s', hs.sees, (hs.peekAt 1).kind]
  split
  · refine .bind (ident_beside hs) ?_
    rintro _ _ @⟨name, name', s₁, s₁', h₁, h₁', hname, hs₁⟩
    refine .bind (symbol_beside hs₁ _) ?_
    rintro _ _ @⟨_, _, s₂, s₂', h₂, h₂', -, hs₂⟩
    refine .bind (symbol_beside hs₂ _) ?_
    rintro _ _ @⟨close, close', s₃, s₃', h₃, h₃', -, hs₃⟩
    exact .ok ⟨congrArg₂ Expr.newObject (hs₃.tag ..) hname, hs₃.bump⟩
  · refine .bind (baseType_beside hs) ?_
    rintro _ _ @⟨base, base', s₁, s₁', h₁, h₁', hbase, hs₁⟩
    refine .bind (symbol_beside hs₁ _) ?_
    rintro _ _ @⟨_, _, s₂, s₂', h₂, h₂', -, hs₂⟩
    refine .bind (expression_beside 0 hs₂) ?_
    rintro _ _ @⟨size, size', s₃, s₃', h₃, h₃', hsize, hs₃⟩
    refine .bind (symbol_beside hs₃ _) ?_
    rintro _ _ @⟨close, close', s₄, s₄', h₄, h₄', -, hs₄⟩
    have harrays := arraysOf_beside hbase hs₄ close.span close'.span
    simp only
    generalize arraysOf base close.span s₄ = p, arraysOf base' close'.span s₄' = p' at harrays
    obtain @⟨⟨element, stop⟩, ⟨element', stop'⟩, s₅, s₅', h₅, h₅', helement, hs₅⟩ := harrays
    refine .ok ⟨?_, hs₅.bump⟩
    simp only [SameExpr, Expr.relabel, hs₅.tag _ (start'.merge stop'), helement, hsize]
termination_by (s.size, 0)

theorem arguments_beside {s s' : Stream} (hs : s.Beside R s') :
    Agree R SameArguments (arguments s) (arguments s') := by
  rw [arguments.eq_def s, arguments.eq_def s']
  refine .bind (symbol_beside hs _) ?_
  rintro _ _ @⟨_, _, s₁, s₁', h₁, h₁', -, hs₁⟩
  have hclose := take?_beside hs₁ (.symbol .rightParen)
  simp only
  generalize take? s₁ (.symbol .rightParen) = o, take? s₁' (.symbol .rightParen) = o' at hclose
  obtain @⟨_, _, @⟨_, _, s₂, s₂', h₂, h₂', -, hs₂⟩⟩ | _ := hclose
  · exact .ok ⟨rfl, hs₂⟩
  · refine .bind (expressions_beside hs₁) ?_
    rintro _ _ @⟨args, args', s₂, s₂', h₂, h₂', hargs, hs₂⟩
    refine .bind (symbol_beside hs₂ _) ?_
    rintro _ _ @⟨_, _, s₃, s₃', h₃, h₃', -, hs₃⟩
    exact .ok ⟨hargs, hs₃⟩
termination_by (s.size, 0)

theorem expressions_beside {s s' : Stream} (hs : s.Beside R s') :
    Agree R SameArguments (expressions s) (expressions s') := by
  rw [expressions.eq_def s, expressions.eq_def s']
  refine .bind (expression_beside 0 hs) ?_
  rintro _ _ @⟨e, e', s₁, s₁', h₁, h₁', he, hs₁⟩
  have hcomma := take?_beside hs₁ (.symbol .comma)
  simp only
  generalize take? s₁ (.symbol .comma) = o, take? s₁' (.symbol .comma) = o' at hcomma
  obtain @⟨_, _, @⟨_, _, s₂, s₂', h₂, h₂', -, hs₂⟩⟩ | _ := hcomma
  · refine .bind (expressions_beside hs₂) ?_
    rintro _ _ @⟨es, es', s₃, s₃', h₃, h₃', hes, hs₃⟩
    exact .ok ⟨congrArg₂ List.cons he hes, hs₃⟩
  · exact .ok ⟨congrArg (fun e : Expr => [e]) he, hs₁⟩
termination_by (s.size, 4)

end

end expressions

end Parsing
end ObjectLang
