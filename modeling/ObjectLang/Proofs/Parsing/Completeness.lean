import Mathlib.Tactic
import ObjectLang.Proofs.Parsing.Soundness

/-!
# What is grammatical is read

A reader that meets the tokens of a tree reads that tree, up to its tags and places, and leaves what
stands behind. Trees that grow to the left, as operators and accesses make them, are read by a loop:
what has been read of such a tree goes on as if the loop had started with it.
-/
namespace ObjectLang.Grammar

open Parsing

variable {s s' : Stream} {k k' : Nat} {rest ts us : List Token}

section used

variable {s₁ s₂ s₃ s₄ : Stream}

theorem used_then (h₁ : s₁.size + 1 ≤ s.size) (h₂ : s₂.size + 0 ≤ s₁.size) :
    s₂.size + 1 ≤ s.size := by
  omega

theorem used_items (h₁ : s₁.size + 1 ≤ s.size) (h₂ : s₂.size + 0 ≤ s₁.size) :
    s₂.size + 0 ≤ s.size := by
  omega

theorem used_bump (h₁ : s₁.size + 1 ≤ s.size) (h₂ : s₂.size + 1 ≤ s₁.size) :
    s₂.bump.size + 1 ≤ s.size := by
  simp only [Stream.size_bump]
  omega

theorem used_method (h₂ : s₂.size + 2 ≤ s.size) (h₃ : s₃.size + 1 ≤ s₂.size)
    (h₄ : s₄.size + 0 ≤ s₃.bump.size) : s₄.size + 0 ≤ s.size := by
  simp only [Stream.size_bump] at h₄
  omega

theorem used_field (h₂ : s₂.size + 2 ≤ s.size) (h₃ : s₃.size + 0 ≤ s₂.bump.bump.size) :
    s₃.size + 0 ≤ s.size := by
  simp only [Stream.size_bump] at h₃
  omega

end used

section tokens

variable {t : Token} {kind : Token.Kind}

theorem not_starts_nil : ¬ Starts kind [] := by
  simp [Starts]

theorem starts_cons : Starts kind (t :: ts) ↔ t.kind = kind := by
  simp [Starts]

theorem exists_next? {α : Type} {f : Token → Option α} {a : α} (hs : s.tokens = t :: rest)
    (ha : f t = some a) : ∃ used, next? s f = some ⟨a, s.behind t rest, used⟩ := by
  refine ⟨by simp [s.size_of_tokens hs], ?_⟩
  unfold next?
  split
  · next h => simp [h] at hs
  · next t' rest' h =>
    obtain ⟨rfl, rfl⟩ := List.cons.inj (h.symm.trans hs)
    simp [ha]

theorem next?_none {α : Type} {accept : Token → Option α}
    (h : s.tokens.head?.bind accept = none) : next? s accept = none := by
  unfold next?
  split
  · rfl
  · next t rest ht => simpa [ht] using h

theorem exists_take? (hs : s.tokens = t :: rest) (ht : t.kind = kind) :
    ∃ used, take? s kind = some ⟨t, s.behind t rest, used⟩ :=
  exists_next? hs (if_pos ht)

theorem take?_none (h : ¬ Starts kind s.tokens) : take? s kind = none := by
  refine next?_none ?_
  cases ht : s.tokens <;> simp_all [Starts]

theorem exists_expect (hs : s.tokens = t :: rest) (ht : t.kind = kind) :
    ∃ used, expect s kind = .ok ⟨t, s.behind t rest, used⟩ := by
  obtain ⟨used, h⟩ := exists_take? hs ht
  exact ⟨used, by rw [expect, h]⟩

theorem exists_ident {name : Ident} (hs : s.tokens = t :: rest) (ht : IsName t name) :
    ∃ x used, ident s = .ok ⟨x, s.behind t rest, used⟩ ∧ x.relabel .bare = name.relabel .bare := by
  cases ht with
  | intro span hkind =>
    obtain ⟨used, h⟩ := exists_next? (f := identOf?) hs (if_pos hkind)
    exact ⟨⟨t.lexeme, t.span⟩, used, by rw [ident, h], rfl⟩

theorem sees_eq (s : Stream) (kind : Token.Kind) (hkind : kind ≠ .endOfText) :
    s.sees kind = true ↔ Starts kind s.tokens := by
  cases hs : s.tokens <;>
    simp [Stream.sees, Stream.peek, Stream.peekAt, Starts, hs, Token.endOfText, hkind.symm]

end tokens

section readings

variable {α β : Type}

/-- A reader gives a value, as far as `view` can see, and leaves some tokens. -/
def Reads (view : α → β) (x : Reading (Parsed s k α)) (a : α) (rest : List Token) : Prop :=
  ∃ r, x = .ok r ∧ view r.value = view a ∧ r.rest.tokens = rest

/-- What one reader gives, another one gives as well. -/
def GoesOn (x : Reading (Parsed s k α)) (y : Reading (Parsed s' k' α)) : Prop :=
  ∀ r', y = .ok r' → ∃ r, x = .ok r ∧ r.value = r'.value ∧ r.rest = r'.rest

theorem GoesOn.trans {s'' : Stream} {k'' : Nat} {x : Reading (Parsed s k α)}
    {y : Reading (Parsed s' k' α)} {z : Reading (Parsed s'' k'' α)} (h : GoesOn x y)
    (h' : GoesOn y z) : GoesOn x z := by
  intro r hr
  obtain ⟨r', hr', hv, hrest⟩ := h' r hr
  obtain ⟨r'', hr'', hv', hrest'⟩ := h r' hr'
  exact ⟨r'', hr'', hv'.trans hv, hrest'.trans hrest⟩

theorem GoesOn.reads {view : α → β} {x : Reading (Parsed s k α)} {y : Reading (Parsed s' k' α)}
    {a : α} (h : GoesOn x y) (hy : Reads view y a rest) : Reads view x a rest := by
  obtain ⟨r, hr, hv, hrest⟩ := hy
  obtain ⟨r', hr', hv', hrest'⟩ := h r hr
  exact ⟨r', hr', by rw [hv', hv], by rw [hrest', hrest]⟩

end readings

section types

theorem reads_baseType {t : Token} {base : TypeExpr} (hs : s.tokens = t :: rest)
    (h : IsBase t base) : Reads (TypeExpr.relabel .bare) (baseType s) base rest := by
  unfold baseType
  rcases h with ⟨tag, ht⟩ | ⟨tag, ht⟩ | ⟨tag, ⟨span, ht⟩⟩
  all_goals
    simp only
    split
    · next type rest' used hn =>
      obtain ⟨t', ht', ha⟩ := next?_eq hn
      obtain ⟨rfl, hrest⟩ := List.cons.inj (hs.symm.trans ht')
      simp only [ht, Option.some.injEq] at ha
      exact ⟨_, rfl, by rw [← ha]; rfl, hrest.symm⟩
    · next hn =>
      have hnone := next?_eq_none hn
      simp [hs, ht] at hnone

/-- Whether some tokens start with a bracket pair. -/
def StartsPair : List Token → Prop
  | l :: r :: _ => l.kind = .symbol .leftBracket ∧ r.kind = .symbol .rightBracket
  | _ => False

theorem brackets?_none (h : ¬ StartsPair s.tokens) : brackets? s = none := by
  cases hb : brackets? s with
  | none => rfl
  | some r =>
    obtain ⟨l, hs, hl, hr⟩ := brackets?_eq hb
    rw [hs] at h
    exact (h ⟨hl, hr⟩).elim

theorem exists_brackets? {l r : Token} (hs : s.tokens = l :: r :: rest)
    (hl : l.kind = .symbol .leftBracket) (hr : r.kind = .symbol .rightBracket) :
    ∃ used, brackets? s = some ⟨r, (s.behind l (r :: rest)).behind r rest, used⟩ := by
  obtain ⟨used, ho⟩ := exists_take? hs hl
  obtain ⟨used', hc⟩ := exists_take? (s := s.behind l (r :: rest)) rfl hr
  exact ⟨_, by rw [brackets?, ho]; simp only; rw [hc]⟩

/-- All bracket pairs are read. -/
theorem reads_arraysOf {base type : TypeExpr} (h : IsArrays base ts type)
    (hrest : ¬ StartsPair rest) : ∀ (s : Stream) (component : TypeExpr) (stop : Span),
      s.tokens = ts ++ rest → component.relabel .bare = base.relabel .bare →
        (arraysOf component stop s).value.1.relabel .bare = type.relabel .bare ∧
          (arraysOf component stop s).rest.tokens = rest := by
  -- The pairs are read from the front, but the last one is outermost.
  have hall : ∀ {ts : List Token} {base type : TypeExpr}, IsArrays base ts type →
      ∀ rest (s : Stream) (component : TypeExpr) (stop : Span), s.tokens = ts ++ rest →
        component.relabel .bare = base.relabel .bare →
          ∃ component' stop' s', component'.relabel .bare = type.relabel .bare ∧
            s'.tokens = rest ∧ (arraysOf component stop s).value.1 =
              (arraysOf component' stop' s').value.1 ∧
                (arraysOf component stop s).rest = (arraysOf component' stop' s').rest := by
    intro ts base type h
    induction h with
    | base => exact fun rest s component stop hs hc => ⟨component, stop, s, hc, hs, rfl, rfl⟩
    | @array tag ts type l r _ hl hr ih =>
      intro rest s component stop hs hc
      obtain ⟨component', stop', s', hc', hs', hvalue, hrest⟩ := ih (l :: r :: rest) s component
        stop (by simpa using hs) hc
      obtain ⟨used, hb⟩ := exists_brackets? hs' hl hr
      have hrun := arraysOf.eq_1 component' stop' s'
      rw [hb] at hrun
      let s₁ := (s'.behind l (r :: rest)).behind r rest
      refine ⟨.array (s₁.tag (component'.span.merge r.span)) component', r.span, s₁.bump, ?_, rfl,
        hvalue.trans (congrArg (·.value.1) hrun), hrest.trans (congrArg Parsed.rest hrun)⟩
      simp [TypeExpr.relabel, hc']
  intro s component stop hs hc
  obtain ⟨component', stop', s', hc', hs', hvalue, hrest'⟩ := hall h rest s component stop hs hc
  have hrun := arraysOf.eq_1 component' stop' s'
  rw [brackets?_none (hs' ▸ hrest)] at hrun
  rw [hvalue, hrest', hrun]
  exact ⟨hc', hs'⟩

theorem reads_typeExpr {type : TypeExpr} (h : IsType ts type) (hs : s.tokens = ts ++ rest)
    (hrest : ¬ StartsPair rest) : Reads (TypeExpr.relabel .bare) (typeExpr s) type rest := by
  cases h with
  | @intro t base _ ts hbase harrays =>
    obtain ⟨r, hr, hv, htokens⟩ := reads_baseType hs hbase
    obtain ⟨hvalue, hleft⟩ := reads_arraysOf harrays hrest r.rest r.value r.value.span htokens hv
    refine ⟨(r.join (arraysOf r.value r.value.span r.rest)).map Prod.fst, ?_, hvalue, hleft⟩
    rw [typeExpr, hr]
    rfl

end types

section expressions

/-- The words that an expression without operators can start with. -/
def startsPath : Token.Kind → Bool
  | .intLiteral | .identifier | .symbol .leftParen => true
  | .keyword k => k ∈ [.trueLit, .falseLit, .nullLit, .thisExpr, .newExpr]
  | .symbol _ | .invalid | .endOfText => false

/-- The words that an expression can start with. -/
def startsExpression (kind : Token.Kind) : Bool :=
  startsPath kind || kind == .symbol .minus || kind == .symbol .bang

theorem IsPrimary.starts {limit : Nat} {e : Expr} (h : IsPrimary limit ts e) :
    ∃ t us, ts = t :: us ∧ startsPath t.kind = true := by
  cases h with
  | number tag ht hv => exact ⟨_, _, rfl, by rw [ht]; rfl⟩
  | constant hc => cases hc <;> exact ⟨_, _, rfl, by simp_all [startsPath]⟩
  | paren hl he hr => exact ⟨_, _, rfl, by rw [hl]; rfl⟩
  | newObject tag hnew hname hl hr => exact ⟨_, _, rfl, by rw [hnew]; rfl⟩
  | newArray tag hnew hbase hl hsize hr harrays => exact ⟨_, _, rfl, by rw [hnew]; rfl⟩
  | call tag hname hargs => cases hname with | intro _ ht => exact ⟨_, _, rfl, by rw [ht]; rfl⟩
  | var tag tag' hname => cases hname with | intro _ ht => exact ⟨_, _, rfl, by rw [ht]; rfl⟩

theorem IsPath.starts {limit : Nat} {ts : List Token} {e : Expr} : IsPath limit ts e →
    ∃ t us, ts = t :: us ∧ startsPath t.kind = true
  | .primary h => h.starts
  | .length _ h _ _ | .field _ _ h _ _ | .method _ h _ _ _ | .index _ _ h _ _ _ => by
    obtain ⟨t, us, rfl, ht⟩ := h.starts
    exact ⟨t, _, List.cons_append .., ht⟩

theorem IsOperand.starts {limit : Nat} {e : Expr} (h : IsOperand limit ts e) :
    ∃ t us, ts = t :: us ∧ startsExpression t.kind = true := by
  cases h with
  | @unary tag _ op t ts e ht he => exact ⟨_, _, rfl, by rw [ht]; cases op <;> rfl⟩
  | path h =>
    obtain ⟨t, us, rfl, ht⟩ := h.starts
    exact ⟨t, us, rfl, by simp [startsExpression, ht]⟩

theorem IsExpr.starts {level : Nat} {ts : List Token} {e : Expr} : IsExpr level ts e →
    ∃ t us, ts = t :: us ∧ startsExpression t.kind = true
  | .operand h => h.starts
  | .binary _ _ h _ _ => by
    obtain ⟨t, us, rfl, ht⟩ := h.starts
    exact ⟨t, _, List.cons_append .., ht⟩

/-- An expression does not start with a word that no expression starts with. -/
theorem IsExpr.not_starts {level : Nat} {e : Expr} {kind : Token.Kind} (h : IsExpr level ts e)
    (hkind : startsExpression kind = false) : ¬ Starts kind (ts ++ rest) := by
  obtain ⟨t, us, rfl, ht⟩ := h.starts
  rw [List.cons_append, starts_cons]
  rintro rfl
  rw [hkind] at ht
  exact Bool.noConfusion ht

theorem IsExprs.not_starts {es : List Expr} {kind : Token.Kind} (h : IsExprs ts es)
    (hkind : startsExpression kind = false) : ¬ Starts kind (ts ++ rest) := by
  cases h with
  | one he => exact he.not_starts hkind
  | cons he _ _ =>
    rw [List.append_assoc]
    exact he.not_starts hkind

/-- No access stands here, nor the arguments of a call. -/
structure NoAccess (ts : List Token) : Prop where
  dot : ¬ Starts (.symbol .dot) ts
  bracket : ¬ Starts (.symbol .leftBracket) ts
  paren : ¬ Starts (.symbol .leftParen) ts

/-- Neither the arguments of a call stand here nor a bracket pair. -/
structure NoSuffix (ts : List Token) : Prop where
  paren : ¬ Starts (.symbol .leftParen) ts
  pair : ¬ StartsPair ts

theorem NoAccess.noSuffix (h : NoAccess ts) : NoSuffix ts := by
  refine ⟨h.paren, fun hpair => ?_⟩
  match ts, hpair with
  | l :: r :: _, hpair => exact h.bracket (starts_cons.2 hpair.1)

/-- A token that neither opens anything nor is a dot ends what stands before it. -/
theorem noAccess_cons {t : Token} (ht : t.kind ≠ .symbol .dot)
    (ht' : t.kind ≠ .symbol .leftBracket) (ht'' : t.kind ≠ .symbol .leftParen) :
    NoAccess (t :: ts) :=
  ⟨mt starts_cons.1 ht, mt starts_cons.1 ht', mt starts_cons.1 ht''⟩

theorem noSuffix_dot {t : Token} (ht : t.kind = .symbol .dot) : NoSuffix (t :: ts) := by
  refine ⟨by simp [starts_cons, ht], fun hpair => ?_⟩
  match ts, hpair with
  | r :: _, hpair => simpa [ht] using hpair.1

theorem noSuffix_index {level : Nat} {e : Expr} {l : Token} (hl : l.kind = .symbol .leftBracket)
    (he : IsExpr level ts e) : NoSuffix (l :: (ts ++ us)) := by
  obtain ⟨t, ts, rfl, ht⟩ := he.starts
  refine ⟨by simp [starts_cons, hl], fun hpair => ?_⟩
  rw [hpair.2] at ht
  exact Bool.noConfusion ht

/-- A primary expression, in which a number may be as large as told. -/
def primaryWithin (limit : Nat) (s : Stream) : Reading (Parsed s 1 Expr) :=
  (literal? limit s).getD (primary s)

/-- A primary expression with the accesses behind it. -/
def pathWithin (limit : Nat) (s : Stream) : Reading (Parsed s 1 Expr) := do
  let ⟨e, s₁, h₁⟩ ← primaryWithin limit s
  let ⟨e, s₂, h₂⟩ ← accesses e s₁
  return ⟨e, s₂, used_then h₁ h₂⟩

/-- An operand, in which a number that stands first may be as large as told. -/
def operandWithin (limit : Nat) (s : Stream) : Reading (Parsed s 1 Expr) :=
  match next? s unaryOf? with
  | some _ => operand s
  | none => pathWithin limit s

theorem primaryWithin_maxLiteral (s : Stream) : primaryWithin maxLiteral s = primary s := by
  unfold primaryWithin
  cases h : literal? maxLiteral s with
  | none => rfl
  | some number =>
    rw [primary, h]
    rfl

theorem operandWithin_eq {limit : Nat} (h : primaryWithin limit s = primary s) :
    operandWithin limit s = operand s := by
  unfold operandWithin
  split
  · rfl
  · next hnone => rw [operand, hnone, pathWithin, h]

/-- What an operator before an operand makes of it. -/
theorem operand_unary {op : UnaryOp} {span : Span} {s₁ : Stream} {used : s₁.size + 1 ≤ s.size}
    (h : next? s unaryOf? = some ⟨(op, span), s₁, used⟩) : operand s = (do
      let ⟨e, s₂, h₂⟩ ← operandWithin (limitBehind op) s₁
      return ⟨.unary (s₂.tag (span.merge e.span)) op e, s₂.bump, used_bump used h₂⟩) := by
  rw [operand, h]
  cases op with
  | not =>
    rw [limitBehind, operandWithin_eq (primaryWithin_maxLiteral s₁)]
    rfl
  | neg =>
    simp only [limitBehind, if_true]
    cases hlit : literal? maxNegatedLiteral s₁ with
    | some number =>
      have hunary : next? s₁ unaryOf? = none := by
        obtain ⟨⟨t, rest, hused⟩, ht, _⟩ := Option.map_eq_some_iff.1 hlit
        obtain ⟨htokens, hkind⟩ := take?_eq ht
        exact next?_none (by simp_all [unaryOf?])
      simp only [operandWithin, hunary, pathWithin, primaryWithin, hlit, Option.getD_some]
      cases number with
      | error => rfl
      | ok p => cases hacc : accesses p.value p.rest <;> simp only [bind, Except.bind, hacc]
    | none =>
      rw [operandWithin_eq (by rw [primaryWithin, hlit]; rfl)]

theorem reads_literal? {t : Token} {limit : Nat} (tag : Tag) (hs : s.tokens = t :: rest)
    (ht : t.kind = .intLiteral) (hv : literalValue t.lexeme ≤ limit) :
    ∃ number, literal? limit s = some number ∧
      Reads (Expr.relabel .bare) number (.number tag (literalValue t.lexeme)) rest := by
  obtain ⟨used, h⟩ := exists_take? hs ht
  refine ⟨_, by rw [literal?, h]; rfl, ?_⟩
  simp only [if_pos hv]
  exact ⟨_, rfl, rfl, rfl⟩

theorem literal?_none {limit : Nat} (h : ¬ Starts .intLiteral s.tokens) :
    literal? limit s = none := by
  rw [literal?, take?_none h]
  rfl

section steps

variable {e : Expr} {dot t l r : Token} {name : Ident}

theorem accesses_stop (h : NoAccess s.tokens) : accesses e s = .ok ⟨e, s, by simp⟩ := by
  rw [accesses, take?_none h.dot]
  simp only
  rw [take?_none h.bracket]
  rfl

theorem accesses_length (hs : s.tokens = dot :: t :: rest) (hdot : dot.kind = .symbol .dot)
    (ht : t.kind = .keyword .length) : ∃ tag s', s'.tokens = rest ∧
      GoesOn (accesses e s) (accesses (.arrayLength tag e) s') := by
  obtain ⟨_, h₁⟩ := exists_take? hs hdot
  obtain ⟨_, h₂⟩ := exists_take? (s := s.behind dot (t :: rest)) rfl ht
  let s₂ := (s.behind dot (t :: rest)).behind t rest
  refine ⟨s₂.tag (e.span.merge t.span), s₂.bump, rfl, fun r hr => ?_⟩
  rw [accesses, h₁]
  simp only
  rw [h₂]
  simp only
  rw [hr]
  exact ⟨_, rfl, rfl, rfl⟩

/-- What is read of a name behind a dot. -/
theorem accesses_name (hs : s.tokens = dot :: t :: rest) (hdot : dot.kind = .symbol .dot)
    (hname : IsName t name) : ∃ (x : Ident) (s₂ : Stream) (used : s₂.size + 2 ≤ s.size),
      s₂.tokens = rest ∧
      x.relabel .bare = name.relabel .bare ∧ accesses e s =
        (if s₂.sees (.symbol .leftParen) then do
          let ⟨args, s₃, h₃⟩ ← arguments s₂
          let ⟨e, s₄, h₄⟩ ← accesses (.methodCall (s₃.tag (e.span.merge s₃.last)) e x args) s₃.bump
          return ⟨e, s₄, used_method used h₃ h₄⟩
        else do
          let ⟨e, s₃, h₃⟩ ← accesses (reading s₂ (e.span.merge x.span) fun tag => .field tag e x)
            s₂.bump.bump
          return ⟨e, s₃, used_field used h₃⟩) := by
  obtain ⟨used₁, h₁⟩ := exists_take? hs hdot
  have hlength : take? (s.behind dot (t :: rest)) (.keyword .length) = none := by
    refine take?_none fun h => ?_
    cases hname with | intro _ ht => simp [starts_cons, Stream.behind, ht] at h
  obtain ⟨x, used₂, h₂, hx⟩ := exists_ident (s := s.behind dot (t :: rest)) rfl hname
  refine ⟨x, (s.behind dot (t :: rest)).behind t rest, by omega, rfl, hx, ?_⟩
  rw [accesses, h₁]
  simp only
  rw [hlength]
  simp only
  rw [h₂]
  rfl

theorem accesses_field (hs : s.tokens = dot :: t :: rest) (hdot : dot.kind = .symbol .dot)
    (hname : IsName t name) (hrest : ¬ Starts (.symbol .leftParen) rest) :
    ∃ tag tag' x s', x.relabel .bare = name.relabel .bare ∧ s'.tokens = rest ∧
      GoesOn (accesses e s) (accesses (.read tag (.field tag' e x)) s') := by
  obtain ⟨x, s₂, used, hs₂, hx, hrun⟩ := accesses_name (e := e) hs hdot hname
  refine ⟨s₂.bump.tag (e.span.merge x.span), s₂.tag (e.span.merge x.span), x, s₂.bump.bump, hx,
    hs₂, fun r hr => ?_⟩
  rw [hrun, if_neg (by rwa [sees_eq _ _ (by decide), hs₂]), reading, hr]
  exact ⟨_, rfl, rfl, rfl⟩

theorem accesses_method {args : List Expr} (hs : s.tokens = dot :: t :: us)
    (hdot : dot.kind = .symbol .dot) (hname : IsName t name)
    (hparen : Starts (.symbol .leftParen) us)
    (hargs : ∀ s : Stream, s.tokens = us →
      Reads (relabelArguments .bare) (arguments s) args rest) :
    ∃ tag x args' s', x.relabel .bare = name.relabel .bare ∧
      relabelArguments .bare args' = relabelArguments .bare args ∧ s'.tokens = rest ∧
        GoesOn (accesses e s) (accesses (.methodCall tag e x args') s') := by
  obtain ⟨x, s₂, used, hs₂, hx, hrun⟩ := accesses_name (e := e) hs hdot hname
  obtain ⟨r', hr', hv, hrest⟩ := hargs s₂ hs₂
  refine ⟨r'.rest.tag (e.span.merge r'.rest.last), x, r'.value, r'.rest.bump, hx, hv, hrest,
    fun r hr => ?_⟩
  rw [hrun, if_pos (by rwa [sees_eq _ _ (by decide), hs₂]), hr']
  simp only [bind, Except.bind]
  rw [hr]
  exact ⟨_, rfl, rfl, rfl⟩

theorem accesses_index {i : Expr} (hs : s.tokens = l :: us) (hl : l.kind = .symbol .leftBracket)
    (hi : ∀ s : Stream, s.tokens = us → Reads (Expr.relabel .bare) (expression 0 s) i (r :: rest))
    (hr : r.kind = .symbol .rightBracket) :
    ∃ tag tag' i' s', i'.relabel .bare = i.relabel .bare ∧ s'.tokens = rest ∧
      GoesOn (accesses e s) (accesses (.read tag (.index tag' e i')) s') := by
  obtain ⟨_, h₁⟩ := exists_take? hs hl
  have hdot : take? s (.symbol .dot) = none := take?_none (by simp [hs, starts_cons, hl])
  obtain ⟨x, hx, hv, hrest⟩ := hi (s.behind l us) rfl
  obtain ⟨_, h₂⟩ := exists_expect hrest hr
  let s₃ := x.rest.behind r rest
  refine ⟨s₃.bump.tag (e.span.merge r.span), s₃.tag (e.span.merge r.span), x.value, s₃.bump.bump,
    hv, rfl, fun r' hr' => ?_⟩
  rw [accesses, hdot]
  simp only
  rw [h₁]
  simp only
  rw [hx]
  simp only [bind, Except.bind, symbol]
  rw [h₂]
  simp only [reading]
  rw [hr']
  exact ⟨_, rfl, rfl, rfl⟩

theorem operations_stop {level : Nat} (h : ∀ op, nextOp? s.tokens = some op → op.level < level) :
    operations level e s = .ok ⟨e, s, by simp⟩ := by
  rw [operations]
  split
  · next op s₁ h₁ hn =>
    obtain ⟨t, ht, hop⟩ := next?_eq hn
    rw [if_pos (h op (by simp [nextOp?, ht, hop]))]
    rfl
  · rfl

theorem operations_binary {op : BinaryOp} {level : Nat} {right : Expr} (hs : s.tokens = t :: us)
    (hlevel : level ≤ op.level) (ht : t.kind = .symbol op.symbol)
    (hright : ∀ s : Stream, s.tokens = us →
      Reads (Expr.relabel .bare) (expression (op.level + 1) s) right rest) :
    ∃ tag right' s', right'.relabel .bare = right.relabel .bare ∧ s'.tokens = rest ∧
      GoesOn (operations level e s) (operations level (.binary tag op e right') s') := by
  obtain ⟨_, h₁⟩ := exists_next? hs (binaryOf?_eq_some.2 ht)
  obtain ⟨x, hx, hv, hrest⟩ := hright (s.behind t us) rfl
  refine ⟨x.rest.tag (e.span.merge x.value.span), x.value, x.rest.bump, hv, hrest,
    fun r hr => ?_⟩
  rw [operations, h₁]
  simp only
  rw [if_neg (Nat.not_lt.2 hlevel), hx]
  simp only [bind, Except.bind]
  rw [hr]
  exact ⟨_, rfl, rfl, rfl⟩

end steps

/-- Neither an access nor an operator stands here. -/
structure Stops (ts : List Token) : Prop extends NoAccess ts where
  op : nextOp? ts = none

/-- Closing symbols, separators and the sign of an assignment end an expression. -/
theorem stops_cons {t : Token} {x : Symbol} (ht : t.kind = .symbol x)
    (hx : x ∈ [.rightParen, .rightBracket, .comma, .semicolon, .equal]) : Stops (t :: ts) := by
  have hne {y : Symbol} (hy : y ∉ [.rightParen, .rightBracket, .comma, .semicolon, .equal]) :
      t.kind ≠ .symbol y := by
    rintro heq
    rw [ht, Token.Kind.symbol.injEq] at heq
    exact hy (heq ▸ hx)
  refine ⟨noAccess_cons (hne (by decide)) (hne (by decide)) (hne (by decide)), ?_⟩
  · rw [nextOp?, List.head?_cons, Option.bind_some, Option.eq_none_iff_forall_ne_some]
    intro op hop
    rw [binaryOf?_eq_some, ht, Token.Kind.symbol.injEq] at hop
    subst hop
    cases op <;> simp [BinaryOp.symbol] at hx

theorem noAccess_op {t : Token} {op : BinaryOp} (ht : t.kind = .symbol op.symbol) :
    NoAccess (t :: ts) := by
  cases op <;> exact noAccess_cons (by simp [ht, BinaryOp.symbol]) (by simp [ht, BinaryOp.symbol])
    (by simp [ht, BinaryOp.symbol])

/-- An expression ends where no operator of its level stands. -/
theorem reads_of_goesOn {level : Nat} {e : Expr}
    (hop : ∀ op, nextOp? rest = some op → op.level < level)
    (h : (∀ op, nextOp? rest = some op → op.level ≤ level) →
      ∃ e' s', e'.relabel .bare = e.relabel .bare ∧ s'.tokens = rest ∧
        GoesOn (expression level s) (operations level e' s')) :
    Reads (Expr.relabel .bare) (expression level s) e rest := by
  obtain ⟨e', s', hv, hs', hgo⟩ := h fun op h => (hop op h).le
  exact hgo.reads ⟨_, operations_stop (hs' ▸ hop), hv, hs'⟩

theorem IsArguments.starts {es : List Expr} (h : IsArguments ts es) :
    Starts (.symbol .leftParen) (ts ++ rest) := by
  cases h <;> exact starts_cons.2 ‹_›

section primary

variable {t l r new : Token} {e : Expr} {limit : Nat} {name : Ident}

theorem primaryWithin_eq (h : ¬ Starts .intLiteral s.tokens) :
    primaryWithin limit s = primary s := by
  rw [primaryWithin, literal?_none h]
  rfl

theorem reads_constant (hs : s.tokens = t :: rest) (h : IsConstant t e) :
    Reads (Expr.relabel .bare) (primary s) e rest := by
  have hkind : ¬ Starts .intLiteral s.tokens := by
    rw [hs, starts_cons]
    cases h <;> simp_all
  have hread (x : Expr) (hx : constantOf? s t = some x)
      (hv : x.relabel .bare = e.relabel .bare) : Reads (Expr.relabel .bare) (primary s) e rest := by
    obtain ⟨_, hn⟩ := exists_next? hs hx
    rw [primary, literal?_none hkind]
    simp only
    rw [hn]
    exact ⟨_, rfl, hv, rfl⟩
  cases h with
  | true tag ht => exact hread (.bool (s.tag t.span) true) (by simp only [constantOf?, ht]) rfl
  | false tag ht => exact hread (.bool (s.tag t.span) false) (by simp only [constantOf?, ht]) rfl
  | null tag ht => exact hread (.null (s.tag t.span)) (by simp only [constantOf?, ht]) rfl
  | this tag ht => exact hread (.this (s.tag t.span)) (by simp only [constantOf?, ht]) rfl

theorem reads_paren (hs : s.tokens = l :: us) (hl : l.kind = .symbol .leftParen)
    (he : ∀ s : Stream, s.tokens = us → Reads (Expr.relabel .bare) (expression 0 s) e (r :: rest))
    (hr : r.kind = .symbol .rightParen) : Reads (Expr.relabel .bare) (primary s) e rest := by
  have hconstant : next? s (constantOf? s) = none := next?_none (by simp [hs, constantOf?, hl])
  obtain ⟨_, h₁⟩ := exists_take? hs hl
  obtain ⟨x, hx, hv, hrest⟩ := he (s.behind l us) rfl
  obtain ⟨_, h₂⟩ := exists_expect hrest hr
  rw [primary, literal?_none (by simp [hs, starts_cons, hl]), hconstant]
  simp only
  rw [h₁]
  simp only
  rw [hx]
  simp only [bind, Except.bind, symbol]
  rw [h₂]
  exact ⟨_, rfl, hv, rfl⟩

theorem reads_new (hs : s.tokens = new :: us) (hnew : new.kind = .keyword .newExpr)
    (he : ∀ s : Stream, s.tokens = us →
      Reads (Expr.relabel .bare) (creation new.span s) e rest) :
    Reads (Expr.relabel .bare) (primary s) e rest := by
  have hconstant : next? s (constantOf? s) = none := next?_none (by simp [hs, constantOf?, hnew])
  obtain ⟨_, h₁⟩ := exists_take? hs hnew
  obtain ⟨x, hx, hv, hrest⟩ := he (s.behind new us) rfl
  rw [primary, literal?_none (by simp [hs, starts_cons, hnew]), hconstant,
    take?_none (by simp [hs, starts_cons, hnew])]
  simp only
  rw [h₁]
  simp only
  rw [hx]
  exact ⟨_, rfl, hv, hrest⟩

theorem reads_newObject (tag : Tag) (hs : s.tokens = t :: l :: r :: rest) (hname : IsName t name)
    (hl : l.kind = .symbol .leftParen) (hr : r.kind = .symbol .rightParen) :
    Reads (Expr.relabel .bare) (creation new.span s) (.newObject tag name) rest := by
  have hsees : (s.sees .identifier && (s.peekAt 1).kind == .symbol .leftParen) = true := by
    rw [Bool.and_eq_true, sees_eq _ _ (by decide), hs, starts_cons, beq_iff_eq]
    cases hname with | intro _ ht => exact ⟨ht, by simp [Stream.peekAt, hs, hl]⟩
  obtain ⟨x, _, h₁, hx⟩ := exists_ident hs hname
  obtain ⟨_, h₂⟩ := exists_expect (s := s.behind t (l :: r :: rest)) rfl hl
  obtain ⟨_, h₃⟩ := exists_expect (s := (s.behind t (l :: r :: rest)).behind l (r :: rest)) rfl hr
  rw [creation, if_pos hsees, h₁]
  simp only [bind, Except.bind, symbol]
  rw [h₂]
  simp only
  rw [h₃]
  exact ⟨_, rfl, by simp [Expr.relabel, hx], rfl⟩

theorem reads_newArray {base element : TypeExpr} {size : Expr} {vs : List Token} (tag : Tag)
    (hs : s.tokens = t :: l :: us) (hbase : IsBase t base) (hl : l.kind = .symbol .leftBracket)
    (hsize : ∀ s : Stream, s.tokens = us →
      Reads (Expr.relabel .bare) (expression 0 s) size (r :: (vs ++ rest)))
    (hr : r.kind = .symbol .rightBracket) (harrays : IsArrays base vs element)
    (hrest : ¬ StartsPair rest) :
    Reads (Expr.relabel .bare) (creation new.span s) (.newArray tag element size) rest := by
  have hsees : ¬ (s.sees .identifier && (s.peekAt 1).kind == .symbol .leftParen) = true := by
    simp [Stream.peekAt, hs, hl]
  obtain ⟨b, h₁, hb, hs₁⟩ := reads_baseType hs hbase
  obtain ⟨_, h₂⟩ := exists_expect hs₁ hl
  obtain ⟨x, h₃, hx, hs₂⟩ := hsize (b.rest.behind l us) rfl
  obtain ⟨_, h₄⟩ := exists_expect hs₂ hr
  obtain ⟨hvalue, hleft⟩ := reads_arraysOf harrays hrest (x.rest.behind r (vs ++ rest)) b.value
    r.span rfl hb
  rw [creation, if_neg hsees, h₁]
  simp only [bind, Except.bind, symbol]
  rw [h₂]
  simp only
  rw [h₃]
  simp only
  rw [h₄]
  exact ⟨_, rfl, by simp [Expr.relabel, hx, hvalue], hleft⟩

/-- What is read of a name that starts an expression. -/
theorem primary_name (hs : s.tokens = t :: rest) (hname : IsName t name) :
    ∃ (x : Ident) (s₁ : Stream) (used : s₁.size + 1 ≤ s.size), s₁.tokens = rest ∧
      x.relabel .bare = name.relabel .bare ∧ primary s =
        (if s₁.sees (.symbol .leftParen) then do
          let ⟨args, s₂, h₂⟩ ← arguments s₁
          return ⟨.call (s₂.tag (x.span.merge s₂.last)) x args, s₂.bump, used_bump used h₂⟩
        else return ⟨reading s₁ x.span fun tag => .var tag x, s₁.bump.bump, used⟩) := by
  cases hname with
  | intro span ht =>
    obtain ⟨used, h₁⟩ := exists_next? (f := identOf?) hs (if_pos ht)
    have hconstant : next? s (constantOf? s) = none := next?_none (by simp [hs, constantOf?, ht])
    refine ⟨⟨t.lexeme, t.span⟩, s.behind t rest, used, rfl, rfl, ?_⟩
    rw [primary, literal?_none (by simp [hs, starts_cons, ht]), hconstant,
      take?_none (by simp [hs, starts_cons, ht]), take?_none (by simp [hs, starts_cons, ht]), h₁]

theorem reads_var (tag tag' : Tag) (hs : s.tokens = t :: rest) (hname : IsName t name)
    (hrest : ¬ Starts (.symbol .leftParen) rest) :
    Reads (Expr.relabel .bare) (primary s) (.read tag (.var tag' name)) rest := by
  obtain ⟨x, s₁, used, hs₁, hx, hrun⟩ := primary_name hs hname
  rw [hrun, if_neg (by rwa [sees_eq _ _ (by decide), hs₁])]
  exact ⟨_, rfl, by simp [Expr.relabel, Location.relabel, reading, hx], hs₁⟩

theorem reads_call {args : List Expr} (tag : Tag) (hs : s.tokens = t :: us) (hname : IsName t name)
    (hparen : Starts (.symbol .leftParen) us)
    (hargs : ∀ s : Stream, s.tokens = us →
      Reads (relabelArguments .bare) (arguments s) args rest) :
    Reads (Expr.relabel .bare) (primary s) (.call tag name args) rest := by
  obtain ⟨x, s₁, used, hs₁, hx, hrun⟩ := primary_name hs hname
  obtain ⟨r, hr, hv, hrest⟩ := hargs s₁ hs₁
  rw [hrun, if_pos (by rwa [sees_eq _ _ (by decide), hs₁]), hr]
  exact ⟨_, rfl, by simp [Expr.relabel, hx, hv], hrest⟩

end primary

mutual

/-- An expression is read as its operands are and goes on with the operators behind it. -/
theorem goesOn_expr {k : Nat} {ts : List Token} {e : Expr} (h : IsExpr k ts e) {level : Nat}
    {s : Stream} {rest : List Token} (hlevel : level ≤ k) (hs : s.tokens = ts ++ rest)
    (hrest : NoAccess rest) (hop : ∀ op, nextOp? rest = some op → op.level ≤ k) :
    ∃ e' s', e'.relabel .bare = e.relabel .bare ∧ s'.tokens = rest ∧
      GoesOn (expression level s) (operations level e' s') := by
  match h with
  | .operand h =>
    obtain ⟨r, hr, hv, hleft⟩ := reads_operand h hs hrest
    rw [operandWithin_eq (primaryWithin_maxLiteral s)] at hr
    refine ⟨r.value, r.rest, hv, hleft, fun r' hr' => ?_⟩
    rw [expression, hr]
    simp only [bind, Except.bind]
    rw [hr']
    exact ⟨_, rfl, rfl, rfl⟩
  | @IsExpr.binary tag _ op ls rs t left right hle hleft ht hright =>
    have hnext (op' : BinaryOp) (hop' : nextOp? (t :: (rs ++ rest)) = some op') :
        op'.level ≤ op.level := by
      rw [nextOp?, List.head?_cons, Option.bind_some, binaryOf?_eq_some.2 ht] at hop'
      exact (congrArg BinaryOp.level (Option.some.inj hop')).ge
    obtain ⟨l, s₁, hl, hs₁, hgo⟩ := goesOn_expr hleft (hlevel.trans hle)
      (by simpa using hs) (noAccess_op ht) hnext
    have hread (s : Stream) (hs : s.tokens = rs ++ rest) :=
      reads_of_goesOn (fun op' hop' => Nat.lt_succ_of_le ((hop op' hop').trans hle))
        (goesOn_expr hright le_rfl hs hrest)
    obtain ⟨tag', r, s₂, hr, hs₂, hgo'⟩ :=
      operations_binary (e := l) hs₁ (hlevel.trans hle) ht hread
    exact ⟨.binary tag' op l r, s₂, by simp [Expr.relabel, hl, hr], hs₂, hgo.trans hgo'⟩

theorem reads_operand {limit : Nat} {ts : List Token} {e : Expr} (h : IsOperand limit ts e)
    {s : Stream} {rest : List Token} (hs : s.tokens = ts ++ rest) (hrest : NoAccess rest) :
    Reads (Expr.relabel .bare) (operandWithin limit s) e rest := by
  match h with
  | @IsOperand.unary tag _ op t ts e ht he =>
    rw [List.cons_append] at hs
    obtain ⟨_, hn⟩ := exists_next? hs (unaryOf?_eq_some.2 ⟨ht, rfl⟩)
    obtain ⟨r, hr, hv, hleft⟩ := reads_operand he (s := s.behind t (ts ++ rest)) rfl hrest
    rw [operandWithin, hn]
    simp only
    rw [operand_unary hn, hr]
    exact ⟨_, rfl, by simp [Expr.relabel, hv], hleft⟩
  | .path h =>
    obtain ⟨t, us, hts, hstart⟩ := h.starts
    have hunary : next? s unaryOf? = none := by
      refine next?_none ?_
      rw [hs, hts, List.cons_append, List.head?_cons, Option.bind_some,
        Option.eq_none_iff_forall_ne_some]
      rintro ⟨op, span⟩ hop
      rw [(unaryOf?_eq_some.1 hop).1] at hstart
      cases op <;> exact Bool.noConfusion hstart
    obtain ⟨e', s', hv, hs', hgo⟩ := goesOn_path h hs hrest.noSuffix
    rw [operandWithin, hunary]
    exact hgo.reads ⟨_, accesses_stop (hs' ▸ hrest), hv, hs'⟩

/-- An expression with accesses is read as the expression before them is and goes on with the
accesses behind it. -/
theorem goesOn_path {limit : Nat} {ts : List Token} {e : Expr} (h : IsPath limit ts e)
    {s : Stream} {rest : List Token} (hs : s.tokens = ts ++ rest) (hrest : NoSuffix rest) :
    ∃ e' s', e'.relabel .bare = e.relabel .bare ∧ s'.tokens = rest ∧
      GoesOn (pathWithin limit s) (accesses e' s') := by
  match h with
  | .primary h =>
    obtain ⟨r, hr, hv, hleft⟩ := reads_primary h hs hrest
    refine ⟨r.value, r.rest, hv, hleft, fun r' hr' => ?_⟩
    rw [pathWithin, hr]
    simp only [bind, Except.bind]
    rw [hr']
    exact ⟨_, rfl, rfl, rfl⟩
  | .length _ h hdot ht =>
    obtain ⟨e', s', hv, hs', hgo⟩ := goesOn_path h (by simpa using hs) (noSuffix_dot hdot)
    obtain ⟨tag, s'', hs'', hgo'⟩ := accesses_length (e := e') hs' hdot ht
    exact ⟨.arrayLength tag e', s'', by simp [Expr.relabel, hv], hs'', hgo.trans hgo'⟩
  | .field _ _ h hdot hname =>
    obtain ⟨e', s', hv, hs', hgo⟩ := goesOn_path h (by simpa using hs) (noSuffix_dot hdot)
    obtain ⟨tag, tag', x, s'', hx, hs'', hgo'⟩ :=
      accesses_field (e := e') hs' hdot hname hrest.paren
    exact ⟨.read tag (.field tag' e' x), s'',
      by simp [Expr.relabel, Location.relabel, hv, hx], hs'',
      hgo.trans hgo'⟩
  | .method _ h hdot hname hargs =>
    obtain ⟨e', s', hv, hs', hgo⟩ := goesOn_path h (by simpa using hs) (noSuffix_dot hdot)
    obtain ⟨tag, x, args, s'', hx, hargs', hs'', hgo'⟩ :=
      accesses_method (e := e') hs' hdot hname hargs.starts fun _ hs => reads_arguments hargs hs
    exact ⟨.methodCall tag e' x args, s'', by simp [Expr.relabel, hv, hx, hargs'], hs'',
      hgo.trans hgo'⟩
  | @IsPath.index _ _ _ ts us e i l r h hl hi hr =>
    obtain ⟨e', s', hv, hs', hgo⟩ := goesOn_path h (by simpa using hs) (noSuffix_index hl hi)
    have hstops : Stops (r :: rest) := stops_cons hr (by decide)
    obtain ⟨tag, tag', i, s'', hi', hs'', hgo'⟩ := accesses_index (e := e') hs' hl
      (fun _ hs => reads_of_goesOn (by simp [hstops.op])
        (goesOn_expr hi le_rfl hs hstops.toNoAccess)) hr
    exact ⟨.read tag (.index tag' e' i), s'',
      by simp [Expr.relabel, Location.relabel, hv, hi'], hs'',
      hgo.trans hgo'⟩

theorem reads_primary {limit : Nat} {ts : List Token} {e : Expr} (h : IsPrimary limit ts e)
    {s : Stream} {rest : List Token} (hs : s.tokens = ts ++ rest) (hrest : NoSuffix rest) :
    Reads (Expr.relabel .bare) (primaryWithin limit s) e rest := by
  match h with
  | .number tag ht hv =>
    obtain ⟨number, hnumber, hread⟩ := reads_literal? tag hs ht hv
    rwa [primaryWithin, hnumber]
  | .constant hc =>
    rw [primaryWithin_eq (by rw [hs]; cases hc <;> simp [starts_cons, *])]
    exact reads_constant hs hc
  | @IsPrimary.paren _ l r ts e hl he hr =>
    have hstops : Stops (r :: rest) := stops_cons hr (by decide)
    rw [primaryWithin_eq (by simp [hs, starts_cons, hl])]
    exact reads_paren hs hl (fun _ hs => reads_of_goesOn (by simp [hstops.op])
      (goesOn_expr he le_rfl (by simpa using hs) hstops.toNoAccess)) hr
  | .newObject tag hnew hname hl hr =>
    rw [primaryWithin_eq (by simp [hs, starts_cons, hnew])]
    exact reads_new hs hnew fun _ hs => reads_newObject tag hs hname hl hr
  | @IsPrimary.newArray tag _ new t l r base element ts us size hnew hbase hl hsize hr harrays =>
    rw [primaryWithin_eq (by simp [hs, starts_cons, hnew])]
    refine reads_new hs hnew fun _ hs => reads_newArray tag hs hbase hl (fun _ hs => ?_) hr harrays
      hrest.pair
    have hstops : Stops (r :: (us ++ rest)) := stops_cons hr (by decide)
    exact reads_of_goesOn (by simp [hstops.op])
      (goesOn_expr hsize le_rfl (by simpa using hs) hstops.toNoAccess)
  | .call tag hname hargs =>
    rw [primaryWithin_eq (by cases hname with | intro _ ht => simp [hs, starts_cons, ht])]
    exact reads_call tag hs hname hargs.starts fun _ hs => reads_arguments hargs hs
  | .var tag tag' hname =>
    rw [primaryWithin_eq (by cases hname with | intro _ ht => simp [hs, starts_cons, ht])]
    exact reads_var tag tag' hs hname hrest.paren

theorem reads_arguments {ts : List Token} {es : List Expr} (h : IsArguments ts es)
    {s : Stream} {rest : List Token} (hs : s.tokens = ts ++ rest) :
    Reads (relabelArguments .bare) (arguments s) es rest := by
  match h with
  | @IsArguments.none l r hl hr =>
    rw [List.cons_append, List.singleton_append] at hs
    obtain ⟨_, h₁⟩ := exists_expect hs hl
    obtain ⟨_, h₂⟩ := exists_take? (s := s.behind l (r :: rest)) rfl hr
    rw [arguments, symbol, h₁]
    simp only [bind, Except.bind]
    rw [h₂]
    exact ⟨_, rfl, rfl, rfl⟩
  | @IsArguments.some l r ts es hl hes hr =>
    rw [List.cons_append, List.append_assoc, List.singleton_append] at hs
    obtain ⟨_, h₁⟩ := exists_expect hs hl
    have hfirst : take? (s.behind l (ts ++ r :: rest)) (.symbol .rightParen) = none :=
      take?_none (hes.not_starts (by decide))
    obtain ⟨x, h₂, hv, hleft⟩ := reads_exprs hes (s := s.behind l (ts ++ r :: rest)) rfl
      (stops_cons hr (by decide)) (by simp [starts_cons, hr])
    obtain ⟨_, h₃⟩ := exists_expect hleft hr
    rw [arguments, symbol, h₁]
    simp only [bind, Except.bind]
    rw [hfirst]
    simp only
    rw [h₂]
    simp only [symbol]
    rw [h₃]
    exact ⟨_, rfl, hv, rfl⟩

theorem reads_exprs {ts : List Token} {es : List Expr} (h : IsExprs ts es)
    {s : Stream} {rest : List Token} (hs : s.tokens = ts ++ rest) (hrest : Stops rest)
    (hcomma : ¬ Starts (.symbol .comma) rest) :
    Reads (relabelArguments .bare) (expressions s) es rest := by
  match h with
  | .one he =>
    obtain ⟨r, h₁, hv, hleft⟩ := reads_of_goesOn (by simp [hrest.op])
      (goesOn_expr he le_rfl hs hrest.toNoAccess)
    rw [expressions, h₁]
    simp only [bind, Except.bind]
    rw [take?_none (hleft ▸ hcomma)]
    exact ⟨_, rfl, by simp [relabelArguments, hv], hleft⟩
  | @IsExprs.cons ts us e es comma he hc hes =>
    have hstops : Stops (comma :: (us ++ rest)) := stops_cons hc (by decide)
    obtain ⟨r, h₁, hv, hleft⟩ := reads_of_goesOn (by simp [hstops.op])
      (goesOn_expr he le_rfl (by simpa using hs) hstops.toNoAccess)
    obtain ⟨_, h₂⟩ := exists_take? hleft hc
    obtain ⟨r', h₃, hv', hleft'⟩ :=
      reads_exprs hes (s := r.rest.behind comma (us ++ rest)) rfl hrest
      hcomma
    rw [expressions, h₁]
    simp only [bind, Except.bind]
    rw [h₂]
    simp only
    rw [h₃]
    exact ⟨_, rfl, by simp [relabelArguments, hv, hv'], hleft'⟩

end

/-- An expression is read up to what ends it. -/
theorem reads_expression {level : Nat} {e : Expr} (h : IsExpr level ts e)
    (hs : s.tokens = ts ++ rest) (hrest : Stops rest) :
    Reads (Expr.relabel .bare) (expression level s) e rest :=
  reads_of_goesOn (by simp [hrest.op]) (goesOn_expr h le_rfl hs hrest.toNoAccess)

end expressions

section lookahead

variable {t l r : Token}

theorem nameBehindBrackets_pair (hl : l.kind = .symbol .leftBracket)
    (hr : r.kind = .symbol .rightBracket) :
    nameBehindBrackets (l :: r :: ts) = nameBehindBrackets ts := by
  rw [nameBehindBrackets, if_pos ⟨hl, hr⟩]

theorem nameBehindBrackets_cons (h : ¬ StartsPair (t :: ts)) :
    nameBehindBrackets (t :: ts) = (t.kind == .identifier) := by
  cases ts with
  | nil => rfl
  | cons u ts =>
    rw [nameBehindBrackets]
    exact if_neg h

theorem nameBehindBrackets_symbol {x : Symbol} (ht : t.kind = .symbol x)
    (h : ¬ StartsPair (t :: ts)) : nameBehindBrackets (t :: ts) = false := by
  rw [nameBehindBrackets_cons h, ht]
  rfl

theorem not_startsPair {x : Symbol} (ht : t.kind = .symbol x) (hx : x ≠ .leftBracket) :
    ¬ StartsPair (t :: ts) := by
  cases ts with
  | nil => exact id
  | cons u ts => exact fun h => hx (Token.Kind.symbol.inj (ht.symm.trans h.1))

/-- The name that a declaration declares is found behind all bracket pairs. -/
theorem IsDecl.startsDeclaration {d : VarDecl} (h : IsDecl ts d) :
    startsDeclaration (ts ++ rest) = true := by
  obtain @⟨tag, _, type, name, close, x, @⟨t, base, _, ts, hbase, harrays⟩, hname, _⟩ := h
  have hbrackets : ∀ us, nameBehindBrackets (ts ++ us) = nameBehindBrackets us := by
    clear hname
    induction harrays with
    | base => exact fun _ => rfl
    | array _ _ hl hr ih =>
      intro us
      rw [List.append_assoc, ih]
      exact nameBehindBrackets_pair hl hr
  have hfound : nameBehindBrackets (ts ++ (name :: close :: rest)) = true := by
    cases hname with
    | intro _ ht =>
      have hpair : ¬ StartsPair (name :: close :: rest) := fun h => by
        simpa [ht] using h.1
      rw [hbrackets, nameBehindBrackets_cons hpair, ht]
      rfl
  rcases hbase with ⟨_, ht⟩ | ⟨_, ht⟩ | ⟨_, ⟨_, ht⟩⟩ <;>
    simp [Parsing.startsDeclaration, ht, hfound]

theorem IsPrimary.not_declaration {limit : Nat} {e : Expr} (h : IsPrimary limit ts e)
    (hrest : nameBehindBrackets rest = false) : startsDeclaration (ts ++ rest) = false := by
  cases h with
  | number tag ht hv => simp [startsDeclaration, ht]
  | constant hc => cases hc <;> simp [startsDeclaration, *]
  | paren hl he hr => simp [startsDeclaration, hl]
  | newObject tag hnew hname hl hr => simp [startsDeclaration, hnew]
  | newArray tag hnew hbase hl hsize hr harrays => simp [startsDeclaration, hnew]
  | call tag hname hargs =>
    cases hname with
    | intro _ ht =>
      have hparen : Starts (.symbol .leftParen) (_ ++ rest) := hargs.starts
      cases hargs with
      | none hl hr =>
        simpa [startsDeclaration, ht] using
          nameBehindBrackets_symbol hl (not_startsPair hl (by decide))
      | some hl hes hr =>
        simpa [startsDeclaration, ht] using
          nameBehindBrackets_symbol hl (not_startsPair hl (by decide))
  | var tag tag' hname => cases hname with | intro _ ht => simpa [startsDeclaration, ht] using hrest

theorem IsPath.not_declaration {limit : Nat} {ts rest : List Token} {e : Expr}
    (h : IsPath limit ts e) (hrest : nameBehindBrackets rest = false) :
    startsDeclaration (ts ++ rest) = false := by
  match h with
  | .primary h => exact h.not_declaration hrest
  | .length _ h hdot _ | .field _ _ h hdot _ | .method _ h hdot _ _ =>
    rw [List.append_assoc]
    exact h.not_declaration (nameBehindBrackets_symbol hdot (not_startsPair hdot (by decide)))
  | @IsPath.index _ _ _ ts us e i l r h hl hi _ =>
    rw [List.append_assoc, List.cons_append, List.append_assoc]
    exact h.not_declaration (nameBehindBrackets_symbol hl (noSuffix_index hl hi).pair)

theorem IsOperand.not_declaration {limit : Nat} {e : Expr} (h : IsOperand limit ts e)
    (hrest : nameBehindBrackets rest = false) : startsDeclaration (ts ++ rest) = false := by
  cases h with
  | unary tag ht he => simp [startsDeclaration, ht]
  | path h => exact h.not_declaration hrest

theorem IsExpr.not_declaration {level : Nat} {ts rest : List Token} {e : Expr}
    (h : IsExpr level ts e) (hrest : nameBehindBrackets rest = false) :
    startsDeclaration (ts ++ rest) = false := by
  match h with
  | .operand h => exact h.not_declaration hrest
  | @IsExpr.binary _ _ op ls rs t left right _ h ht _ =>
    rw [List.append_assoc]
    refine h.not_declaration (nameBehindBrackets_symbol ht (not_startsPair ht ?_))
    cases op <;> decide

/-- A statement is not taken for a declaration. -/
theorem IsStmt.not_declaration {s : Stmt} (h : IsStmt ts s) :
    startsDeclaration (ts ++ rest) = false := by
  cases h with
  | eval he hc =>
    rw [List.append_assoc]
    exact he.not_declaration (nameBehindBrackets_symbol hc (not_startsPair hc (by decide)))
  | assign _ he hsign _ _ =>
    rw [List.append_assoc]
    exact he.not_declaration (nameBehindBrackets_symbol hsign (not_startsPair hsign (by decide)))
  | branch _ ht _ _ => simp [startsDeclaration, ht]
  | branchElse _ ht _ _ _ _ => simp [startsDeclaration, ht]
  | loop _ ht _ _ => simp [startsDeclaration, ht]
  | «return» _ ht _ _ => simp [startsDeclaration, ht]
  | block _ hb => cases hb with | intro ht _ _ => simp [startsDeclaration, ht]

end lookahead

section statements

theorem reads_declaration {d : VarDecl} (h : IsDecl ts d) (hs : s.tokens = ts ++ rest) :
    Reads (VarDecl.relabel .bare) (declaration s) d rest := by
  obtain @⟨tag, ts, type, name, close, x, htype, hname, hclose⟩ := h
  have hpair : ¬ StartsPair (name :: close :: rest) := by
    cases hname with | intro _ ht => exact fun h => by simpa [ht] using h.1
  obtain ⟨r, h₁, hr, hleft⟩ := reads_typeExpr htype (by simpa using hs) hpair
  obtain ⟨y, _, h₂, hy⟩ := exists_ident hleft hname
  obtain ⟨_, h₃⟩ := exists_expect (s := r.rest.behind name (close :: rest)) rfl hclose
  rw [declaration, h₁]
  simp only [bind, Except.bind, Parsed.andThen]
  rw [h₂]
  simp only [Parsed.join, pure, Except.pure, symbol]
  rw [h₃]
  exact ⟨_, rfl, by simp [VarDecl.relabel, Parsed.node, hr, hy], rfl⟩

theorem reads_condition {c : Expr} (h : IsCondition ts c) (hs : s.tokens = ts ++ rest) :
    Reads (Expr.relabel .bare) (condition s) c rest := by
  obtain @⟨l, r, ts, c, hl, hc, hr⟩ := h
  rw [List.cons_append, List.append_assoc, List.singleton_append] at hs
  obtain ⟨_, h₁⟩ := exists_expect hs hl
  obtain ⟨x, h₂, hx, hleft⟩ := reads_expression hc (s := s.behind l (ts ++ r :: rest)) rfl
    (stops_cons hr (by decide))
  obtain ⟨_, h₃⟩ := exists_expect hleft hr
  rw [condition, symbol, h₁]
  simp only [bind, Except.bind, Parsed.andThen]
  rw [h₂]
  simp only [Parsed.join, pure, Except.pure, symbol]
  rw [h₃]
  exact ⟨_, rfl, hx, rfl⟩

theorem reads_eval {e : Expr} {close : Token} (he : IsExpr 0 ts e)
    (hc : close.kind = .symbol .semicolon) (hs : s.tokens = ts ++ close :: rest) :
    Reads (Stmt.relabel .bare) (evaluation s) (.eval e) rest := by
  obtain ⟨x, h₁, hx, hleft⟩ := reads_expression he hs (stops_cons hc (by decide))
  obtain ⟨_, h₂⟩ := exists_expect hleft hc
  rw [evaluation, h₁]
  simp only [bind, Except.bind, Parsed.andThen]
  rw [take?_none (by simp [hleft, starts_cons, hc])]
  simp only [symbol]
  rw [h₂]
  exact ⟨_, rfl, by simp [Stmt.relabel, Parsed.map, hx], rfl⟩

theorem reads_assign {tag : Tag} {target : Location} {value : Expr} {sign close : Token}
    (span : Span) (he : IsExpr 0 ts (.read tag target)) (hsign : sign.kind = .symbol .equal)
    (hv : IsExpr 0 us value) (hc : close.kind = .symbol .semicolon)
    (hs : s.tokens = ts ++ sign :: (us ++ close :: rest)) :
    Reads (Stmt.relabel .bare) (evaluation s) (.assign span target value) rest := by
  obtain ⟨x, h₁, hx, hleft⟩ := reads_expression he hs (stops_cons hsign (by decide))
  obtain ⟨_, h₂⟩ := exists_take? hleft hsign
  obtain ⟨y, h₃, hy, hleft'⟩ := reads_expression hv
    (s := x.rest.behind sign (us ++ close :: rest)) rfl (stops_cons hc (by decide))
  obtain ⟨_, h₄⟩ := exists_expect hleft' hc
  obtain ⟨tag', target', hread, htarget⟩ : ∃ tag' target', x.value = .read tag' target' ∧
      target'.relabel .bare = target.relabel .bare := by
    cases hxv : x.value <;> rw [hxv] at hx <;> simp only [Expr.relabel, reduceCtorEq] at hx
    exact ⟨_, _, rfl, (Expr.read.inj hx).2⟩
  rw [evaluation, h₁]
  simp only [bind, Except.bind, Parsed.andThen]
  rw [h₂]
  simp only [hread]
  simp only [Parsed.join, pure, Except.pure, symbol]
  rw [h₃]
  simp only
  rw [h₄]
  exact ⟨_, rfl, by simp [Stmt.relabel, Parsed.map, hy, htarget], rfl⟩

theorem IsBlock.starts {body : List Stmt} (h : IsBlock ts body) :
    Starts (.symbol .leftBrace) (ts ++ rest) := by
  cases h with | intro hl _ _ => exact starts_cons.2 hl

/-- Words that a statement or a declaration may start with. -/
def startsItem (kind : Token.Kind) : Bool :=
  kind != .keyword .elseStmt && kind != .symbol .rightBrace

theorem IsExpr.startsItem {level : Nat} {e : Expr} (h : IsExpr level ts e) :
    ∃ t us, ts ++ rest = t :: us ∧ Grammar.startsItem t.kind = true := by
  obtain ⟨t, us, rfl, ht⟩ := h.starts
  refine ⟨t, us ++ rest, rfl, ?_⟩
  rw [Grammar.startsItem, Bool.and_eq_true, bne_iff_ne, bne_iff_ne]
  constructor <;> rintro hkind <;> rw [hkind] at ht <;> exact Bool.noConfusion ht

theorem IsStmt.starts {t : Stmt} (h : IsStmt ts t) :
    ∃ t us, ts = t :: us ∧ startsItem t.kind = true := by
  cases h with
  | eval he _ => exact he.startsItem
  | assign _ he _ _ _ => exact he.startsItem
  | branch _ ht _ _ => exact ⟨_, _, rfl, by rw [ht]; rfl⟩
  | branchElse _ ht _ _ _ _ => exact ⟨_, _, rfl, by rw [ht]; rfl⟩
  | loop _ ht _ _ => exact ⟨_, _, rfl, by rw [ht]; rfl⟩
  | «return» _ ht _ _ => exact ⟨_, _, rfl, by rw [ht]; rfl⟩
  | block _ hb => cases hb with | intro ht _ _ => exact ⟨_, _, rfl, by rw [ht]; rfl⟩

theorem IsDecl.starts {d : VarDecl} (h : IsDecl ts d) :
    ∃ t us, ts = t :: us ∧ startsItem t.kind = true := by
  obtain @⟨tag, _, type, name, close, x, @⟨t, base, _, ts, hbase, _⟩, _, _⟩ := h
  refine ⟨t, _, rfl, ?_⟩
  rcases hbase with ⟨_, ht⟩ | ⟨_, ht⟩ | ⟨_, ⟨_, ht⟩⟩ <;> rw [ht] <;> rfl

/-- No `else` stands behind a statement in a block. -/
theorem IsItems.not_else {body : List Stmt} (h : IsItems ts body)
    (hrest : Starts (.symbol .rightBrace) rest) : ¬ Starts (.keyword .elseStmt) (ts ++ rest) := by
  have hfirst {t : Token} {us : List Token} (ht : startsItem t.kind = true) :
      ¬ Starts (.keyword .elseStmt) (t :: us) := by
    rw [starts_cons]
    intro hkind
    rw [hkind] at ht
    exact Bool.noConfusion ht
  cases h with
  | nil => exact fun h => by simpa using h.symm.trans hrest
  | stmt hstmt _ =>
    obtain ⟨t, us, rfl, ht⟩ := hstmt.starts
    exact hfirst ht
  | declare hdecl _ =>
    obtain ⟨t, us, rfl, ht⟩ := hdecl.starts
    exact hfirst ht

/-- Where an item starts, a block goes on. -/
theorem blockItems_item {t : Token} (hs : s.tokens = t :: us) (ht : startsItem t.kind = true) :
    blockItems s = (do
      let ⟨item, s₁, h₁⟩ ← blockItem s
      let ⟨items, s₂, h₂⟩ ← blockItems s₁
      return ⟨item :: items, s₂, used_items h₁ h₂⟩) := by
  rw [blockItems, if_neg]
  rw [Bool.or_eq_true, sees_eq _ _ (by decide), hs, starts_cons]
  rintro (h | h)
  · exact Bool.noConfusion h
  · rw [h] at ht
    exact Bool.noConfusion ht

theorem take?_start {t : Token} {kind kind' : Token.Kind} (hs : s.tokens = t :: us)
    (ht : t.kind = kind) (hne : kind ≠ kind') : take? s kind' = none :=
  take?_none (by rwa [hs, starts_cons, ht])

/-- What starts with no word of its own is an expression or an assignment. -/
theorem statement_eq {level : Nat} {e : Expr} (he : IsExpr level ts e)
    (hs : s.tokens = ts ++ rest) : statement s = evaluation s := by
  have hnone {kind : Token.Kind} (hkind : startsExpression kind = false) :
      ¬ Starts kind s.tokens := by
    rw [hs]
    exact he.not_starts hkind
  rw [statement, take?_none (hnone (by decide))]
  simp only
  rw [take?_none (hnone (by decide))]
  simp only
  rw [take?_none (hnone (by decide))]
  simp only
  rw [if_neg ((sees_eq _ _ (by decide)).not.2 (hnone (by decide)))]

mutual

/-- A statement is read if each `else` in it belongs to the nearest `if` and none is left behind it
that could belong to it. -/
theorem reads_statement {ts : List Token} {t : Stmt} (h : IsStmt ts t) {s : Stream}
    {rest : List Token} (hs : s.tokens = ts ++ rest) (hnearest : t.NearestElse)
    (helse : t.isOpen = true → ¬ Starts (.keyword .elseStmt) rest) :
    Reads (Stmt.relabel .bare) (statement s) t rest := by
  match h with
  | .eval he hc =>
    rw [List.append_assoc] at hs
    rw [statement_eq he hs]
    exact reads_eval he hc hs
  | .assign span he hsign hv hc =>
    rw [List.append_assoc, List.cons_append, List.append_assoc] at hs
    rw [statement_eq he hs]
    exact reads_assign span he hsign hv hc hs
  | @IsStmt.branch span start ts us c onTrue hstart hc htrue =>
    rw [List.cons_append, List.append_assoc] at hs
    obtain ⟨_, h₁⟩ := exists_take? hs hstart
    obtain ⟨x, h₂, hx, hleft⟩ := reads_condition hc (s := s.behind start (ts ++ (us ++ rest))) rfl
    have hrest := helse rfl
    obtain ⟨y, h₃, hy, hleft'⟩ := reads_statement htrue hleft hnearest fun _ => hrest
    rw [statement, h₁]
    simp only
    rw [h₂]
    simp only [bind, Except.bind]
    rw [h₃]
    simp only
    rw [take?_none (by rwa [hleft'])]
    exact ⟨_, rfl, by simp [Stmt.relabel, hx, hy], hleft'⟩
  | @IsStmt.branchElse span start other ts us vs c onTrue onFalse hstart hc htrue ho hfalse =>
    rw [List.cons_append, List.append_assoc, List.append_assoc, List.cons_append] at hs
    obtain ⟨hn, hclosed, hn'⟩ := hnearest
    obtain ⟨_, h₁⟩ := exists_take? hs hstart
    obtain ⟨x, h₂, hx, hleft⟩ := reads_condition hc
      (s := s.behind start (ts ++ (us ++ other :: (vs ++ rest)))) rfl
    obtain ⟨y, h₃, hy, hleft'⟩ := reads_statement htrue hleft hn fun hopen => by
      rw [hclosed] at hopen
      exact Bool.noConfusion hopen
    obtain ⟨_, h₄⟩ := exists_take? hleft' ho
    obtain ⟨z, h₅, hz, hleft''⟩ := reads_statement hfalse (s := y.rest.behind other (vs ++ rest))
      rfl hn' helse
    rw [statement, h₁]
    simp only
    rw [h₂]
    simp only [bind, Except.bind]
    rw [h₃]
    simp only
    rw [h₄]
    simp only
    rw [h₅]
    exact ⟨_, rfl, by simp [Stmt.relabel, hx, hy, hz], hleft''⟩
  | @IsStmt.loop span start ts us c body hstart hc hbody =>
    rw [List.cons_append, List.append_assoc] at hs
    obtain ⟨_, h₁⟩ := exists_take? hs hstart
    obtain ⟨x, h₂, hx, hleft⟩ := reads_condition hc (s := s.behind start (ts ++ (us ++ rest))) rfl
    obtain ⟨y, h₃, hy, hleft'⟩ := reads_statement hbody hleft hnearest helse
    rw [statement, take?_start hs hstart (by decide)]
    simp only
    rw [h₁]
    simp only
    rw [h₂]
    simp only [bind, Except.bind]
    rw [h₃]
    exact ⟨_, rfl, by simp [Stmt.relabel, hx, hy], hleft'⟩
  | @IsStmt.return span start close ts e hstart he hc =>
    rw [List.cons_append, List.append_assoc, List.singleton_append] at hs
    obtain ⟨_, h₁⟩ := exists_take? hs hstart
    obtain ⟨x, h₂, hx, hleft⟩ := reads_expression he (s := s.behind start (ts ++ close :: rest)) rfl
      (stops_cons hc (by decide))
    obtain ⟨_, h₃⟩ := exists_expect hleft hc
    rw [statement, take?_start hs hstart (by decide)]
    simp only
    rw [take?_start hs hstart (by decide)]
    simp only
    rw [h₁]
    simp only
    rw [h₂]
    simp only [bind, Except.bind, symbol]
    rw [h₃]
    exact ⟨_, rfl, by simp [Stmt.relabel, hx], rfl⟩
  | .block span hb =>
    have hstart : Starts (.symbol .leftBrace) (_ ++ rest) := hb.starts
    rw [← hs] at hstart
    have hnone {kind : Token.Kind} (hne : kind ≠ .symbol .leftBrace) : take? s kind = none := by
      refine take?_none fun h => hne ?_
      exact Option.some.inj (h.symm.trans hstart)
    obtain ⟨x, h₁, hx, hleft⟩ := reads_block hb hs hnearest
    rw [statement, hnone (by decide)]
    simp only
    rw [hnone (by decide)]
    simp only
    rw [hnone (by decide)]
    simp only
    rw [if_pos ((sees_eq _ _ (by decide)).2 hstart), h₁]
    exact ⟨_, rfl, by simp [Stmt.relabel, hx], hleft⟩

theorem reads_block {ts : List Token} {body : List Stmt} (h : IsBlock ts body) {s : Stream}
    {rest : List Token} (hs : s.tokens = ts ++ rest) (hnearest : NearestElseIn body) :
    ∃ r, block s = .ok r ∧ relabelBody .bare r.value.2 = relabelBody .bare body ∧
      r.rest.tokens = rest := by
  match h with
  | @IsBlock.intro l r ts body hl hbody hr =>
    rw [List.cons_append, List.append_assoc, List.singleton_append] at hs
    obtain ⟨_, h₁⟩ := exists_expect hs hl
    obtain ⟨x, h₂, hx, hleft⟩ := reads_blockItems hbody (s := s.behind l (ts ++ r :: rest)) rfl
      (starts_cons.2 hr) hnearest
    obtain ⟨_, h₃⟩ := exists_expect hleft hr
    rw [block, symbol, h₁]
    simp only [bind, Except.bind]
    rw [h₂]
    simp only [symbol]
    rw [h₃]
    exact ⟨_, rfl, hx, rfl⟩

theorem reads_blockItems {ts : List Token} {body : List Stmt} (h : IsItems ts body) {s : Stream}
    {rest : List Token} (hs : s.tokens = ts ++ rest) (hrest : Starts (.symbol .rightBrace) rest)
    (hnearest : NearestElseIn body) :
    Reads (relabelBody .bare) (blockItems s) body rest := by
  match h with
  | .nil =>
    rw [blockItems, if_pos]
    · exact ⟨_, rfl, rfl, hs⟩
    · rw [Bool.or_eq_true, sees_eq _ _ (by decide), hs]
      exact .inr hrest
  | @IsItems.stmt ts us t items hstmt hitems =>
    rw [List.append_assoc] at hs
    obtain ⟨first, vs, hts, hfirst⟩ := hstmt.starts
    obtain ⟨x, h₁, hx, hleft⟩ := reads_statement hstmt hs hnearest.1
      fun _ => hitems.not_else hrest
    obtain ⟨y, h₂, hy, hleft'⟩ := reads_blockItems hitems hleft hrest hnearest.2
    rw [blockItems_item (by rw [hs, hts]; rfl) hfirst, blockItem,
      if_neg (by simp [hs, hstmt.not_declaration]), h₁]
    simp only [bind, Except.bind]
    rw [h₂]
    exact ⟨_, rfl, by simp [relabelBody, hx, hy], hleft'⟩
  | @IsItems.declare ts us d items hdecl hitems =>
    rw [List.append_assoc] at hs
    obtain ⟨first, vs, hts, hfirst⟩ := hdecl.starts
    obtain ⟨x, h₁, hx, hleft⟩ := reads_declaration hdecl hs
    obtain ⟨y, h₂, hy, hleft'⟩ := reads_blockItems hitems hleft hrest hnearest.2
    rw [blockItems_item (by rw [hs, hts]; rfl) hfirst, blockItem,
      if_pos (by rw [hs, hdecl.startsDeclaration]), h₁]
    simp only [bind, Except.bind, pure, Except.pure]
    rw [h₂]
    exact ⟨_, rfl, by simp [relabelBody, Stmt.relabel, hx, hy], hleft'⟩

end

end statements

section declarations

theorem IsName.not_startsPair {t : Token} {name : Ident} (h : IsName t name) :
    ¬ StartsPair (t :: ts) := by
  cases h with
  | intro _ ht =>
    cases ts with
    | nil => exact id
    | cons u ts => exact fun hpair => by simpa [ht] using hpair.1

theorem reads_parameter {type : TypeExpr} {t : Token} {name : Ident} (tag : Tag)
    (htype : IsType ts type) (hname : IsName t name) (hs : s.tokens = ts ++ t :: rest) :
    Reads (VarDecl.relabel .bare) (parameter s) ⟨tag, type, name⟩ rest := by
  obtain ⟨r, h₁, hr, hleft⟩ := reads_typeExpr htype hs hname.not_startsPair
  obtain ⟨y, _, h₂, hy⟩ := exists_ident hleft hname
  rw [parameter, h₁]
  simp only [bind, Except.bind, Parsed.andThen]
  rw [h₂]
  exact ⟨_, rfl, by simp [VarDecl.relabel, Parsed.node, Parsed.join, hr, hy], rfl⟩

theorem reads_parameters {ds : List VarDecl} (h : IsParams ts ds) :
    ∀ {s : Stream}, s.tokens = ts ++ rest → ¬ Starts (.symbol .comma) rest →
      Reads (List.map (VarDecl.relabel .bare)) (parameters s) ds rest := by
  induction h with
  | one tag htype hname =>
    intro s hs hcomma
    obtain ⟨r, h₁, hr, hleft⟩ := reads_parameter tag htype hname (by simpa using hs)
    rw [parameters, h₁]
    simp only [bind, Except.bind]
    rw [take?_none (hleft ▸ hcomma)]
    exact ⟨_, rfl, by simp [Parsed.map, hr], hleft⟩
  | @cons tag ts us type t comma name ds htype hname hc _ ih =>
    intro s hs hcomma
    obtain ⟨r, h₁, hr, hleft⟩ := reads_parameter tag htype hname
      (show s.tokens = ts ++ t :: comma :: (us ++ rest) by simpa using hs)
    obtain ⟨_, h₂⟩ := exists_take? hleft hc
    obtain ⟨r', h₃, hr', hleft'⟩ := ih (s := r.rest.behind comma (us ++ rest)) rfl hcomma
    rw [parameters, h₁]
    simp only [bind, Except.bind]
    rw [h₂]
    simp only
    rw [h₃]
    exact ⟨_, rfl, by simp [Parsed.map, Parsed.join, hr, hr'], hleft'⟩

theorem IsType.starts {type : TypeExpr} (h : IsType ts type) : ∃ t us, ts = t :: us ∧
    t.kind ∈ [.keyword .intType, .keyword .boolType, .identifier] := by
  obtain ⟨hbase, _⟩ := h
  rcases hbase with ⟨_, ht⟩ | ⟨_, ht⟩ | ⟨_, ⟨_, ht⟩⟩ <;> exact ⟨_, _, rfl, by simp [ht]⟩

theorem IsType.not_starts {type : TypeExpr} {kind : Token.Kind} (h : IsType ts type)
    (hkind : kind ∉ [.keyword .intType, .keyword .boolType, .identifier]) :
    ¬ Starts kind (ts ++ rest) := by
  obtain ⟨t, us, rfl, ht⟩ := h.starts
  rw [List.cons_append, starts_cons]
  rintro rfl
  exact hkind ht

theorem reads_parameterList {ds : List VarDecl} (h : IsParamList ts ds)
    (hs : s.tokens = ts ++ rest) :
    Reads (List.map (VarDecl.relabel .bare)) (parameterList s) ds rest := by
  cases h with
  | @none l r hl hr =>
    rw [List.cons_append, List.singleton_append] at hs
    obtain ⟨_, h₁⟩ := exists_expect hs hl
    obtain ⟨_, h₂⟩ := exists_take? (s := s.behind l (r :: rest)) rfl hr
    rw [parameterList, symbol, h₁]
    simp only [bind, Except.bind]
    rw [h₂]
    exact ⟨_, rfl, rfl, rfl⟩
  | @some l r ts _ hl hds hr =>
    rw [List.cons_append, List.append_assoc, List.singleton_append] at hs
    obtain ⟨_, h₁⟩ := exists_expect hs hl
    have hfirst : ¬ Starts (.symbol .rightParen) (ts ++ r :: rest) := by
      cases hds with
      | one _ htype _ =>
        rw [List.append_assoc]
        exact htype.not_starts (by decide)
      | cons _ htype _ _ _ =>
        rw [List.append_assoc]
        exact htype.not_starts (by decide)
    obtain ⟨x, h₂, hx, hleft⟩ := reads_parameters hds (s := s.behind l (ts ++ r :: rest)) rfl
      (by simp [starts_cons, hr])
    obtain ⟨_, h₃⟩ := exists_expect hleft hr
    rw [parameterList, symbol, h₁]
    simp only [bind, Except.bind, Parsed.andThen]
    rw [take?_none hfirst]
    simp only
    rw [h₂]
    simp only [Parsed.join, pure, Except.pure, symbol]
    rw [h₃]
    exact ⟨_, rfl, hx, rfl⟩

variable {t : Token} {type : TypeExpr} {name : Ident}

theorem reads_functionBehind {type' : TypeExpr} {name' : Ident} {params : List VarDecl}
    {body : List Stmt} (tag : Tag) (bodySpan : Span)
    (htype : type'.relabel .bare = type.relabel .bare)
    (hname : name'.relabel .bare = name.relabel .bare) (hparams : IsParamList ts params)
    (hbody : IsBlock us body) (hnearest : NearestElseIn body)
    (hs : s.tokens = ts ++ (us ++ rest)) :
    Reads (FunctionDecl.relabel .bare) (functionBehind type' name' s)
      ⟨tag, type, name, params, bodySpan, body⟩ rest := by
  obtain ⟨x, h₁, hx, hleft⟩ := reads_parameterList hparams (s := s.bump) hs
  obtain ⟨y, h₂, hy, hleft'⟩ := reads_block hbody hleft hnearest
  rw [functionBehind, h₁]
  simp only [bind, Except.bind]
  rw [h₂]
  exact ⟨_, rfl, by simp [FunctionDecl.relabel, htype, hname, hx, hy], hleft'⟩

theorem reads_functionDecl {f : FunctionDecl} (h : IsFunction ts f)
    (hnearest : NearestElseIn f.body)
    (hs : s.tokens = ts ++ rest) : Reads (FunctionDecl.relabel .bare) (functionDecl s) f rest := by
  obtain @⟨tag, bodySpan, ts, us, vs, type, t, name, params, body, htype, hname, hparams, hbody⟩ :=
    h
  obtain ⟨x, h₁, hx, hleft⟩ := reads_typeExpr htype
    (show s.tokens = ts ++ t :: (us ++ (vs ++ rest)) by simpa using hs) hname.not_startsPair
  obtain ⟨y, _, h₂, hy⟩ := exists_ident hleft hname
  obtain ⟨z, h₃, hz, hleft'⟩ := reads_functionBehind tag bodySpan hx hy hparams hbody hnearest
    (s := x.rest.behind t (us ++ (vs ++ rest))) rfl
  rw [functionDecl, h₁]
  simp only [bind, Except.bind, Parsed.andThen]
  rw [h₂]
  simp only [Parsed.join, pure, Except.pure]
  rw [h₃]
  exact ⟨_, rfl, hz, hleft'⟩

/-- What can be seen of a member without tags and places. -/
def viewMember (m : Member) : Option VarDecl × Option FunctionDecl :=
  (m.field?.map (·.relabel .bare), m.method?.map (·.relabel .bare))

theorem exists_field {m : Member} {d : VarDecl} (h : viewMember m = viewMember (.field d)) :
    ∃ d', m = .field d' ∧ d'.relabel .bare = d.relabel .bare := by
  cases m with
  | field d' => exact ⟨d', rfl, Option.some.inj (congrArg Prod.fst h)⟩
  | method f => simp [viewMember, Member.field?] at h

theorem exists_method {m : Member} {f : FunctionDecl} (h : viewMember m = viewMember (.method f)) :
    ∃ f', m = .method f' ∧ f'.relabel .bare = f.relabel .bare := by
  cases m with
  | field d => simp [viewMember, Member.field?] at h
  | method f' => exact ⟨f', rfl, Option.some.inj (congrArg Prod.snd h)⟩

theorem reads_field {d : VarDecl} (h : IsDecl ts d) (hs : s.tokens = ts ++ rest) :
    Reads viewMember (member s) (.field d) rest := by
  obtain @⟨tag, ts, type, t, close, name, htype, hname, hclose⟩ := h
  obtain ⟨x, h₁, hx, hleft⟩ := reads_typeExpr htype
    (show s.tokens = ts ++ t :: close :: rest by simpa using hs) hname.not_startsPair
  obtain ⟨y, _, h₂, hy⟩ := exists_ident hleft hname
  obtain ⟨_, h₃⟩ := exists_expect (s := x.rest.behind t (close :: rest)) rfl hclose
  rw [member, h₁]
  simp only [bind, Except.bind, Parsed.andThen]
  rw [h₂]
  simp only [Parsed.join, pure, Except.pure, symbol]
  rw [if_neg (by rw [sees_eq _ _ (by decide)]; simp [Stream.behind, starts_cons, hclose]), h₃]
  exact ⟨_, rfl, by simp [viewMember, Member.field?, Member.method?, VarDecl.relabel, Parsed.node,
    hx, hy], rfl⟩

theorem reads_method {f : FunctionDecl} (h : IsFunction ts f) (hnearest : NearestElseIn f.body)
    (hs : s.tokens = ts ++ rest) : Reads viewMember (member s) (.method f) rest := by
  obtain @⟨tag, bodySpan, ts, us, vs, type, t, name, params, body, htype, hname, hparams, hbody⟩ :=
    h
  obtain ⟨x, h₁, hx, hleft⟩ := reads_typeExpr htype
    (show s.tokens = ts ++ t :: (us ++ (vs ++ rest)) by simpa using hs) hname.not_startsPair
  obtain ⟨y, _, h₂, hy⟩ := exists_ident hleft hname
  obtain ⟨z, h₃, hz, hleft'⟩ := reads_functionBehind tag bodySpan hx hy hparams hbody hnearest
    (s := x.rest.behind t (us ++ (vs ++ rest))) rfl
  have hparen : Starts (.symbol .leftParen) (us ++ (vs ++ rest)) := by
    cases hparams <;> exact starts_cons.2 ‹_›
  rw [member, h₁]
  simp only [bind, Except.bind, Parsed.andThen]
  rw [h₂]
  simp only [Parsed.join, pure, Except.pure]
  rw [if_pos ((sees_eq _ _ (by decide)).2 hparen), h₃]
  exact ⟨_, rfl, by simp [viewMember, Member.field?, Member.method?, Parsed.map, hz], hleft'⟩

theorem IsDecl.not_starts {d : VarDecl} {kind : Token.Kind} (h : IsDecl ts d)
    (hkind : kind ∉ [.keyword .intType, .keyword .boolType, .identifier]) :
    ¬ Starts kind (ts ++ rest) := by
  obtain ⟨_, htype, _, _⟩ := h
  rw [List.append_assoc]
  exact htype.not_starts hkind

theorem IsFunction.not_starts {f : FunctionDecl} {kind : Token.Kind} (h : IsFunction ts f)
    (hkind : kind ∉ [.keyword .intType, .keyword .boolType, .identifier]) :
    ¬ Starts kind (ts ++ rest) := by
  obtain ⟨_, _, htype, _, _, _⟩ := h
  rw [List.append_assoc]
  exact htype.not_starts hkind

theorem reads_members {fields : List VarDecl} {methods : List FunctionDecl}
    (h : IsMembers ts fields methods) (hrest : Starts (.symbol .rightBrace) rest)
    (hnearest : ∀ f ∈ methods, NearestElseIn f.body) : ∀ {s : Stream}, s.tokens = ts ++ rest →
      ∃ r, members s = .ok r ∧ r.rest.tokens = rest ∧
        (r.value.filterMap Member.field?).map (·.relabel .bare) = fields.map (·.relabel .bare) ∧
        (r.value.filterMap Member.method?).map (·.relabel .bare) =
          methods.map (·.relabel .bare) := by
  induction h with
  | nil =>
    intro s hs
    rw [members, if_pos ((sees_eq _ _ (by decide)).2 (by rwa [hs]))]
    exact ⟨_, rfl, hs, rfl, rfl⟩
  | @field ts us d fields methods hd _ ih =>
    intro s hs
    rw [List.append_assoc] at hs
    obtain ⟨x, h₁, hx, hleft⟩ := reads_field hd hs
    obtain ⟨y, h₂, hleft', hfields, hmethods⟩ := ih hnearest hleft
    rw [members, if_neg ((sees_eq _ _ (by decide)).not.2 (hs ▸ hd.not_starts (by decide))), h₁]
    simp only [bind, Except.bind]
    rw [h₂]
    obtain ⟨d', hvalue, hd'⟩ := exists_field hx
    refine ⟨_, rfl, hleft', ?_⟩
    simpa [Parsed.weaken, Parsed.map, Parsed.join, hvalue, Member.field?, Member.method?, hd']
      using ⟨hfields, hmethods⟩
  | @method ts us f fields methods hf _ ih =>
    intro s hs
    rw [List.append_assoc] at hs
    obtain ⟨hn, hnearest⟩ := List.forall_mem_cons.1 hnearest
    obtain ⟨x, h₁, hx, hleft⟩ := reads_method hf hn hs
    obtain ⟨y, h₂, hleft', hfields, hmethods⟩ := ih hnearest hleft
    rw [members, if_neg ((sees_eq _ _ (by decide)).not.2 (hs ▸ hf.not_starts (by decide))), h₁]
    simp only [bind, Except.bind]
    rw [h₂]
    obtain ⟨f', hvalue, hf'⟩ := exists_method hx
    refine ⟨_, rfl, hleft', ?_⟩
    simpa [Parsed.weaken, Parsed.map, Parsed.join, hvalue, Member.field?, Member.method?, hf']
      using ⟨hfields, hmethods⟩

theorem reads_extending {superclass : Option Ident} (h : IsExtending ts superclass)
    (hs : s.tokens = ts ++ rest) (hrest : ¬ Starts (.keyword .extending) rest) :
    Reads (Option.map (Ident.relabel .bare)) (extending s) superclass rest := by
  cases h with
  | none =>
    rw [extending, take?_none (by rwa [hs])]
    exact ⟨_, rfl, rfl, hs⟩
  | @some start t name hstart hname =>
    rw [List.cons_append, List.singleton_append] at hs
    obtain ⟨_, h₁⟩ := exists_take? hs hstart
    obtain ⟨x, _, h₂, hx⟩ := exists_ident (s := s.behind start (t :: rest)) rfl hname
    rw [extending, h₁]
    simp only [Parsed.andThen, bind, Except.bind]
    rw [h₂]
    exact ⟨_, rfl, congrArg some hx, rfl⟩

theorem reads_classDecl {c : ClassDecl} (h : IsClass ts c)
    (hnearest : ∀ f ∈ c.methods, NearestElseIn f.body) (hs : s.tokens = ts ++ rest) :
    Reads (ClassDecl.relabel .bare) (classDecl s) c rest := by
  obtain @⟨tag, start, t, l, r, ts, us, name, superclass, fields, methods, hstart,
      hname, hsuper, hl,
    hmembers, hr⟩ := h
  simp only [List.cons_append, List.append_assoc, List.nil_append] at hs
  obtain ⟨_, h₁⟩ := exists_expect hs hstart
  obtain ⟨x, _, h₂, hx⟩ := exists_ident
    (s := (s.behind start (t :: (ts ++ l :: (us ++ r :: rest)))).bump) rfl hname
  obtain ⟨y, h₃, hy, hleft⟩ := reads_extending hsuper
    (s := ((s.behind start (t :: (ts ++ l :: (us ++ r :: rest)))).bump).behind t
      (ts ++ l :: (us ++ r :: rest))) rfl (by simp [starts_cons, hl])
  obtain ⟨_, h₄⟩ := exists_expect hleft hl
  obtain ⟨z, h₅, hleft', hfields, hmethods⟩ := reads_members hmembers
    (show Starts _ (r :: rest) from starts_cons.2 hr) hnearest
    (s := y.rest.behind l (us ++ r :: rest)) rfl
  obtain ⟨_, h₆⟩ := exists_expect hleft' hr
  rw [classDecl, keyword, h₁]
  simp only [bind, Except.bind, Parsed.andThen, Parsed.bump]
  rw [h₂]
  simp only [Parsed.join, pure, Except.pure]
  rw [h₃]
  simp only [symbol]
  rw [h₄]
  simp only
  rw [h₅]
  simp only
  rw [h₆]
  refine ⟨_, rfl, ?_, rfl⟩
  simpa [ClassDecl.relabel, Parsed.map, hx] using ⟨hy, hfields, hmethods⟩

/-- What can be seen of the declarations of a program without tags and places. -/
def viewProgram (x : List ClassDecl × List FunctionDecl) : List ClassDecl × List FunctionDecl :=
  (x.1.map (·.relabel .bare), x.2.map (·.relabel .bare))

/-- A program is read whole if each `else` in it belongs to the nearest `if`. -/
theorem reads_declarations {classes : List ClassDecl} {functions : List FunctionDecl}
    (h : IsProgram ts classes functions) (hfunctions : ∀ f ∈ functions, NearestElseIn f.body)
    (hclasses : ∀ c ∈ classes, ∀ f ∈ c.methods, NearestElseIn f.body) :
    ∀ {s : Stream}, s.tokens = ts →
      Reads viewProgram (declarations s) (classes, functions) [] := by
  induction h with
  | nil =>
    intro s hs
    rw [declarations, if_pos (by rw [hs]; rfl)]
    exact ⟨_, rfl, rfl, hs⟩
  | @cls ts us c classes functions hc _ ih =>
    intro s hs
    obtain ⟨hn, hclasses⟩ := List.forall_mem_cons.1 hclasses
    obtain ⟨x, h₁, hx, hleft⟩ := reads_classDecl hc hn hs
    obtain ⟨y, h₂, hy, hleft'⟩ := ih hfunctions hclasses hleft
    have hstart : Starts (.keyword .classDecl) (ts ++ us) := by
      cases hc with | intro _ ht => exact starts_cons.2 ht
    have hne : s.tokens.isEmpty = false := by
      rw [hs]
      cases hts : ts ++ us with
      | nil => exact (not_starts_nil (hts ▸ hstart)).elim
      | cons => rfl
    rw [declarations, if_neg (by rw [hne]; exact Bool.noConfusion),
      if_pos ((sees_eq _ _ (by decide)).2 (hs ▸ hstart)), h₁]
    simp only [bind, Except.bind]
    rw [h₂]
    refine ⟨_, rfl, ?_, hleft'⟩
    simp only [viewProgram, Prod.mk.injEq] at hy
    simp [viewProgram, Parsed.weaken, Parsed.map, Parsed.join, hx, hy]
  | @function ts us f classes functions hf _ ih =>
    intro s hs
    obtain ⟨hn, hfunctions⟩ := List.forall_mem_cons.1 hfunctions
    obtain ⟨x, h₁, hx, hleft⟩ := reads_functionDecl hf hn hs
    obtain ⟨y, h₂, hy, hleft'⟩ := ih hfunctions hclasses hleft
    have hne : s.tokens.isEmpty = false := by
      obtain ⟨_, _, ⟨_, _⟩, _, _, _⟩ := hf
      rw [hs]
      rfl
    rw [declarations, if_neg (by rw [hne]; exact Bool.noConfusion),
      if_neg ((sees_eq _ _ (by decide)).not.2 (hs ▸ hf.not_starts (by decide))), h₁]
    simp only [bind, Except.bind]
    rw [h₂]
    refine ⟨_, rfl, ?_, hleft'⟩
    simp only [viewProgram, Prod.mk.injEq] at hy
    simp [viewProgram, Parsed.weaken, Parsed.map, Parsed.join, hx, hy]

end declarations

end ObjectLang.Grammar
