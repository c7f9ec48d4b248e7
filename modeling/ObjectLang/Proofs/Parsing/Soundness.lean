import Mathlib.Tactic
import ObjectLang.Proofs.Parsing.Grammar
import ObjectLang.Proofs.Parsing.Identities

/-!
# What is read is grammatical

Whatever a reader gives is a tree of the tokens that it took. Operators are read as far as they
bind tightly enough, so the operator that stops an expression binds less; and a statement that could
take one more `else` has none behind it.
-/
namespace ObjectLang

theorem Parsing.binaryOf?_eq_some {t : Token} {op : BinaryOp} :
    binaryOf? t = some op ↔ t.kind = .symbol op.symbol := by
  unfold binaryOf?
  split <;> cases op <;> simp_all [BinaryOp.symbol]

theorem Parsing.unaryOf?_eq_some {t : Token} {op : UnaryOp} {span : Span} :
    unaryOf? t = some (op, span) ↔ t.kind = .symbol op.symbol ∧ span = t.span := by
  unfold unaryOf?
  split <;> cases op <;> simp_all [UnaryOp.symbol, eq_comm]

namespace Grammar

open Parsing

variable {s : Stream}

/-- The operator that some tokens start with. -/
def nextOp? (ts : List Token) : Option BinaryOp :=
  ts.head?.bind binaryOf?

/-- Whether some tokens start with one of a sort. -/
def Starts (kind : Token.Kind) (ts : List Token) : Prop :=
  ts.head?.map Token.kind = some kind

section tokens

theorem next?_eq {α : Type} {accept : Token → Option α} {r : Parsed s 1 α}
    (h : next? s accept = some r) :
    ∃ t, s.tokens = t :: r.rest.tokens ∧ accept t = some r.value := by
  unfold next? at h
  split at h
  · simp at h
  · next t rest ht =>
    obtain ⟨a, ha, rfl⟩ := Option.map_eq_some_iff.1 h
    exact ⟨t, ht, ha⟩

theorem next?_eq_none {α : Type} {accept : Token → Option α} (h : next? s accept = none) :
    s.tokens.head?.bind accept = none := by
  unfold next? at h
  split at h
  · next ht => simp [ht]
  · next t rest ht => simpa [ht] using h

theorem take?_eq {kind : Token.Kind} {r : Parsed s 1 Token} (h : take? s kind = some r) :
    s.tokens = r.value :: r.rest.tokens ∧ r.value.kind = kind := by
  obtain ⟨t, ht, ha⟩ := next?_eq h
  split_ifs at ha with hkind
  cases ha
  exact ⟨ht, hkind⟩

theorem take?_eq_none {kind : Token.Kind} (h : take? s kind = none) :
    ¬ Starts kind s.tokens := by
  have := next?_eq_none h
  cases ht : s.tokens <;> simp_all [Starts]

theorem expect_eq {kind : Token.Kind} {r : Parsed s 1 Token} (h : expect s kind = .ok r) :
    s.tokens = r.value :: r.rest.tokens ∧ r.value.kind = kind := by
  unfold expect at h
  split at h
  · next hr =>
    cases h
    exact take?_eq hr
  · simp at h

theorem identOf?_eq {t : Token} {name : Ident} (h : identOf? t = some name) : IsName t name := by
  unfold identOf? at h
  split_ifs at h with hkind
  cases h
  exact .intro _ hkind

theorem ident_eq {r : Parsed s 1 Ident} (h : ident s = .ok r) :
    ∃ t, s.tokens = t :: r.rest.tokens ∧ IsName t r.value := by
  unfold ident at h
  split at h
  · next hr =>
    cases h
    obtain ⟨t, ht, ha⟩ := next?_eq hr
    exact ⟨t, ht, identOf?_eq ha⟩
  · simp at h

end tokens

section types

theorem isBase_baseType {r : Parsed s 1 TypeExpr} (h : baseType s = .ok r) :
    ∃ t, s.tokens = t :: r.rest.tokens ∧ IsBase t r.value := by
  unfold baseType at h
  simp only at h
  split at h
  · next type rest used hr =>
    cases h
    obtain ⟨t, ht, ha⟩ := next?_eq hr
    refine ⟨t, ht, ?_⟩
    split at ha <;> cases ha
    · exact .int _ ‹_›
    · exact .bool _ ‹_›
    · exact .named _ (.intro _ ‹_›)
  · simp at h

theorem brackets?_eq {r : Parsed s 2 Token} (h : brackets? s = some r) :
    ∃ l, s.tokens = l :: r.value :: r.rest.tokens ∧ l.kind = .symbol .leftBracket ∧
      r.value.kind = .symbol .rightBracket := by
  unfold brackets? at h
  split at h
  · next hopen =>
    split at h
    · next hclose =>
      cases h
      obtain ⟨ho, hl⟩ := take?_eq hopen
      obtain ⟨hc, hr⟩ := take?_eq hclose
      exact ⟨_, by rw [ho]; exact congrArg _ hc, hl, hr⟩
    · simp at h
  · simp at h

theorem isArrays_arraysOf {base : TypeExpr} (component : TypeExpr) (stop : Span) (s : Stream)
    {ts : List Token} (hts : IsArrays base ts component) :
    ∃ us, s.tokens = us ++ (arraysOf component stop s).rest.tokens ∧
      IsArrays base (ts ++ us) (arraysOf component stop s).value.1 := by
  rw [arraysOf]
  split
  · next close s₁ h₁ hb =>
    obtain ⟨l, htokens, hl, hr⟩ := brackets?_eq hb
    obtain ⟨us, hus, harrays⟩ := isArrays_arraysOf
      (.array (s₁.tag (component.span.merge close.span)) component) close.span s₁.bump
      (.array _ hts hl hr)
    refine ⟨l :: close :: us, ?_, by simpa using harrays⟩
    rw [htokens]
    exact congrArg (l :: close :: ·) hus
  · exact ⟨[], rfl, by simpa using hts⟩
termination_by s.size
decreasing_by simp only [Stream.size_bump]; omega

theorem isType_typeExpr {r : Parsed s 1 TypeExpr} (h : typeExpr s = .ok r) :
    ∃ ts, s.tokens = ts ++ r.rest.tokens ∧ IsType ts r.value := by
  simp only [typeExpr, Parsed.andThen, bind_eq_ok] at h
  obtain ⟨base, hb, found, ⟨more, hm, hf⟩, hr⟩ := h
  cases hm
  cases hf
  cases hr
  obtain ⟨t, ht, hbase⟩ := isBase_baseType hb
  obtain ⟨us, hus, harrays⟩ := isArrays_arraysOf base.value base.value.span base.rest .base
  exact ⟨t :: us, by rw [ht, hus]; rfl, .intro hbase harrays⟩

end types

section expressions

theorem IsPrimary.mono {limit limit' : Nat} {ts : List Token} {e : Expr}
    (h : IsPrimary limit ts e) (hle : limit ≤ limit') : IsPrimary limit' ts e := by
  cases h with
  | number tag ht hv => exact .number tag ht (hv.trans hle)
  | constant hc => exact .constant hc
  | paren hl he hr => exact .paren hl he hr
  | newObject tag hnew hname hl hr => exact .newObject tag hnew hname hl hr
  | newArray tag hnew hbase hl hsize hr harrays =>
    exact .newArray tag hnew hbase hl hsize hr harrays
  | call tag hname hargs => exact .call tag hname hargs
  | var tag tag' hname => exact .var tag tag' hname

theorem IsPath.mono {limit limit' : Nat} {ts : List Token} {e : Expr} :
    IsPath limit ts e → limit ≤ limit' → IsPath limit' ts e
  | .primary h, hle => .primary (h.mono hle)
  | .length tag h hdot ht, hle => .length tag (h.mono hle) hdot ht
  | .field tag tag' h hdot hname, hle => .field tag tag' (h.mono hle) hdot hname
  | .method tag h hdot hname hargs, hle => .method tag (h.mono hle) hdot hname hargs
  | .index tag tag' h hl hi hr, hle => .index tag tag' (h.mono hle) hl hi hr

/-- What may stand where numbers are at most `limit` may stand where they may be larger. -/
theorem IsOperand.mono {limit limit' : Nat} {ts : List Token} {e : Expr}
    (h : IsOperand limit ts e) (hle : limit ≤ limit') : IsOperand limit' ts e := by
  cases h with
  | unary tag ht he => exact .unary tag ht he
  | path h => exact .path (h.mono hle)

theorem isPrimary_literal? {limit : Nat} {number : Reading (Parsed s 1 Expr)} {r : Parsed s 1 Expr}
    (h : literal? limit s = some number) (hr : number = .ok r) :
    ∃ ts, s.tokens = ts ++ r.rest.tokens ∧ IsPrimary limit ts r.value := by
  obtain ⟨⟨t, rest, used⟩, ht, rfl⟩ := Option.map_eq_some_iff.1 h
  obtain ⟨htokens, hkind⟩ := take?_eq ht
  simp only at hr htokens hkind
  split_ifs at hr with hlimit
  cases hr
  exact ⟨[t], htokens, .number _ hkind hlimit⟩

theorem isConstant_constantOf? {t : Token} {e : Expr} (h : constantOf? s t = some e) :
    IsConstant t e := by
  unfold constantOf? at h
  split at h <;> cases h
  · exact .true _ ‹_›
  · exact .false _ ‹_›
  · exact .null _ ‹_›
  · exact .this _ ‹_›

mutual

theorem isExpr_expression {level : Nat} {s : Stream} {r : Parsed s 1 Expr}
    (h : expression level s = .ok r) : ∃ ts, s.tokens = ts ++ r.rest.tokens ∧
      IsExpr level ts r.value ∧ ∀ op, nextOp? r.rest.tokens = some op → op.level < level := by
  rw [expression] at h
  obtain ⟨⟨left, s₁, h₁⟩, hl, h⟩ := bind_eq_ok.1 h
  obtain ⟨⟨e, s₂, h₂⟩, ho, h⟩ := bind_eq_ok.1 h
  cases h
  obtain ⟨ls, hls, hleft⟩ := isOperand_operand hl
  obtain ⟨us, hus, he, hnext⟩ := isExpr_operations (.operand hleft) (fun _ _ _ => .operand hleft) ho
  exact ⟨ls ++ us, by rw [hls, List.append_assoc, ← hus], he, hnext⟩
termination_by (s.size, 3)

theorem isExpr_operations {level : Nat} {left : Expr} {ls : List Token} {s : Stream}
    {r : Parsed s 0 Expr} (hleft : IsExpr level ls left)
    (htop : ∀ op, nextOp? s.tokens = some op → level ≤ op.level → IsExpr op.level ls left)
    (h : operations level left s = .ok r) : ∃ us, s.tokens = us ++ r.rest.tokens ∧
      IsExpr level (ls ++ us) r.value ∧
        ∀ op, nextOp? r.rest.tokens = some op → op.level < level := by
  rw [operations] at h
  split at h
  · next op s₁ h₁ hn =>
    obtain ⟨t, ht, hop⟩ := next?_eq hn
    simp only at ht hop
    have hnext : nextOp? s.tokens = some op := by simp [nextOp?, ht, hop]
    split_ifs at h with hlevel
    · cases h
      refine ⟨[], rfl, by simpa using hleft, fun op' hop' => ?_⟩
      obtain rfl := Option.some.inj (hnext.symm.trans hop')
      exact hlevel
    · obtain ⟨⟨right, s₂, h₂⟩, hr, h⟩ := bind_eq_ok.1 h
      obtain ⟨⟨e, s₃, h₃⟩, ho, h⟩ := bind_eq_ok.1 h
      cases h
      obtain ⟨rs, hrs, hright, hstop⟩ := isExpr_expression hr
      have hbinary (level : Nat) (hle : level ≤ op.level) :
          IsExpr level (ls ++ t :: rs)
            (.binary (s₂.tag (left.span.merge right.span)) op left right) :=
        .binary _ hle (htop op hnext (Nat.not_lt.1 hlevel)) (binaryOf?_eq_some.1 hop) hright
      obtain ⟨us, hus, he, hend⟩ := isExpr_operations (s := s₂.bump)
        (hbinary level (Nat.not_lt.1 hlevel))
        (fun op' hop' _ => hbinary _ (Nat.lt_succ_iff.1 (hstop op' hop'))) ho
      refine ⟨t :: (rs ++ us), ?_, by simpa using he, hend⟩
      rw [ht, hrs, List.cons_append, List.append_assoc, ← hus]
      rfl
  · next hn =>
    cases h
    refine ⟨[], rfl, by simpa using hleft, fun op hop => ?_⟩
    rw [nextOp?, next?_eq_none hn] at hop
    simp at hop
termination_by (s.size, 0)

theorem isOperand_operand {s : Stream} {r : Parsed s 1 Expr} (h : operand s = .ok r) :
    ∃ ts, s.tokens = ts ++ r.rest.tokens ∧ IsOperand maxLiteral ts r.value := by
  rw [operand] at h
  split at h
  · next op start s₁ h₁ hn =>
    obtain ⟨t, ht, hop⟩ := next?_eq hn
    have hkind := (unaryOf?_eq_some.1 hop).1
    simp only at h ht
    split at h
    · next number hlit =>
      obtain ⟨⟨e, s₂, h₂⟩, hnum, h⟩ := bind_eq_ok.1 h
      obtain ⟨⟨e', s₃, h₃⟩, hacc, h⟩ := bind_eq_ok.1 h
      cases h
      split_ifs at hlit with hneg
      subst hneg
      obtain ⟨ts, hts, hprimary⟩ := isPrimary_literal? hlit hnum
      obtain ⟨us, hus, hpath⟩ := isPath_accesses (.primary hprimary) hacc
      refine ⟨t :: (ts ++ us), ?_, .unary _ hkind (.path hpath)⟩
      simp only at hts hus
      simp [ht, hts, hus, Stream.bump]
    · next hlit =>
      obtain ⟨⟨e, s₂, h₂⟩, he, h⟩ := bind_eq_ok.1 h
      cases h
      obtain ⟨ts, hts, hoperand⟩ := isOperand_operand he
      refine ⟨t :: ts, ?_, .unary _ hkind (hoperand.mono ?_)⟩
      · rw [ht, hts]
        rfl
      · cases op <;> decide
  · obtain ⟨⟨e, s₁, h₁⟩, hp, h⟩ := bind_eq_ok.1 h
    obtain ⟨⟨e', s₂, h₂⟩, ha, h⟩ := bind_eq_ok.1 h
    cases h
    obtain ⟨ts, hts, hprimary⟩ := isPrimary_primary hp
    obtain ⟨us, hus, hpath⟩ := isPath_accesses (.primary hprimary) ha
    exact ⟨ts ++ us, by rw [hts, List.append_assoc, ← hus], .path hpath⟩
termination_by (s.size, 2)

theorem isPath_accesses {limit : Nat} {e : Expr} {ts : List Token} {s : Stream}
    {r : Parsed s 0 Expr} (he : IsPath limit ts e) (h : accesses e s = .ok r) :
    ∃ us, s.tokens = us ++ r.rest.tokens ∧ IsPath limit (ts ++ us) r.value := by
  rw [accesses] at h
  split at h
  · next dot s₁ h₁ hdot =>
    obtain ⟨hd, hdot⟩ := take?_eq hdot
    simp only at hd hdot
    split at h
    · next t s₂ h₂ hlen =>
      obtain ⟨ht, hlen⟩ := take?_eq hlen
      simp only at ht hlen
      obtain ⟨⟨e', s₃, h₃⟩, ha, h⟩ := bind_eq_ok.1 h
      cases h
      obtain ⟨us, hus, hpath⟩ := isPath_accesses (s := s₂.bump) (.length _ he hdot hlen) ha
      refine ⟨dot :: t :: us, ?_, by simpa using hpath⟩
      rw [hd, ht]
      exact congrArg (dot :: t :: ·) hus
    · obtain ⟨⟨name, s₂, h₂⟩, hname, h⟩ := bind_eq_ok.1 h
      obtain ⟨t, ht, hname⟩ := ident_eq hname
      simp only at h ht hname
      split_ifs at h
      · obtain ⟨⟨args, s₃, h₃⟩, hargs, h⟩ := bind_eq_ok.1 h
        obtain ⟨⟨e', s₄, h₄⟩, ha, h⟩ := bind_eq_ok.1 h
        cases h
        obtain ⟨as, has, hargs⟩ := isArguments_arguments hargs
        obtain ⟨us, hus, hpath⟩ := isPath_accesses (s := s₃.bump) (.method _ he hdot hname hargs) ha
        refine ⟨dot :: t :: (as ++ us), ?_, by simpa using hpath⟩
        rw [hd, ht, has, List.cons_append, List.cons_append, List.append_assoc, ← hus]
        rfl
      · obtain ⟨⟨e', s₃, h₃⟩, ha, h⟩ := bind_eq_ok.1 h
        cases h
        obtain ⟨us, hus, hpath⟩ := isPath_accesses (s := s₂.bump.bump) (.field _ _ he hdot hname) ha
        refine ⟨dot :: t :: us, ?_, by simpa using hpath⟩
        rw [hd, ht]
        exact congrArg (dot :: t :: ·) hus
  · split at h
    · next l s₁ h₁ hopen =>
      obtain ⟨hl, hopen⟩ := take?_eq hopen
      obtain ⟨⟨index, s₂, h₂⟩, hi, h⟩ := bind_eq_ok.1 h
      obtain ⟨⟨close, s₃, h₃⟩, hclose, h⟩ := bind_eq_ok.1 h
      obtain ⟨⟨e', s₄, h₄⟩, ha, h⟩ := bind_eq_ok.1 h
      cases h
      obtain ⟨is, his, hindex, _⟩ := isExpr_expression hi
      obtain ⟨hr, hclose⟩ := expect_eq hclose
      simp only at hl hopen hr hclose
      obtain ⟨us, hus, hpath⟩ := isPath_accesses (s := s₃.bump.bump)
        (.index _ _ he hopen hindex hclose) ha
      refine ⟨l :: (is ++ close :: us), ?_, by simpa using hpath⟩
      simp only at his
      rw [hl, his, hr, List.cons_append, List.append_assoc]
      exact congrArg (fun us => l :: (is ++ close :: us)) hus
    · cases h
      exact ⟨[], rfl, by simpa using he⟩
termination_by (s.size, 0)

theorem isPrimary_primary {s : Stream} {r : Parsed s 1 Expr} (h : primary s = .ok r) :
    ∃ ts, s.tokens = ts ++ r.rest.tokens ∧ IsPrimary maxLiteral ts r.value := by
  rw [primary] at h
  split at h
  · next hlit => exact isPrimary_literal? hlit h
  · split at h
    · next e s₁ h₁ hn =>
      cases h
      obtain ⟨t, ht, hc⟩ := next?_eq hn
      exact ⟨[t], ht, .constant (isConstant_constantOf? hc)⟩
    · split at h
      · next l s₁ h₁ hopen =>
        obtain ⟨⟨e, s₂, h₂⟩, he, h⟩ := bind_eq_ok.1 h
        obtain ⟨⟨close, s₃, h₃⟩, hclose, h⟩ := bind_eq_ok.1 h
        cases h
        obtain ⟨hl, hopen⟩ := take?_eq hopen
        obtain ⟨ts, hts, he, _⟩ := isExpr_expression he
        obtain ⟨hr, hclose⟩ := expect_eq hclose
        simp only at hl hopen hts hr hclose
        refine ⟨l :: (ts ++ [close]), ?_, .paren hopen he hclose⟩
        rw [hl, hts, hr]
        simp
      · split at h
        · next start s₁ h₁ hnew =>
          obtain ⟨⟨e, s₂, h₂⟩, he, h⟩ := bind_eq_ok.1 h
          cases h
          obtain ⟨hstart, hnew⟩ := take?_eq hnew
          obtain ⟨ts, hts, he⟩ : ∃ ts, _ ∧ IsPrimary maxLiteral (start :: ts) _ :=
            isPrimary_creation hnew he
          exact ⟨start :: ts, by rw [hstart, hts]; rfl, he⟩
        · split at h
          · next name s₁ h₁ hn =>
            obtain ⟨t, ht, hname⟩ := next?_eq hn
            have hname := identOf?_eq hname
            simp only at ht hname
            split_ifs at h
            · obtain ⟨⟨args, s₂, h₂⟩, hargs, h⟩ := bind_eq_ok.1 h
              cases h
              obtain ⟨ts, hts, hargs⟩ := isArguments_arguments hargs
              exact ⟨t :: ts, by rw [ht, hts]; rfl, .call _ hname hargs⟩
            · cases h
              exact ⟨[t], ht, .var _ _ hname⟩
          · simp at h
termination_by (s.size, 1)

theorem isPrimary_creation {start : Span} {limit : Nat} {new : Token} {s : Stream}
    {r : Parsed s 1 Expr} (hnew : new.kind = .keyword .newExpr) (h : creation start s = .ok r) :
    ∃ ts, s.tokens = ts ++ r.rest.tokens ∧ IsPrimary limit (new :: ts) r.value := by
  rw [creation] at h
  split at h
  · obtain ⟨⟨name, s₁, h₁⟩, hname, h⟩ := bind_eq_ok.1 h
    obtain ⟨⟨l, s₂, h₂⟩, hopen, h⟩ := bind_eq_ok.1 h
    obtain ⟨⟨close, s₃, h₃⟩, hclose, h⟩ := bind_eq_ok.1 h
    cases h
    obtain ⟨t, ht, hname⟩ := ident_eq hname
    obtain ⟨hl, hopen⟩ := expect_eq hopen
    obtain ⟨hr, hclose⟩ := expect_eq hclose
    simp only at ht hname hl hopen hr hclose
    refine ⟨[t, l, close], ?_, .newObject _ hnew hname hopen hclose⟩
    rw [ht, hl, hr]
    rfl
  · obtain ⟨⟨base, s₁, h₁⟩, hbase, h⟩ := bind_eq_ok.1 h
    obtain ⟨⟨l, s₂, h₂⟩, hopen, h⟩ := bind_eq_ok.1 h
    obtain ⟨⟨size, s₃, h₃⟩, hsize, h⟩ := bind_eq_ok.1 h
    obtain ⟨⟨close, s₄, h₄⟩, hclose, h⟩ := bind_eq_ok.1 h
    obtain ⟨t, ht, hbase⟩ := isBase_baseType hbase
    obtain ⟨hl, hopen⟩ := expect_eq hopen
    obtain ⟨ts, hts, hsize, _⟩ := isExpr_expression hsize
    obtain ⟨hr, hclose⟩ := expect_eq hclose
    obtain ⟨us, hus, harrays⟩ := isArrays_arraysOf base close.span s₄ .base
    simp only at h ht hbase hl hopen hts hr hclose
    cases h
    refine ⟨t :: l :: (ts ++ close :: us), ?_, .newArray _ hnew hbase hopen hsize hclose harrays⟩
    rw [ht, hl, hts, hr, hus]
    simp [Stream.bump]
termination_by (s.size, 0)

theorem isArguments_arguments {s : Stream} {r : Parsed s 1 (List Expr)}
    (h : arguments s = .ok r) :
    ∃ ts, s.tokens = ts ++ r.rest.tokens ∧ IsArguments ts r.value := by
  rw [arguments] at h
  obtain ⟨⟨l, s₁, h₁⟩, hopen, h⟩ := bind_eq_ok.1 h
  obtain ⟨hl, hopen⟩ := expect_eq hopen
  simp only at h hl hopen
  split at h
  · next close s₂ h₂ hclose =>
    cases h
    obtain ⟨hr, hclose⟩ := take?_eq hclose
    exact ⟨[l, close], by rw [hl, hr]; rfl, .none hopen hclose⟩
  · obtain ⟨⟨args, s₂, h₂⟩, hargs, h⟩ := bind_eq_ok.1 h
    obtain ⟨⟨close, s₃, h₃⟩, hclose, h⟩ := bind_eq_ok.1 h
    cases h
    obtain ⟨ts, hts, hargs⟩ := isExprs_expressions hargs
    obtain ⟨hr, hclose⟩ := expect_eq hclose
    simp only at hts hr hclose
    refine ⟨l :: (ts ++ [close]), ?_, .some hopen hargs hclose⟩
    rw [hl, hts, hr]
    simp
termination_by (s.size, 0)

theorem isExprs_expressions {s : Stream} {r : Parsed s 1 (List Expr)}
    (h : expressions s = .ok r) : ∃ ts, s.tokens = ts ++ r.rest.tokens ∧ IsExprs ts r.value := by
  rw [expressions] at h
  obtain ⟨⟨e, s₁, h₁⟩, he, h⟩ := bind_eq_ok.1 h
  obtain ⟨ts, hts, he, _⟩ := isExpr_expression he
  simp only at h hts he
  split at h
  · next comma s₂ h₂ hcomma =>
    obtain ⟨⟨es, s₃, h₃⟩, hes, h⟩ := bind_eq_ok.1 h
    cases h
    obtain ⟨hc, hcomma⟩ := take?_eq hcomma
    obtain ⟨us, hus, hes⟩ := isExprs_expressions hes
    simp only at hc hcomma hus
    refine ⟨ts ++ comma :: us, ?_, .cons he hcomma hes⟩
    rw [hts, hc, hus]
    simp
  · cases h
    exact ⟨ts, hts, .one he⟩
termination_by (s.size, 4)

end

end expressions

section statements

theorem isDecl_declaration {r : Parsed s 1 VarDecl} (h : declaration s = .ok r) :
    ∃ ts, s.tokens = ts ++ r.rest.tokens ∧ IsDecl ts r.value := by
  simp only [declaration, Parsed.andThen, bind_eq_ok] at h
  obtain ⟨type, ht, name, ⟨n, hn, hname⟩, close, ⟨c, hc, hclose⟩, hr⟩ := h
  cases hname
  cases hclose
  cases hr
  obtain ⟨ts, hts, htype⟩ := isType_typeExpr ht
  obtain ⟨t, ht, hname⟩ := ident_eq hn
  obtain ⟨hc, hclose⟩ := expect_eq hc
  refine ⟨ts ++ [t, c.value], ?_, .intro _ htype hname hclose⟩
  simp only [Parsed.join] at hc
  rw [hts, ht, hc, List.append_assoc]
  rfl

theorem isCondition_condition {r : Parsed s 1 Expr} (h : condition s = .ok r) :
    ∃ ts, s.tokens = ts ++ r.rest.tokens ∧ IsCondition ts r.value := by
  simp only [condition, Parsed.andThen, bind_eq_ok] at h
  obtain ⟨start, hs, e, ⟨e', he', he⟩, close, ⟨c, hc, hclose⟩, hr⟩ := h
  cases he
  cases hclose
  cases hr
  obtain ⟨hl, hopen⟩ := expect_eq hs
  obtain ⟨ts, hts, he, _⟩ := isExpr_expression he'
  obtain ⟨hr, hclose⟩ := expect_eq hc
  simp only [Parsed.join] at hr
  refine ⟨start.value :: (ts ++ [c.value]), ?_, .intro hopen he hclose⟩
  rw [hl, hts, hr]
  simp [Parsed.join, Parsed.map]

theorem isStmt_evaluation {r : Parsed s 1 Stmt} (h : evaluation s = .ok r) :
    (∃ ts, s.tokens = ts ++ r.rest.tokens ∧ IsStmt ts r.value) ∧ r.value.NearestElse ∧
      r.value.isOpen = false := by
  obtain ⟨e, he, h⟩ := bind_eq_ok.1 h
  obtain ⟨ts, hts, he, _⟩ := isExpr_expression he
  split at h
  · next sign hsign =>
    obtain ⟨hs, hsign⟩ := take?_eq hsign
    split at h
    · next tag target hread =>
      simp only [Parsed.andThen, bind_eq_ok] at h
      obtain ⟨value, ⟨v, hv, hvalue⟩, close, ⟨c, hc, hclose⟩, hr⟩ := h
      cases hvalue
      cases hclose
      cases hr
      obtain ⟨us, hus, hv, _⟩ := isExpr_expression hv
      obtain ⟨hc, hclose⟩ := expect_eq hc
      simp only [Parsed.join] at hus hc
      rw [hread] at he
      refine ⟨⟨ts ++ sign.value :: (us ++ [c.value]), ?_, .assign _ he hsign hv hclose⟩,
        trivial, rfl⟩
      rw [hts, hs, hus, hc]
      simp [Parsed.join, Parsed.map]
    · simp at h
  · simp only [Parsed.andThen, bind_eq_ok] at h
    obtain ⟨close, ⟨c, hc, hclose⟩, hr⟩ := h
    cases hclose
    cases hr
    obtain ⟨hc, hclose⟩ := expect_eq hc
    refine ⟨⟨ts ++ [c.value], ?_, .eval he hclose⟩, trivial, rfl⟩
    rw [hts, hc]
    simp [Parsed.join, Parsed.map]

mutual

theorem isStmt_statement {s : Stream} {r : Parsed s 1 Stmt} (h : statement s = .ok r) :
    (∃ ts, s.tokens = ts ++ r.rest.tokens ∧ IsStmt ts r.value) ∧ r.value.NearestElse ∧
      (r.value.isOpen = true → ¬ Starts (.keyword .elseStmt) r.rest.tokens) := by
  rw [statement] at h
  split at h
  · next start s₁ h₁ hstart =>
    obtain ⟨⟨test, s₂, h₂⟩, htest, h⟩ := bind_eq_ok.1 h
    obtain ⟨⟨onTrue, s₃, h₃⟩, htrue, h⟩ := bind_eq_ok.1 h
    obtain ⟨hs, hstart⟩ := take?_eq hstart
    obtain ⟨ts, hts, htest⟩ := isCondition_condition htest
    obtain ⟨⟨us, hus, htrue⟩, hnearest, hopen⟩ := isStmt_statement htrue
    simp only at h hs hstart hts hus hnearest hopen
    split at h
    · next other s₄ h₄ helse =>
      obtain ⟨⟨onFalse, s₅, h₅⟩, hfalse, h⟩ := bind_eq_ok.1 h
      cases h
      obtain ⟨ho, helse⟩ := take?_eq helse
      obtain ⟨⟨vs, hvs, hfalse⟩, hnearest', hopen'⟩ := isStmt_statement hfalse
      simp only at ho helse hvs hnearest' hopen'
      have hclosed : onTrue.isOpen = false := by
        rw [Bool.eq_false_iff]
        exact fun hon => hopen hon (by simp [Starts, ho, helse])
      refine ⟨⟨start :: (ts ++ (us ++ other :: vs)), ?_, .branchElse _ hstart htest htrue helse
        hfalse⟩, ⟨hnearest, hclosed, hnearest'⟩, hopen'⟩
      simp [hs, hts, hus, ho, hvs]
    · next helse =>
      cases h
      refine ⟨⟨start :: (ts ++ us), ?_, .branch _ hstart htest htrue⟩, hnearest,
        fun _ => take?_eq_none helse⟩
      simp [hs, hts, hus]
  · split at h
    · next start s₁ h₁ hstart =>
      obtain ⟨⟨test, s₂, h₂⟩, htest, h⟩ := bind_eq_ok.1 h
      obtain ⟨⟨body, s₃, h₃⟩, hbody, h⟩ := bind_eq_ok.1 h
      cases h
      obtain ⟨hs, hstart⟩ := take?_eq hstart
      obtain ⟨ts, hts, htest⟩ := isCondition_condition htest
      obtain ⟨⟨us, hus, hbody⟩, hnearest, hopen⟩ := isStmt_statement hbody
      simp only at hs hstart hts hus
      refine ⟨⟨start :: (ts ++ us), ?_, .loop _ hstart htest hbody⟩, hnearest, hopen⟩
      simp [hs, hts, hus]
    · split at h
      · next start s₁ h₁ hstart =>
        obtain ⟨⟨value, s₂, h₂⟩, hvalue, h⟩ := bind_eq_ok.1 h
        obtain ⟨⟨close, s₃, h₃⟩, hclose, h⟩ := bind_eq_ok.1 h
        cases h
        obtain ⟨hs, hstart⟩ := take?_eq hstart
        obtain ⟨ts, hts, hvalue, _⟩ := isExpr_expression hvalue
        obtain ⟨hc, hclose⟩ := expect_eq hclose
        simp only at hs hstart hts hc hclose
        refine ⟨⟨start :: (ts ++ [close]), ?_, .return _ hstart hvalue hclose⟩, trivial,
          Bool.noConfusion⟩
        simp [hs, hts, hc]
      · split at h
        · obtain ⟨⟨⟨span, body⟩, s₁, h₁⟩, hbody, h⟩ := bind_eq_ok.1 h
          cases h
          obtain ⟨⟨ts, hts, hbody⟩, hnearest⟩ := isBlock_block hbody
          exact ⟨⟨ts, hts, .block _ hbody⟩, hnearest, Bool.noConfusion⟩
        · obtain ⟨hstmt, hnearest, hopen⟩ := isStmt_evaluation h
          exact ⟨hstmt, hnearest, fun hon => (Bool.false_ne_true (hopen.symm.trans hon)).elim⟩
termination_by (s.size, 1)

theorem isBlock_block {s : Stream} {r : Parsed s 1 (Span × List Stmt)} (h : block s = .ok r) :
    (∃ ts, s.tokens = ts ++ r.rest.tokens ∧ IsBlock ts r.value.2) ∧ NearestElseIn r.value.2 := by
  rw [block] at h
  obtain ⟨⟨start, s₁, h₁⟩, hopen, h⟩ := bind_eq_ok.1 h
  obtain ⟨⟨body, s₂, h₂⟩, hbody, h⟩ := bind_eq_ok.1 h
  obtain ⟨⟨close, s₃, h₃⟩, hclose, h⟩ := bind_eq_ok.1 h
  cases h
  obtain ⟨hl, hopen⟩ := expect_eq hopen
  obtain ⟨⟨ts, hts, hbody⟩, hnearest⟩ := isItems_blockItems hbody
  obtain ⟨hr, hclose⟩ := expect_eq hclose
  simp only at hl hopen hts hr hclose
  refine ⟨⟨start :: (ts ++ [close]), ?_, .intro hopen hbody hclose⟩, hnearest⟩
  simp [hl, hts, hr]
termination_by (s.size, 0)

theorem isItems_blockItems {s : Stream} {r : Parsed s 0 (List Stmt)}
    (h : blockItems s = .ok r) :
    (∃ ts, s.tokens = ts ++ r.rest.tokens ∧ IsItems ts r.value) ∧ NearestElseIn r.value := by
  rw [blockItems] at h
  split_ifs at h
  · cases h
    exact ⟨⟨[], rfl, .nil⟩, trivial⟩
  · obtain ⟨⟨item, s₁, h₁⟩, hitem, h⟩ := bind_eq_ok.1 h
    obtain ⟨⟨items, s₂, h₂⟩, hitems, h⟩ := bind_eq_ok.1 h
    cases h
    obtain ⟨⟨us, hus, hrest⟩, hnearest⟩ := isItems_blockItems hitems
    obtain ⟨⟨ts, hts, hitem⟩, hnearest'⟩ := isItems_blockItem hitem
    refine ⟨⟨ts ++ us, ?_, hitem us items hrest⟩, hnearest', hnearest⟩
    simp only at hts hus
    simp [hts, hus]
termination_by (s.size, 3)

theorem isItems_blockItem {s : Stream} {r : Parsed s 1 Stmt} (h : blockItem s = .ok r) :
    (∃ ts, s.tokens = ts ++ r.rest.tokens ∧
      ∀ us items, IsItems us items → IsItems (ts ++ us) (r.value :: items)) ∧
        r.value.NearestElse := by
  rw [blockItem] at h
  split_ifs at h
  · obtain ⟨⟨decl, s₁, h₁⟩, hdecl, h⟩ := bind_eq_ok.1 h
    cases h
    obtain ⟨ts, hts, hdecl⟩ := isDecl_declaration hdecl
    exact ⟨⟨ts, hts, fun _ _ hrest => .declare hdecl hrest⟩, trivial⟩
  · obtain ⟨⟨ts, hts, hstmt⟩, hnearest, _⟩ := isStmt_statement h
    exact ⟨⟨ts, hts, fun _ _ hrest => .stmt hstmt hrest⟩, hnearest⟩
termination_by (s.size, 2)

end

end statements

section declarations

theorem isParams_parameter {r : Parsed s 1 VarDecl} (h : parameter s = .ok r) :
    ∃ tag ts t, s.tokens = ts ++ t :: r.rest.tokens ∧ ∃ type name, IsType ts type ∧
      IsName t name ∧ r.value = ⟨tag, type, name⟩ := by
  simp only [parameter, Parsed.andThen, bind_eq_ok] at h
  obtain ⟨type, ht, name, ⟨n, hn, hname⟩, hr⟩ := h
  cases hname
  cases hr
  obtain ⟨ts, hts, htype⟩ := isType_typeExpr ht
  obtain ⟨t, ht, hname⟩ := ident_eq hn
  exact ⟨_, ts, t, by rw [hts, ht]; rfl, _, _, htype, hname, rfl⟩

theorem isParams_parameters {s : Stream} {r : Parsed s 1 (List VarDecl)}
    (h : parameters s = .ok r) : ∃ ts, s.tokens = ts ++ r.rest.tokens ∧ IsParams ts r.value := by
  rw [parameters] at h
  obtain ⟨p, hp, h⟩ := bind_eq_ok.1 h
  obtain ⟨tag, ts, t, hts, type, name, htype, hname, hvalue⟩ := isParams_parameter hp
  split at h
  · next comma hcomma =>
    obtain ⟨ps, hps, h⟩ := bind_eq_ok.1 h
    cases h
    have hused := comma.used
    obtain ⟨hc, hcomma⟩ := take?_eq hcomma
    obtain ⟨us, hus, hparams⟩ := isParams_parameters hps
    refine ⟨ts ++ t :: comma.value :: us, ?_, ?_⟩
    · simp [hts, hc, hus, Parsed.join, Parsed.map]
    · simp only [Parsed.join, Parsed.map, hvalue]
      exact .cons _ htype hname hcomma hparams
  · cases h
    refine ⟨ts ++ [t], ?_, ?_⟩
    · simp [hts, Parsed.map]
    · simp only [Parsed.map, hvalue]
      exact .one _ htype hname
termination_by s.size
decreasing_by
  have := p.used
  omega

theorem isParamList_parameterList {r : Parsed s 1 (List VarDecl)}
    (h : parameterList s = .ok r) :
    ∃ ts, s.tokens = ts ++ r.rest.tokens ∧ IsParamList ts r.value := by
  obtain ⟨start, hstart, h⟩ := bind_eq_ok.1 h
  obtain ⟨hl, hstart⟩ := expect_eq hstart
  split at h
  · next close hclose =>
    cases h
    obtain ⟨hr, hclose⟩ := take?_eq hclose
    refine ⟨[start.value, close.value], ?_, .none hstart hclose⟩
    simp [hl, hr, Parsed.join, Parsed.map]
  · simp only [Parsed.andThen, bind_eq_ok] at h
    obtain ⟨params, ⟨ps, hps, hparams⟩, close, ⟨c, hc, hclose⟩, hr⟩ := h
    cases hparams
    cases hclose
    cases hr
    obtain ⟨ts, hts, hparams⟩ := isParams_parameters hps
    obtain ⟨hc, hclose⟩ := expect_eq hc
    simp only [Parsed.join] at hc
    refine ⟨start.value :: (ts ++ [c.value]), ?_, .some hstart hparams hclose⟩
    simp [hl, hts, hc, Parsed.join, Parsed.map]

/-- A function with the type and the name that stand before it. -/
theorem isFunction_functionBehind {returnType : TypeExpr} {name : Ident} {ts : List Token}
    {t : Token} {r : Parsed s 1 FunctionDecl} (htype : IsType ts returnType)
    (hname : IsName t name) (h : functionBehind returnType name s = .ok r) :
    ∃ us, s.tokens = us ++ r.rest.tokens ∧ IsFunction (ts ++ t :: us) r.value ∧
      NearestElseIn r.value.body := by
  obtain ⟨⟨params, s₁, h₁⟩, hparams, h⟩ := bind_eq_ok.1 h
  obtain ⟨⟨⟨bodySpan, body⟩, s₂, h₂⟩, hbody, h⟩ := bind_eq_ok.1 h
  cases h
  obtain ⟨us, hus, hparams⟩ := isParamList_parameterList hparams
  obtain ⟨⟨vs, hvs, hbody⟩, hnearest⟩ := isBlock_block hbody
  refine ⟨us ++ vs, ?_, .intro _ _ htype hname hparams hbody, hnearest⟩
  rw [List.append_assoc]
  exact hus.trans (congrArg _ hvs)

/-- A field or a method, before further members. -/
theorem isMembers_member {r : Parsed s 1 Member} (h : member s = .ok r) :
    ∃ ts, s.tokens = ts ++ r.rest.tokens ∧ (∀ us fields methods, IsMembers us fields methods →
      IsMembers (ts ++ us) (r.value.field?.toList ++ fields) (r.value.method?.toList ++ methods)) ∧
        ∀ f ∈ r.value.method?, NearestElseIn f.body := by
  simp only [member, Parsed.andThen, bind_eq_ok] at h
  obtain ⟨type, ht, name, ⟨n, hn, hname⟩, h⟩ := h
  cases hname
  obtain ⟨ts, hts, htype⟩ := isType_typeExpr ht
  obtain ⟨t, ht, hname⟩ := ident_eq hn
  split_ifs at h
  · obtain ⟨decl, hdecl, h⟩ := bind_eq_ok.1 h
    obtain ⟨f, hf, hdecl⟩ := bind_eq_ok.1 hdecl
    cases hdecl
    cases h
    obtain ⟨us, hus, hfunction, hnearest⟩ := isFunction_functionBehind htype hname hf
    refine ⟨ts ++ t :: us, ?_, fun vs fields methods hrest => .method hfunction hrest, ?_⟩
    · simp only [Parsed.join] at hus
      simp [hts, ht, hus, Parsed.join, Parsed.map]
    · rintro _ ⟨⟩
      exact hnearest
  · obtain ⟨close, hclose, h⟩ := bind_eq_ok.1 h
    obtain ⟨c, hc, hclose⟩ := bind_eq_ok.1 hclose
    cases hclose
    cases h
    obtain ⟨hc, hclose⟩ := expect_eq hc
    refine ⟨ts ++ [t, c.value], ?_, fun vs fields methods hrest =>
      .field (.intro _ htype hname hclose) hrest, by simp [Parsed.node, Member.method?]⟩
    simp only [Parsed.join] at hc
    simp [hts, ht, hc, Parsed.join, Parsed.node, Stream.bump]

theorem isMembers_members {s : Stream} {r : Parsed s 0 (List Member)} (h : members s = .ok r) :
    ∃ ts, s.tokens = ts ++ r.rest.tokens ∧
      IsMembers ts (r.value.filterMap Member.field?) (r.value.filterMap Member.method?) ∧
        ∀ f ∈ r.value.filterMap Member.method?, NearestElseIn f.body := by
  rw [members] at h
  split_ifs at h
  · cases h
    exact ⟨[], rfl, .nil, by simp⟩
  · obtain ⟨m, hm, h⟩ := bind_eq_ok.1 h
    obtain ⟨ms, hms, h⟩ := bind_eq_ok.1 h
    cases h
    obtain ⟨ts, hts, hmember, hnearest⟩ := isMembers_member hm
    obtain ⟨us, hus, hmembers, hnearest'⟩ := isMembers_members hms
    refine ⟨ts ++ us, by simp [hts, hus, Parsed.join, Parsed.map, Parsed.weaken], ?_, ?_⟩
    · have h := hmember us _ _ hmembers
      have hcons {α : Type} (f : Member → Option α) : (m.value :: ms.value).filterMap f =
          (f m.value).toList ++ ms.value.filterMap f := by
        cases hf : f m.value <;> simp [hf]
      simpa only [Parsed.weaken, Parsed.join, Parsed.map, hcons] using h
    · intro f hf
      obtain ⟨x, hx, hf⟩ := List.mem_filterMap.1 hf
      rcases List.mem_cons.1 hx with rfl | hx
      · exact hnearest f hf
      · exact hnearest' f (List.mem_filterMap.2 ⟨x, hx, hf⟩)
termination_by s.size
decreasing_by
  have := m.used
  omega

theorem isExtending_extending {r : Parsed s 0 (Option Ident)} (h : extending s = .ok r) :
    ∃ ts, s.tokens = ts ++ r.rest.tokens ∧ IsExtending ts r.value := by
  unfold extending at h
  split at h
  · next start hstart =>
    simp only [Parsed.andThen, bind_eq_ok] at h
    obtain ⟨name, ⟨n, hn, hname⟩, hr⟩ := h
    cases hname
    cases hr
    obtain ⟨hs, hstart⟩ := take?_eq hstart
    obtain ⟨t, ht, hname⟩ := ident_eq hn
    exact ⟨[start.value, t], by rw [hs, ht]; rfl, .some hstart hname⟩
  · cases h
    exact ⟨[], rfl, .none⟩

theorem isClass_classDecl {r : Parsed s 1 ClassDecl} (h : classDecl s = .ok r) :
    ∃ ts, s.tokens = ts ++ r.rest.tokens ∧ IsClass ts r.value ∧
      ∀ f ∈ r.value.methods, NearestElseIn f.body := by
  simp only [classDecl, Parsed.andThen, bind_eq_ok] at h
  obtain ⟨start, hs, name, ⟨n, hn, hname⟩, superclass, ⟨x, hx, hsuper⟩, opened, ⟨l, hl, hopened⟩,
    ms, ⟨m, hm, hms⟩, close, ⟨c, hc, hclose⟩, hr⟩ := h
  cases hname
  cases hsuper
  cases hopened
  cases hms
  cases hclose
  cases hr
  obtain ⟨hs, hstart⟩ := expect_eq hs
  obtain ⟨t, ht, hname⟩ := ident_eq hn
  obtain ⟨ts, hts, hextending⟩ := isExtending_extending hx
  obtain ⟨hl, hopen⟩ := expect_eq hl
  obtain ⟨us, hus, hmembers, hnearest⟩ := isMembers_members hm
  obtain ⟨hc, hclose⟩ := expect_eq hc
  simp only [Parsed.join, Parsed.bump, Stream.bump] at ht hts hl hus hc
  refine ⟨start.value :: t :: (ts ++ l.value :: (us ++ [c.value])), ?_,
    .intro _ hstart hname hextending hopen hmembers hclose, hnearest⟩
  simp [hs, ht, hts, hl, hus, hc, Parsed.join, Parsed.map]

theorem isFunction_functionDecl {r : Parsed s 1 FunctionDecl} (h : functionDecl s = .ok r) :
    ∃ ts, s.tokens = ts ++ r.rest.tokens ∧ IsFunction ts r.value ∧ NearestElseIn r.value.body := by
  simp only [functionDecl, Parsed.andThen, bind_eq_ok] at h
  obtain ⟨type, ht, name, ⟨n, hn, hname⟩, f, hf, hr⟩ := h
  cases hname
  cases hr
  obtain ⟨ts, hts, htype⟩ := isType_typeExpr ht
  obtain ⟨t, ht, hname⟩ := ident_eq hn
  obtain ⟨us, hus, hfunction, hnearest⟩ := isFunction_functionBehind htype hname hf
  refine ⟨ts ++ t :: us, ?_, hfunction, hnearest⟩
  simp only [Parsed.join] at hus
  simp [hts, ht, hus, Parsed.join]

/-- All tokens of a program belong to its classes and functions. -/
theorem isProgram_declarations {s : Stream} {r : Parsed s 0 (List ClassDecl × List FunctionDecl)}
    (h : declarations s = .ok r) : IsProgram s.tokens r.value.1 r.value.2 ∧
      (∀ f ∈ r.value.2, NearestElseIn f.body) ∧
        ∀ c ∈ r.value.1, ∀ f ∈ c.methods, NearestElseIn f.body := by
  rw [declarations] at h
  split_ifs at h with hempty
  · cases h
    rw [List.isEmpty_iff] at hempty
    rw [hempty]
    exact ⟨.nil, by simp, by simp⟩
  · obtain ⟨c, hc, h⟩ := bind_eq_ok.1 h
    obtain ⟨more, hmore, h⟩ := bind_eq_ok.1 h
    cases h
    obtain ⟨ts, hts, hclass, hnearest⟩ := isClass_classDecl hc
    obtain ⟨hprogram, hfunctions, hclasses⟩ := isProgram_declarations hmore
    rw [hts]
    exact ⟨.cls hclass hprogram, hfunctions, List.forall_mem_cons.2 ⟨hnearest, hclasses⟩⟩
  · obtain ⟨f, hf, h⟩ := bind_eq_ok.1 h
    obtain ⟨more, hmore, h⟩ := bind_eq_ok.1 h
    cases h
    obtain ⟨ts, hts, hfunction, hnearest⟩ := isFunction_functionDecl hf
    obtain ⟨hprogram, hfunctions, hclasses⟩ := isProgram_declarations hmore
    rw [hts]
    exact ⟨.function hfunction hprogram, List.forall_mem_cons.2 ⟨hnearest, hfunctions⟩, hclasses⟩
termination_by s.size
decreasing_by
  · have := c.used
    omega
  · have := f.used
    omega

end declarations

end Grammar
end ObjectLang
