import Mathlib.Tactic
import ObjectLang.Proofs.Parsing.Nesting
import ObjectLang.Proofs.Parsing.Soundness

/-!
# What is read stands in its place

Every reader gives nodes that are written as the tokens that it took, with spans that start at the
first of them. What operators and accesses make of an expression starts where the expression
starts, also if this is in parentheses and goes over several lines, and is longer.
-/
namespace ObjectLang.Parsing

open Grammar

variable {s : Stream}

section tokens

theorem last_next? {α : Type} {accept : Token → Option α} {r : Parsed s 1 α}
    (h : next? s accept = some r) : ∃ t, s.tokens = t :: r.rest.tokens ∧ r.rest.last = t.span := by
  unfold next? at h
  split at h
  · cases h
  · next t rest ht =>
    obtain ⟨a, _, rfl⟩ := Option.map_eq_some_iff.1 h
    exact ⟨t, ht, rfl⟩

theorem last_take? {kind : Token.Kind} {r : Parsed s 1 Token} (h : take? s kind = some r) :
    r.rest.last = r.value.span := by
  obtain ⟨t, ht, hlast⟩ := last_next? h
  rw [hlast, (List.cons.inj (ht.symm.trans (take?_eq h).1)).1]

theorem last_expect {kind : Token.Kind} {r : Parsed s 1 Token} (h : expect s kind = .ok r) :
    r.rest.last = r.value.span := by
  unfold expect at h
  split at h
  · next hr =>
    cases h
    exact last_take? hr
  · cases h

theorem sits_name {t : Token} {name : Ident} (h : identOf? t = some name) :
    (Phrase.name name).Sits [t] ∧ t.kind ≠ .symbol .leftParen ∧ name.span = t.span := by
  unfold identOf? at h
  split_ifs at h with hkind
  cases h
  have hne : t.kind ≠ .symbol .leftParen := by simp [hkind]
  exact ⟨Phrase.sits_of_token rfl ⟨hkind, rfl⟩ rfl, hne, rfl⟩

theorem sits_ident {r : Parsed s 1 Ident} (h : ident s = .ok r) :
    ∃ t, s.tokens = t :: r.rest.tokens ∧ (Phrase.name r.value).Sits [t] := by
  unfold ident at h
  split at h
  · next hr =>
    cases h
    obtain ⟨t, ht, ha⟩ := next?_eq hr
    exact ⟨t, ht, (sits_name ha).1⟩
  · cases h

end tokens

section types

theorem sits_baseType {r : Parsed s 1 TypeExpr} (h : baseType s = .ok r) :
    ∃ t, s.tokens = t :: r.rest.tokens ∧ (Phrase.type r.value).Sits [t] ∧
      t.kind ≠ .symbol .leftParen := by
  unfold baseType at h
  simp only at h
  split at h
  · next type rest used hr =>
    cases h
    obtain ⟨t, ht, ha⟩ := next?_eq hr
    refine ⟨t, ht, ?_⟩
    split at ha
    · next hkind =>
      cases ha
      have hfirst : t.kind ≠ .symbol .leftParen := by simp [hkind]
      exact ⟨Phrase.sits_of_token rfl hkind rfl, hfirst⟩
    · next hkind =>
      cases ha
      have hfirst : t.kind ≠ .symbol .leftParen := by simp [hkind]
      exact ⟨Phrase.sits_of_token rfl hkind rfl, hfirst⟩
    · next hkind =>
      cases ha
      obtain ⟨hname, hfirst, _⟩ := sits_name (if_pos hkind)
      exact ⟨Phrase.sits_of_phrase rfl hname rfl (.inl Nat.zero_lt_one), hfirst⟩
    · cases ha
  · cases h

/-- A type with the brackets behind it. If the last token so far is a bracket, the second value is
the place of the last one. -/
theorem sits_arraysOf (component : TypeExpr) (stop : Span) (s : Stream) {ts : List Token}
    (hts : (Phrase.type component).Sits ts) :
    ∃ us, s.tokens = us ++ (arraysOf component stop s).rest.tokens ∧
      (Phrase.type (arraysOf component stop s).value.1).Sits (ts ++ us) ∧
        ∀ r : Token, r.kind = .symbol .rightBracket → stop = r.span → ∃ init last,
          r :: us = init ++ [last] ∧ last.kind = .symbol .rightBracket ∧
            (arraysOf component stop s).value.2 = last.span := by
  rw [arraysOf]
  split
  · next close s₁ h₁ hb =>
    obtain ⟨l, htokens, hl, hr⟩ := brackets?_eq hb
    have harray : (Phrase.type (.array (s₁.tag (component.span.merge close.span)) component)).Sits
        (ts ++ ([l] ++ [close])) :=
      Phrase.sits_of_pieces [.phrase (.type component), .symbol .leftBracket]
        (p := .symbol .rightBracket) rfl (.phrase hts (.token hl .nil)) hts.begins
        (Piece.finishes_token hr (by simp_all)) rfl (by rintro _ ⟨⟩ _; rfl)
    obtain ⟨us, hus, htype, hlast⟩ := sits_arraysOf
      (.array (s₁.tag (component.span.merge close.span)) component) close.span s₁.bump harray
    refine ⟨l :: close :: us, ?_, by simpa using htype, fun r _ _ => ?_⟩
    · rw [htokens]
      exact congrArg (l :: close :: ·) hus
    · obtain ⟨init, last, heq, hkind, hspan⟩ := hlast close hr rfl
      exact ⟨r :: l :: init, last, by rw [heq]; rfl, hkind, hspan⟩
  · exact ⟨[], rfl, by simpa using hts, fun r hr hstop => ⟨[], r, rfl, hr, hstop⟩⟩
termination_by s.size
decreasing_by simp only [Stream.size_bump]; omega

theorem sits_typeExpr {r : Parsed s 1 TypeExpr} (h : typeExpr s = .ok r) :
    ∃ t ts, s.tokens = t :: (ts ++ r.rest.tokens) ∧ (Phrase.type r.value).Sits (t :: ts) ∧
      t.kind ≠ .symbol .leftParen := by
  simp only [typeExpr, Parsed.andThen, bind_eq_ok] at h
  obtain ⟨base, hb, found, ⟨more, hm, hf⟩, hr⟩ := h
  cases hm
  cases hf
  cases hr
  obtain ⟨t, ht, hbase, hfirst⟩ := sits_baseType hb
  obtain ⟨us, hus, htype, _⟩ := sits_arraysOf base.value base.value.span base.rest hbase
  exact ⟨t, us, by rw [ht, hus]; rfl, htype, hfirst⟩

end types

section expressions

/-- The pieces of some arguments. -/
def argumentPieces (es : List Expr) : List Piece :=
  (es.map fun e => Piece.operand (.expr e)).intersperse (.symbol .comma)

theorem sits_literal? {limit : Nat} {number : Reading (Parsed s 1 Expr)} {r : Parsed s 1 Expr}
    (h : literal? limit s = some number) (hr : number = .ok r) :
    ∃ t, s.tokens = t :: r.rest.tokens ∧ (Phrase.expr r.value).Sits [t] := by
  obtain ⟨⟨t, rest, used⟩, ht, rfl⟩ := Option.map_eq_some_iff.1 h
  obtain ⟨htokens, hkind⟩ := take?_eq ht
  simp only at hr htokens hkind
  split_ifs at hr with hlimit
  cases hr
  exact ⟨t, htokens, Phrase.sits_of_token rfl ⟨hkind, rfl⟩ rfl⟩

theorem sits_constantOf? {t : Token} {e : Expr} (h : constantOf? s t = some e) :
    (Phrase.expr e).Sits [t] := by
  unfold constantOf? at h
  split at h
  all_goals first
    | cases h
      exact Phrase.sits_of_token rfl ‹_› rfl
    | cases h

/-- A location that is read. -/
theorem sits_reading {ts : List Token} {span : Span} (location : Tag → Location)
    (h : (Phrase.location (location (s.tag span))).Sits ts)
    (hspan : (location (s.tag span)).span = span) :
    (Phrase.expr (reading s span location)).Sits ts :=
  Phrase.sits_of_phrase rfl h hspan.symm (Phrase.under_read hspan)

theorem sits_unary {tag : Tag} {op : UnaryOp} {t : Token} {e : Expr} {ts : List Token}
    (ht : t.kind = .symbol op.symbol) (he : (Phrase.expr e).SitsIn ts)
    (hspan : tag.span = t.span.merge e.span) :
    (Phrase.expr (.unary tag op e)).Sits (t :: ts) := by
  have hfirst : t.kind ≠ .symbol .leftParen := by
    cases op <;> simp [ht, UnaryOp.symbol]
  have hunary : (Phrase.expr (.unary tag op e)).Sits ([t] ++ ([] ++ ts)) :=
    Phrase.sits_of_pieces [.symbol op.symbol] (p := .operand (.expr e)) rfl (.token ht .nil)
      (Span.begins_token hfirst) (Piece.finishes_operand he) hspan (Phrase.first_unlike rfl)
  exact hunary

mutual

theorem sits_expression {level : Nat} {s : Stream} {r : Parsed s 1 Expr}
    (h : expression level s = .ok r) :
    ∃ ts, s.tokens = ts ++ r.rest.tokens ∧ (Phrase.expr r.value).SitsIn ts := by
  rw [expression] at h
  obtain ⟨⟨left, s₁, h₁⟩, hl, h⟩ := bind_eq_ok.1 h
  obtain ⟨⟨e, s₂, h₂⟩, ho, h⟩ := bind_eq_ok.1 h
  cases h
  obtain ⟨ls, hls, hleft⟩ := sits_operand hl
  obtain ⟨us, hus, he⟩ := sits_operations hleft ho
  exact ⟨ls ++ us, by rw [hls, List.append_assoc, ← hus], he⟩
termination_by (s.size, 3)

theorem sits_operations {level : Nat} {left : Expr} {ls : List Token} {s : Stream}
    {r : Parsed s 0 Expr} (hleft : (Phrase.expr left).SitsIn ls)
    (h : operations level left s = .ok r) :
    ∃ us, s.tokens = us ++ r.rest.tokens ∧ (Phrase.expr r.value).SitsIn (ls ++ us) := by
  rw [operations] at h
  split at h
  · next op s₁ h₁ hn =>
    obtain ⟨t, ht, hop⟩ := next?_eq hn
    simp only at ht hop
    split_ifs at h
    · cases h
      exact ⟨[], rfl, by simpa using hleft⟩
    · obtain ⟨⟨right, s₂, h₂⟩, hr, h⟩ := bind_eq_ok.1 h
      obtain ⟨⟨e, s₃, h₃⟩, ho, h⟩ := bind_eq_ok.1 h
      cases h
      obtain ⟨rs, hrs, hright⟩ := sits_expression hr
      have hbinary :
          (Phrase.expr (.binary (s₂.tag (left.span.merge right.span)) op left right)).Sits
            (ls ++ ([t] ++ rs)) :=
        Phrase.sits_of_pieces [.operand (.expr left), .symbol op.symbol]
          (p := .operand (.expr right)) rfl (.operand hleft (.token (binaryOf?_eq_some.1 hop) .nil))
          hleft.begins (Piece.finishes_operand hright) rfl (by rintro _ ⟨⟩ _; rfl)
      obtain ⟨us, hus, he⟩ := sits_operations (s := s₂.bump) hbinary.inside ho
      refine ⟨t :: (rs ++ us), ?_, by simpa using he⟩
      rw [ht, hrs, List.cons_append, List.append_assoc, ← hus]
      rfl
  · cases h
    exact ⟨[], rfl, by simpa using hleft⟩
termination_by (s.size, 0)

theorem sits_operand {s : Stream} {r : Parsed s 1 Expr} (h : operand s = .ok r) :
    ∃ ts, s.tokens = ts ++ r.rest.tokens ∧ (Phrase.expr r.value).SitsIn ts := by
  rw [operand] at h
  split at h
  · next op start s₁ h₁ hn =>
    obtain ⟨t, ht, hop⟩ := next?_eq hn
    obtain ⟨hkind, rfl⟩ := unaryOf?_eq_some.1 hop
    simp only at h ht
    split at h
    · next number hlit =>
      obtain ⟨⟨e, s₂, h₂⟩, hnum, h⟩ := bind_eq_ok.1 h
      obtain ⟨⟨e', s₃, h₃⟩, hacc, h⟩ := bind_eq_ok.1 h
      cases h
      split_ifs at hlit
      obtain ⟨u, hu, hnumber⟩ := sits_literal? hlit hnum
      obtain ⟨us, hus, hpath⟩ := sits_accesses hnumber.inside hacc
      refine ⟨t :: u :: us, ?_, (sits_unary hkind hpath rfl).inside⟩
      simp only at hu hus
      simp [ht, hu, hus, Stream.bump]
    · obtain ⟨⟨e, s₂, h₂⟩, he, h⟩ := bind_eq_ok.1 h
      cases h
      obtain ⟨ts, hts, he⟩ := sits_operand he
      exact ⟨t :: ts, by rw [ht, hts]; rfl, (sits_unary hkind he rfl).inside⟩
  · obtain ⟨⟨e, s₁, h₁⟩, hp, h⟩ := bind_eq_ok.1 h
    obtain ⟨⟨e', s₂, h₂⟩, ha, h⟩ := bind_eq_ok.1 h
    cases h
    obtain ⟨ts, hts, hprimary⟩ := sits_primary hp
    obtain ⟨us, hus, hpath⟩ := sits_accesses hprimary ha
    exact ⟨ts ++ us, by rw [hts, List.append_assoc, ← hus], hpath⟩
termination_by (s.size, 2)

theorem sits_accesses {e : Expr} {ts : List Token} {s : Stream} {r : Parsed s 0 Expr}
    (he : (Phrase.expr e).SitsIn ts) (h : accesses e s = .ok r) :
    ∃ us, s.tokens = us ++ r.rest.tokens ∧ (Phrase.expr r.value).SitsIn (ts ++ us) := by
  rw [accesses] at h
  split at h
  · next dot s₁ h₁ hdot =>
    obtain ⟨hd, hdot⟩ := take?_eq hdot
    simp only at hd hdot
    split at h
    · next t s₂ h₂ hlen =>
      obtain ⟨ht, hlen⟩ := take?_eq hlen
      simp only at ht hlen
      obtain ⟨⟨e', s₃, h₃⟩, ha, h⟩ := bind_eq_ok.1 h
      cases h
      have hlength : (Phrase.expr (.arrayLength (s₂.tag (e.span.merge t.span)) e)).Sits
          (ts ++ ([dot] ++ [t])) :=
        Phrase.sits_of_pieces [.operand (.expr e), .symbol .dot] (p := .word .length) rfl
          (.operand he (.token hdot .nil)) he.begins
          (Piece.finishes_token hlen (by simp [hlen])) rfl
          (by rintro _ ⟨⟩ _; rfl)
      obtain ⟨us, hus, hpath⟩ := sits_accesses (s := s₂.bump) hlength.inside ha
      refine ⟨dot :: t :: us, ?_, by simpa using hpath⟩
      rw [hd, ht]
      exact congrArg (dot :: t :: ·) hus
    · obtain ⟨⟨name, s₂, h₂⟩, hname, h⟩ := bind_eq_ok.1 h
      obtain ⟨t, ht, hname⟩ := sits_ident hname
      simp only at h ht hname
      split_ifs at h
      · obtain ⟨⟨args, s₃, h₃⟩, hargs, h⟩ := bind_eq_ok.1 h
        obtain ⟨⟨e', s₄, h₄⟩, ha, h⟩ := bind_eq_ok.1 h
        cases h
        obtain ⟨l, as, close, has, hl, hclose, hargs, hlast⟩ := sits_arguments hargs
        simp only at has hargs hlast
        have hmethod :
            (Phrase.expr (.methodCall (s₃.tag (e.span.merge s₃.last)) e name args)).Sits
              (ts ++ ((dot :: t :: l :: as) ++ [close])) :=
          Phrase.sits_of_pieces
            (.operand (.expr e) :: .symbol .dot :: .phrase (.name name) :: .symbol .leftParen ::
              argumentPieces args) (p := .symbol .rightParen) rfl
            (.operand he (.token hdot (.phrase hname (.token hl hargs)))) he.begins
            (Piece.finishes_token hclose (by simp [hclose])) (congrArg e.span.merge hlast)
            (by rintro _ ⟨⟩ _; rfl)
        obtain ⟨us, hus, hpath⟩ := sits_accesses (s := s₃.bump) hmethod.inside ha
        refine ⟨dot :: t :: l :: (as ++ close :: us), ?_, by simpa using hpath⟩
        rw [hd, ht, has, List.cons_append, List.cons_append, List.cons_append, List.append_assoc]
        exact congrArg (fun us => dot :: t :: l :: (as ++ close :: us)) hus
      · obtain ⟨⟨e', s₃, h₃⟩, ha, h⟩ := bind_eq_ok.1 h
        cases h
        have hfield : (Phrase.location (.field (s₂.tag (e.span.merge name.span)) e name)).Sits
            (ts ++ ([dot] ++ [t])) :=
          Phrase.sits_of_pieces [.operand (.expr e), .symbol .dot] (p := .phrase (.name name))
            rfl (.operand he (.token hdot .nil)) he.begins (Piece.finishes_phrase hname) rfl
            (by rintro _ ⟨⟩ _; rfl)
        obtain ⟨us, hus, hpath⟩ := sits_accesses (s := s₂.bump.bump)
          (sits_reading (fun tag => .field tag e name) hfield rfl).inside ha
        refine ⟨dot :: t :: us, ?_, by simpa using hpath⟩
        rw [hd, ht]
        exact congrArg (dot :: t :: ·) hus
  · split at h
    · next l s₁ h₁ hopen =>
      obtain ⟨hl, hopen⟩ := take?_eq hopen
      obtain ⟨⟨index, s₂, h₂⟩, hi, h⟩ := bind_eq_ok.1 h
      obtain ⟨⟨close, s₃, h₃⟩, hclose, h⟩ := bind_eq_ok.1 h
      obtain ⟨⟨e', s₄, h₄⟩, ha, h⟩ := bind_eq_ok.1 h
      cases h
      obtain ⟨is, his, hindex⟩ := sits_expression hi
      obtain ⟨hr, hclose⟩ := expect_eq hclose
      simp only at hl hopen hr hclose his
      have helement : (Phrase.location (.index (s₃.tag (e.span.merge close.span)) e index)).Sits
          (ts ++ ((l :: (is ++ [])) ++ [close])) :=
        Phrase.sits_of_pieces
          [.operand (.expr e), .symbol .leftBracket, .operand (.expr index)]
          (p := .symbol .rightBracket) rfl (.operand he (.token hopen (.operand hindex .nil)))
          he.begins (Piece.finishes_token hclose (by simp [hclose])) rfl
          (by rintro _ ⟨⟩ _; rfl)
      obtain ⟨us, hus, hpath⟩ := sits_accesses (s := s₃.bump.bump)
        (sits_reading (fun tag => .index tag e index) helement rfl).inside ha
      refine ⟨l :: (is ++ close :: us), ?_, by simpa using hpath⟩
      rw [hl, his, hr, List.cons_append, List.append_assoc]
      exact congrArg (fun us => l :: (is ++ close :: us)) hus
    · cases h
      exact ⟨[], rfl, by simpa using he⟩
termination_by (s.size, 0)

theorem sits_primary {s : Stream} {r : Parsed s 1 Expr} (h : primary s = .ok r) :
    ∃ ts, s.tokens = ts ++ r.rest.tokens ∧ (Phrase.expr r.value).SitsIn ts := by
  rw [primary] at h
  split at h
  · next hlit =>
    obtain ⟨t, ht, he⟩ := sits_literal? hlit h
    exact ⟨[t], ht, he.inside⟩
  · split at h
    · next e s₁ h₁ hn =>
      cases h
      obtain ⟨t, ht, hc⟩ := next?_eq hn
      exact ⟨[t], ht, (sits_constantOf? hc).inside⟩
    · split at h
      · next l s₁ h₁ hopen =>
        obtain ⟨⟨e, s₂, h₂⟩, he, h⟩ := bind_eq_ok.1 h
        obtain ⟨⟨close, s₃, h₃⟩, hclose, h⟩ := bind_eq_ok.1 h
        cases h
        obtain ⟨hl, hopen⟩ := take?_eq hopen
        obtain ⟨ts, hts, he⟩ := sits_expression he
        obtain ⟨hr, hclose⟩ := expect_eq hclose
        simp only at hl hopen hts hr hclose
        refine ⟨l :: (ts ++ [close]), ?_, he.paren hopen hclose⟩
        rw [hl, hts, hr]
        simp
      · split at h
        · next start s₁ h₁ hnew =>
          obtain ⟨⟨e, s₂, h₂⟩, he, h⟩ := bind_eq_ok.1 h
          cases h
          obtain ⟨hstart, hnew⟩ := take?_eq hnew
          simp only at hstart hnew
          obtain ⟨ts, hts, he⟩ := sits_creation hnew he
          exact ⟨start :: ts, by rw [hstart, hts]; rfl, he.inside⟩
        · split at h
          · next name s₁ h₁ hn =>
            obtain ⟨t, ht, hname⟩ := next?_eq hn
            obtain ⟨hname, _, _⟩ := sits_name hname
            simp only at ht hname
            split_ifs at h
            · obtain ⟨⟨args, s₂, h₂⟩, hargs, h⟩ := bind_eq_ok.1 h
              cases h
              obtain ⟨l, as, close, has, hl, hclose, hargs, hlast⟩ := sits_arguments hargs
              simp only at has hargs hlast
              have hcall : (Phrase.expr (.call (s₂.tag (name.span.merge s₂.last)) name args)).Sits
                  ([t] ++ ((l :: as) ++ [close])) :=
                Phrase.sits_of_pieces
                  (.phrase (.name name) :: .symbol .leftParen :: argumentPieces args)
                  (p := .symbol .rightParen) rfl (.phrase hname (.token hl hargs)) hname.begins
                  (Piece.finishes_token hclose (by simp [hclose])) (congrArg name.span.merge hlast)
                  (Phrase.first_unlike rfl)
              refine ⟨_, ?_, hcall.inside⟩
              rw [ht, has]
              simp [Stream.bump]
            · cases h
              have hvar : (Phrase.location (.var (s₁.tag name.span) name)).Sits [t] :=
                Phrase.sits_of_phrase rfl hname rfl (.inl Nat.zero_lt_two)
              exact ⟨[t], ht, (sits_reading (fun tag => .var tag name) hvar rfl).inside⟩
          · cases h
termination_by (s.size, 1)

theorem sits_creation {new : Token} {s : Stream} {r : Parsed s 1 Expr}
    (hnew : new.kind = .keyword .newExpr) (h : creation new.span s = .ok r) :
    ∃ ts, s.tokens = ts ++ r.rest.tokens ∧ (Phrase.expr r.value).Sits (new :: ts) := by
  rw [creation] at h
  split at h
  · obtain ⟨⟨name, s₁, h₁⟩, hname, h⟩ := bind_eq_ok.1 h
    obtain ⟨⟨l, s₂, h₂⟩, hopen, h⟩ := bind_eq_ok.1 h
    obtain ⟨⟨close, s₃, h₃⟩, hclose, h⟩ := bind_eq_ok.1 h
    cases h
    obtain ⟨t, ht, hname⟩ := sits_ident hname
    obtain ⟨hl, hopen⟩ := expect_eq hopen
    obtain ⟨hr, hclose⟩ := expect_eq hclose
    simp only at ht hname hl hopen hr hclose
    have hclass : PiecesSit [.phrase (.name name), .symbol .leftParen] ([t] ++ [l]) :=
      .phrase hname (.token hopen .nil)
    have hobject : (Phrase.expr (.newObject (s₃.tag (new.span.merge close.span)) name)).Sits
        ([new] ++ ([t, l] ++ [close])) :=
      Phrase.sits_of_pieces [.word .newExpr, .phrase (.name name), .symbol .leftParen]
        (p := .symbol .rightParen) rfl (.token hnew hclass)
        (Span.begins_token (by simp [hnew])) (Piece.finishes_token hclose (by simp [hclose])) rfl
        (Phrase.first_unlike rfl)
    refine ⟨[t, l, close], ?_, hobject⟩
    rw [ht, hl, hr]
    rfl
  · obtain ⟨⟨base, s₁, h₁⟩, hbase, h⟩ := bind_eq_ok.1 h
    obtain ⟨⟨l, s₂, h₂⟩, hopen, h⟩ := bind_eq_ok.1 h
    obtain ⟨⟨size, s₃, h₃⟩, hsize, h⟩ := bind_eq_ok.1 h
    obtain ⟨⟨close, s₄, h₄⟩, hclose, h⟩ := bind_eq_ok.1 h
    obtain ⟨t, ht, hbase, _⟩ := sits_baseType hbase
    obtain ⟨hl, hopen⟩ := expect_eq hopen
    obtain ⟨ts, hts, hsize⟩ := sits_expression hsize
    obtain ⟨hr, hclose⟩ := expect_eq hclose
    obtain ⟨us, hus, helement, hlast⟩ := sits_arraysOf base close.span s₄ hbase
    simp only at h ht hopen hl hts hsize hr hclose
    obtain ⟨init, last, heq, hkind, hspan⟩ := hlast close hclose rfl
    cases h
    refine ⟨t :: l :: (ts ++ close :: us), ?_, Phrase.sits_of_creation hnew helement hopen hsize
      hclose heq (by simp [hkind]) (congrArg new.span.merge hspan)⟩
    rw [ht, hl, hts, hr, hus]
    simp [Stream.bump]
termination_by (s.size, 0)

theorem sits_arguments {s : Stream} {r : Parsed s 1 (List Expr)} (h : arguments s = .ok r) :
    ∃ l us close, s.tokens = l :: (us ++ close :: r.rest.tokens) ∧ l.kind = .symbol .leftParen ∧
      close.kind = .symbol .rightParen ∧ PiecesSit (argumentPieces r.value) us ∧
        r.rest.last = close.span := by
  rw [arguments] at h
  obtain ⟨⟨l, s₁, h₁⟩, hopen, h⟩ := bind_eq_ok.1 h
  obtain ⟨hl, hopen⟩ := expect_eq hopen
  simp only at h hl hopen
  split at h
  · next close s₂ h₂ hclose =>
    cases h
    obtain ⟨hr, hkind⟩ := take?_eq hclose
    exact ⟨l, [], close, by rw [hl, hr]; rfl, hopen, hkind, .nil, last_take? hclose⟩
  · obtain ⟨⟨args, s₂, h₂⟩, hargs, h⟩ := bind_eq_ok.1 h
    obtain ⟨⟨close, s₃, h₃⟩, hclose, h⟩ := bind_eq_ok.1 h
    cases h
    obtain ⟨ts, hts, hargs, _⟩ := sits_expressions hargs
    obtain ⟨hr, hkind⟩ := expect_eq hclose
    simp only at hts hr hkind
    exact ⟨l, ts, close, by rw [hl, hts, hr], hopen, hkind, hargs, last_expect hclose⟩
termination_by (s.size, 0)

theorem sits_expressions {s : Stream} {r : Parsed s 1 (List Expr)} (h : expressions s = .ok r) :
    ∃ ts, s.tokens = ts ++ r.rest.tokens ∧ PiecesSit (argumentPieces r.value) ts ∧
      r.value ≠ [] := by
  rw [expressions] at h
  obtain ⟨⟨e, s₁, h₁⟩, he, h⟩ := bind_eq_ok.1 h
  obtain ⟨ts, hts, he⟩ := sits_expression he
  simp only at h hts he
  split at h
  · next comma s₂ h₂ hcomma =>
    obtain ⟨⟨es, s₃, h₃⟩, hes, h⟩ := bind_eq_ok.1 h
    cases h
    obtain ⟨hc, hcomma⟩ := take?_eq hcomma
    obtain ⟨us, hus, hes, hne⟩ := sits_expressions hes
    simp only at hc hcomma hus hes hne
    refine ⟨ts ++ comma :: us, by rw [hts, hc, hus]; simp, ?_, List.cons_ne_nil _ _⟩
    obtain ⟨e', es, rfl⟩ := List.exists_cons_of_ne_nil hne
    exact .operand he (.token hcomma hes)
  · cases h
    refine ⟨ts, hts, ?_, List.cons_ne_nil _ _⟩
    simpa [argumentPieces] using PiecesSit.operand he .nil
termination_by (s.size, 4)

end

end expressions

section statements

theorem sits_declaration {r : Parsed s 1 VarDecl} (h : declaration s = .ok r) :
    ∃ ts, s.tokens = ts ++ r.rest.tokens ∧ (Phrase.decl r.value).Sits ts := by
  simp only [declaration, Parsed.andThen, bind_eq_ok] at h
  obtain ⟨type, ht, name, ⟨n, hn, hname⟩, close, ⟨c, hc, hclose⟩, hr⟩ := h
  cases hname
  cases hclose
  cases hr
  obtain ⟨u, ts, hts, htype, _⟩ := sits_typeExpr ht
  obtain ⟨t, ht, hname⟩ := sits_ident hn
  obtain ⟨hc, hclose⟩ := expect_eq hc
  simp only [Parsed.join] at ht hc
  refine ⟨(u :: ts) ++ ([t] ++ [c.value]), ?_, Phrase.sits_of_pieces
    [.phrase (.type type.value), .phrase (.name n.value)] (p := .symbol .semicolon) rfl
    (.phrase htype (.phrase hname .nil)) htype.begins
    (Piece.finishes_token hclose (by simp [hclose])) rfl (Phrase.first_unlike rfl)⟩
  rw [hts, ht, hc]
  simp [Parsed.node, Parsed.join, Stream.bump]

theorem sits_condition {r : Parsed s 1 Expr} (h : condition s = .ok r) :
    ∃ ts, s.tokens = ts ++ r.rest.tokens ∧ PiecesSit (conditionPieces r.value) ts := by
  simp only [condition, Parsed.andThen, bind_eq_ok] at h
  obtain ⟨start, hs, e, ⟨e', he', he⟩, close, ⟨c, hc, hclose⟩, hr⟩ := h
  cases he
  cases hclose
  cases hr
  obtain ⟨hl, hopen⟩ := expect_eq hs
  obtain ⟨ts, hts, he⟩ := sits_expression he'
  obtain ⟨hr, hclose⟩ := expect_eq hc
  simp only [Parsed.join] at hr
  refine ⟨start.value :: (ts ++ [c.value]), ?_, .token hopen (.operand he (.token hclose .nil))⟩
  rw [hl, hts, hr]
  simp [Parsed.join, Parsed.map]

/-- The location of an expression that reads one. -/
theorem stands_target {tag : Tag} {l : Location} {ts : List Token}
    (h : (Phrase.expr (.read tag l)).StandsIn ts) : (Phrase.location l).StandsIn ts := by
  obtain ⟨us, hp, he⟩ := h
  refine ⟨us, hp, fun ho => ?_⟩
  obtain ⟨_, hn, hps, _⟩ := he ho
  cases hn
  cases hps with
  | phrase hl hnil =>
      cases hnil
      rw [List.append_nil]
      exact ⟨_, hl⟩

theorem sits_evaluation {r : Parsed s 1 Stmt} (h : evaluation s = .ok r) :
    ∃ ts, s.tokens = ts ++ r.rest.tokens ∧ (Phrase.stmt r.value).Sits ts := by
  obtain ⟨e, he, h⟩ := bind_eq_ok.1 h
  obtain ⟨ts, hts, he⟩ := sits_expression he
  split at h
  · next sign hsign =>
    obtain ⟨hs, hsign⟩ := take?_eq hsign
    split at h
    · next tag target hread =>
      simp only [Parsed.andThen, bind_eq_ok] at h
      obtain ⟨value, ⟨v, hv, hvalue⟩, close, ⟨c, hc, hclose⟩, hr⟩ := h
      cases hvalue
      cases hclose
      cases hr
      obtain ⟨us, hus, hv⟩ := sits_expression hv
      obtain ⟨hc, hclose⟩ := expect_eq hc
      simp only [Parsed.join] at hus hc
      rw [hread] at he
      refine ⟨ts ++ ((sign.value :: (us ++ [])) ++ [c.value]), ?_, Phrase.sits_of_pieces
        [.operand (.location target), .symbol .equal, .operand (.expr v.value)]
        (p := .symbol .semicolon) rfl
        (.standing (stands_target he.standsIn) (fun h => (List.forall_mem_cons.1 (he.grown h)).2)
          (.token hsign (.operand hv .nil)))
        he.begins (Piece.finishes_token hclose (by simp [hclose])) rfl (Phrase.first_unlike rfl)⟩
      rw [hts, hs, hus, hc]
      simp [Parsed.join, Parsed.map]
    · cases h
  · simp only [Parsed.andThen, bind_eq_ok] at h
    obtain ⟨close, ⟨c, hc, hclose⟩, hr⟩ := h
    cases hclose
    cases hr
    obtain ⟨hc, hclose⟩ := expect_eq hc
    refine ⟨ts ++ [c.value], ?_, Phrase.sits_of_operand rfl he hclose rfl
      (.inl (Nat.lt_add_of_pos_right Nat.zero_lt_two))⟩
    rw [hts, hc]
    simp [Parsed.join, Parsed.map]

/-- The pieces of some statements. -/
def itemPieces (body : List Stmt) : List Piece :=
  body.map fun item => .phrase (.stmt item)

mutual

theorem sits_statement {s : Stream} {r : Parsed s 1 Stmt} (h : statement s = .ok r) :
    ∃ ts, s.tokens = ts ++ r.rest.tokens ∧ (Phrase.stmt r.value).Sits ts := by
  rw [statement] at h
  split at h
  · next start s₁ h₁ hstart =>
    obtain ⟨⟨test, s₂, h₂⟩, htest, h⟩ := bind_eq_ok.1 h
    obtain ⟨⟨onTrue, s₃, h₃⟩, htrue, h⟩ := bind_eq_ok.1 h
    obtain ⟨hs, hstart⟩ := take?_eq hstart
    obtain ⟨ts, hts, htest⟩ := sits_condition htest
    obtain ⟨us, hus, htrue⟩ := sits_statement htrue
    simp only at h hs hstart hts hus
    split at h
    · next other s₄ h₄ helse =>
      obtain ⟨⟨onFalse, s₅, h₅⟩, hfalse, h⟩ := bind_eq_ok.1 h
      cases h
      obtain ⟨ho, helse⟩ := take?_eq helse
      obtain ⟨vs, hvs, hfalse⟩ := sits_statement hfalse
      simp only at ho helse hvs
      refine ⟨[start] ++ ((ts ++ (us ++ [other])) ++ vs), ?_, Phrase.sits_of_pieces
        (.word .ifStmt ::
          (conditionPieces test ++ [Piece.phrase (.stmt onTrue), Piece.word .elseStmt]))
        (p := .phrase (.stmt onFalse)) rfl
        (.token hstart (htest.append (.phrase htrue (.token helse .nil))))
        (Span.begins_token (by simp [hstart])) (Piece.finishes_phrase hfalse) rfl
        (Phrase.first_unlike rfl)⟩
      simp [hs, hts, hus, ho, hvs]
    · cases h
      refine ⟨[start] ++ (ts ++ us), ?_, Phrase.sits_of_pieces
        (.word .ifStmt :: conditionPieces test) (p := .phrase (.stmt onTrue)) rfl
        (.token hstart htest) (Span.begins_token (by simp [hstart])) (Piece.finishes_phrase htrue)
        rfl (Phrase.first_unlike rfl)⟩
      simp [hs, hts, hus]
  · split at h
    · next start s₁ h₁ hstart =>
      obtain ⟨⟨test, s₂, h₂⟩, htest, h⟩ := bind_eq_ok.1 h
      obtain ⟨⟨body, s₃, h₃⟩, hbody, h⟩ := bind_eq_ok.1 h
      cases h
      obtain ⟨hs, hstart⟩ := take?_eq hstart
      obtain ⟨ts, hts, htest⟩ := sits_condition htest
      obtain ⟨us, hus, hbody⟩ := sits_statement hbody
      simp only at hs hstart hts hus
      refine ⟨[start] ++ (ts ++ us), ?_, Phrase.sits_of_pieces
        (.word .whileStmt :: conditionPieces test) (p := .phrase (.stmt body)) rfl
        (.token hstart htest) (Span.begins_token (by simp [hstart])) (Piece.finishes_phrase hbody)
        rfl (Phrase.first_unlike rfl)⟩
      simp [hs, hts, hus]
    · split at h
      · next start s₁ h₁ hstart =>
        obtain ⟨⟨value, s₂, h₂⟩, hvalue, h⟩ := bind_eq_ok.1 h
        obtain ⟨⟨close, s₃, h₃⟩, hclose, h⟩ := bind_eq_ok.1 h
        cases h
        obtain ⟨hs, hstart⟩ := take?_eq hstart
        obtain ⟨ts, hts, hvalue⟩ := sits_expression hvalue
        obtain ⟨hc, hclose⟩ := expect_eq hclose
        simp only at hs hstart hts hc hclose
        have hhead : PiecesSit [.operand (.expr value)] ts := by
          simpa using PiecesSit.operand hvalue .nil
        refine ⟨[start] ++ (ts ++ [close]), ?_, Phrase.sits_of_pieces
          [.word .returnStmt, .operand (.expr value)] (p := .symbol .semicolon) rfl
          (.token hstart hhead) (Span.begins_token (by simp [hstart]))
          (Piece.finishes_token hclose (by simp [hclose])) rfl (Phrase.first_unlike rfl)⟩
        simp [hs, hts, hc]
      · split at h
        · obtain ⟨⟨⟨span, body⟩, s₁, h₁⟩, hbody, h⟩ := bind_eq_ok.1 h
          cases h
          obtain ⟨ts, hts, hbody⟩ := sits_block hbody
          exact ⟨ts, hts, Phrase.sits_of_phrase rfl hbody rfl (.inl (Nat.lt_succ_self 3))⟩
        · exact sits_evaluation h
termination_by (s.size, 1)

theorem sits_block {s : Stream} {r : Parsed s 1 (Span × List Stmt)} (h : block s = .ok r) :
    ∃ ts, s.tokens = ts ++ r.rest.tokens ∧ (Phrase.body r.value.1 r.value.2).Sits ts := by
  rw [block] at h
  obtain ⟨⟨start, s₁, h₁⟩, hopen, h⟩ := bind_eq_ok.1 h
  obtain ⟨⟨body, s₂, h₂⟩, hbody, h⟩ := bind_eq_ok.1 h
  obtain ⟨⟨close, s₃, h₃⟩, hclose, h⟩ := bind_eq_ok.1 h
  cases h
  obtain ⟨hl, hopen⟩ := expect_eq hopen
  obtain ⟨ts, hts, hbody⟩ := sits_blockItems hbody
  obtain ⟨hr, hclose⟩ := expect_eq hclose
  simp only at hl hopen hts hr hclose
  refine ⟨[start] ++ (ts ++ [close]), ?_, Phrase.sits_of_pieces
    (.symbol .leftBrace :: itemPieces body) (p := .symbol .rightBrace) rfl (.token hopen hbody)
    (Span.begins_token (by simp [hopen])) (Piece.finishes_token hclose (by simp [hclose])) rfl
    (Phrase.first_unlike rfl)⟩
  simp [hl, hts, hr]
termination_by (s.size, 0)

theorem sits_blockItems {s : Stream} {r : Parsed s 0 (List Stmt)} (h : blockItems s = .ok r) :
    ∃ ts, s.tokens = ts ++ r.rest.tokens ∧ PiecesSit (itemPieces r.value) ts := by
  rw [blockItems] at h
  split_ifs at h
  · cases h
    exact ⟨[], rfl, .nil⟩
  · obtain ⟨⟨item, s₁, h₁⟩, hitem, h⟩ := bind_eq_ok.1 h
    obtain ⟨⟨items, s₂, h₂⟩, hitems, h⟩ := bind_eq_ok.1 h
    cases h
    obtain ⟨us, hus, hrest⟩ := sits_blockItems hitems
    obtain ⟨ts, hts, hitem⟩ := sits_blockItem hitem
    simp only at hts hus
    exact ⟨ts ++ us, by simp [hts, hus], .phrase hitem hrest⟩
termination_by (s.size, 3)

theorem sits_blockItem {s : Stream} {r : Parsed s 1 Stmt} (h : blockItem s = .ok r) :
    ∃ ts, s.tokens = ts ++ r.rest.tokens ∧ (Phrase.stmt r.value).Sits ts := by
  rw [blockItem] at h
  split_ifs at h
  · obtain ⟨⟨decl, s₁, h₁⟩, hdecl, h⟩ := bind_eq_ok.1 h
    cases h
    obtain ⟨ts, hts, hdecl⟩ := sits_declaration hdecl
    exact ⟨ts, hts, Phrase.sits_of_phrase rfl hdecl rfl (.inl (Nat.lt_succ_self 3))⟩
  · exact sits_statement h
termination_by (s.size, 2)

end

end statements

section declarations

/-- The pieces of some parameters. -/
def parameterPieces (ds : List VarDecl) : List Piece :=
  (ds.map fun d => Piece.phrase (.param d)).intersperse (.symbol .comma)

theorem sits_parameter {r : Parsed s 1 VarDecl} (h : parameter s = .ok r) :
    ∃ ts, s.tokens = ts ++ r.rest.tokens ∧ (Phrase.param r.value).Sits ts := by
  simp only [parameter, Parsed.andThen, bind_eq_ok] at h
  obtain ⟨type, ht, name, ⟨n, hn, hname⟩, hr⟩ := h
  cases hname
  cases hr
  obtain ⟨u, ts, hts, htype, _⟩ := sits_typeExpr ht
  obtain ⟨t, ht, hname⟩ := sits_ident hn
  refine ⟨(u :: ts) ++ ([] ++ [t]), ?_, Phrase.sits_of_pieces [.phrase (.type type.value)]
    (p := .phrase (.name n.value)) rfl (.phrase htype .nil) htype.begins
    (Piece.finishes_phrase hname) rfl (Phrase.first_unlike rfl)⟩
  rw [hts, ht]
  simp [Parsed.node, Parsed.join, Stream.bump]

theorem sits_parameters {s : Stream} {r : Parsed s 1 (List VarDecl)}
    (h : parameters s = .ok r) : ∃ ts, s.tokens = ts ++ r.rest.tokens ∧
      PiecesSit (parameterPieces r.value) ts ∧ r.value ≠ [] := by
  rw [parameters] at h
  obtain ⟨p, hp, h⟩ := bind_eq_ok.1 h
  obtain ⟨ts, hts, hparam⟩ := sits_parameter hp
  split at h
  · next comma hcomma =>
    obtain ⟨ps, hps, h⟩ := bind_eq_ok.1 h
    cases h
    have hused := comma.used
    obtain ⟨hc, hcomma⟩ := take?_eq hcomma
    obtain ⟨us, hus, hparams, hne⟩ := sits_parameters hps
    refine ⟨ts ++ comma.value :: us, ?_, ?_, List.cons_ne_nil _ _⟩
    · simp [hts, hc, hus, Parsed.join, Parsed.map]
    · simp only [Parsed.join, Parsed.map]
      obtain ⟨d, ds, heq⟩ := List.exists_cons_of_ne_nil hne
      rw [heq] at hparams ⊢
      exact .phrase hparam (.token hcomma hparams)
  · cases h
    refine ⟨ts, by simp [hts, Parsed.map], ?_, List.cons_ne_nil _ _⟩
    simpa [parameterPieces, Parsed.map] using PiecesSit.phrase hparam .nil
termination_by s.size
decreasing_by
  have := p.used
  omega

theorem sits_parameterList {r : Parsed s 1 (List VarDecl)} (h : parameterList s = .ok r) :
    ∃ ts, s.tokens = ts ++ r.rest.tokens ∧
      PiecesSit (listed (r.value.map fun d => .phrase (.param d))) ts := by
  obtain ⟨start, hstart, h⟩ := bind_eq_ok.1 h
  obtain ⟨hl, hstart⟩ := expect_eq hstart
  split at h
  · next close hclose =>
    cases h
    obtain ⟨hr, hclose⟩ := take?_eq hclose
    refine ⟨[start.value, close.value], ?_, .token hstart (.token hclose .nil)⟩
    simp [hl, hr, Parsed.join, Parsed.map]
  · simp only [Parsed.andThen, bind_eq_ok] at h
    obtain ⟨params, ⟨ps, hps, hparams⟩, close, ⟨c, hc, hclose⟩, hr⟩ := h
    cases hparams
    cases hclose
    cases hr
    obtain ⟨ts, hts, hparams, _⟩ := sits_parameters hps
    obtain ⟨hc, hclose⟩ := expect_eq hc
    simp only [Parsed.join] at hc
    refine ⟨start.value :: (ts ++ [c.value]), ?_,
      .token hstart (hparams.append (.token hclose .nil))⟩
    simp [hl, hts, hc, Parsed.join, Parsed.map]

/-- A function with the type and the name that stand before it. -/
theorem sits_functionBehind {returnType : TypeExpr} {name : Ident} {ts : List Token} {t : Token}
    {r : Parsed s 1 FunctionDecl} (htype : (Phrase.type returnType).Sits ts)
    (hname : (Phrase.name name).Sits [t]) (h : functionBehind returnType name s = .ok r) :
    ∃ us, s.tokens = us ++ r.rest.tokens ∧ (Phrase.function r.value).Sits (ts ++ t :: us) := by
  obtain ⟨⟨params, s₁, h₁⟩, hparams, h⟩ := bind_eq_ok.1 h
  obtain ⟨⟨⟨bodySpan, body⟩, s₂, h₂⟩, hbody, h⟩ := bind_eq_ok.1 h
  cases h
  obtain ⟨us, hus, hparams⟩ := sits_parameterList hparams
  obtain ⟨vs, hvs, hbody⟩ := sits_block hbody
  have hfunction : (Phrase.function ⟨s.tag (returnType.span.merge bodySpan), returnType, name,
      params, bodySpan, body⟩).Sits (ts ++ ((t :: us) ++ vs)) :=
    Phrase.sits_of_pieces (.phrase (.type returnType) :: .phrase (.name name) ::
      listed (params.map fun d => .phrase (.param d))) (p := .phrase (.body bodySpan body)) rfl
      (.phrase htype (.phrase hname hparams)) htype.begins (Piece.finishes_phrase hbody) rfl
      (Phrase.first_unlike rfl)
  refine ⟨us ++ vs, ?_, hfunction⟩
  rw [List.append_assoc]
  exact hus.trans (congrArg _ hvs)

theorem sits_member {r : Parsed s 1 Member} (h : member s = .ok r) :
    ∃ ts, s.tokens = ts ++ r.rest.tokens ∧ r.value.phrase.Sits ts := by
  simp only [member, Parsed.andThen, bind_eq_ok] at h
  obtain ⟨type, ht, name, ⟨n, hn, hname⟩, h⟩ := h
  cases hname
  obtain ⟨u, ts, hts, htype, hfirst⟩ := sits_typeExpr ht
  obtain ⟨t, ht, hname⟩ := sits_ident hn
  split_ifs at h
  · obtain ⟨decl, hdecl, h⟩ := bind_eq_ok.1 h
    obtain ⟨f, hf, hdecl⟩ := bind_eq_ok.1 hdecl
    cases hdecl
    cases h
    obtain ⟨us, hus, hfunction⟩ := sits_functionBehind htype hname hf
    refine ⟨(u :: ts) ++ t :: us, ?_, hfunction⟩
    simp only [Parsed.join] at hus
    simp [hts, ht, hus, Parsed.join, Parsed.map]
  · obtain ⟨close, hclose, h⟩ := bind_eq_ok.1 h
    obtain ⟨c, hc, hclose⟩ := bind_eq_ok.1 hclose
    cases hclose
    cases h
    obtain ⟨hc, hclose⟩ := expect_eq hc
    have hpeek : s.peek = u := by simp [Stream.peek, Stream.peekAt, hts]
    have hhead : PiecesSit [.phrase (.type type.value), .phrase (.name n.value)]
        ((u :: ts) ++ [t]) := .phrase htype (.phrase hname .nil)
    refine ⟨[u] ++ ((ts ++ [t]) ++ [c.value]), ?_, Phrase.sits_of_pieces
      [.phrase (.type type.value), .phrase (.name n.value)] (p := .symbol .semicolon) rfl
      hhead (Span.begins_token hfirst)
      (Piece.finishes_token hclose (by simp [hclose]))
      (congrArg (fun x : Token => x.span.merge c.value.span) hpeek) (Phrase.first_unlike rfl)⟩
    simp only [Parsed.join] at hc
    simp [hts, ht, hc, Parsed.join, Parsed.node, Stream.bump]

theorem sits_members {s : Stream} {r : Parsed s 0 (List Member)} (h : members s = .ok r) :
    ∃ ts, s.tokens = ts ++ r.rest.tokens ∧
      PiecesSit (r.value.map fun m => .phrase m.phrase) ts := by
  rw [members] at h
  split_ifs at h
  · cases h
    exact ⟨[], rfl, .nil⟩
  · obtain ⟨m, hm, h⟩ := bind_eq_ok.1 h
    obtain ⟨ms, hms, h⟩ := bind_eq_ok.1 h
    cases h
    obtain ⟨ts, hts, hmember⟩ := sits_member hm
    obtain ⟨us, hus, hmembers⟩ := sits_members hms
    exact ⟨ts ++ us, by simp [hts, hus, Parsed.join, Parsed.map, Parsed.weaken],
      .phrase hmember hmembers⟩
termination_by s.size
decreasing_by
  have := m.used
  omega

theorem sits_extending {r : Parsed s 0 (Option Ident)} (h : extending s = .ok r) :
    ∃ ts, s.tokens = ts ++ r.rest.tokens ∧
      PiecesSit (r.value.elim [] fun x => [.word .extending, .phrase (.name x)]) ts := by
  unfold extending at h
  split at h
  · next start hstart =>
    simp only [Parsed.andThen, bind_eq_ok] at h
    obtain ⟨name, ⟨n, hn, hname⟩, hr⟩ := h
    cases hname
    cases hr
    obtain ⟨hs, hstart⟩ := take?_eq hstart
    obtain ⟨t, ht, hname⟩ := sits_ident hn
    have hpiece : PiecesSit [.phrase (.name n.value)] ([t] ++ []) := .phrase hname .nil
    exact ⟨[start.value, t], by rw [hs, ht]; rfl, .token hstart hpiece⟩
  · cases h
    exact ⟨[], rfl, .nil⟩

theorem sits_classDecl {r : Parsed s 1 ClassDecl} (h : classDecl s = .ok r) :
    ∃ ts, s.tokens = ts ++ r.rest.tokens ∧ (Phrase.cls r.value).Sits ts := by
  simp only [classDecl, Parsed.andThen, bind_eq_ok] at h
  obtain ⟨start, hs, name, ⟨n, hn, hname⟩, superclass, ⟨x, hx, hsuper⟩, opened, ⟨l, hl, hopened⟩,
    ms, ⟨m, hm, hms⟩, close, ⟨c, hc, hclose⟩, hr⟩ := h
  cases hname
  cases hsuper
  cases hopened
  cases hms
  cases hclose
  cases hr
  obtain ⟨hs, hstart⟩ := expect_eq hs
  obtain ⟨t, ht, hname⟩ := sits_ident hn
  obtain ⟨ts, hts, hextending⟩ := sits_extending hx
  obtain ⟨hl, hopen⟩ := expect_eq hl
  obtain ⟨us, hus, hmembers⟩ := sits_members hm
  obtain ⟨hc, hclose⟩ := expect_eq hc
  simp only [Parsed.join, Parsed.bump, Stream.bump] at ht hts hl hus hc
  have hbrace : PiecesSit (.symbol .leftBrace :: m.value.map fun m => .phrase m.phrase)
      (l.value :: us) := .token hopen hmembers
  have hpieces := PiecesSit.phrase hname (hextending.append hbrace)
  have hhead : PiecesSit (.word .classDecl :: _) (start.value :: _) := .token hstart hpieces
  refine ⟨[start.value] ++ ((t :: (ts ++ l.value :: us)) ++ [c.value]), ?_, Phrase.sits_of_pieces _
    (p := .symbol .rightBrace) ⟨m.value, rfl, rfl, ?_⟩ hhead
    (Span.begins_token (by simp [hstart])) (Piece.finishes_token hclose (by simp [hclose])) rfl
    (Phrase.first_unlike rfl)⟩
  · simp [hs, ht, hts, hl, hus, hc, Parsed.join, Parsed.map]
  · simp [ClassDecl.pieces, Piece.word, Piece.symbol, Parsed.join, Parsed.map]

theorem sits_functionDecl {r : Parsed s 1 FunctionDecl} (h : functionDecl s = .ok r) :
    ∃ ts, s.tokens = ts ++ r.rest.tokens ∧ (Phrase.function r.value).Sits ts := by
  simp only [functionDecl, Parsed.andThen, bind_eq_ok] at h
  obtain ⟨type, ht, name, ⟨n, hn, hname⟩, f, hf, hr⟩ := h
  cases hname
  cases hr
  obtain ⟨u, ts, hts, htype, _⟩ := sits_typeExpr ht
  obtain ⟨t, ht, hname⟩ := sits_ident hn
  obtain ⟨us, hus, hfunction⟩ := sits_functionBehind htype hname hf
  refine ⟨(u :: ts) ++ t :: us, ?_, hfunction⟩
  simp only [Parsed.join] at hus
  simp [hts, ht, hus, Parsed.join]

/-- All tokens of a program belong to its classes and functions. -/
theorem sits_declarations {s : Stream} {r : Parsed s 0 (List ClassDecl × List FunctionDecl)}
    (h : declarations s = .ok r) : ∃ decls : List (ClassDecl ⊕ FunctionDecl),
      r.value.1 = decls.filterMap Sum.getLeft? ∧ r.value.2 = decls.filterMap Sum.getRight? ∧
        PiecesSit (decls.map fun d => .phrase (d.elim .cls .function)) s.tokens := by
  rw [declarations] at h
  split_ifs at h with hempty
  · cases h
    rw [List.isEmpty_iff] at hempty
    rw [hempty]
    exact ⟨[], rfl, rfl, .nil⟩
  · obtain ⟨c, hc, h⟩ := bind_eq_ok.1 h
    obtain ⟨more, hmore, h⟩ := bind_eq_ok.1 h
    cases h
    obtain ⟨ts, hts, hclass⟩ := sits_classDecl hc
    obtain ⟨decls, hclasses, hfunctions, hrest⟩ := sits_declarations hmore
    rw [hts]
    exact ⟨.inl c.value :: decls, congrArg (c.value :: ·) hclasses, hfunctions,
      .phrase hclass hrest⟩
  · obtain ⟨f, hf, h⟩ := bind_eq_ok.1 h
    obtain ⟨more, hmore, h⟩ := bind_eq_ok.1 h
    cases h
    obtain ⟨ts, hts, hfunction⟩ := sits_functionDecl hf
    obtain ⟨decls, hclasses, hfunctions, hrest⟩ := sits_declarations hmore
    rw [hts]
    exact ⟨.inr f.value :: decls, hclasses, congrArg (f.value :: ·) hfunctions,
      .phrase hfunction hrest⟩
termination_by s.size
decreasing_by
  · have := c.used
    omega
  · have := f.used
    omega

end declarations

theorem tokens_of_atEnd (h : atEnd s = .ok ()) : s.tokens = [] := by
  unfold atEnd at h
  split_ifs at h with hempty
  exact List.isEmpty_iff.1 hempty

theorem stands_expression {level : Nat} {r : Parsed s 1 Expr} (h : expression level s = .ok r) :
    ∃ ts, s.tokens = ts ++ r.rest.tokens ∧ (Phrase.expr r.value).StandsIn ts :=
  (sits_expression h).imp fun _ h => ⟨h.1, h.2.standsIn⟩

theorem stands_blockItem {r : Parsed s 1 Stmt} (h : blockItem s = .ok r) :
    ∃ ts, s.tokens = ts ++ r.rest.tokens ∧ (Phrase.stmt r.value).Stands ts :=
  (sits_blockItem h).imp fun _ h => ⟨h.1, h.2.stands⟩

theorem stands_declarations {r : Parsed s 0 (List ClassDecl × List FunctionDecl)}
    (h : declarations s = .ok r) : ∃ decls : List (ClassDecl ⊕ FunctionDecl),
      r.value.1 = decls.filterMap Sum.getLeft? ∧ r.value.2 = decls.filterMap Sum.getRight? ∧
        PiecesStand (decls.map fun d => .phrase (d.elim .cls .function)) s.tokens :=
  (sits_declarations h).imp fun _ h => ⟨h.1, h.2.1, h.2.2.stand⟩

end ObjectLang.Parsing

namespace ObjectLang

open Parsing

/-- All nodes of what is read stand in their places: of an expression, of a statement and of a
program. -/
theorem ofText_placed (source : String) :
    (∀ e, Expr.ofText source = .ok e → ∃ ts spans, InParens ts (Token.scan source).tokens ∧
      (Phrase.expr e).Placed ts spans) ∧
    (∀ s, Stmt.ofText source = .ok s → ∃ spans,
      (Phrase.stmt s).Placed (Token.scan source).tokens spans) ∧
    ∀ p, Program.ofText source = .ok p → p.PlacedIn (Token.scan source).tokens := by
  have ho := Token.ordered_scan source
  refine ⟨fun e h => ?_, fun s h => ?_, fun p h => ?_⟩
  · obtain ⟨⟨e, rest, _⟩, hread, h⟩ := bind_eq_ok.1 (readText_eq_ok.1 h).2
    obtain ⟨_, hend, h⟩ := bind_eq_ok.1 h
    cases h
    obtain ⟨ws, hws, ts, hp, he⟩ := stands_expression hread
    rw [tokens_of_atEnd hend, List.append_nil] at hws
    obtain rfl : (Token.scan source).tokens = ws := hws
    obtain ⟨spans, he⟩ := he (ho.inner hp)
    exact ⟨ts, spans, hp, he⟩
  · obtain ⟨⟨s, rest, _⟩, hread, h⟩ := bind_eq_ok.1 (readText_eq_ok.1 h).2
    obtain ⟨_, hend, h⟩ := bind_eq_ok.1 h
    cases h
    obtain ⟨ts, hts, hs⟩ := stands_blockItem hread
    rw [tokens_of_atEnd hend, List.append_nil] at hts
    obtain rfl : (Token.scan source).tokens = ts := hts
    exact hs ho
  · obtain ⟨_, r, hr, rfl⟩ := Program.ofText_eq_ok.1 h
    obtain ⟨decls, hclasses, hfunctions, hstands⟩ := stands_declarations hr
    exact ⟨decls, hclasses, hfunctions, hstands ho⟩

/-- A text with a product that starts in parentheses. -/
def productText : String :=
  "class A { int x; }\nint f(A a) { return ((a).x + 1) * 2; }"

/-- An expression that starts in parentheses on one line and ends on the next one, by itself, in a
statement and in a program. -/
theorem ofText_placed_lines :
    (∃ e, Expr.ofText "((a).x\n + 1) * 2" = .ok e ∧ ∃ ts spans,
      InParens ts (Token.scan "((a).x\n + 1) * 2").tokens ∧ (Phrase.expr e).Placed ts spans) ∧
    (∃ s, Stmt.ofText "b = ((a).x\n + 1) * 2;" = .ok s ∧ ∃ spans,
      (Phrase.stmt s).Placed (Token.scan "b = ((a).x\n + 1) * 2;").tokens spans) ∧
    ∃ p, Program.ofText productText = .ok p ∧ p.PlacedIn (Token.scan productText).tokens := by
  obtain ⟨e, he, -⟩ := exists_ok_of_any (r := Expr.ofText "((a).x\n + 1) * 2")
    (f := fun _ => true) (by decide +kernel)
  obtain ⟨s, hs, -⟩ := exists_ok_of_any (r := Stmt.ofText "b = ((a).x\n + 1) * 2;")
    (f := fun _ => true) (by decide +kernel)
  obtain ⟨p, hp, -⟩ := exists_ok_of_any (r := Program.ofText productText)
    (f := fun _ => true) (by decide +kernel)
  exact ⟨⟨e, he, (ofText_placed _).1 e he⟩, ⟨s, hs, (ofText_placed _).2.1 s hs⟩,
    p, hp, (ofText_placed _).2.2 p hp⟩

end ObjectLang
