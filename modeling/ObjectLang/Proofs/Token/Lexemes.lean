import Mathlib.Data.List.TakeWhile
import Mathlib.Tactic
import ObjectLang.Proofs.Token.Gaps

/-!
# Lexemes

What a token of each sort is the text of, said together with what stands behind it: a number or a
word ends only where no digit or no part of a word follows, and a symbol only if it is no start of a
longer one. The token that a text starts with is just the one that this allows.
-/
namespace ObjectLang

theorem Keyword.ofText?_eq_some {word : String} {k : Keyword} :
    Keyword.ofText? word = some k ↔ word = k.text := by
  constructor
  · intro h
    have hword := List.find?_some (p := fun k : Keyword => k.text == word) h
    exact (eq_of_beq hword).symm
  · rintro rfl
    cases k <;> rfl

namespace Symbol

theorem ofChar?_eq_some {c : Char} {s : Symbol} : ofChar? c = some s ↔ s.text.toList = [c] := by
  constructor
  · intro h
    unfold ofChar? at h
    split at h <;> simp_all [text] <;> subst h <;> rfl
  · cases s <;> simp [text] <;> rintro rfl <;> rfl

theorem ofPair?_eq_some {c d : Char} {s : Symbol} :
    ofPair? c d = some s ↔ s.text.toList = [c, d] := by
  constructor
  · intro h
    unfold ofPair? at h
    split at h <;> simp_all [text] <;> subst h <;> rfl
  · cases s <;> simp [text] <;> rintro rfl rfl <;> rfl

/-- Symbols have one or two characters. -/
theorem text_cases (s : Symbol) :
    (∃ c, s.text.toList = [c]) ∨ ∃ c d, s.text.toList = [c, d] := by
  cases s <;> simp [text]

end Symbol

namespace Token

/-- No part of a word stands at the start of a text. -/
def EndsWord (behind : List Char) : Prop :=
  ∀ c ∈ behind.head?, isWordPart c = false

/-- A text that starts with a character starts a comment. -/
def OpensComment (c : Char) (behind : List Char) : Prop :=
  c = '/' ∧ (behind.head? = some '/' ∨ behind.head? = some '*')

/-- The text of a token of some sort, with what stands behind it. -/
inductive IsLexeme : Kind → List Char → List Char → Prop
  | number {digits behind : List Char} : digits ≠ [] → (∀ c ∈ digits, c.isDigit = true) →
      (∀ c ∈ behind.head?, c.isDigit = false) → IsLexeme .intLiteral digits behind
  | keyword {k : Keyword} {behind : List Char} : EndsWord behind →
      IsLexeme (.keyword k) k.text.toList behind
  | name {c : Char} {word behind : List Char} : isWordStart c = true →
      (∀ d ∈ word, isWordPart d = true) → (∀ k : Keyword, c :: word ≠ k.text.toList) →
        EndsWord behind → IsLexeme .identifier (c :: word) behind
  | symbol {s : Symbol} {behind : List Char} :
      (∀ s' : Symbol, s'.text.toList <+: s.text.toList ++ behind →
        s'.text.toList.length ≤ s.text.toList.length) →
      (∀ c, s.text.toList = [c] → ¬ OpensComment c behind) →
        IsLexeme (.symbol s) s.text.toList behind
  | invalid {c : Char} {behind : List Char} : Text.isBlank c = false → c.isDigit = false →
      isWordStart c = false → (∀ s : Symbol, ¬ s.text.toList <+: c :: behind) →
        IsLexeme .invalid [c] behind

/-- Where no comment is opened and no white space stands, a token starts. -/
def StartsToken (c : Char) (behind : List Char) : Prop :=
  Text.isBlank c = false ∧ ¬ OpensComment c behind

section lead

variable {c : Char} {text more behind : List Char} {kind : Kind}

/-- The letters are two stretches of the ASCII characters. -/
theorem isAlpha_iff : c.isAlpha = true ↔
    (65 ≤ c.toNat ∧ c.toNat ≤ 90) ∨ (97 ≤ c.toNat ∧ c.toNat ≤ 122) := by
  have halpha : c.isAlpha = (decide (c.val ≥ 65 ∧ c.val ≤ 90) ||
      (decide (c.val ≥ 97) && decide (c.val ≤ 122))) := rfl
  simp only [halpha, Bool.or_eq_true, Bool.and_eq_true, decide_eq_true_eq, ge_iff_le,
    UInt32.le_iff_toNat_le]
  exact Iff.rfl

theorem isDigit_iff : c.isDigit = true ↔ 48 ≤ c.toNat ∧ c.toNat ≤ 57 := by
  simp only [Char.isDigit, Bool.and_eq_true, decide_eq_true_eq, ge_iff_le, UInt32.le_iff_toNat_le]
  exact Iff.rfl

/-- The parts of words are in one stretch of the ASCII characters. -/
theorem bounds_of_isWordPart (h : isWordPart c = true) : 48 ≤ c.toNat ∧ c.toNat ≤ 122 := by
  simp only [isWordPart, Char.isAlphanum, Bool.or_eq_true, isAlpha_iff, isDigit_iff,
    beq_iff_eq] at h
  rcases h with h | rfl
  · omega
  · decide

theorem isWordPart_of_isDigit (h : c.isDigit = true) : isWordPart c = true := by
  simp [isWordPart, Char.isAlphanum, h]

theorem isWordPart_of_isWordStart (h : isWordStart c = true) : isWordPart c = true := by
  simp only [isWordStart, isWordPart, Char.isAlphanum, Bool.or_eq_true] at h ⊢
  exact h.imp_left .inl

theorem isDigit_of_isWordStart (h : isWordStart c = true) : c.isDigit = false := by
  rw [← Bool.not_eq_true, isDigit_iff]
  simp only [isWordStart, Bool.or_eq_true, isAlpha_iff, beq_iff_eq] at h
  rcases h with h | rfl
  · omega
  · decide

/-- A part of a word is neither white space nor the start of a comment. -/
theorem startsToken_of_isWordPart (h : isWordPart c = true) : StartsToken c behind := by
  obtain ⟨hlow, hhigh⟩ := bounds_of_isWordPart h
  refine ⟨?_, fun hopens => ?_⟩
  · simp only [Text.isBlank, Text.blankRanges, List.any_cons, List.any_nil, Bool.or_eq_false_iff,
      Bool.and_eq_false_iff, decide_eq_false_iff_not, not_le, and_true]
    omega
  · rw [hopens.1] at hlow
    exact absurd hlow (by decide)

/-- A word is a keyword or a name. -/
theorem wordKind_eq {word : List Char} :
    (∃ k : Keyword, wordKind word = .keyword k ∧ word = k.text.toList) ∨
      wordKind word = .identifier ∧ ∀ k : Keyword, word ≠ k.text.toList := by
  rw [wordKind]
  cases h : Keyword.ofText? (String.ofList word) with
  | some k =>
      refine .inl ⟨k, rfl, ?_⟩
      rw [← Keyword.ofText?_eq_some.1 h, String.toList_ofList]
  | none =>
      refine .inr ⟨rfl, ?_⟩
      rintro k rfl
      rw [String.ofList_toList, Keyword.ofText?_eq_some.2 rfl] at h
      cases h

/-- A keyword is a word. -/
theorem keyword_isWord (k : Keyword) : ∃ c word, k.text.toList = c :: word ∧
    isWordStart c = true ∧ ∀ d ∈ word, isWordPart d = true := by
  cases k <;> exact ⟨_, _, rfl, by decide, List.all_eq_true.1 (by decide)⟩

/-- What starts with a symbol is neither white space nor a word. -/
theorem symbol_head {s : Symbol} {more : List Char} (h : s.text.toList = c :: more) :
    Text.isBlank c = false ∧ c.isDigit = false ∧ isWordStart c = false := by
  cases s <;> cases h <;> decide

theorem takeWhile_append_of_head {p : Char → Bool} (hmore : ∀ d ∈ more, p d = true)
    (hbehind : ∀ d ∈ behind.head?, p d = false) :
    (more ++ behind).takeWhile p = more ∧ (more ++ behind).dropWhile p = behind := by
  rw [List.takeWhile_append_of_pos hmore, List.dropWhile_append_of_pos hmore]
  cases behind with
  | nil => simp
  | cons d behind => simp [hbehind d rfl]

theorem head?_dropWhile_eq_false {p : Char → Bool} :
    ∀ d ∈ (text.dropWhile p).head?, p d = false := by
  intro d hd
  have := List.head?_dropWhile_not p text
  rw [hd] at this
  simpa using this

theorem lead_number (hdigit : c.isDigit = true) :
    lead c text = (.intLiteral, text.takeWhile Char.isDigit, text.dropWhile Char.isDigit) := by
  rw [lead, if_pos hdigit]

theorem lead_word (hstart : isWordStart c = true) :
    lead c text = (wordKind (c :: text.takeWhile isWordPart), text.takeWhile isWordPart,
      text.dropWhile isWordPart) := by
  rw [lead, isDigit_of_isWordStart hstart, if_neg Bool.false_ne_true, if_pos hstart]

theorem lead_symbol (hdigit : c.isDigit = false) (hstart : isWordStart c = false) :
    lead c text = ((symbolKind c text).1, text.take (symbolKind c text).2,
      text.drop (symbolKind c text).2) := by
  rw [lead, hdigit, hstart, if_neg Bool.false_ne_true, if_neg Bool.false_ne_true]

/-- The longest symbol is taken. -/
theorem symbolKind_eq {s : Symbol} (hs : s.text.toList = c :: more)
    (hlongest : ∀ s' : Symbol, s'.text.toList <+: c :: (more ++ behind) →
      s'.text.toList.length ≤ s.text.toList.length) :
    symbolKind c (more ++ behind) = (.symbol s, more.length) := by
  rcases s.text_cases with ⟨c', htext⟩ | ⟨c', d, htext⟩
  · rw [htext] at hs
    cases hs
    have hpair : behind.head?.bind (Symbol.ofPair? c) = none := by
      refine Option.bind_eq_none_iff.2 fun d hd => Option.eq_none_iff_forall_ne_some.2 ?_
      intro s' hs'
      obtain ⟨rest, rfl⟩ := List.head?_eq_some_iff.1 hd
      have htwo := Symbol.ofPair?_eq_some.1 hs'
      have hle := hlongest s' (by rw [htwo]; exact List.prefix_append [c, d] rest)
      rw [htwo, htext] at hle
      exact absurd hle (by simp)
    rw [List.nil_append, symbolKind, hpair, Symbol.ofChar?_eq_some.2 htext]
    rfl
  · rw [htext] at hs
    cases hs
    rw [symbolKind, List.cons_append, List.head?_cons, Option.bind_some,
      Symbol.ofPair?_eq_some.2 htext]
    rfl

/-- A text with a token at its start starts with that token. -/
theorem lead_eq (h : IsLexeme kind (c :: more) behind) :
    lead c (more ++ behind) = (kind, more, behind) := by
  generalize hlexeme : c :: more = lexeme at h
  cases h with
  | number _ hdigits hbehind =>
      subst hlexeme
      obtain ⟨hc, hmore⟩ := List.forall_mem_cons.1 hdigits
      obtain ⟨htake, hdrop⟩ := takeWhile_append_of_head hmore hbehind
      rw [lead_number hc, htake, hdrop]
  | @keyword k _ hends =>
      obtain ⟨c', word, htext, hstart, hword⟩ := keyword_isWord k
      rw [htext] at hlexeme
      cases hlexeme
      obtain ⟨htake, hdrop⟩ := takeWhile_append_of_head hword hends
      have hkind : wordKind (c :: more) = .keyword k := by
        rw [wordKind, ← htext, String.ofList_toList, Keyword.ofText?_eq_some.2 rfl]
        rfl
      rw [lead_word hstart, htake, hdrop, hkind]
  | name hstart hword hname hends =>
      cases hlexeme
      obtain ⟨htake, hdrop⟩ := takeWhile_append_of_head hword hends
      rw [lead_word hstart, htake, hdrop]
      rcases @wordKind_eq (c :: more) with ⟨k, _, htext⟩ | ⟨hkind, _⟩
      · exact (hname k htext).elim
      · rw [hkind]
  | @symbol s _ hlongest _ =>
      obtain ⟨_, hdigit, hstart⟩ := symbol_head hlexeme.symm
      rw [← hlexeme] at hlongest
      rw [lead_symbol hdigit hstart, symbolKind_eq hlexeme.symm fun s' hs' => ?_,
        List.take_left, List.drop_left]
      rw [← hlexeme]
      exact hlongest s' hs'
  | invalid hblank hdigit hstart hsymbol =>
      cases hlexeme
      have hpair : behind.head?.bind (Symbol.ofPair? c) = none := by
        refine Option.bind_eq_none_iff.2 fun d hd => Option.eq_none_iff_forall_ne_some.2 ?_
        intro s hs
        obtain ⟨rest, rfl⟩ := List.head?_eq_some_iff.1 hd
        exact hsymbol s (by rw [Symbol.ofPair?_eq_some.1 hs]; exact List.prefix_append [c, d] rest)
      have hchar : Symbol.ofChar? c = none := by
        refine Option.eq_none_iff_forall_ne_some.2 fun s hs => hsymbol s ?_
        rw [Symbol.ofChar?_eq_some.1 hs]
        exact List.prefix_append [c] behind
      rw [lead_symbol hdigit hstart, List.nil_append, symbolKind, hpair, hchar]
      rfl

/-- A token has a text. -/
theorem exists_cons_of_isLexeme {lexeme : List Char} (h : IsLexeme kind lexeme behind) :
    ∃ c more, lexeme = c :: more := by
  cases h with
  | number hne _ _ => exact List.exists_cons_of_ne_nil hne
  | @keyword k _ _ =>
      obtain ⟨c, word, htext, _⟩ := keyword_isWord k
      exact ⟨c, word, htext⟩
  | name => exact ⟨_, _, rfl⟩
  | @symbol s _ _ _ =>
      rcases s.text_cases with ⟨c, htext⟩ | ⟨c, d, htext⟩
      · exact ⟨c, [], htext⟩
      · exact ⟨c, [d], htext⟩
  | invalid => exact ⟨_, _, rfl⟩

theorem startsToken_of_isLexeme (h : IsLexeme kind (c :: more) behind) :
    StartsToken c (more ++ behind) := by
  generalize hlexeme : c :: more = lexeme at h
  cases h with
  | number _ hdigits _ =>
      subst hlexeme
      exact startsToken_of_isWordPart (isWordPart_of_isDigit (hdigits c (List.mem_cons_self ..)))
  | @keyword k _ _ =>
      obtain ⟨c', word, htext, hstart, _⟩ := keyword_isWord k
      rw [htext] at hlexeme
      cases hlexeme
      exact startsToken_of_isWordPart (isWordPart_of_isWordStart hstart)
  | name hstart _ _ _ =>
      cases hlexeme
      exact startsToken_of_isWordPart (isWordPart_of_isWordStart hstart)
  | @symbol s _ _ hopens =>
      refine ⟨(symbol_head hlexeme.symm).1, ?_⟩
      rcases s.text_cases with ⟨c', htext⟩ | ⟨c', d, htext⟩
      · rw [htext] at hlexeme
        cases hlexeme
        exact hopens c htext
      · rintro ⟨rfl, -⟩
        rw [htext] at hlexeme
        cases hlexeme
        cases s <;> cases htext
  | invalid hblank _ _ hsymbol =>
      cases hlexeme
      exact ⟨hblank, fun hopens => hsymbol .slash (hopens.1 ▸ List.prefix_append ['/'] behind)⟩

/-- Where no number and no word starts, what is taken is a symbol or no token of the language. -/
theorem isLexeme_symbolKind (h : StartsToken c text) (hdigit : c.isDigit = false)
    (hstart : isWordStart c = false) :
    IsLexeme (symbolKind c text).1 (c :: text.take (symbolKind c text).2)
      (text.drop (symbolKind c text).2) := by
  have hpairs : ∀ s : Symbol, s.text.toList <+: c :: text →
      s.text.toList = [c] ∨ ∃ d, text.head? = some d ∧ s.text.toList = [c, d] := by
    intro s hs
    rcases s.text_cases with ⟨c', htext⟩ | ⟨c', d, htext⟩
    · rw [htext, List.cons_prefix_cons] at hs
      exact .inl (hs.1 ▸ htext)
    · rw [htext, List.cons_prefix_cons] at hs
      obtain ⟨rest, rfl⟩ := hs.2
      exact .inr ⟨d, rfl, hs.1 ▸ htext⟩
  cases hpair : text.head?.bind (Symbol.ofPair? c) with
  | some s =>
      obtain ⟨d, hd, hs⟩ := Option.bind_eq_some_iff.1 hpair
      obtain ⟨rest, rfl⟩ := List.head?_eq_some_iff.1 hd
      have htext := Symbol.ofPair?_eq_some.1 hs
      rw [symbolKind, hpair]
      change IsLexeme (.symbol s) [c, d] rest
      rw [← htext]
      refine .symbol (fun s' _ => ?_) fun c' hc' => ?_
      · rw [htext]
        rcases s'.text_cases with ⟨_, htext'⟩ | ⟨_, _, htext'⟩ <;> simp [htext']
      · rw [htext] at hc'
        cases hc'
  | none =>
      have hshort : ∀ s : Symbol, s.text.toList <+: c :: text → s.text.toList = [c] := by
        intro s hs
        refine (hpairs s hs).resolve_right ?_
        rintro ⟨d, hd, htext⟩
        rw [hd, Option.bind_some, Symbol.ofPair?_eq_some.2 htext] at hpair
        cases hpair
      cases hchar : Symbol.ofChar? c with
      | some s =>
          have htext := Symbol.ofChar?_eq_some.1 hchar
          rw [symbolKind, hpair, hchar]
          change IsLexeme (.symbol s) [c] text
          rw [← htext]
          refine .symbol (fun s' hs' => ?_) fun c' hc' => ?_
          · rw [htext] at hs' ⊢
            rw [hshort s' hs']
          · rw [htext] at hc'
            cases hc'
            exact h.2
      | none =>
          rw [symbolKind, hpair, hchar]
          refine .invalid h.1 hdigit hstart fun s hs => ?_
          rw [Symbol.ofChar?_eq_some.2 (hshort s hs)] at hchar
          cases hchar

/-- Where a token starts, what is taken is one. -/
theorem isLexeme_lead (h : StartsToken c text) :
    (lead c text).2.1 ++ (lead c text).2.2 = text ∧
      IsLexeme (lead c text).1 (c :: (lead c text).2.1) (lead c text).2.2 := by
  cases hdigit : c.isDigit with
  | true =>
      rw [lead_number hdigit]
      refine ⟨List.takeWhile_append_dropWhile,
        .number (List.cons_ne_nil c _) ?_ head?_dropWhile_eq_false⟩
      exact List.forall_mem_cons.2 ⟨hdigit, fun d hd => List.mem_takeWhile_imp hd⟩
  | false =>
      cases hstart : isWordStart c with
      | true =>
          rw [lead_word hstart]
          refine ⟨List.takeWhile_append_dropWhile, ?_⟩
          have hends : EndsWord (text.dropWhile isWordPart) := head?_dropWhile_eq_false
          rcases @wordKind_eq (c :: text.takeWhile isWordPart) with
            ⟨k, hkind, htext⟩ | ⟨hkind, hname⟩
          · rw [hkind, htext]
            exact .keyword hends
          · rw [hkind]
            exact .name hstart (fun d hd => List.mem_takeWhile_imp hd) hname hends
      | false =>
          rw [lead_symbol hdigit hstart]
          exact ⟨List.take_append_drop .., isLexeme_symbolKind h hdigit hstart⟩

end lead

end Token
end ObjectLang
