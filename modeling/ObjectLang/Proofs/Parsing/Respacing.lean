import Mathlib.Tactic
import ObjectLang.Proofs.Parsing.BesidePrograms
import ObjectLang.Proofs.Token.Tiling

/-!
# The layout of a text does not matter

White space ends every token but an invalid one, whatever stood behind it before. So the words of a
text can be set with other gaps, as long as each of them starts with white space, and the text then
has the same tokens up to their places. It is read to the same tree with the same identities, or
fails with the same error at the token of the same index.
-/
namespace ObjectLang.Token

/-- A gap that starts with white space. -/
inductive IsSeparator : List Char → Prop
  | mk {c : Char} {gap : List Char} : Text.isBlank c = true → IsGap gap → IsSeparator (c :: gap)

/-- A text of some words, each with a separator behind it; the last word may also end the text. -/
inductive SetApart : List String → List Char → Prop
  | done : SetApart [] []
  | last (word : String) : SetApart [word] word.toList
  | cons {word : String} {words : List String} {gap text : List Char} : IsSeparator gap →
      SetApart words text → SetApart (word :: words) (word.toList ++ (gap ++ text))

/-- A text of some words behind a gap. -/
inductive Respaced (words : List String) : List Char → Prop
  | mk {gap text : List Char} : IsGap gap → SetApart words text → Respaced words (gap ++ text)

/-- The sort and the text of a token. -/
def word (t : Token) : Kind × String :=
  (t.kind, t.lexeme)

section context

variable {kind : Kind} {lexeme behind behind' : List Char}

/-- A text is at its end or goes on with white space. -/
def StartsBlank (text : List Char) : Prop :=
  ∀ c ∈ text.head?, Text.isBlank c = true

theorem IsSeparator.startsBlank {gap text : List Char} (h : IsSeparator gap) :
    StartsBlank (gap ++ text) := by
  obtain ⟨hc, -⟩ := h
  rintro _ ⟨⟩
  exact hc

theorem IsSeparator.isGap {gap : List Char} (h : IsSeparator gap) : IsGap gap := by
  obtain ⟨hc, hgap⟩ := h
  exact .blank hc hgap

theorem isWordPart_of_isBlank {c : Char} (h : Text.isBlank c = true) : isWordPart c = false := by
  refine Bool.eq_false_iff.2 fun hpart => ?_
  rw [(@startsToken_of_isWordPart c [] hpart).1] at h
  cases h

theorem StartsBlank.endsWord (h : StartsBlank behind) : EndsWord behind :=
  fun c hc => isWordPart_of_isBlank (h c hc)

/-- No symbol goes on with white space. -/
theorem StartsBlank.symbol_le (h : StartsBlank behind) (s s' : Symbol)
    (hinitial : s'.text.toList <+: s.text.toList ++ behind) :
    s'.text.toList.length ≤ s.text.toList.length := by
  rcases s.text_cases with ⟨c, htext⟩ | ⟨c, d, htext⟩
  · rcases s'.text_cases with ⟨c', htext'⟩ | ⟨c', d', htext'⟩
    · simp [htext, htext']
    · exfalso
      rw [htext, htext', List.singleton_append, List.cons_prefix_cons] at hinitial
      obtain ⟨rest, rfl⟩ := hinitial.2
      have hblank := h d' rfl
      cases s' <;> cases htext' <;> cases hblank
  · rcases s'.text_cases with ⟨c', htext'⟩ | ⟨c', d', htext'⟩ <;> simp [htext, htext']

/-- White space, or the end of the text, ends every token of the language. -/
theorem IsLexeme.before_blank (h : IsLexeme kind lexeme behind) (hkind : kind ≠ .invalid)
    (hblank : StartsBlank behind') : IsLexeme kind lexeme behind' := by
  cases h with
  | number hne hdigits _ =>
      refine .number hne hdigits fun c hc => Bool.eq_false_iff.2 fun hdigit => ?_
      have hpart := isWordPart_of_isDigit hdigit
      rw [hblank.endsWord c hc] at hpart
      cases hpart
  | keyword _ => exact .keyword hblank.endsWord
  | name hstart hword hname _ => exact .name hstart hword hname hblank.endsWord
  | @symbol s _ _ _ =>
      refine .symbol (hblank.symbol_le s) fun c _ => ?_
      rintro ⟨-, hslash | hstar⟩
      · cases hblank _ hslash
      · cases hblank _ hstar
  | invalid => exact (hkind rfl).elim

end context

/-- Reading words with separators behind them finds these words. -/
theorem scanFrom_setApart {words : List String} {text : List Char} (h : SetApart words text) :
    ∀ (p : Place) (ts : List Token), ts.map lexeme = words →
      (∀ t ∈ ts, t.kind ≠ .invalid ∧ ∃ behind, IsLexeme t.kind t.lexeme.toList behind) →
        (scanFrom p text).errors = [] ∧ (scanFrom p text).tokens.map word = ts.map word := by
  induction h with
  | done =>
      intro p ts hts _
      rw [List.map_eq_nil_iff.1 hts, scanFrom]
      exact ⟨rfl, rfl⟩
  | last w =>
      intro p ts hts hlexemes
      obtain ⟨t, ts, rfl, rfl, hmore⟩ := List.map_eq_cons_iff.1 hts
      obtain ⟨hkind, behind, hlexeme⟩ := hlexemes t (List.mem_cons_self ..)
      rw [List.map_eq_nil_iff.1 hmore, ← List.append_nil t.lexeme.toList,
        scanFrom_lexeme (hlexeme.before_blank hkind (by simp [StartsBlank])), scanFrom]
      simp [Scan.cons, Scan.ended, hkind, word]
  | @cons w words gap text hgap _ ih =>
      intro p ts hts hlexemes
      obtain ⟨t, ts, rfl, rfl, hmore⟩ := List.map_eq_cons_iff.1 hts
      obtain ⟨ht, hrest⟩ := List.forall_mem_cons.1 hlexemes
      obtain ⟨hkind, behind, hlexeme⟩ := ht
      rw [scanFrom_lexeme (hlexeme.before_blank hkind hgap.startsBlank), scanFrom_gap hgap.isGap]
      obtain ⟨herrors, htokens⟩ := ih ((p.afterAll t.lexeme.toList).afterAll gap) ts hmore hrest
      simp [Scan.cons, hkind, herrors, htokens, word]

/-- The tokens of a text without faults are tokens of the language, in front of what stands behind
them. -/
theorem isLexeme_of_scan {source : String} (h : (scan source).errors = []) (t : Token)
    (ht : t ∈ (scan source).tokens) :
    t.kind ≠ .invalid ∧ ∃ behind, IsLexeme t.kind t.lexeme.toList behind := by
  obtain ⟨tiling, hscan⟩ := exists_tiling source
  rw [hscan] at h ht
  obtain ⟨x, hx, rfl⟩ := List.mem_map.1 ht
  obtain ⟨before, behind, htiles⟩ := List.append_of_mem hx
  refine ⟨fun hkind => ?_, _, (tiling.stands before x behind htiles).lexeme⟩
  have hfaulty := List.map_eq_nil_iff.1 (List.append_eq_nil_iff.1 h).1
  exact List.filter_eq_nil_iff.1 hfaulty _ ht (decide_eq_true hkind)

/-- A text with the words of another one, apart from each other, is without faults if that one is,
and has the same tokens up to their places. -/
theorem scan_respaced {source text : String} (h : (scan source).errors = [])
    (htext : Respaced ((scan source).tokens.map lexeme) text.toList) :
    (scan text).errors = [] ∧ (scan text).tokens.map word = (scan source).tokens.map word := by
  generalize hchars : text.toList = chars at htext
  obtain ⟨hgap, hset⟩ := htext
  rw [scan, hchars, scanFrom_gap hgap]
  exact scanFrom_setApart hset _ _ rfl (isLexeme_of_scan h)

end ObjectLang.Token

namespace ObjectLang

open Parsing

/-- Two spans are those of the tokens of one index, the ends of the texts included. -/
def SameIndex (s s' : Token.Scan) (span span' : Span) : Prop :=
  ∃ i : Nat, (s.all.map Token.span)[i]? = some span ∧ (s'.all.map Token.span)[i]? = some span'

/-- Two results of reading: programs that are the same up to their places, or one error each, of one
kind and with one message, at the tokens of one index. -/
inductive ReadAlike (s s' : Token.Scan) :
    Except (List ParseError) Program → Except (List ParseError) Program → Prop
  | program {p p' : Program} : SameProgram p p' → ReadAlike s s' (.ok p) (.ok p')
  | fault {e e' : ParseError} : e.Beside (SameIndex s s') e' →
      ReadAlike s s' (.error [e]) (.error [e'])

theorem ReadAlike.of_beside {s s' : Token.Scan} {r r' : Except ParseError Program}
    (h : Parsing.Beside (SameIndex s s') SameProgram r r') :
    ReadAlike s s' (r.mapError fun e => [e]) (r'.mapError fun e => [e]) := by
  cases h with
  | ok h => exact .program h
  | error h => exact .fault h

theorem getElem?_all {s : Token.Scan} {i : Nat} (hi : i < s.tokens.length) :
    (s.all.map Token.span)[i]? = some s.tokens[i].span := by
  rw [List.getElem?_map, Token.Scan.all, List.getElem?_append_left hi, List.getElem?_eq_getElem hi]
  rfl

theorem getElem?_all_length (s : Token.Scan) :
    (s.all.map Token.span)[s.tokens.length]? = some s.stop := by
  rw [List.getElem?_map, Token.Scan.all, List.getElem?_concat_length]
  rfl

/-- The streams of texts with the same words. -/
theorem ofScan_beside {s s' : Token.Scan} (h : s.tokens.map Token.word = s'.tokens.map Token.word) :
    (Stream.ofScan s).Beside (SameIndex s s') (.ofScan s') := by
  have hlength : s.tokens.length = s'.tokens.length := by
    simpa using congrArg List.length h
  refine ⟨List.forall₂_iff_get.2 ⟨hlength, fun i hi hi' => ?_⟩, ⟨s.tokens.length, ?_, ?_⟩, rfl⟩
  · change i < s.tokens.length at hi
    change i < s'.tokens.length at hi'
    have hword : s.tokens[i].word = s'.tokens[i].word := by
      simpa [hi, hi'] using congrArg (·[i]?) h
    exact ⟨congrArg Prod.fst hword, congrArg Prod.snd hword, i, getElem?_all hi, getElem?_all hi'⟩
  · exact getElem?_all_length s
  · rw [hlength]
    exact getElem?_all_length s'

/-- Reading a text again with other gaps between its words gives the same words, and the same tree
up to places or the same error at the same token. -/
theorem Program.ofText_respaced {source text : String} (hclean : (Token.scan source).errors = [])
    (htext : Token.Respaced ((Token.scan source).tokens.map Token.lexeme) text.toList) :
    (Token.scan text).errors = [] ∧
      (Token.scan text).all.map Token.word = (Token.scan source).all.map Token.word ∧
        ReadAlike (Token.scan source) (Token.scan text) (ofText source) (ofText text) := by
  obtain ⟨herrors, hwords⟩ := Token.scan_respaced hclean htext
  refine ⟨herrors, ?_, ?_⟩
  · simp only [Token.Scan.all, List.map_append, hwords]
    rfl
  · simp only [ofText, readText, hclean, herrors, List.isEmpty_nil, if_true]
    exact .of_beside (program_beside (ofScan_beside hwords.symm))

/-- A program with as few blanks as there can be. -/
def tightText : String :=
  "int f()\x7breturn 8/2;\x7d"

/-- The same with a comment before the first word and one after a slash, and with tabs and newlines
in other gaps. -/
def looseText : String :=
  "/* f */int\nf ( )\t\x7b return 8 / // half\n 2 ; \x7d "

/-- The program is read again, and `8/2` is still a quotient. -/
theorem Program.ofText_respaced_comments :
    (Token.scan tightText).errors = [] ∧
      Token.Respaced ((Token.scan tightText).tokens.map Token.lexeme)
        looseText.toList ∧
      ReadAlike (Token.scan tightText)
        (Token.scan looseText)
        (ofText tightText)
        (ofText looseText) := by
  have hclean : (Token.scan tightText).errors = [] := by decide +kernel
  have hwords : (Token.scan tightText).tokens.map Token.lexeme =
      ["int", "f", "(", ")", "\x7b", "return", "8", "/", "2", ";", "\x7d"] := by decide +kernel
  have blank {c : Char} (hc : Text.isBlank c = true) : Token.IsSeparator [c] := .mk hc .nil
  have half : Token.IsSeparator (' ' :: ('/' :: '/' :: " half".toList ++ '\n' :: [' '])) :=
    .mk rfl (.line (by decide) (.blank rfl .nil))
  have htext : Token.Respaced ((Token.scan tightText).tokens.map Token.lexeme)
      looseText.toList := by
    rw [hwords]
    exact @Token.Respaced.mk _ ('/' :: '*' :: " f ".toList ++ '*' :: '/' :: []) _
      (.block (by rw [Token.Unclosed]; decide) .nil)
      (.cons (blank (c := '\n') rfl) (.cons (blank (c := ' ') rfl) (.cons (blank (c := ' ') rfl)
        (.cons (blank (c := '\t') rfl) (.cons (blank (c := ' ') rfl) (.cons (blank (c := ' ') rfl)
          (.cons (blank (c := ' ') rfl) (.cons half (.cons (blank (c := ' ') rfl)
            (.cons (blank (c := ' ') rfl) (.cons (blank (c := ' ') rfl) .done)))))))))))
  exact ⟨hclean, htext, (ofText_respaced hclean htext).2.2⟩

end ObjectLang
