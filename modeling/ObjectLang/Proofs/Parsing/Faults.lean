import Mathlib.Tactic
import ObjectLang.Proofs.Parsing.BesidePrograms
import ObjectLang.Proofs.Token.Tiling

/-!
# Where the caret of an error stands

An error is shown with the source line that its span starts in, behind the number of that line, and
with a caret in the line below. Every error that reading a text reports is at the first character of
a token, at the opening of a comment, or at the end of the text, and the source line holds that
character at its place. The line of the caret is set behind a bar that takes no part in the number's
field, so that the caret stands to the left of the character: by two columns in the first 999 lines,
and by one more column for each further digit of the line's number.
-/
namespace ObjectLang

namespace Text

/-- The last line of a text that ends in a newline. -/
def lastLine (text : List Char) : List Char :=
  text.dropLast.rtakeWhile (· ≠ '\n')

/-- What stands before the last line of a text that ends in a newline. -/
def beforeLastLine (text : List Char) : List Char :=
  text.dropLast.rdropWhile (· ≠ '\n')

section lines

variable {before behind head row : List Char}

theorem takeWhile_append_cons {p : Char → Bool} {c : Char} (hc : p c = false) :
    (head ++ c :: behind).takeWhile p = head.takeWhile p := by
  induction head with
  | nil => simp [hc]
  | cons d head ih => simp [List.takeWhile_cons, ih]

/-- What stands behind the last newline does not depend on what stands before it. -/
theorem rtakeWhile_newline :
    (head ++ '\n' :: row).rtakeWhile (· ≠ '\n') = row.rtakeWhile (· ≠ '\n') := by
  rw [List.rtakeWhile, List.reverse_append, List.reverse_cons, List.append_assoc,
    List.singleton_append, takeWhile_append_cons (by decide)]
  rfl

theorem rtakeWhile_of_not_mem (h : '\n' ∉ row) : row.rtakeWhile (· ≠ '\n') = row :=
  List.rtakeWhile_eq_self_iff.2 fun c hc => by simpa using ne_of_mem_of_not_mem hc h

theorem lastLine_eq (h : '\n' ∉ row) : lastLine (head ++ '\n' :: (row ++ ['\n'])) = row := by
  rw [lastLine, ← List.cons_append, ← List.append_assoc, List.dropLast_concat, rtakeWhile_newline,
    rtakeWhile_of_not_mem h]

theorem beforeLastLine_eq (h : '\n' ∉ row) :
    beforeLastLine (head ++ '\n' :: (row ++ ['\n'])) = head ++ ['\n'] := by
  have happend : (head ++ '\n' :: row).rdropWhile (· ≠ '\n') ++ row = head ++ ['\n'] ++ row := by
    have hparts := List.rdropWhile_append_rtakeWhile (p := (· ≠ '\n')) (l := head ++ '\n' :: row)
    rw [rtakeWhile_newline, rtakeWhile_of_not_mem h] at hparts
    exact hparts.trans (List.append_cons ..)
  rw [beforeLastLine, ← List.cons_append, ← List.append_assoc, List.dropLast_concat]
  exact List.append_cancel_right happend

/-- The line that a place stands in holds what is before that place on the line, and goes on with
what is behind it. White space does not stand there: it could be the line's end. -/
theorem getElem?_lines {line : String} (hbehind : ∀ c ∈ behind.head?, isBlank c = false)
    (h : (lines (String.ofList (before ++ behind)))[before.count '\n']? = some line) :
    ∃ rest, line.toList = before.rtakeWhile (· ≠ '\n') ++ rest ∧ rest <+: behind ∧
      '\n' ∉ line.toList := by
  induction hn : before.length using Nat.strong_induction_on generalizing before with
  | h n ih =>
      subst hn
      by_cases hbefore : '\n' ∈ before
      · obtain ⟨first, more, rfl, hfirst⟩ := List.eq_append_cons_of_mem hbefore
        rw [rtakeWhile_newline]
        refine ih more.length (by simp; omega) ?_ rfl
        rw [List.append_assoc, List.cons_append, lines_newline hfirst, List.count_append,
          List.count_eq_zero_of_not_mem hfirst, List.count_cons_self, Nat.zero_add,
          List.getElem?_cons_succ] at h
        exact h
      · rw [rtakeWhile_of_not_mem hbefore]
        rw [List.count_eq_zero_of_not_mem hbefore] at h
        by_cases hline : '\n' ∈ behind
        · obtain ⟨here, more, rfl, hhere⟩ := List.eq_append_cons_of_mem hline
          have hne : here ≠ [] := by
            rintro rfl
            cases hbehind '\n' rfl
          have hnot : '\n' ∉ before ++ here := by simp [hbefore, hhere]
          rw [← List.append_assoc, lines_newline hnot, List.getElem?_cons_zero] at h
          obtain rfl := Option.some.inj h
          rw [String.toList_ofList]
          split
          · refine ⟨here.dropLast, List.dropLast_append_of_ne_nil hne, ?_, ?_⟩
            · exact (List.dropLast_prefix here).trans (List.prefix_append ..)
            · exact fun hmem => hnot (List.dropLast_subset _ hmem)
          · exact ⟨here, rfl, List.prefix_append .., hnot⟩
        · have hnot : '\n' ∉ before ++ behind := by simp [hbefore, hline]
          rw [lines_last hnot] at h
          split at h
          · cases h
          · obtain rfl : String.ofList (before ++ behind) = line := by simpa using h
            rw [String.toList_ofList]
            exact ⟨behind, rfl, List.prefix_rfl, hnot⟩

end lines

end Text

namespace ParseError

variable {source line : String} {e : ParseError}

/-- The source line of a rendered error, with its number. -/
def sourceRow (source : String) (e : ParseError) : List Char :=
  Text.lastLine (Text.beforeLastLine (e.render source).toList)

/-- The line with the caret below the source line of a rendered error. -/
def caretRow (source : String) (e : ParseError) : List Char :=
  Text.lastLine (e.render source).toList

/-- What stands before the source line: its number, flush right, and a bar. -/
def gutter (n : Nat) : List Char :=
  List.replicate (3 - (toString n).length) ' ' ++ (toString n).toList ++ " | ".toList

/-- What stands before the caret. -/
def indent (span : Span) : List Char :=
  "  | ".toList ++ List.replicate (span.col - 1) ' '

theorem length_gutter (n : Nat) : (gutter n).length = max 3 (toString n).length + 3 := by
  have hbar : " | ".length = 3 := rfl
  simp only [gutter, List.length_append, List.length_replicate, String.length_toList]
  omega

theorem newline_not_mem_gutter (n : Nat) : '\n' ∉ gutter n := by
  have hdigits : '\n' ∉ (toString n).toList := by
    rw [Nat.toString_eq_ofList_toDigits, String.toList_ofList]
    intro h
    cases Nat.isDigit_of_mem_toDigits (by decide) (by decide) h
  simp only [gutter, List.mem_append, List.mem_replicate, hdigits, not_or]
  exact ⟨⟨by simp, not_false⟩, by decide⟩

theorem render_toList (h : (Text.lines source)[e.span.line - 1]? = some line) :
    ∃ head, (e.render source).toList =
      head ++ '\n' :: (gutter e.span.line ++ line.toList ++ ['\n'] ++
        (indent e.span ++ '^' :: List.replicate (e.span.len - 1) '~' ++ ['\n'])) := by
  rw [render, h, Option.elim_some, excerpt_eq]
  refine ⟨("Error at " ++ e.span.text ++ ": " ++ e.kind.text ++ "\n" ++
    (if e.message.isEmpty then "" else "  " ++ e.message ++ "\n") ++ "  |").toList, ?_⟩
  simp [caretLine, gutter, indent]

/-- The last two lines of what is shown. -/
theorem rows_render (h : (Text.lines source)[e.span.line - 1]? = some line)
    (hline : '\n' ∉ line.toList) :
    e.sourceRow source = gutter e.span.line ++ line.toList ∧
      e.caretRow source = indent e.span ++ '^' :: List.replicate (e.span.len - 1) '~' := by
  obtain ⟨head, hrender⟩ := render_toList h
  have hcaret : '\n' ∉ indent e.span ++ '^' :: List.replicate (e.span.len - 1) '~' := by
    simp [indent]
  have hsource : '\n' ∉ gutter e.span.line ++ line.toList := by
    simp [newline_not_mem_gutter, hline]
  have hlast : (e.render source).toList = (head ++ '\n' :: (gutter e.span.line ++ line.toList)) ++
      '\n' :: (indent e.span ++ '^' :: List.replicate (e.span.len - 1) '~' ++ ['\n']) := by
    simp [hrender]
  rw [sourceRow, caretRow, hlast, Text.lastLine_eq hcaret, Text.beforeLastLine_eq hcaret,
    List.append_assoc, List.cons_append, Text.lastLine_eq hsource]
  exact ⟨rfl, rfl⟩

end ParseError

open Parsing

/-- A span starts behind some part of a text, in front of no white space. -/
def StandsIn (text : List Char) (span : Span) : Prop :=
  ∃ before behind, text = before ++ behind ∧ span = Token.spanBehind before span.len ∧
    ∀ c ∈ behind.head?, Text.isBlank c = false

/-- What is wrong with a text that is read as a program, as a statement or as an expression. -/
def Faults (source : String) (errors : List ParseError) : Prop :=
  Program.ofText source = .error errors ∨ Stmt.ofText source = .error errors ∨
    Expr.ofText source = .error errors

/-- The last two lines of a rendered error are a source line, which holds the first character of the
error's span in its place, and a line with a caret, which stands some columns to the left of that
character. -/
inductive CaretOff (source : String) (e : ParseError) (line : String) (columns : Nat) : Prop
  | mk {before behind rest gutter : List Char} :
      source.toList = before ++ behind → e.span = Token.spanBehind before e.span.len →
      line.toList = before.rtakeWhile (· ≠ '\n') ++ rest → rest <+: behind →
      e.sourceRow source = gutter ++ line.toList →
      (e.caretRow source).idxOf '^' + columns =
        gutter.length + (before.rtakeWhile (· ≠ '\n')).length → CaretOff source e line columns

section places

variable {source : String} {e : ParseError}

theorem standsIn_token {t : Token} (ht : t ∈ (Token.scan source).tokens) :
    StandsIn source.toList t.span := by
  obtain ⟨tiling, hscan⟩ := Token.exists_tiling source
  rw [hscan] at ht
  obtain ⟨x, hx, rfl⟩ := List.mem_map.1 ht
  obtain ⟨before, after, htiles⟩ := List.append_of_mem hx
  obtain ⟨hlexeme, hspan⟩ := tiling.stands before x after htiles
  obtain ⟨c, more, htext⟩ := Token.exists_cons_of_isLexeme hlexeme
  refine ⟨Token.tilesText before ++ x.gap, x.token.lexeme.toList ++
    (Token.tilesText after ++ (tiling.gap ++ tiling.ending.text)), ?_, ?_, ?_⟩
  · refine tiling.covers.symm.trans ?_
    rw [htiles]
    simp [Token.tilesText, Token.Tile.text]
  · rw [hspan]
    rfl
  · rw [htext] at hlexeme ⊢
    rintro _ ⟨⟩
    exact (Token.startsToken_of_isLexeme hlexeme).1

theorem standsIn_stop : StandsIn source.toList (Token.scan source).stop := by
  obtain ⟨tiling, hscan⟩ := Token.exists_tiling source
  rw [hscan]
  exact ⟨source.toList, [], (List.append_nil _).symm, rfl, by simp⟩

/-- What is wrong with the words of a text is an invalid token or a comment that is never closed. -/
theorem standsIn_scanError (he : e ∈ (Token.scan source).errors) :
    StandsIn source.toList e.span := by
  obtain ⟨tiling, hscan⟩ := Token.exists_tiling source
  have herrors : (Token.scan source).errors = tiling.errors := congrArg Token.Scan.errors hscan
  have htokens : (Token.scan source).tokens = tiling.tokens := congrArg Token.Scan.tokens hscan
  rw [herrors, Token.Tiling.errors, List.mem_append] at he
  rcases he with he | he
  · obtain ⟨t, ht, rfl⟩ := List.mem_map.1 he
    exact standsIn_token (htokens ▸ List.mem_of_mem_filter ht)
  · have hcovers := tiling.covers
    generalize tiling.ending = ending at he hcovers
    cases ending with
    | none => cases he
    | line body => cases he
    | unclosed body =>
        obtain rfl := List.mem_singleton.1 he
        refine ⟨Token.tilesText tiling.tiles ++ tiling.gap, '/' :: '*' :: body, ?_, rfl, ?_⟩
        · exact hcovers.symm.trans (List.append_assoc ..).symm
        · rintro _ ⟨⟩
          rfl

/-- The readers report errors only at tokens and at the end of the text. -/
theorem standsIn_readText {α : Type} {Same : α → α → Prop} {reader : Stream → Except ParseError α}
    (hreader : ∀ {s s' : Stream}, s.Beside (fun span _ => StandsIn source.toList span) s' →
      Parsing.Beside (fun span _ => StandsIn source.toList span) Same (reader s) (reader s'))
    {errors : List ParseError} (h : readText source reader = .error errors) (he : e ∈ errors) :
    StandsIn source.toList e.span := by
  rw [readText] at h
  split at h
  · have hstream : (Stream.ofScan (Token.scan source)).Beside
        (fun span _ => StandsIn source.toList span) (.ofScan (Token.scan source)) :=
      ⟨List.forall₂_same.2 fun t ht => ⟨rfl, rfl, standsIn_token ht⟩, standsIn_stop, rfl⟩
    have hread := hreader hstream
    generalize reader (.ofScan (Token.scan source)) = r at h hread
    cases hread with
    | ok => cases h
    | error herror =>
        cases h
        rw [List.mem_singleton.1 he]
        exact herror.span
  · cases h
    exact standsIn_scanError he

theorem Faults.standsIn {errors : List ParseError} (h : Faults source errors) (he : e ∈ errors) :
    StandsIn source.toList e.span := by
  rcases h with h | h | h
  · exact standsIn_readText program_beside h he
  · exact standsIn_readText (fun hs => whole_beside (blockItem_beside hs)) h he
  · exact standsIn_readText (fun hs => whole_beside (expression_beside 0 hs)) h he

end places

theorem byteLength_of_ascii {text : List Char} (h : ∀ c ∈ text, c.toNat < 128) :
    Token.byteLength text = text.length := by
  induction text with
  | nil => rfl
  | cons c text ih =>
      obtain ⟨hc, htext⟩ := List.forall_mem_cons.1 h
      have hsize : c.utf8Size = 1 := Char.utf8Size_eq_one_iff.2 (Nat.le_of_lt_succ hc)
      rw [Token.byteLength, ih htext, hsize, List.length_cons, Nat.add_comm]

/-- The caret of an error stands to the left of the character that it is meant for, by one column
less than the field of the line's number has. -/
theorem Faults.caretOff {source : String} (hascii : ∀ c ∈ source.toList, c.toNat < 128)
    {errors : List ParseError} (h : Faults source errors) {e : ParseError} (he : e ∈ errors)
    {line : String} (hline : (Text.lines source)[e.span.line - 1]? = some line) :
    CaretOff source e line (max 3 (toString e.span.line).length - 1) := by
  obtain ⟨before, behind, hsource, hspan, hbehind⟩ := h.standsIn he
  have hcount : e.span.line - 1 = before.count '\n' := by
    rw [hspan]
    rfl
  rw [← String.ofList_toList (s := source), hsource, hcount] at hline
  obtain ⟨rest, hchars, hrest, hnewline⟩ := Text.getElem?_lines hbehind hline
  rw [← hcount, ← hsource, String.ofList_toList] at hline
  obtain ⟨hrow, hcaret⟩ := ParseError.rows_render hline hnewline
  refine .mk hsource hspan hchars hrest hrow ?_
  have hhere : ∀ c ∈ before.rtakeWhile (· ≠ '\n'), c.toNat < 128 := fun c hc =>
    hascii c (hsource ▸ List.mem_append_left _ ((List.rtakeWhile_suffix _ _).subset hc))
  have hcolumn : e.span.col - 1 = (before.rtakeWhile (· ≠ '\n')).length := by
    rw [hspan, ← byteLength_of_ascii hhere]
    rfl
  have hindent : '^' ∉ ParseError.indent e.span := by simp [ParseError.indent]
  have hlength : (ParseError.indent e.span).length = 4 + (e.span.col - 1) := by
    simp [ParseError.indent]
    omega
  rw [hcaret, List.idxOf_append_of_notMem hindent, List.idxOf_cons_self,
    ParseError.length_gutter, hlength, hcolumn]
  omega

theorem forall_ascii {text : List Char} (h : text.all (·.toNat < 128) = true) :
    ∀ c ∈ text, c.toNat < 128 :=
  fun c hc => of_decide_eq_true (List.all_eq_true.1 h c hc)

/-- A program without a semicolon in its second line. -/
def missingText : String :=
  "int f()\n  \x7b return 1 12; \x7d"

/-- The caret stands below the first digit of `12`, if its line is moved by two columns. -/
theorem Faults.caretOff_operand : ∃ e : ParseError,
    Faults missingText [e] ∧ e.span = ⟨2, 14, 2⟩ ∧
      CaretOff missingText e "  \x7b return 1 12; \x7d" 2 := by
  have herrors : (match Program.ofText missingText with
      | .error errors => decide (errors = [.expectedToken ⟨2, 14, 2⟩ "';'" "'12'"])
      | .ok _ => false) = true := by decide +kernel
  have hfaults : Faults missingText
      [.expectedToken ⟨2, 14, 2⟩ "';'" "'12'"] := by
    refine .inl ?_
    split at herrors
    · next h => rw [h, of_decide_eq_true herrors]
    · cases herrors
  exact ⟨_, hfaults, rfl, hfaults.caretOff (forall_ascii (by decide +kernel))
    (List.mem_singleton.2 rfl) (by decide +kernel)⟩

/-- The caret of an error does not always stand below the character that it is meant for. -/
theorem Faults.caret_not_below : ¬ ∀ (source : String) (errors : List ParseError) (e : ParseError)
    (line : String), (∀ c ∈ source.toList, c.toNat < 128) → Faults source errors → e ∈ errors →
      (Text.lines source)[e.span.line - 1]? = some line → CaretOff source e line 0 := by
  intro h
  have hfaults : Faults "#" (Token.scan "#").errors := by
    refine .inl ?_
    rw [Program.ofText, readText, if_neg (by decide +kernel)]
  have herrors : (Token.scan "#").errors =
      [⟨.unexpectedChar, ⟨1, 1, 1⟩, "unexpected character '#'"⟩] := by decide +kernel
  rw [herrors] at hfaults
  obtain ⟨-, -, -, -, hrow, hcaret⟩ :=
    h "#" _ _ "#" (forall_ascii (by decide)) hfaults (List.mem_singleton.2 rfl) (by decide +kernel)
  have hwidth := congrArg List.length hrow
  rw [List.length_append] at hwidth
  have hsourceRow : (ParseError.sourceRow "#"
      ⟨.unexpectedChar, ⟨1, 1, 1⟩, "unexpected character '#'"⟩).length = 7 := by decide +kernel
  have hcaretRow : (ParseError.caretRow "#"
      ⟨.unexpectedChar, ⟨1, 1, 1⟩, "unexpected character '#'"⟩).idxOf '^' = 4 := by decide +kernel
  have hline : "#".toList.length = 1 := rfl
  omega

end ObjectLang
