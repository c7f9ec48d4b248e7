/-!
# Lines of a text

A line ends at a newline, and a carriage return right before that newline belongs to the line's
end. The piece after the last newline is a line only if it holds a character.
-/
namespace ObjectLang.Text

/-- A line without the carriage return that stands right before its newline; the line is given
backwards. -/
private def closeLine : List Char → String
  | '\r' :: reversed => String.ofList reversed.reverse
  | reversed => String.ofList reversed.reverse

/-- The lines of a text whose first line has already been read as far as `reversed`. -/
private def linesFrom (reversed : List Char) : List Char → List String
  | [] => if reversed.isEmpty then [] else [String.ofList reversed.reverse]
  | '\n' :: text => closeLine reversed :: linesFrom [] text
  | c :: text => linesFrom (c :: reversed) text

/-- The lines of a text, without their ends. -/
def lines (text : String) : List String :=
  linesFrom [] text.toList

private theorem closeLine_reverse (line : List Char) : closeLine line.reverse =
    String.ofList (if line.getLast? = some '\r' then line.dropLast else line) := by
  generalize h : line.reverse = reversed
  obtain rfl : line = reversed.reverse := by rw [← h, List.reverse_reverse]
  match reversed with
  | [] => rfl
  | c :: reversed =>
    by_cases hc : c = '\r'
    · subst hc
      simp [closeLine]
    · simp [closeLine, hc]

private theorem linesFrom_append {reversed line text : List Char} (h : '\n' ∉ line) :
    linesFrom reversed (line ++ text) = linesFrom (line.reverse ++ reversed) text := by
  induction line generalizing reversed with
  | nil => rfl
  | cons c line ih =>
    obtain ⟨hc, hline⟩ := not_or.1 (mt List.mem_cons.2 h)
    rw [List.cons_append, linesFrom, ih hline, List.reverse_cons, List.append_assoc]
    · rfl
    · exact fun heq => hc heq.symm

/-- A text is its first line and the lines behind its first newline. -/
theorem lines_newline {line text : List Char} (h : '\n' ∉ line) :
    lines (String.ofList (line ++ '\n' :: text)) =
      String.ofList (if line.getLast? = some '\r' then line.dropLast else line) ::
        lines (String.ofList text) := by
  rw [lines, lines, String.toList_ofList, String.toList_ofList, linesFrom_append h,
    List.append_nil, linesFrom, closeLine_reverse]

/-- A text without newlines is one line, or none if it is empty. -/
theorem lines_last {line : List Char} (h : '\n' ∉ line) :
    lines (String.ofList line) = if line = [] then [] else [String.ofList line] := by
  rw [lines, String.toList_ofList, ← List.append_nil line, linesFrom_append h]
  cases line <;> simp [linesFrom]

/-- Texts put one after the other, each two separated by a newline. -/
def joinLines : List String → String
  | [] => ""
  | [line] => line
  | line :: rest => line ++ "\n" ++ joinLines rest

end ObjectLang.Text
