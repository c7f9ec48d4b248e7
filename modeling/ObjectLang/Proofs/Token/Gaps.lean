import Mathlib.Tactic
import ObjectLang.Token.Scan

/-!
# Gaps between tokens

A gap is made of white space, line comments with a newline behind them, and block comments, each of
which ends at the first `*/` behind its opening. A text may also end in a line comment that no
newline follows, or in a block comment that is never closed.
-/
namespace ObjectLang.Token

/-- A text without the end of a block comment. -/
def Unclosed (body : List Char) : Prop :=
  ¬ ['*', '/'] <:+: body

/-- What may stand between two tokens. -/
inductive IsGap : List Char → Prop
  | nil : IsGap []
  | blank {c : Char} {gap : List Char} : Text.isBlank c = true → IsGap gap → IsGap (c :: gap)
  | line {body gap : List Char} : '\n' ∉ body → IsGap gap →
      IsGap ('/' :: '/' :: body ++ '\n' :: gap)
  | block {body gap : List Char} : Unclosed (body ++ ['*']) → IsGap gap →
      IsGap ('/' :: '*' :: body ++ '*' :: '/' :: gap)

/-- What a text may end in behind its last gap. -/
inductive Ending where
  | none
  | line (body : List Char)
  | unclosed (body : List Char)

namespace Ending

def text : Ending → List Char
  | .none => []
  | .line body => '/' :: '/' :: body
  | .unclosed body => '/' :: '*' :: body

/-- A line comment holds no newline, and a comment that is never closed has no end. -/
def Proper : Ending → Prop
  | .none => True
  | .line body => '\n' ∉ body
  | .unclosed body => Unclosed body

end Ending

section comments

variable {body rest text : List Char} {c : Char}

theorem unclosed_cons :
    Unclosed (c :: body) ↔ ¬ (c = '*' ∧ body.head? = some '/') ∧ Unclosed body := by
  rw [Unclosed, List.infix_cons_iff, not_or, Unclosed]
  refine and_congr_left' (not_congr ?_)
  cases body <;> simp [eq_comm]

theorem closeComment_cons (h : ¬ (c = '*' ∧ text.head? = some '/')) :
    closeComment (c :: text) =
      (closeComment text).map fun (body, rest) => (c :: body, rest) := by
  cases text with
  | nil => simp [closeComment]
  | cons d text =>
      rw [closeComment]
      rintro rest rfl ⟨⟩
      exact h ⟨rfl, rfl⟩

/-- A comment ends at the first `*/`. -/
theorem closeComment_eq_some (h : Unclosed (body ++ ['*'])) :
    closeComment (body ++ '*' :: '/' :: rest) = some (body ++ ['*', '/'], rest) := by
  induction body with
  | nil => rfl
  | cons c body ih =>
      obtain ⟨hhead, hbody⟩ := unclosed_cons.1 h
      rw [List.cons_append, closeComment_cons, ih hbody]
      · rfl
      · cases body with
        | nil => simp
        | cons d body => exact hhead

theorem closeComment_eq_none (h : Unclosed body) : closeComment body = none := by
  induction body with
  | nil => rfl
  | cons c body ih =>
      obtain ⟨hhead, hbody⟩ := unclosed_cons.1 h
      rw [closeComment_cons hhead, ih hbody]
      rfl

/-- A text has a first end of a comment, or none. -/
theorem unclosed_or_closed (text : List Char) : Unclosed text ∨
    ∃ body rest, text = body ++ '*' :: '/' :: rest ∧ Unclosed (body ++ ['*']) := by
  induction text with
  | nil => exact .inl (by simp [Unclosed])
  | cons c text ih =>
      by_cases hhead : c = '*' ∧ text.head? = some '/'
      · obtain ⟨rfl, hhead⟩ := hhead
        obtain ⟨rest, rfl⟩ := List.head?_eq_some_iff.1 hhead
        exact .inr ⟨[], rest, rfl, unclosed_cons.2 ⟨by simp, by simp [Unclosed]⟩⟩
      · refine ih.imp (fun h => unclosed_cons.2 ⟨hhead, h⟩) ?_
        rintro ⟨body, rest, rfl, h⟩
        refine ⟨c :: body, rest, rfl, unclosed_cons.2 ⟨?_, h⟩⟩
        cases body with
        | nil => simp
        | cons d body => exact hhead

end comments

end ObjectLang.Token
