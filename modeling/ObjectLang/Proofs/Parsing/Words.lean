import Mathlib.Data.List.TakeWhile
import Mathlib.Tactic
import ObjectLang.Proofs.Parsing.Soundness
import ObjectLang.Proofs.Token.Lexemes

/-!
# Names are words

A name token is a run of letters, digits and underscores. The names that a program declares are such
words, so that whatever is put between two of them and is no word can be found again.
-/
namespace ObjectLang

/-- A text of letters, digits and underscores. -/
def IsWord (name : String) : Prop :=
  ∀ c ∈ name.toList, Token.isWordPart c = true

namespace Token

/-- The text of a name is a word, and no keyword. -/
theorem IsLexeme.isWord {kind : Kind} {text behind : List Char} (h : IsLexeme kind text behind)
    (hkind : kind = .identifier) :
    IsWord (String.ofList text) ∧ ∀ k : Keyword, String.ofList text ≠ k.text := by
  cases h with
  | name hstart hword hkeyword _ =>
      refine ⟨fun d hd => ?_, fun k hk => hkeyword k ?_⟩
      · rw [String.toList_ofList] at hd
        rcases List.mem_cons.1 hd with rfl | hd
        · exact isWordPart_of_isWordStart hstart
        · exact hword d hd
      · rw [← hk, String.toList_ofList]
  | _ => exact Kind.noConfusion hkind

/-- The name tokens of a text are words, and no keywords. -/
theorem isWord_scanFrom (p : Place) (text : List Char) :
    ∀ t ∈ (scanFrom p text).tokens, t.kind = .identifier →
      IsWord t.lexeme ∧ ∀ k : Keyword, t.lexeme ≠ k.text := by
  fun_induction scanFrom p text with
  | case1 => simp [Scan.ended]
  | case2 _ _ _ _ ih => exact ih
  | case3 _ _ _ _ _ _ ih => exact ih
  | case4 _ _ _ _ _ _ _ _ _ ih => exact ih
  | case5 => simp [Scan.unclosed, Scan.ended]
  | case6 p c text hblank hline hblock lexeme ih =>
      intro t ht hkind
      rcases List.mem_cons.1 ht with rfl | ht
      · have hopens : ¬ OpensComment c text := fun ⟨hc, hd⟩ =>
          hd.elim (fun h => hline ⟨hc, h⟩) fun h => hblock ⟨hc, h⟩
        obtain ⟨_, hlexeme⟩ := isLexeme_lead ⟨Bool.eq_false_iff.2 hblank, hopens⟩
        exact hlexeme.isWord hkind
      · exact ih t ht hkind

end Token

namespace Grammar

variable {ts : List Token} {P : String → Prop}

theorem IsName.holds {t : Token} {name : Ident} (h : IsName t name)
    (ht : t.kind = .identifier → P t.lexeme) : P name.name := by
  cases h with
  | intro _ hkind => exact ht hkind

theorem IsDecl.holds {d : VarDecl} (h : IsDecl ts d)
    (hts : ∀ t ∈ ts, t.kind = .identifier → P t.lexeme) : P d.name.name := by
  cases h with
  | intro _ _ hname _ => exact hname.holds (hts _ (by simp))

theorem IsMembers.holds {fields : List VarDecl} {methods : List FunctionDecl}
    (h : IsMembers ts fields methods) (hts : ∀ t ∈ ts, t.kind = .identifier → P t.lexeme) :
    ∀ d ∈ fields, P d.name.name := by
  induction h with
  | nil => simp
  | field hd _ ih =>
      simp only [List.mem_append, or_imp, forall_and] at hts
      exact List.forall_mem_cons.2 ⟨hd.holds hts.1, ih hts.2⟩
  | method _ _ ih =>
      simp only [List.mem_append, or_imp, forall_and] at hts
      exact ih hts.2

theorem IsClass.holds {c : ClassDecl} (h : IsClass ts c)
    (hts : ∀ t ∈ ts, t.kind = .identifier → P t.lexeme) :
    P c.name.name ∧ ∀ d ∈ c.fields, P d.name.name := by
  cases h with
  | intro _ _ hname _ _ hmembers _ =>
      exact ⟨hname.holds (hts _ (by simp)), hmembers.holds fun t ht => hts t (by simp [ht])⟩

/-- What holds of name tokens holds of the names of the classes and their fields. -/
theorem IsProgram.holds {classes : List ClassDecl} {functions : List FunctionDecl}
    (h : IsProgram ts classes functions)
    (hts : ∀ t ∈ ts, t.kind = .identifier → P t.lexeme) :
    ∀ c ∈ classes, P c.name.name ∧ ∀ d ∈ c.fields, P d.name.name := by
  induction h with
  | nil => simp
  | cls hc _ ih =>
      simp only [List.mem_append, or_imp, forall_and] at hts
      exact List.forall_mem_cons.2 ⟨hc.holds hts.1, ih hts.2⟩
  | function _ _ ih =>
      simp only [List.mem_append, or_imp, forall_and] at hts
      exact ih hts.2

end Grammar

section programs

variable {source : String} {p : Program} (h : Program.ofText source = .ok p)
include h

theorem Program.holds_ofText {P : String → Prop}
    (hP : ∀ t ∈ (Token.scan source).tokens, t.kind = .identifier → P t.lexeme) :
    ∀ c ∈ p.classes, P c.name.name ∧ ∀ d ∈ c.fields, P d.name.name := by
  obtain ⟨_, r, hr, rfl⟩ := ofText_eq_ok.1 h
  exact (Grammar.isProgram_declarations hr).1.holds hP

/-- The classes and the fields of a program that was read have words as names. -/
theorem Program.isWord_ofText :
    ∀ c ∈ p.classes, IsWord c.name.name ∧ ∀ d ∈ c.fields, IsWord d.name.name :=
  holds_ofText h fun t ht hkind => (Token.isWord_scanFrom _ _ t ht hkind).1

/-- The classes of a program that was read are not called like keywords. -/
theorem Program.ne_keyword_ofText : ∀ c ∈ p.classes, ∀ k : Keyword, c.name.name ≠ k.text :=
  fun c hc => (holds_ofText h (P := fun name => ∀ k : Keyword, name ≠ k.text)
    fun t ht hkind => (Token.isWord_scanFrom _ _ t ht hkind).2) c hc |>.1

end programs

end ObjectLang
