import Mathlib.Tactic
import ObjectLang.Proofs.Parsing.Completeness

/-!
# Reading a program is deciding the grammar

A text without faulty tokens is read exactly if the grammar derives its tokens, and then the tree
is, up to tags and places, the only one of them in which each `else` belongs to the nearest `if`.
Among the trees of a statement there is always such a one: an `else` that stands too far out can be
moved to the innermost `if` that ends before it.
-/
namespace ObjectLang

namespace Grammar

open Parsing

/-- An `else` behind a statement that is open can be taken into it. -/
theorem IsStmt.attach {us vs : List Token} {t onFalse : Stmt} {other : Token} (h : IsStmt us t)
    (hnearest : t.NearestElse) (hopen : t.isOpen = true) (ho : other.kind = .keyword .elseStmt)
    (hfalse : IsStmt vs onFalse) (hnearest' : onFalse.NearestElse) :
    ∃ t', IsStmt (us ++ other :: vs) t' ∧ t'.NearestElse := by
  match h with
  | .eval _ _ | .assign _ _ _ _ _ | .return _ _ _ _ | .block _ _ => exact Bool.noConfusion hopen
  | @IsStmt.branch span start ts us c onTrue hstart hc htrue =>
    rw [List.cons_append, List.append_assoc]
    cases hinner : onTrue.isOpen with
    | true =>
      obtain ⟨t', ht', hn'⟩ := htrue.attach hnearest hinner ho hfalse hnearest'
      exact ⟨.branch span c t' none, .branch span hstart hc ht', hn'⟩
    | false =>
      exact ⟨.branch span c onTrue (some onFalse), .branchElse span hstart hc htrue ho hfalse,
        hnearest, hinner, hnearest'⟩
  | @IsStmt.branchElse span start other' ts us vs' c onTrue onFalse' hstart hc htrue ho' hlast =>
    rw [List.cons_append, List.append_assoc, List.append_assoc, List.cons_append]
    obtain ⟨t', ht', hn'⟩ := hlast.attach hnearest.2.2 hopen ho hfalse hnearest'
    exact ⟨.branch span c onTrue (some t'), .branchElse span hstart hc htrue ho' ht', hnearest.1,
      hnearest.2.1, hn'⟩
  | @IsStmt.loop span start ts us c body hstart hc hbody =>
    rw [List.cons_append, List.append_assoc]
    obtain ⟨t', ht', hn'⟩ := hbody.attach hnearest hopen ho hfalse hnearest'
    exact ⟨.loop span c t', .loop span hstart hc ht', hn'⟩

mutual

/-- The tokens of a statement have a tree in which each `else` belongs to the nearest `if`. -/
theorem IsStmt.exists_nearest {ts : List Token} {t : Stmt} (h : IsStmt ts t) :
    ∃ t', IsStmt ts t' ∧ t'.NearestElse := by
  match h with
  | .eval he hc => exact ⟨_, .eval he hc, trivial⟩
  | .assign span he hsign hv hc => exact ⟨_, .assign span he hsign hv hc, trivial⟩
  | .return span hstart he hc => exact ⟨_, .return span hstart he hc, trivial⟩
  | .block span hb =>
    obtain ⟨body, hb', hn⟩ := hb.exists_nearest
    exact ⟨_, .block span hb', hn⟩
  | .branch span hstart hc htrue =>
    obtain ⟨t', ht', hn⟩ := htrue.exists_nearest
    exact ⟨_, .branch span hstart hc ht', hn⟩
  | .loop span hstart hc hbody =>
    obtain ⟨t', ht', hn⟩ := hbody.exists_nearest
    exact ⟨_, .loop span hstart hc ht', hn⟩
  | .branchElse span hstart hc htrue ho hfalse =>
    obtain ⟨t', ht', hn⟩ := htrue.exists_nearest
    obtain ⟨f', hf', hn'⟩ := hfalse.exists_nearest
    cases hinner : t'.isOpen with
    | true =>
      obtain ⟨t'', ht'', hn''⟩ := ht'.attach hn hinner ho hf' hn'
      exact ⟨_, .branch span hstart hc ht'', hn''⟩
    | false => exact ⟨_, .branchElse span hstart hc ht' ho hf', hn, hinner, hn'⟩

theorem IsBlock.exists_nearest {ts : List Token} {body : List Stmt} (h : IsBlock ts body) :
    ∃ body', IsBlock ts body' ∧ NearestElseIn body' := by
  match h with
  | .intro hl hitems hr =>
    obtain ⟨body', hitems', hn⟩ := hitems.exists_nearest
    exact ⟨body', .intro hl hitems' hr, hn⟩

theorem IsItems.exists_nearest {ts : List Token} {body : List Stmt} (h : IsItems ts body) :
    ∃ body', IsItems ts body' ∧ NearestElseIn body' := by
  match h with
  | .nil => exact ⟨[], .nil, trivial⟩
  | .stmt hs hitems =>
    obtain ⟨s', hs', hn⟩ := hs.exists_nearest
    obtain ⟨body', hitems', hn'⟩ := hitems.exists_nearest
    exact ⟨s' :: body', .stmt hs' hitems', hn, hn'⟩
  | .declare hd hitems =>
    obtain ⟨body', hitems', hn'⟩ := hitems.exists_nearest
    exact ⟨_ :: body', .declare hd hitems', trivial, hn'⟩

end

variable {ts : List Token}

theorem IsFunction.exists_nearest {f : FunctionDecl} (h : IsFunction ts f) :
    ∃ f', IsFunction ts f' ∧ NearestElseIn f'.body := by
  obtain ⟨tag, bodySpan, htype, hname, hparams, hbody⟩ := h
  obtain ⟨body, hbody, hn⟩ := hbody.exists_nearest
  exact ⟨_, .intro tag bodySpan htype hname hparams hbody, hn⟩

theorem IsMembers.exists_nearest {fields : List VarDecl} {methods : List FunctionDecl}
    (h : IsMembers ts fields methods) :
    ∃ methods', IsMembers ts fields methods' ∧ ∀ f ∈ methods', NearestElseIn f.body := by
  induction h with
  | nil => exact ⟨[], .nil, by simp⟩
  | field hd _ ih =>
    obtain ⟨methods', h, hn⟩ := ih
    exact ⟨methods', .field hd h, hn⟩
  | method hf _ ih =>
    obtain ⟨f', hf', hn'⟩ := hf.exists_nearest
    obtain ⟨methods', h, hn⟩ := ih
    exact ⟨f' :: methods', .method hf' h, List.forall_mem_cons.2 ⟨hn', hn⟩⟩

theorem IsProgram.exists_nearest {classes : List ClassDecl} {functions : List FunctionDecl}
    (h : IsProgram ts classes functions) : ∃ classes' functions',
      IsProgram ts classes' functions' ∧ (∀ f ∈ functions', NearestElseIn f.body) ∧
        ∀ c ∈ classes', ∀ f ∈ c.methods, NearestElseIn f.body := by
  induction h with
  | nil => exact ⟨[], [], .nil, by simp, by simp⟩
  | cls hc _ ih =>
    obtain ⟨tag, hstart, hname, hsuper, hl, hmembers, hr⟩ := hc
    obtain ⟨methods', hmembers', hn'⟩ := hmembers.exists_nearest
    obtain ⟨classes', functions', h, hfunctions, hclasses⟩ := ih
    exact ⟨_ :: classes', functions', .cls (.intro tag hstart hname hsuper hl hmembers' hr) h,
      hfunctions, List.forall_mem_cons.2 ⟨hn', hclasses⟩⟩
  | function hf _ ih =>
    obtain ⟨f', hf', hn'⟩ := hf.exists_nearest
    obtain ⟨classes', functions', h, hfunctions, hclasses⟩ := ih
    exact ⟨classes', f' :: functions', .function hf' h, List.forall_mem_cons.2 ⟨hn', hfunctions⟩,
      hclasses⟩

end Grammar

open Grammar Parsing in
/-- A text without faulty tokens is read exactly if the grammar derives its tokens. The tree that is
read is, up to tags and places, the one derived tree that gives each `else` to the nearest `if`. -/
theorem Program.ofText_decidesGrammar (source : String)
    (h : (Token.scan source).errors = []) :
    ((∃ p, Program.ofText source = .ok p) ↔
      ∃ classes functions, IsProgram (Token.scan source).tokens classes functions) ∧
    ∀ p, Program.ofText source = .ok p →
      IsProgram (Token.scan source).tokens p.classes p.functions ∧ p.NearestElse ∧
        ∀ q : Program, IsProgram (Token.scan source).tokens q.classes q.functions →
          q.NearestElse → (q.relabel .bare).classes = (p.relabel .bare).classes ∧
            (q.relabel .bare).functions = (p.relabel .bare).functions := by
  have hread : ∀ q : Program, IsProgram (Token.scan source).tokens q.classes q.functions →
      q.NearestElse → ∃ p, Program.ofText source = .ok p ∧
        (q.relabel .bare).classes = (p.relabel .bare).classes ∧
          (q.relabel .bare).functions = (p.relabel .bare).functions := by
    intro q hq hn
    obtain ⟨r, hr, hv, _⟩ := reads_declarations hq hn.1 hn.2 (s := .ofScan (Token.scan source)) rfl
    obtain ⟨hclasses, hfunctions⟩ := Prod.mk.inj hv
    exact ⟨⟨r.value.1, r.value.2, r.rest.fresh⟩, ofText_eq_ok.2 ⟨h, r, hr, rfl⟩, hclasses.symm,
      hfunctions.symm⟩
  have hsound : ∀ p, Program.ofText source = .ok p →
      IsProgram (Token.scan source).tokens p.classes p.functions ∧ p.NearestElse := by
    intro p hp
    obtain ⟨_, r, hr, rfl⟩ := ofText_eq_ok.1 hp
    obtain ⟨hprogram, hfunctions, hclasses⟩ := isProgram_declarations hr
    exact ⟨hprogram, hfunctions, hclasses⟩
  refine ⟨⟨?_, ?_⟩, fun p hp => ?_⟩
  · rintro ⟨p, hp⟩
    exact ⟨_, _, (hsound p hp).1⟩
  · rintro ⟨classes, functions, hprogram⟩
    obtain ⟨classes', functions', hprogram', hfunctions, hclasses⟩ := hprogram.exists_nearest
    obtain ⟨p, hp, _⟩ := hread ⟨classes', functions', 0⟩ hprogram' ⟨hfunctions, hclasses⟩
    exact ⟨p, hp⟩
  · obtain ⟨hprogram, hnearest⟩ := hsound p hp
    refine ⟨hprogram, hnearest, fun q hq hn => ?_⟩
    obtain ⟨p', hp', hsame⟩ := hread q hq hn
    obtain rfl : p = p' := by
      rw [hp] at hp'
      exact Except.ok.inj hp'
    exact hsame

/-- One `else` behind two `if`s. -/
def danglingText : String :=
  "int main() { if (true) if (false) return 1; else return 2; return 0; }"

open Grammar in
/-- The text is read, and only one of its trees is right. -/
theorem Program.ofText_decidesGrammar_else :
    (Token.scan danglingText).errors = [] ∧ ∃ p, Program.ofText danglingText = .ok p ∧
      p.NearestElse ∧ ∀ q : Program, IsProgram (Token.scan danglingText).tokens
        q.classes q.functions → q.NearestElse →
          (q.relabel .bare).functions = (p.relabel .bare).functions := by
  have hscan : (Token.scan danglingText).errors = [] := by decide +kernel
  obtain ⟨p, hp, -⟩ := exists_ok_of_any (r := Program.ofText danglingText)
    (f := fun _ => true) (by decide +kernel)
  obtain ⟨_, hnearest, hunique⟩ := (Program.ofText_decidesGrammar _ hscan).2 p hp
  exact ⟨hscan, p, hp, hnearest, fun q hq hn => (hunique q hq hn).2⟩

end ObjectLang
