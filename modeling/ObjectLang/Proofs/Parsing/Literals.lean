import Mathlib.Tactic
import ObjectLang.Proofs.Analysis.Acceptance
import ObjectLang.Proofs.Parsing.Soundness

/-!
# How large numbers are

A number is at most `maxLiteral`, and `maxNegatedLiteral` directly behind a minus. A reader sees
that a number stands behind a minus before it sees what stands behind the number, so a number that
is taken for an array or an object may also be the larger one: `-2147483648.length` is read,
although no minus applies to the number in its tree. Such a tree has no type, so in the programs
that are accepted the larger number is always the operand of a minus.
-/
namespace ObjectLang

open Parsing Grammar

mutual

/-- Every number in an expression is as large as its place allows. The expression itself may be a
number of at most `limit`, the operand of an operator one of at most what the operator allows, and
the number that accesses start with one of at most `head limit`. -/
def Expr.Fits (head : Nat → Nat) (limit : Nat) : Expr → Prop
  | .number _ n => n ≤ limit
  | .unary _ op operand => operand.Fits head (limitBehind op)
  | .binary _ _ left right => left.Fits head maxLiteral ∧ right.Fits head maxLiteral
  | .read _ location => location.Fits head limit
  | .arrayLength _ array => array.Fits head (head limit)
  | .newArray _ _ size => size.Fits head maxLiteral
  | .call _ _ args => FitAll head args
  | .methodCall _ receiver _ args => receiver.Fits head (head limit) ∧ FitAll head args
  | .bool _ _ | .null _ | .this _ | .newObject _ _ => True
termination_by structural e => e

def Location.Fits (head : Nat → Nat) (limit : Nat) : Location → Prop
  | .var _ _ => True
  | .field _ receiver _ => receiver.Fits head (head limit)
  | .index _ array index => array.Fits head (head limit) ∧ index.Fits head maxLiteral
termination_by structural l => l

def FitAll (head : Nat → Nat) : List Expr → Prop
  | [] => True
  | e :: es => e.Fits head maxLiteral ∧ FitAll head es
termination_by structural es => es

end

mutual

/-- Every number in a statement is as large as its place allows. -/
def Stmt.Fits (head : Nat → Nat) : Stmt → Prop
  | .declare _ => True
  | .eval value => value.Fits head maxLiteral
  | .assign _ target value => target.Fits head maxLiteral ∧ value.Fits head maxLiteral
  | .branch _ condition onTrue none => condition.Fits head maxLiteral ∧ onTrue.Fits head
  | .branch _ condition onTrue (some onFalse) =>
    condition.Fits head maxLiteral ∧ onTrue.Fits head ∧ onFalse.Fits head
  | .loop _ condition body => condition.Fits head maxLiteral ∧ body.Fits head
  | .return _ value => value.Fits head maxLiteral
  | .block _ body => FitIn head body
termination_by structural s => s

def FitIn (head : Nat → Nat) : List Stmt → Prop
  | [] => True
  | s :: rest => s.Fits head ∧ FitIn head rest
termination_by structural body => body

end

/-- Every number in a program is as large as its place allows. -/
def Program.Fits (head : Nat → Nat) (p : Program) : Prop :=
  (∀ c ∈ p.classes, ∀ f ∈ c.methods, FitIn head f.body) ∧ ∀ f ∈ p.functions, FitIn head f.body

/-- The operand of a minus may be larger than other numbers, and so may what the accesses of the
operand start with. -/
def operandsAndHeads (limit : Nat) : Nat :=
  limit

/-- Only the operand of a minus may be larger than other numbers, not what accesses start with. -/
def operandsOnly (_ : Nat) : Nat :=
  maxLiteral

section grammar

mutual

/-- What fits where numbers are at most `limit` fits where they may be larger. -/
theorem Expr.Fits.mono {limit limit' : Nat} (hle : limit ≤ limit') :
    ∀ e : Expr, e.Fits operandsAndHeads limit → e.Fits operandsAndHeads limit'
  | .number _ _, h => h.trans hle
  | .read _ l, h => l.fits_mono hle h
  | .arrayLength _ a, h => Expr.Fits.mono hle a h
  | .methodCall _ r _ _, h => ⟨Expr.Fits.mono hle r h.1, h.2⟩
  | .unary .., h | .binary .., h | .newArray .., h | .call .., h => h
  | .bool .., h | .null _, h | .this _, h | .newObject .., h => h

theorem Location.fits_mono {limit limit' : Nat} (hle : limit ≤ limit') :
    ∀ l : Location, l.Fits operandsAndHeads limit → l.Fits operandsAndHeads limit'
  | .var .., h => h
  | .field _ r _, h => Expr.Fits.mono hle r h
  | .index _ a _, h => ⟨Expr.Fits.mono hle a h.1, h.2⟩

end

theorem Grammar.le_limitBehind (op : UnaryOp) : maxLiteral ≤ limitBehind op := by
  cases op <;> decide

mutual

/-- In a derived expression all numbers fit. -/
theorem Grammar.IsExpr.fits {level : Nat} {ts : List Token} {e : Expr} :
    IsExpr level ts e → e.Fits operandsAndHeads maxLiteral
  | .operand h => h.fits le_rfl
  | .binary _ _ hleft _ hright => ⟨hleft.fits, hright.fits⟩

theorem Grammar.IsOperand.fits {limit : Nat} {ts : List Token} {e : Expr} :
    IsOperand limit ts e → maxLiteral ≤ limit → e.Fits operandsAndHeads limit
  | @IsOperand.unary _ _ op _ _ _ _ h, _ => h.fits (le_limitBehind op)
  | .path h, hle => h.fits hle

theorem Grammar.IsPath.fits {limit : Nat} {ts : List Token} {e : Expr} :
    IsPath limit ts e → maxLiteral ≤ limit → e.Fits operandsAndHeads limit
  | .primary h, hle => h.fits hle
  | .length _ h _ _, hle => h.fits hle
  | .field _ _ h _ _, hle => h.fits hle
  | .method _ h _ _ hargs, hle => ⟨h.fits hle, hargs.fits⟩
  | .index _ _ h _ hi _, hle => ⟨h.fits hle, hi.fits⟩

theorem Grammar.IsPrimary.fits {limit : Nat} {ts : List Token} {e : Expr} :
    IsPrimary limit ts e → maxLiteral ≤ limit → e.Fits operandsAndHeads limit
  | .number _ _ h, _ => h
  | .constant h, _ => by cases h <;> exact trivial
  | .paren _ h _, hle => Expr.Fits.mono hle _ h.fits
  | .newObject .., _ => trivial
  | .newArray _ _ _ _ h _ _, _ => h.fits
  | .call _ _ h, _ => h.fits
  | .var .., _ => trivial

theorem Grammar.IsArguments.fits {ts : List Token} {es : List Expr} :
    IsArguments ts es → FitAll operandsAndHeads es
  | .none _ _ => trivial
  | .some _ h _ => h.fits

theorem Grammar.IsExprs.fits {ts : List Token} {es : List Expr} :
    IsExprs ts es → FitAll operandsAndHeads es
  | .one h => ⟨h.fits, trivial⟩
  | .cons h _ hs => ⟨h.fits, hs.fits⟩

end

mutual

/-- In a derived statement all numbers fit. -/
theorem Grammar.IsStmt.fits {ts : List Token} {s : Stmt} : IsStmt ts s → s.Fits operandsAndHeads
  | .eval h _ => h.fits
  | .assign _ h _ h' _ => ⟨h.fits, h'.fits⟩
  | .branch _ _ (.intro _ h _) h' => ⟨h.fits, h'.fits⟩
  | .branchElse _ _ (.intro _ h _) h' _ h'' => ⟨h.fits, h'.fits, h''.fits⟩
  | .loop _ _ (.intro _ h _) h' => ⟨h.fits, h'.fits⟩
  | .return _ _ h _ => h.fits
  | .block _ h => h.fits

theorem Grammar.IsBlock.fits {ts : List Token} {body : List Stmt} :
    IsBlock ts body → FitIn operandsAndHeads body
  | .intro _ h _ => h.fits

theorem Grammar.IsItems.fits {ts : List Token} {body : List Stmt} :
    IsItems ts body → FitIn operandsAndHeads body
  | .nil => trivial
  | .stmt h hs => ⟨h.fits, hs.fits⟩
  | .declare _ hs => ⟨trivial, hs.fits⟩

end

variable {ts : List Token}

theorem Grammar.IsFunction.fits {f : FunctionDecl} (h : IsFunction ts f) :
    FitIn operandsAndHeads f.body := by
  obtain ⟨_, _, _, _, _, hbody⟩ := h
  exact hbody.fits

theorem Grammar.IsMembers.fits {fields : List VarDecl} {methods : List FunctionDecl}
    (h : IsMembers ts fields methods) : ∀ f ∈ methods, FitIn operandsAndHeads f.body := by
  induction h with
  | nil => exact nofun
  | field _ _ ih => exact ih
  | method hf _ ih => exact List.forall_mem_cons.2 ⟨hf.fits, ih⟩

/-- In a derived program all numbers fit. -/
theorem Grammar.IsProgram.fits {classes : List ClassDecl} {functions : List FunctionDecl}
    (h : IsProgram ts classes functions) :
    (∀ c ∈ classes, ∀ f ∈ c.methods, FitIn operandsAndHeads f.body) ∧
      ∀ f ∈ functions, FitIn operandsAndHeads f.body := by
  induction h with
  | nil => exact ⟨nofun, nofun⟩
  | cls hc _ ih =>
    obtain ⟨_, _, _, _, _, hmembers, _⟩ := hc
    exact ⟨List.forall_mem_cons.2 ⟨hmembers.fits, ih.1⟩, ih.2⟩
  | function hf _ ih => exact ⟨ih.1, List.forall_mem_cons.2 ⟨hf.fits, ih.2⟩⟩

end grammar

section typing

variable {Γ : Context}

/-- An expression that is no number fits in all places alike. -/
theorem Expr.Fits.anywhere {e : Expr} {t : PlainType} {limit : Nat} (he : HasType Γ e t)
    (ht : t ≠ .int) (h : e.Fits operandsOnly limit) (limit' : Nat) :
    e.Fits operandsOnly limit' := by
  cases he with
  | number => exact absurd rfl ht
  | read hl => cases hl <;> exact h
  | _ => exact h

mutual

/-- If an expression has a type, accesses start with no number in it. -/
theorem HasType.fits {e : Expr} {t : PlainType} {limit : Nat} :
    HasType Γ e t → e.Fits operandsAndHeads limit → e.Fits operandsOnly limit
  | .neg he, h => he.fits h
  | .not he, h => he.fits h
  | .and hl hr, h => ⟨hl.fits h.1, hr.fits h.2⟩
  | .equal hl hr _, h => ⟨hl.fits h.1, hr.fits h.2⟩
  | .less hl hr, h => ⟨hl.fits h.1, hr.fits h.2⟩
  | .arithmetic _ hl hr, h => ⟨hl.fits h.1, hr.fits h.2⟩
  | .number, h => h
  | .bool, h | .null, h | .this _, h | .newObject _, h => h
  | .read hl, h => hl.fits h
  | .arrayLength ha, h => (ha.fits h).anywhere ha PlainType.noConfusion _
  | .newArray _ hs, h => hs.fits h
  | .call _ hargs, h => hargs.fits h
  | .methodCall hr _ hargs, h => ⟨(hr.fits h.1).anywhere hr PlainType.noConfusion _, hargs.fits h.2⟩

theorem Location.HasType.fits {l : Location} {t : PlainType} {limit : Nat} :
    l.HasType Γ t → l.Fits operandsAndHeads limit → l.Fits operandsOnly limit
  | .var _, h => h
  | .field hr _, h => (hr.fits h).anywhere hr PlainType.noConfusion _
  | .index ha hi, h => ⟨(ha.fits h.1).anywhere ha PlainType.noConfusion _, hi.fits h.2⟩

theorem HaveTypes.fits {es : List Expr} {us : List PlainType} :
    HaveTypes Γ es us → FitAll operandsAndHeads es → FitAll operandsOnly es
  | .nil, h => h
  | .cons he _ hes, h => ⟨he.fits h.1, hes.fits h.2⟩

end

mutual

theorem Stmt.WellTyped.fits {result : PlainType} {Γ Γ' : Context} {s : Stmt} :
    s.WellTyped result Γ Γ' → s.Fits operandsAndHeads → s.Fits operandsOnly
  | .declare _ _, h => h
  | .eval he, h => he.fits h
  | .assign hl he _, h => ⟨hl.fits h.1, he.fits h.2⟩
  | .branch hc hs, h => ⟨hc.fits h.1, hs.fits h.2⟩
  | .branchElse hc hs hs', h => ⟨hc.fits h.1, hs.fits h.2.1, hs'.fits h.2.2⟩
  | .loop hc hs, h => ⟨hc.fits h.1, hs.fits h.2⟩
  | .return he _, h => he.fits h
  | .block hbody, h => hbody.fits h

theorem BodyWellTyped.fits {result : PlainType} {Γ : Context} {body : List Stmt} :
    BodyWellTyped result Γ body → FitIn operandsAndHeads body → FitIn operandsOnly body
  | .nil, h => h
  | .cons hs hrest, h => ⟨hs.fits h.1, hrest.fits h.2⟩

end

/-- In a program that keeps the rules, accesses start with no number. -/
theorem Program.WellFormed.fits {p : Program} {printName : String} (hp : p.WellFormed printName)
    (h : p.Fits operandsAndHeads) : p.Fits operandsOnly :=
  ⟨fun c hc f hf => (hp.methods c hc f hf).body.fits (h.1 c hc f hf),
    fun f hf => (hp.functions f hf).body.fits (h.2 f hf)⟩

end typing

section texts

variable {source : String}

theorem Expr.fits_ofText {e : Expr} (h : Expr.ofText source = .ok e) :
    e.Fits operandsAndHeads maxLiteral := by
  obtain ⟨⟨e, rest, _⟩, hread, h⟩ := bind_eq_ok.1 (readText_eq_ok.1 h).2
  obtain ⟨_, _, h⟩ := bind_eq_ok.1 h
  cases h
  obtain ⟨_, _, he, _⟩ := isExpr_expression hread
  exact he.fits

theorem Stmt.fits_ofText {s : Stmt} (h : Stmt.ofText source = .ok s) : s.Fits operandsAndHeads := by
  obtain ⟨⟨s, rest, _⟩, hread, h⟩ := bind_eq_ok.1 (readText_eq_ok.1 h).2
  obtain ⟨_, _, h⟩ := bind_eq_ok.1 h
  cases h
  obtain ⟨⟨_, _, hitems⟩, _⟩ := isItems_blockItem hread
  exact (hitems [] [] .nil).fits.1

theorem Program.fits_ofText {p : Program} (h : Program.ofText source = .ok p) :
    p.Fits operandsAndHeads := by
  obtain ⟨_, r, hr, rfl⟩ := ofText_eq_ok.1 h
  exact (isProgram_declarations hr).1.fits

end texts

/-- In all that is read, only numbers behind a minus are larger than others: its operand, or what
the accesses of its operand start with. In a program that is accepted, only its operand is. -/
theorem ofText_fits (source : String) :
    (∀ e, Expr.ofText source = .ok e → e.Fits operandsAndHeads maxLiteral) ∧
      (∀ s, Stmt.ofText source = .ok s → s.Fits operandsAndHeads) ∧
        ∀ p, Program.ofText source = .ok p → p.Fits operandsAndHeads ∧
          ∀ printName, (p.analyze printName).isAccepted = true → p.Fits operandsOnly :=
  ⟨fun _ => Expr.fits_ofText, fun _ => Stmt.fits_ofText, fun p h => ⟨Program.fits_ofText h,
    fun _ ha => ((Program.isAccepted_iff (p.numbered_ofText h).nodup).1 ha).fits
      (Program.fits_ofText h)⟩⟩

/-- The least integer, as an expression, as a statement and in a program that is accepted. -/
theorem ofText_fits_least :
    (∃ e, Expr.ofText "-2147483648" = .ok e ∧ e.Fits operandsAndHeads maxLiteral) ∧
      (∃ s, Stmt.ofText "x = -2147483648;" = .ok s ∧ s.Fits operandsAndHeads) ∧
        ∃ p, Program.ofText "int main() { return -2147483648; }" = .ok p ∧
          (p.analyze "printInt").isAccepted = true ∧ p.Fits operandsOnly := by
  obtain ⟨e, he, -⟩ := exists_ok_of_any (r := Expr.ofText "-2147483648")
    (f := fun _ => true) (by decide +kernel)
  obtain ⟨s, hs, -⟩ := exists_ok_of_any (r := Stmt.ofText "x = -2147483648;")
    (f := fun _ => true) (by decide +kernel)
  obtain ⟨p, hp, ha⟩ := exists_ok_of_any (r := Program.ofText "int main() { return -2147483648; }")
    (f := fun p => (p.analyze "printInt").isAccepted) (by decide +kernel)
  exact ⟨⟨e, he, (ofText_fits _).1 e he⟩, ⟨s, hs, (ofText_fits _).2.1 s hs⟩,
    p, hp, ha, ((ofText_fits _).2.2 p hp).2 "printInt" ha⟩

/-- The larger number is read where no minus applies to it. -/
theorem Expr.ofText_lengthOfNumber : ∃ e, Expr.ofText "-2147483648.length" = .ok e ∧
    ¬ e.Fits operandsOnly maxLiteral := by
  obtain ⟨e, he, hread⟩ := exists_ok_of_any (r := Expr.ofText "-2147483648.length")
    (f := fun e => match e with
      | .unary _ .neg (.arrayLength _ (.number _ n)) => n == maxNegatedLiteral
      | _ => false) (by decide +kernel)
  refine ⟨e, he, fun hfits => ?_⟩
  split at hread
  · obtain rfl := eq_of_beq hread
    exact absurd (show maxNegatedLiteral ≤ maxLiteral from hfits) (by decide)
  · cases hread

end ObjectLang
