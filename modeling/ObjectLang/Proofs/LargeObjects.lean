import Mathlib.Data.List.ProdSigma
import Mathlib.Tactic
import ObjectLang.Proofs.Lowering.Fragments
import ObjectLang.Proofs.Parsing.Reading
import ObjectLang.Proofs.Parsing.Respacing
import ObjectLang.Proofs.Preservation

/-!
# Objects that are too large

A class may have so many fields that a signed number of 32 bits cannot say how many bytes its
objects have. Such a program keeps all rules and is compiled like any other, but its constructor
asks for a negative number of bytes, and the run stops there, though no array was made. Here the
programs with a class of `2 ^ 28` references are followed from their text to that step.
-/
namespace ObjectLang

namespace Token

variable {words : List (Kind × String)}

/-- A text of words with a blank behind each. -/
def spacedText (words : List String) : String :=
  String.ofList (words.flatMap fun w => w.toList ++ [' '])

/-- A word of a sort that tokens of the language have. -/
def IsLexical (x : Kind × String) : Prop :=
  x.1 ≠ .invalid ∧ ∃ behind, IsLexeme x.1 x.2.toList behind

def keywordWord (k : Keyword) : Kind × String :=
  (.keyword k, k.text)

def symbolWord (s : Symbol) : Kind × String :=
  (.symbol s, s.text)

def nameWord (name : String) : Kind × String :=
  (.identifier, name)

theorem isLexical_keyword (k : Keyword) : IsLexical (keywordWord k) :=
  ⟨nofun, [], .keyword (by simp [EndsWord])⟩

theorem isLexical_symbol (s : Symbol) : IsLexical (symbolWord s) := by
  refine ⟨nofun, [], .symbol (StartsBlank.symbol_le (by simp [StartsBlank]) s) fun c _ => ?_⟩
  simp [OpensComment]

theorem isWordStart_of_isUpper {c : Char} (h : c.isUpper = true) : isWordStart c = true := by
  have halpha : c.isAlpha = (c.isUpper || c.isLower) := rfl
  rw [isWordStart, halpha, h]
  rfl

/-- A word that starts with a capital letter is a name, as all keywords are in small letters. -/
theorem isLexical_name {c : Char} {more : List Char} (hc : c.isUpper = true)
    (hmore : ∀ d ∈ more, isWordPart d = true) :
    IsLexical (nameWord (String.ofList (c :: more))) := by
  refine ⟨nofun, [], ?_⟩
  rw [nameWord, String.toList_ofList]
  refine .name (isWordStart_of_isUpper hc) hmore (fun k hk => ?_) (by simp [EndsWord])
  have hsmall : k.text.toList.head?.any Char.isUpper = false := by cases k <;> rfl
  rw [← hk] at hsmall
  exact absurd hc (Bool.eq_false_iff.1 hsmall)

theorem setApart_spacedText (words : List String) :
    SetApart words (spacedText words).toList := by
  rw [spacedText, String.toList_ofList]
  induction words with
  | nil => exact .done
  | cons w words ih =>
      rw [List.flatMap_cons, List.append_assoc]
      exact .cons (.mk (by decide) .nil) ih

/-- Words with blanks behind them are read as these words. -/
theorem scan_spacedText (h : ∀ x ∈ words, IsLexical x) :
    (scan (spacedText (words.map Prod.snd))).errors = [] ∧
      (scan (spacedText (words.map Prod.snd))).tokens.map word = words := by
  let token : Kind × String → Token := fun x => ⟨x.1, x.2, default⟩
  have hwords : (words.map token).map word = words := by
    rw [List.map_map]
    exact List.map_id _
  obtain ⟨herrors, htokens⟩ := scanFrom_setApart (setApart_spacedText (words.map Prod.snd)) {}
    (words.map token) (List.map_map ..) (List.forall_mem_map.2 h)
  exact ⟨herrors, htokens.trans hwords⟩

end Token

section trees

open Token Grammar

variable {names : List String} {us : List Token}

/-- The words of the fields of a class: each has the type `A`. -/
def fieldWords (names : List String) : List (Token.Kind × String) :=
  names.flatMap fun name => [nameWord "A", nameWord name, symbolWord .semicolon]

/-- The words of a program with a class `A` whose fields have some names and are of that type, and a
main function that makes one object of the class. -/
def wideWords (names : List String) : List (Token.Kind × String) :=
  [keywordWord .classDecl, nameWord "A", symbolWord .leftBrace] ++ fieldWords names ++
    [symbolWord .rightBrace, keywordWord .intType, nameWord mainName, symbolWord .leftParen,
      symbolWord .rightParen, symbolWord .leftBrace, keywordWord .newExpr, nameWord "A",
      symbolWord .leftParen, symbolWord .rightParen, symbolWord .semicolon,
      keywordWord .returnStmt, (.intLiteral, "0"), symbolWord .semicolon, symbolWord .rightBrace]

/-- The text of the program. For the names `F` and `G` it is
`class A { A F ; A G ; } int main ( ) { new A ( ) ; return 0 ; }`. -/
def wideText (names : List String) : String :=
  spacedText ((wideWords names).map Prod.snd)

/-- The trees of the program have no tags and places here. -/
def wideField (name : String) : VarDecl :=
  ⟨default, .named default ⟨"A", default⟩, ⟨name, default⟩⟩

def wideClass (names : List String) : ClassDecl :=
  ⟨default, ⟨"A", default⟩, none, names.map wideField, []⟩

def wideMain : FunctionDecl :=
  ⟨default, .int default, ⟨mainName, default⟩, [], default,
    [.eval (.newObject default ⟨"A", default⟩), .return default (.number default 0)]⟩

theorem isLexical_wideWords (h : ∀ name ∈ names, IsLexical (nameWord name)) :
    ∀ x ∈ wideWords names, IsLexical x := by
  have hclass : IsLexical (nameWord "A") := @isLexical_name 'A' [] (by decide) (by simp)
  have hmain : IsLexical (nameWord mainName) :=
    ⟨nofun, [], @IsLexeme.name 'm' ['a', 'i', 'n'] [] (by decide)
      (List.all_eq_true.1 (by decide)) (by intro k; cases k <;> decide) (by simp [EndsWord])⟩
  have hnumber : IsLexical (.intLiteral, "0") :=
    ⟨nofun, [], .number (by decide) (List.all_eq_true.1 (by decide)) (by simp)⟩
  have hnil : ∀ x ∈ ([] : List (Token.Kind × String)), IsLexical x := List.forall_mem_nil _
  simp only [wideWords, fieldWords, List.forall_mem_append, List.forall_mem_cons,
    List.forall_mem_flatMap, isLexical_keyword, isLexical_symbol, hclass, hmain, hnumber, true_and]
  exact ⟨⟨hnil, fun name hn => ⟨h name hn, hnil⟩⟩, hnil⟩

theorem isName_of_word {t : Token} {name : String} (h : t.word = nameWord name) :
    IsName t ⟨name, default⟩ := by
  obtain ⟨hkind, rfl⟩ := Prod.mk.inj h
  exact .intro default hkind

theorem isMembers_fieldWords : ∀ {names : List String} {us : List Token},
    us.map word = fieldWords names → IsMembers us (names.map wideField) []
  | [], us, h => by
      rw [List.map_eq_nil_iff.1 h]
      exact .nil
  | name :: names, us, h => by
      simp only [fieldWords, List.flatMap_cons, List.cons_append, List.nil_append,
        List.map_eq_cons_iff] at h
      obtain ⟨t, _, rfl, ht, u, _, rfl, hu, v, us, rfl, hv, hmore⟩ := h
      have htype : IsType [t] (.named default ⟨"A", default⟩) :=
        .intro (.named default (isName_of_word ht)) .base
      exact .field (.intro default htype (isName_of_word hu) (Prod.mk.inj hv).1)
        (isMembers_fieldWords hmore)

/-- The words of the program are those of its trees. -/
theorem isProgram_wideWords (h : us.map word = wideWords names) :
    IsProgram us [wideClass names] [wideMain] := by
  obtain ⟨front, ws, rfl, hfront, hws⟩ := List.map_eq_append_iff.1 h
  obtain ⟨vs, us, rfl, hvs, hus⟩ := List.map_eq_append_iff.1 hfront
  simp only [List.map_eq_cons_iff, List.map_eq_nil_iff] at hvs hws
  obtain ⟨start, _, rfl, hstart, name, _, rfl, hname, l, _, rfl, hl, rfl⟩ := hvs
  obtain ⟨r, _, rfl, hr, int, _, rfl, hint, main, _, rfl, hmain, lp, _, rfl, hlp, rp, _, rfl, hrp,
    lb, _, rfl, hlb, new, _, rfl, hnew, cls, _, rfl, hcls, lp', _, rfl, hlp', rp', _, rfl, hrp',
    sc, _, rfl, hsc, ret, _, rfl, hret, zero, _, rfl, hzero, sc', _, rfl, hsc', rb, _, rfl, hrb,
    rfl⟩ := hws
  have hclass : IsClass (start :: name :: ([] ++ l :: (us ++ [r]))) (wideClass names) :=
    .intro default (Prod.mk.inj hstart).1 (isName_of_word hname) .none (Prod.mk.inj hl).1
      (isMembers_fieldWords hus) (Prod.mk.inj hr).1
  have hobject : IsExpr 0 [new, cls, lp', rp'] (.newObject default ⟨"A", default⟩) :=
    .operand (.path (.primary (.newObject default (Prod.mk.inj hnew).1 (isName_of_word hcls)
      (Prod.mk.inj hlp').1 (Prod.mk.inj hrp').1)))
  have hvalue : IsExpr 0 [zero] (.number default 0) := by
    obtain ⟨hkind, hlexeme⟩ := Prod.mk.inj hzero
    have hliteral : Parsing.literalValue zero.lexeme = 0 := by
      rw [hlexeme]
      decide
    rw [← hliteral]
    exact .operand (.path (.primary (.number default hkind (hliteral ▸ Nat.zero_le _))))
  have hbody : IsBlock (lb :: (([new, cls, lp', rp'] ++ [sc] ++ (ret :: ([zero] ++ [sc']) ++ []))
      ++ [rb])) wideMain.body :=
    .intro (Prod.mk.inj hlb).1 (.stmt (.eval hobject (Prod.mk.inj hsc).1)
      (.stmt (.return default (Prod.mk.inj hret).1 hvalue (Prod.mk.inj hsc').1) .nil))
      (Prod.mk.inj hrb).1
  have hfunction : IsFunction ([int] ++ main :: ([lp, rp] ++ _)) wideMain :=
    .intro default default (.intro (.int default (Prod.mk.inj hint).1) .base)
      (isName_of_word hmain) (.none (Prod.mk.inj hlp).1 (Prod.mk.inj hrp).1) hbody
  have hprogram := IsProgram.cls hclass (.function hfunction .nil)
  simpa using hprogram

end trees

section shape

variable {names : List String}

/-- A class `A` has a field of its own type for each of some names, and nothing else. -/
structure ClassDecl.Wide (c : ClassDecl) (names : List String) : Prop where
  name : c.name.name = "A"
  superclass : c.superclass = none
  methods : c.methods = []
  fieldNames : c.fields.map (·.name.name) = names
  fieldTypes : ∀ d ∈ c.fields, d.plain = .object "A"

/-- The main function makes an object of the class `A` and returns zero. -/
structure FunctionDecl.MakesOne (f : FunctionDecl) : Prop where
  name : f.name.name = mainName
  returnType : f.returnType.plain = .int
  params : f.params = []
  body : ∃ tag cls span tag', cls.name = "A" ∧
    f.body = [.eval (.newObject tag cls), .return span (.number tag' 0)]

/-- A program of one wide class and of a main function that makes one object of it. -/
def Program.Wide (p : Program) (names : List String) : Prop :=
  ∃ c f, p.classes = [c] ∧ p.functions = [f] ∧ c.Wide names ∧ f.MakesOne

section relabel

variable {r : Relabel} {s : Stmt} {e e' : Expr} {tag : Tag} {span : Span} {x : Ident} {n : Nat}

theorem TypeExpr.plain_bare (t : TypeExpr) : (t.relabel .bare).plain = t.plain := by
  induction t with
  | array tag component ih => exact congrArg PlainType.array ih
  | _ => rfl

theorem Stmt.eval_of_relabel (h : s.relabel r = .eval e') :
    ∃ e, s = .eval e ∧ e.relabel r = e' := by
  match s with
  | .eval e => exact ⟨e, rfl, Stmt.eval.inj h⟩
  | .declare _ | .assign _ _ _ | .branch _ _ _ none | .branch _ _ _ (some _) | .loop _ _ _
  | .return _ _ | .block _ _ => cases h

theorem Stmt.return_of_relabel (h : s.relabel r = .return span e') :
    ∃ span e, s = .return span e ∧ e.relabel r = e' := by
  match s with
  | .return span e => exact ⟨span, e, rfl, (Stmt.return.inj h).2⟩
  | .declare _ | .assign _ _ _ | .branch _ _ _ none | .branch _ _ _ (some _) | .loop _ _ _
  | .eval _ | .block _ _ => cases h

theorem Expr.newObject_of_relabel (h : e.relabel r = .newObject tag x) :
    ∃ tag cls, e = .newObject tag cls ∧ cls.relabel r = x := by
  cases e with
  | newObject tag cls => exact ⟨tag, cls, rfl, (Expr.newObject.inj h).2⟩
  | _ => cases h

theorem Expr.number_of_relabel (h : e.relabel r = .number tag n) : ∃ tag, e = .number tag n := by
  cases e with
  | number tag _ => exact ⟨tag, congrArg _ (Expr.number.inj h).2⟩
  | _ => cases h

end relabel

theorem wide_of_bare {c : ClassDecl} (h : c.relabel .bare = wideClass names) : c.Wide names := by
  obtain ⟨tag, name, superclass, fields, methods⟩ := c
  simp only [ClassDecl.relabel, wideClass, ClassDecl.mk.injEq, Option.map_eq_none_iff,
    List.map_eq_nil_iff] at h
  obtain ⟨-, hname, hsuperclass, hfields, hmethods⟩ := h
  refine ⟨(Ident.mk.inj hname).1, hsuperclass, hmethods, ?_, fun d hd => ?_⟩
  · have hnames := congrArg (List.map fun d : VarDecl => d.name.name) hfields
    rw [List.map_map, List.map_map] at hnames
    exact hnames.trans (List.map_id _)
  · have hmem := List.mem_map_of_mem (f := VarDecl.relabel .bare) hd
    rw [hfields] at hmem
    obtain ⟨name, -, hfield⟩ := List.mem_map.1 hmem
    rw [VarDecl.plain, ← TypeExpr.plain_bare]
    exact congrArg VarDecl.plain hfield.symm

theorem makesOne_of_bare {f : FunctionDecl} (h : f.relabel .bare = wideMain) : f.MakesOne := by
  obtain ⟨tag, returnType, name, params, bodySpan, body⟩ := f
  simp only [FunctionDecl.relabel, wideMain, FunctionDecl.mk.injEq, List.map_eq_nil_iff] at h
  obtain ⟨-, htype, hname, hparams, -, hbody⟩ := h
  refine ⟨(Ident.mk.inj hname).1, ?_, hparams, ?_⟩
  · exact (TypeExpr.plain_bare _).symm.trans (congrArg TypeExpr.plain htype)
  · rw [relabelBody_eq] at hbody
    simp only [List.map_eq_cons_iff, List.map_eq_nil_iff] at hbody
    obtain ⟨s, _, rfl, hs, s', _, rfl, hs', rfl⟩ := hbody
    obtain ⟨e, rfl, he⟩ := Stmt.eval_of_relabel hs
    obtain ⟨tag, cls, rfl, hcls⟩ := Expr.newObject_of_relabel he
    obtain ⟨span, e', rfl, he'⟩ := Stmt.return_of_relabel hs'
    obtain ⟨tag', rfl⟩ := Expr.number_of_relabel he'
    exact ⟨tag, cls, span, tag', (Ident.mk.inj hcls).1, rfl⟩

/-- The text is read, and the program has the shape that was written. -/
theorem exists_wide (h : ∀ name ∈ names, Token.IsLexical (Token.nameWord name)) :
    ∃ p, Program.ofText (wideText names) = .ok p ∧ p.Wide names := by
  obtain ⟨herrors, htokens⟩ := Token.scan_spacedText (isLexical_wideWords h)
  obtain ⟨r, hr, hv, _⟩ := Grammar.reads_declarations (isProgram_wideWords htokens)
    (by simp [wideMain, NearestElseIn, Stmt.NearestElse]) (by simp [wideClass])
    (s := .ofScan (Token.scan (wideText names))) rfl
  obtain ⟨hclasses, hfunctions⟩ := Prod.mk.inj hv
  obtain ⟨c, hc, hcls⟩ := List.map_eq_singleton_iff.1 hclasses
  obtain ⟨f, hf, hmain⟩ := List.map_eq_singleton_iff.1 hfunctions
  have hbare : (wideClass names).relabel .bare = wideClass names := by
    refine congrArg (fun fields => ClassDecl.mk default ⟨"A", default⟩ none fields []) ?_
    rw [wideClass, List.map_map]
    rfl
  exact ⟨⟨r.value.1, r.value.2, r.rest.fresh⟩, Program.ofText_eq_ok.2 ⟨herrors, r, hr, rfl⟩,
    c, f, hc, hf, wide_of_bare (hcls.trans hbare), makesOne_of_bare hmain⟩

namespace Program.Wide

variable {p : Program} (h : p.Wide names)
include h

/-- An object of the class has eight bytes for each name. -/
theorem objectSize_eq : p.objectSize "A" = 8 * names.length := by
  obtain ⟨c, f, hc, -, hwide, -⟩ := h
  have hfind : p.class? "A" = some c := by
    rw [class?, hc, List.find?_cons_of_pos]
    exact beq_iff_eq.2 hwide.name
  have hlineage : p.lineage "A" = [c] := by
    rw [lineage, hc]
    simp [lineageWithin, hfind, hwide.superclass]
  have hsizes : (c.fields.map fun d => d.plain.size) = List.replicate c.fields.length 8 :=
    List.eq_replicate_iff.2 ⟨List.length_map _, List.forall_mem_map.2 fun d hd => by
      rw [hwide.fieldTypes d hd]
      rfl⟩
  rw [objectSize, fieldsOf, hlineage, ← hwide.fieldNames, List.length_map]
  simp [Function.comp_def, hsizes, Nat.mul_comm]

/-- The program keeps all rules. -/
theorem wellFormed (hnames : names.Nodup) : p.WellFormed "printInt" := by
  obtain ⟨c, f, hc, hf, hwide, hmain⟩ := h
  obtain ⟨tag, cls, span, tag', hcls, hbody⟩ := hmain.body
  have hdeclares : p.Declares "A" := ⟨c, by simp [hc], hwide.name⟩
  have hfunction : f.WellFormed p "printInt" none := by
    refine ⟨hmain.returnType ▸ trivial, by simp [hmain.params], by simp [hmain.params], ?_, ?_, ?_⟩
    · rw [hbody, hmain.returnType]
      exact .cons (.eval (.newObject (hcls ▸ hdeclares)))
        (.cons (.return .number (.refl _)) .nil)
    · exact ⟨[_], span, _, hbody⟩
    · rw [hbody]
      exact .cons (by simp [Stmt.isReturn]) .eval (.last .return)
  constructor
  · refine ⟨by simp [hc], by simp [hc, hwide.superclass], fun a ha => ?_⟩
    obtain ⟨b, ⟨d, hd, -, s, hs, -⟩, -⟩ := Relation.TransGen.head'_iff.1 ha
    rw [hc, List.mem_singleton] at hd
    rw [hd, hwide.superclass] at hs
    cases hs
  · simp [hc, hwide.fieldNames, hnames]
  · simp [hc, hwide.methods]
  · intro c' hc' d hd
    rw [hc, List.mem_singleton] at hc'
    rw [hwide.fieldTypes d (hc' ▸ hd)]
    exact hdeclares
  · simp [hc, hwide.methods]
  · simp [hc, hwide.methods]
  · simp [hf]
  · simp [hf, hmain.name, mainName]
  · simpa [hf] using hfunction
  · exact ⟨f, by simp [hf], hmain.name, hmain.returnType, hmain.params⟩

end Program.Wide

end shape

section code

open IR

variable {body env : Body} {s s' start : LowerState} {f : FunctionDecl} {q : Procedure}
  {tag : Tag} {cls : Ident} {span : Span} {e : Expr} {x : Operand} {n : Int32}

/-- A function without parameters and variables gets no places. -/
theorem enterBody_none (hparams : f.params = []) (hlocals : localsOf f.body = [])
    (h : enterBody body false f s = .ok (env, start)) :
    start = s ∧ env.options = body.options ∧ env.layouts = body.layouts := by
  rw [enterBody, hparams, hlocals] at h
  obtain ⟨_, _, ⟨⟩, hplaces⟩ := Lower.of_bind h
  obtain ⟨_, _, hp, hrest⟩ := Lower.of_bind hplaces
  obtain ⟨_, _, hl, hend⟩ := Lower.of_bind hrest
  rw [if_neg Bool.false_ne_true, List.zip_nil_right] at hp
  cases hp
  cases hl
  cases hend
  exact ⟨rfl, rfl, rfl⟩

section statements

variable (hoptions : body.options.emitComments = false)
include hoptions

theorem of_commented {y : Stmt} {work : Lower Unit}
    (h : (do commentOn body y; work) s = .ok ((), s')) : work s = .ok ((), s') := by
  obtain ⟨_, _, hcomment, hrest⟩ := Lower.of_bind h
  rw [commentOn, hoptions, if_neg Bool.false_ne_true] at hcomment
  cases hcomment
  exact hrest

theorem of_lowerStmt_eval (h : lowerStmt body (.eval e) s = .ok ((), s')) :
    ∃ x, lowerExpr body e s = .ok (x, s') := by
  have hcode : lowerStmt body (.eval e) = (do
      commentOn body (.eval e)
      let _ ← lowerExpr body e) := rfl
  rw [hcode] at h
  obtain ⟨x, _, hvalue, hdone⟩ := Lower.of_bind (of_commented hoptions h)
  cases hdone
  exact ⟨x, hvalue⟩

theorem of_lowerStmt_return (h : lowerStmt body (.return span e) s = .ok ((), s')) :
    ∃ x t, lowerExpr body e s = .ok (x, t) ∧ returnValue x t = .ok ((), s') := by
  have hcode : lowerStmt body (.return span e) = (do
      commentOn body (.return span e)
      let value ← lowerExpr body e
      returnValue value) := rfl
  rw [hcode] at h
  exact Lower.of_bind (of_commented hoptions h)

end statements

/-- Code for a new object is a call of a constructor. -/
theorem of_lowerExpr_newObject (h : lowerExpr body (.newObject tag cls) s = .ok (x, s')) :
    ∃ name l, body.layouts.class? name = some l ∧
      s'.builder = (s.builder.call l.constructor [] l.pointerType).2 := by
  rw [lowerExpr] at h
  obtain ⟨c, _, hclassOf, hrest⟩ := Lower.of_bind h
  obtain ⟨V, _, hnote, hclass⟩ := Lower.of_bind hclassOf
  obtain ⟨l, _, hlayout, hcall⟩ := Lower.of_bind hrest
  obtain ⟨-, rfl⟩ := Lower.of_known hnote
  obtain ⟨-, rfl⟩ := Lower.of_known hclass
  obtain ⟨hl, rfl⟩ := Lower.of_known hlayout
  cases hcall
  exact ⟨_, l, hl, rfl⟩

theorem of_returnValue_int (h : returnValue (.int n) s = .ok ((), s')) :
    s'.builder = s.builder.ret (.int n) := by
  rw [returnValue] at h
  obtain ⟨_, _, ⟨⟩, hrest⟩ := Lower.of_bind h
  obtain ⟨_, _, hcast, hret⟩ := Lower.of_bind hrest
  rw [cast] at hcast
  obtain ⟨_, _, htype, hsame⟩ := Lower.of_bind hcast
  cases htype
  cases hsame
  cases hret
  rfl

/-- The main function calls a constructor and returns zero. -/
theorem FunctionDecl.MakesOne.code (h : f.MakesOne) (hoptions : body.options = {})
    (hq : q.blocks = #[]) (hstart : s.builder = Builder.start q "entry")
    (hrun : lowerBody body false f s = .ok ((), s')) :
    ∃ name l, body.layouts.class? name = some l ∧ s'.builder.procedure.params = q.params ∧
      s'.builder.procedure.blocks[0]? =
        some ⟨"entry", [.call q.temps.size l.constructor []], some (.ret (.int 0))⟩ := by
  obtain ⟨tag, cls, span, tag', -, hbody⟩ := h.body
  rw [lowerBody_eq_enterBody] at hrun
  obtain ⟨env, start, henter, hstmts⟩ := Lower.of_bind hrun
  obtain ⟨rfl, henv, hlayouts⟩ := enterBody_none h.params (by rw [hbody]; rfl) henter
  have hcomments : env.options.emitComments = false := by
    rw [henv, hoptions]
  simp only [hbody, lowerStmts] at hstmts
  obtain ⟨_, s₁, hfirst, hrest⟩ := Lower.of_bind hstmts
  obtain ⟨_, s₂, hsecond, hend⟩ := Lower.of_bind hrest
  cases hend
  obtain ⟨_, hnew⟩ := of_lowerStmt_eval hcomments hfirst
  obtain ⟨name, l, hl, hbuilder⟩ := of_lowerExpr_newObject hnew
  obtain ⟨_, _, hnumber, hreturn⟩ := of_lowerStmt_return hcomments hsecond
  rw [lowerExpr] at hnumber
  cases hnumber
  rw [of_returnValue_int hreturn, hbuilder, hstart]
  refine ⟨name, l, hlayouts ▸ hl, ?_, ?_⟩
  · simp [Builder.start, Builder.newBlock, Procedure.newBlock, Builder.switchTo, Builder.record,
      Builder.call, Builder.define, Builder.newTemp, Procedure.newTemp, Builder.emit, Builder.ret,
      Builder.terminate, Procedure.modifyBlock]
  · simp [Builder.start, Builder.newBlock, Procedure.newBlock, Builder.switchTo, Builder.record,
      Builder.call, Builder.define, Builder.newTemp, Procedure.newTemp, Builder.emit, Builder.ret,
      Builder.terminate, Procedure.modifyBlock, hq, Block.push]

end code

section runs

open Machine IR

variable {p : Program} {body : Body} {routines : List (Routine × Signature)} {s : LowerState}
  {names : List String} {m : Module} {t : State}

/-- Only a procedure that makes arrays starts with a block `init`. -/
theorem not_oversizedArray_of_entry
    (h : t.frame.procedure.blocks[0]?.map Block.name = some "entry") : ¬ OversizedArray m t := by
  rintro ⟨component, returnType, layout, n, hcode, -, -⟩
  have hinit : (allocatorCode component returnType layout
      (m.sizeOf layout.element)).blocks[0]?.map Block.name = some "init" := by
    rw [allocatorCode_eq]
    rfl
  rw [← hcode, h] at hinit
  exact absurd (Option.some.inj hinit) (by decide)

/-- A request for less than no memory stops the run. -/
theorem step_negativeSize {dest : Nat} {n : Int32} {rest : List Instruction}
    (h : t.frame.todo = .alloc dest (.int n) :: rest) (hn : n < 0) :
    step m t = .stopped t.world (.error (.access (.negativeSize n))) := by
  obtain ⟨⟨memory, output⟩, ⟨p, c, _, temps⟩, callers⟩ := t
  obtain rfl := h
  exact step_alloc_negative (μ := ⟨memory, output, temps⟩) rfl hn

/-- The only class of the program has the only constructor, which takes the bytes of its objects. -/
theorem Program.Compiled.exists_constructor (h : p.Compiled body routines s)
    (hwide : p.Wide names) {name : String} {l : ClassLayout}
    (hl : body.layouts.class? name = some l) : ∃ struct fields,
      s.target.module.procedures[l.constructor]? =
        some (constructorCode "A" struct (8 * names.length) fields) := by
  have hsize := hwide.objectSize_eq
  obtain ⟨c, f, hc, -, hcls, -⟩ := hwide
  obtain ⟨T₀, h₀⟩ := h.built
  have hcount : body.analysis.classes.classes.length = 1 := by
    have hdecls := ClassTable.map_classDecl_build h.prepared.accepted.wellFormed.hierarchy
    rw [← h.prepared.accepted.classes, hc] at hdecls
    rw [← List.length_map (f := p.classDecl), hdecls, List.length_singleton]
  obtain ⟨c', l', hc', hl', hzero⟩ := h₀.constructors 0 (by omega)
  have hlt := h₀.constructor_lt name l hl
  have hconstructor : l.constructor = l'.constructor := by omega
  have hname : c'.name = "A" := by
    have hmem := hc'.mem
    rw [hc, List.mem_singleton] at hmem
    rw [← hc'.classDecl_name, hmem, hcls.name]
  obtain ⟨l'', hl'', hfilled⟩ := h.done.classes c' hc'
  obtain rfl := Option.some.inj (hl'.symm.trans hl'')
  obtain ⟨struct, hs, hflat, hbytes, -⟩ := (h.done.layouts.layout hc' hl').exists_struct
  have hcode := constructorOf_eq c'.name hs
  rw [sizeOf_struct hs hflat, hbytes, hname, hsize] at hcode
  have hproc := hfilled.constructor
  rw [hname, hcode] at hproc
  exact ⟨_, _, hconstructor ▸ hproc⟩

/-- The run of the program enters the constructor in its first step and stops in the second. -/
theorem Program.Compiled.exists_negativeSize (h : p.Compiled body routines s)
    (hoptions : body.options = {}) (hwide : p.Wide names) (hlength : names.length = 2 ^ 28) :
    ∃ id frame t, s.target.module.findProcedure? mainName = some id ∧
      enter s.target.module id [] = .ok frame ∧
      step s.target.module ⟨{}, frame, []⟩ = .running t ∧
      step s.target.module t = .stopped t.world (.error (.access (.negativeSize (-2147483648)))) ∧
      frame.procedure.blocks[0]?.map Block.name = some "entry" ∧
        t.frame.procedure.blocks[0]?.map Block.name = some "entry" := by
  obtain ⟨c, f, -, hf, -, hmain⟩ := id hwide
  obtain ⟨T₀, h₀⟩ := h.built
  obtain ⟨sg, hx⟩ := h₀.mem_functions (f := f) (by simp [hf])
  obtain ⟨s₁, s₂, hmade, -, -, -, hq⟩ := h.done.coded _ hx List.not_mem_nil
  obtain ⟨q, types, returnType, hbare, htypes, hstart⟩ := hmade.start
  obtain ⟨name, l, hl, hparams, hblock⟩ := hmain.code hoptions hbare.blocks hstart hmade.ran
  obtain ⟨struct, fields, hconstructor⟩ := h.exists_constructor hwide hl
  have hnone : q.params = [] := by
    rw [hbare.params, htypes, hmain.params]
    rfl
  have hbytes : Int32.ofNat (8 * names.length) = -2147483648 := by
    rw [hlength]
    decide
  have hentry : (constructorCode "A" struct (8 * names.length) fields).blocks[0]? =
      some ⟨"entry", .alloc 0 (.int (-2147483648)) :: .bitcast 1 (.temp 0) :: fieldStores 0 fields,
        some (.ret (.temp 1))⟩ := by
    rw [← hbytes]
    rfl
  have hempty : s₂.builder.procedure.params.length = ([] : List Value).length := by
    rw [hparams, hnone]
    rfl
  have hmain' := enter_eq hq hempty hblock
  have hobject : (constructorCode "A" struct (8 * names.length) fields).params.length =
      ([] : List Value).length := rfl
  have hcallee := enter_eq hconstructor hobject hentry
  exact ⟨sg.procedure, _, _, h.findProcedure? hmain.name hx, hmain',
    step_call (μ := ⟨{}, #[], assignAll _ _⟩) .nil hcallee, step_negativeSize rfl (by decide),
    congrArg (Option.map Block.name) hblock, congrArg (Option.map Block.name) hentry⟩

variable (hwords : ∀ name ∈ names, Token.IsLexical (Token.nameWord name)) (hnames : names.Nodup)
  (hlength : names.length = 2 ^ 28)
include hwords hnames hlength

/-- A program with a class of `2 ^ 28` references is compiled. Its run asks for no array, and it
ends because a negative number of bytes is asked for. -/
theorem compile_wideText_negativeSize : ∃ m, compile (wideText names) {} = .ok m ∧
    (∀ n t, Reaches m n t → ¬ OversizedArray m t) ∧ ∀ limit, 1 < limit →
      (execute m mainName limit).result = .error (.access (.negativeSize (-2147483648))) := by
  obtain ⟨p, hp, hwide⟩ := exists_wide hwords
  have ha := (Program.isAccepted_iff (p.numbered_ofText hp).nodup).2 (hwide.wellFormed hnames)
  obtain ⟨body, routines, s, hoptions, hcompiled, hm⟩ := @compile_of_isAccepted _ {} _ hp ha
  obtain ⟨id, frame, t₁, hid, hframe, hcall, hstop, hentry, hentry'⟩ :=
    hcompiled.exists_negativeSize hoptions hwide hlength
  refine ⟨_, hm, fun n t ht => ?_, fun limit hlimit => ?_⟩
  · obtain ⟨id', frame', hid', hframe', hsteps⟩ := ht
    obtain rfl := Option.some.inj (hid.symm.trans hid')
    obtain rfl := Except.ok.inj (hframe.symm.trans hframe')
    cases hsteps with
    | refl => exact not_oversizedArray_of_entry hentry
    | head hs hsteps =>
        obtain rfl := Progress.running.inj (hcall.symm.trans hs)
        cases hsteps with
        | refl => exact not_oversizedArray_of_entry hentry'
        | head hs' _ => cases hstop.symm.trans hs'
  · rw [execute_eq hid hframe, ((Steps.one hcall).stopped hstop hlimit).2]
    rfl

end runs

section letters

open Machine

/-- The words of some length over the letters from `A` to `P`. -/
def letterWords : Nat → List (List Char)
  | 0 => [[]]
  | n + 1 => ("ABCDEFGHIJKLMNOP".toList ×ˢ letterWords n).map fun x => x.1 :: x.2

theorem length_letterWords (n : Nat) : (letterWords n).length = 16 ^ n := by
  induction n with
  | zero => rfl
  | succ n ih =>
      rw [letterWords, List.length_map, List.length_product, ih, Nat.pow_succ']
      rfl

theorem nodup_letterWords (n : Nat) : (letterWords n).Nodup := by
  induction n with
  | zero => exact List.nodup_singleton _
  | succ n ih =>
      refine (List.Nodup.product (by decide) ih).map ?_
      rintro ⟨c, word⟩ ⟨d, word'⟩ heq
      obtain ⟨rfl, rfl⟩ := List.cons.inj heq
      rfl

theorem isUpper_of_mem_letterWords (n : Nat) :
    ∀ word ∈ letterWords n, ∀ c ∈ word, c.isUpper = true := by
  induction n with
  | zero => simp [letterWords]
  | succ n ih =>
      intro word hword
      obtain ⟨⟨c, more⟩, hmem, rfl⟩ := List.mem_map.1 hword
      obtain ⟨hc, hmore⟩ := List.pair_mem_product.1 hmem
      have hletters : "ABCDEFGHIJKLMNOP".toList.all Char.isUpper = true := by decide
      exact List.forall_mem_cons.2 ⟨List.all_eq_true.1 hletters c hc, ih more hmore⟩

/-- As many names as there are words of seven letters. -/
def manyNames : List String :=
  (letterWords 7).map String.ofList

/-- The program whose fields have all these names asks for `-2147483648` bytes. -/
theorem compile_manyNames_negativeSize : ∃ m, compile (wideText manyNames) {} = .ok m ∧
    (∀ n < 1000, ∀ t, Reaches m n t → ¬ OversizedArray m t) ∧
      (execute m mainName 1000).result = .error (.access (.negativeSize (-2147483648))) := by
  have hwords : ∀ name ∈ manyNames, Token.IsLexical (Token.nameWord name) := by
    intro name hname
    obtain ⟨word, hword, rfl⟩ := List.mem_map.1 hname
    have hupper := isUpper_of_mem_letterWords 7 word hword
    obtain ⟨⟨c, more⟩, -, rfl⟩ := List.mem_map.1 hword
    obtain ⟨hc, hmore⟩ := List.forall_mem_cons.1 hupper
    exact Token.isLexical_name hc fun d hd =>
      Token.isWordPart_of_isWordStart (Token.isWordStart_of_isUpper (hmore d hd))
  have hnames : manyNames.Nodup :=
    (nodup_letterWords 7).map fun _ _ heq => String.ofList_injective heq
  have hlength : manyNames.length = 2 ^ 28 := by
    rw [manyNames, List.length_map, length_letterWords]
    norm_num
  obtain ⟨m, hm, harrays, hruns⟩ := compile_wideText_negativeSize hwords hnames hlength
  exact ⟨m, hm, fun n _ t ht => harrays n t ht, hruns 1000 (by decide)⟩

end letters

end ObjectLang
