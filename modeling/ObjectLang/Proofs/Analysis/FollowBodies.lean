import Mathlib.Tactic
import ObjectLang.Proofs.Analysis.Follows

/-!
# The analysis of bodies follows their verdicts

Where the surroundings of a place and the variables there have the outlines that they should, what
is said about each expression and each statement is what its verdict says.
-/
namespace ObjectLang

/-- Two values are both missing, or both there and related. -/
def Option.Fits {α β : Type} (R : α → β → Prop) : Option α → Option β → Prop
  | none, none => True
  | some x, some y => R x y
  | _, _ => False

/-- The types of a method have their outlines. -/
structure MethodOutline.Fits (t : ClassTable) (a : ArrayTypes) (params : List ValueType)
    (returnType : ValueType) (o : MethodOutline) : Prop where
  params : List.Forall₂ (ValueType.Matches t a) params o.params
  returnType : returnType.Matches t a o.returnType

/-- The surroundings of a place are those of a setting. -/
structure Surroundings.Fits (p : Program) (S : Setting) (current : Option String)
    (a : ArrayTypes) (env : Surroundings) : Prop where
  ids : p.ids.Nodup
  ancestors : S.ancestors? = p.ancestors?
  classes : env.classes = p.classTable
  functions : env.functions.find? = S.function?
  declared : ∀ name decl, S.function? name = some (.declared decl) → decl ∈ p.functions
  fields : ∀ c ∈ p.classTable.classes, ∀ name,
    Option.Fits (fun x o => x.2.type.Matches p.classTable a o) (env.members.field? c name)
      (S.field? c.name name)
  methods : ∀ c ∈ p.classTable.classes, ∀ name,
    Option.Fits (fun x o => MethodOutline.Fits p.classTable a x.2.params x.2.returnType o)
      (env.members.method? c name) (S.method? c.name name)
  current : Option.Fits (fun c name => c ∈ p.classTable.classes ∧ c.name = name) env.current current

/-- The variables of a place have their outlines. -/
structure Scope.Fits (t : ClassTable) (a : ArrayTypes) (scope : Scope) (o : ScopeOutline) :
    Prop where
  function : scope.function = o.function
  returnType : scope.returnType.Matches t a o.returnType
  vars : List.Forall₂ (fun x y => x.decl.name.name = y.1 ∧ x.type.Matches t a y.2) scope.vars o.vars

theorem Option.Fits.mono {α β : Type} {R R' : α → β → Prop} {x : Option α} {y : Option β}
    (h : Option.Fits R x y) (hR : ∀ a b, R a b → R' a b) : Option.Fits R' x y := by
  cases x <;> cases y <;> first | trivial | exact h.elim | exact hR _ _ h

variable {p : Program} {S : Setting} {current : Option String} {a b : ArrayTypes}
  {env : Surroundings} {scope : Scope} {o : ScopeOutline}

theorem MethodOutline.Fits.mono {t : ClassTable} {params : List ValueType} {returnType : ValueType}
    {o : MethodOutline} (h : MethodOutline.Fits t a params returnType o) (hab : a.Within b) :
    MethodOutline.Fits t b params returnType o :=
  ⟨h.params.imp fun _ _ h => h.mono hab, h.returnType.mono hab⟩

theorem Surroundings.Fits.mono (h : env.Fits p S current a) (hab : a.Within b) :
    env.Fits p S current b :=
  ⟨h.ids, h.ancestors, h.classes, h.functions, h.declared,
    fun c hc name => (h.fields c hc name).mono fun _ _ h => h.mono hab,
    fun c hc name => (h.methods c hc name).mono fun _ _ h => h.mono hab, h.current⟩

namespace Scope.Fits

variable {t : ClassTable}

theorem mono (h : scope.Fits t a o) (hab : a.Within b) : scope.Fits t b o :=
  ⟨h.function, h.returnType.mono hab, h.vars.imp fun _ _ h => ⟨h.1, h.2.mono hab⟩⟩

theorem declare (h : scope.Fits t a o) {decl : VarDecl} {V : ValueType} {type : Outline}
    (hV : V.Matches t a type) :
    (scope.declare decl V).Fits t a (o.declare decl.name.name type) :=
  ⟨h.function, h.returnType, .cons ⟨rfl, hV⟩ h.vars⟩

theorem find? (h : scope.Fits t a o) (name : String) :
    Option.Fits (fun x type => x.type.Matches t a type) (scope.find? name) (o.find? name) := by
  obtain ⟨f, r, vars⟩ := scope
  obtain ⟨f', r', vars'⟩ := o
  obtain ⟨-, -, hvars⟩ := h
  simp only [Scope.find?, ScopeOutline.find?] at hvars ⊢
  induction hvars with
  | nil => trivial
  | @cons x y _ _ hxy _ ih =>
      rw [List.find?_cons, List.find?_cons, ← hxy.1]
      cases x.decl.name.name == name with
      | true => exact hxy.2
      | false => exact ih

end Scope.Fits

namespace Check

section expressions

/-- A part of the analysis of a place finds a type with an outline. -/
abbrev FollowsType (p : Program) (S : Setting) (a : ArrayTypes) (m : Check ValueType)
    (v : Verdict Outline) : Prop :=
  Follows p S a m v fun b => ValueType.Matches p.classTable b

/-- A part of the analysis of a place follows its events. -/
abbrev FollowsEvents (p : Program) (S : Setting) (a : ArrayTypes) (m : Check Unit)
    (v : Verdict Unit) : Prop :=
  Follows p S a m v fun _ _ _ => True

variable {V W : ValueType} {type found : Outline}

theorem Follows.returning {α : Type} {m : Check α} {v : Verdict Unit}
    (h : Follows p S a m v fun _ _ _ => True)
    {V : ValueType} {type : Outline} (hV : V.Matches p.classTable a type) :
    FollowsType p S a (do let _ ← m; return V) (do v; return type) :=
  h.bind fun _ _ _ hb _ _ => follows_pure fun _ hc _ => (hV.mono hb).mono hc

theorem follows_requireType (henv : S.ancestors? = p.ancestors?)
    (hV : V.Matches p.classTable a type)
    (hW : W.Matches p.classTable a found) (span : Span) :
    FollowsEvents p S a (requireType V W span) (S.requireType type found span) := by
  have htext : Diagnostic.typeMismatch V.text W.text span =
      .typeMismatch type.text found.text span := by
    rw [← hV.outline, ← hW.outline, ValueType.text_outline, ValueType.text_outline]
  rw [requireType, Setting.requireType, htext]
  exact follows_require fun b hb hr => isSubtype_eq henv hr (hW.mono hb) (hV.mono hb)

theorem follows_requireArray (hW : W.Matches p.classTable a found) (span : Span) :
    FollowsType p S a (requireArray W span) (Setting.requireArray found span) := by
  obtain ⟨hbelongs, rfl⟩ := hW
  have hreport : FollowsType p S a
      (do Check.report (.notAnArray W.text span); return .any)
      (do Verdict.report (.notAnArray W.outline.text span); return .any) := by
    rw [ValueType.text_outline]
    exact (follows_report _).returning ⟨.any, rfl⟩
  cases W with
  | array i W => exact follows_pure fun b hb _ => ⟨hbelongs.mono hb, rfl⟩
  | any => exact follows_pure fun _ _ _ => ⟨.any, rfl⟩
  | _ => exact hreport

/-- An accepted class of a name. -/
def IsClass (p : Program) (c : ClassRef) (name : String) : Prop :=
  c ∈ p.classTable.classes ∧ c.name = name

theorem follows_requireObject (hW : W.Matches p.classTable a found) (span : Span) :
    Follows p S a (requireObject W span) (Setting.requireObject found span)
      fun _ => Option.Fits (IsClass p) := by
  obtain ⟨hbelongs, rfl⟩ := hW
  have hreport : Follows p S a
      (do Check.report (.notAClass W.text span); return (none : Option ClassRef))
      (do Verdict.report (.notAClass W.outline.text span); return (none : Option String))
      fun _ => Option.Fits (IsClass p) := by
    rw [ValueType.text_outline]
    exact (follows_report _).bind fun _ _ _ _ _ _ => follows_pure fun _ _ _ => trivial
  cases W with
  | object c =>
      cases hbelongs with
      | object hc => exact follows_pure fun _ _ _ => ⟨hc, rfl⟩
  | any => exact follows_pure fun _ _ _ => trivial
  | _ => exact hreport

variable (henv : env.Fits p S current a)
include henv

theorem follows_bindField (id : Nat) {c : ClassRef} {cls : String} (hc : IsClass p c cls)
    (name : String) (unknown : Diagnostic) :
    FollowsType p S a (bindField env id c name unknown) (S.field cls name unknown) := by
  obtain ⟨hc, rfl⟩ := hc
  have h := henv.fields c hc name
  rw [bindField, Setting.field]
  cases hx : env.members.field? c name <;> cases hy : S.field? c.name name <;>
    rw [hx, hy] at h
  · exact (follows_report _).returning ⟨.any, rfl⟩
  · exact h.elim
  · exact h.elim
  · exact (follows_noteBinding _ _).note (follows_pure fun _ hb _ => ValueType.Matches.mono h hb)

theorem follows_bindVariable (hscope : scope.Fits p.classTable a o) (id : Nat) (name : Ident) :
    FollowsType p S a (bindVariable env scope id name) (S.typeOfVariable current o name) := by
  have h := hscope.find? name.name
  unfold bindVariable Setting.typeOfVariable
  cases hx : scope.find? name.name <;> cases hy : o.find? name.name <;> rw [hx, hy] at h
  · have hcurrent := henv.current
    cases hc : env.current <;> cases hcls : current <;> rw [hc, hcls] at hcurrent
    · exact (follows_report _).returning ⟨.any, rfl⟩
    · exact hcurrent.elim
    · exact hcurrent.elim
    · exact follows_bindField henv id hcurrent name.name _
  · exact h.elim
  · exact h.elim
  · exact (follows_noteBinding _ _).note (follows_pure fun _ hb _ => ValueType.Matches.mono h hb)

theorem follows_checkNewObject (name : Ident) :
    FollowsType p S a (checkNewObject env name) (S.newObject name) := by
  have hdeclares := declares_eq henv.ancestors name.name
  rw [checkNewObject, Setting.newObject, hdeclares, henv.classes]
  cases hc : p.classTable.find? name.name with
  | some c => exact follows_pure fun _ _ _ => matches_class hc
  | none => exact (follows_report _).returning ⟨.any, rfl⟩

/-- What a call asks for and gives has its outline. -/
def Fitting (p : Program) (b : ArrayTypes) (callee : Callee) (o : MethodOutline) : Prop :=
  MethodOutline.Fits p.classTable b callee.params callee.returnType o

theorem methodCallee?_fits {c : ClassRef} {cls : String} (hc : IsClass p c cls) (name : String) :
    Option.Fits (Fitting p a) (methodCallee? env c name) (S.method? cls name) := by
  obtain ⟨hc, rfl⟩ := hc
  have h := henv.methods c hc name
  rw [methodCallee?]
  cases hx : env.members.method? c name <;> cases hy : S.method? c.name name <;> rw [hx, hy] at h
  · trivial
  · exact h.elim
  · exact h.elim
  · exact h

theorem follows_callee? (name : Ident) :
    Follows p S a (callee? env name) (S.callee? current name)
      fun b => Option.Fits (Fitting p b) := by
  have hown : Option.Fits (Fitting p a)
      (env.current.bind fun cls => methodCallee? env cls name.name)
      (current.bind fun cls => S.method? cls name.name) := by
    have hcurrent := henv.current
    cases hc : env.current <;> cases hcls : current <;> rw [hc, hcls] at hcurrent
    · trivial
    · exact hcurrent.elim
    · exact hcurrent.elim
    · exact methodCallee?_fits henv hcurrent name.name
  rw [callee?, Setting.callee?]
  cases hx : env.current.bind fun cls => methodCallee? env cls name.name <;>
    cases hy : current.bind fun cls => S.method? cls name.name <;> rw [hx, hy] at hown
  · simp only [henv.functions, henv.classes]
    cases hf : S.function? name.name with
    | none => exact (follows_report _).bind fun _ _ _ _ _ _ => follows_pure fun _ _ _ => trivial
    | some g =>
        cases g with
        | print =>
            exact follows_pure fun _ _ _ => ⟨.cons ⟨.int, rfl⟩ .nil, ⟨.int, rfl⟩⟩
        | declared decl =>
            have hdecl := henv.declared _ _ hf
            refine (follows_mapM (fun b c x y hbc h => h.mono hbc)
              (List.forall₂_same.2 fun d hd b _ =>
                follows_checkType henv.ancestors henv.ids ?_)).bind
              fun b params params' hb _ hparams => ?_
            · refine Program.mem_typeExprs_of_function hdecl (List.mem_cons_of_mem _ ?_)
              exact List.mem_append_left _ (List.mem_map_of_mem hd)
            · refine (follows_checkType henv.ancestors henv.ids ?_).bind fun c r r' hc _ hr => ?_
              · exact Program.mem_typeExprs_of_function hdecl (List.mem_cons_self ..)
              · exact follows_pure fun d hd _ =>
                  ⟨hparams.imp fun _ _ h => (h.mono hc).mono hd, hr.mono hd⟩
  · exact hown.elim
  · exact hown.elim
  · exact follows_pure fun _ hb _ => MethodOutline.Fits.mono hown hb

end expressions

theorem follows_checkArity (expected found : Nat) (span : Span) :
    Follows p S a (checkArity expected found span) (Setting.arity expected found span)
      fun _ => Eq := by
  rw [checkArity, Setting.arity]
  split_ifs
  · exact (follows_report _).bind fun _ _ _ _ _ _ => follows_pure fun _ _ _ => rfl
  · exact (follows_report _).bind fun _ _ _ _ _ _ => follows_pure fun _ _ _ => rfl
  · exact follows_pure fun _ _ _ => rfl

/-- The type that is found is noted. -/
theorem Follows.noted {m : Check ValueType} {v : Verdict Outline} (h : FollowsType p S a m v)
    (id : Nat) : FollowsType p S a (noting id m) v := by
  have h := h.bind (w := pure) (Q := fun b => ValueType.Matches p.classTable b)
    (k := fun type => do noteType id type; return type) fun b V type _ _ hV =>
      (follows_noteType id V).note (follows_pure fun _ hc _ => hV.mono hc)
  rwa [bind_pure] at h

theorem matches_unaryType (t : ClassTable) (a : ArrayTypes) (op : UnaryOp) :
    (unaryType op).Matches t a (unaryType op).outline := by
  cases op
  · exact ⟨.int, rfl⟩
  · exact ⟨.bool, rfl⟩

theorem matches_operandType (t : ClassTable) (a : ArrayTypes) (op : BinaryOp) :
    (operandType op).Matches t a (operandType op).outline := by
  cases op <;> first | exact ⟨.int, rfl⟩ | exact ⟨.bool, rfl⟩ | exact ⟨.any, rfl⟩

theorem matches_resultType (t : ClassTable) (a : ArrayTypes) (op : BinaryOp) :
    (resultType op).Matches t a (resultType op).outline := by
  cases op <;> first | exact ⟨.int, rfl⟩ | exact ⟨.bool, rfl⟩

/-- The elements of an array. -/
theorem matches_component {t : ClassTable} {V : ValueType} {type : Outline}
    (hV : V.Matches t a type) : (V.component?.getD .any).Matches t a type.component := by
  obtain ⟨hbelongs, rfl⟩ := hV
  cases hbelongs with
  | array _ h => exact ⟨h, rfl⟩
  | _ => exact ⟨.any, rfl⟩

section parts

variable (henv : env.Fits p S current a) (hscope : scope.Fits p.classTable a o)
include henv

/-- An operand that has to be of a type. -/
theorem follows_operandOf {T : ValueType} {type : Outline} (hT : T.Matches p.classTable a type)
    {e : Expr} {v : Verdict Outline} (he : FollowsType p S a (checkExpr env scope e) v) :
    FollowsEvents p S a (operandOf env scope T e (mismatch T e)) (S.operand type v e.span) :=
  he.bind fun _ _ _ hb _ hV => follows_requireType henv.ancestors (hT.mono hb) hV _

include hscope

/-- The arguments of a call, if there are as many as there have to be, and what the call gives. -/
theorem follows_applied {args : List Expr} {callee : Callee} {m : MethodOutline}
    (hm : Fitting p a callee m)
    (hargs : ∀ {b : ArrayTypes} {params : List ValueType} {params' : List Outline},
      env.Fits p S current b → scope.Fits p.classTable b o →
      List.Forall₂ (ValueType.Matches p.classTable b) params params' →
      FollowsEvents p S b (checkArguments env scope args params)
        (verdictOfArguments S current o args params')) (tag : Tag) :
    FollowsType p S a (applied env scope tag args callee)
      (Setting.applied (verdictOfArguments S current o args) args.length tag.span m) := by
  rw [applied, Setting.applied, hm.params.length_eq]
  refine (follows_checkArity _ _ _).bind fun b fits fits' hb _ hfits => ?_
  obtain rfl := hfits
  have harguments : FollowsEvents p S b
      (if fits then checkArguments env scope args callee.params else pure ())
      (if fits then verdictOfArguments S current o args m.params else pure ()) := by
    cases fits with
    | true => exact hargs (henv.mono hb) (hscope.mono hb) (hm.params.imp fun _ _ h => h.mono hb)
    | false => exact follows_pure fun _ _ _ => trivial
  exact harguments.bind fun c _ _ hc _ _ => (follows_noteCall _ _).note
    (follows_pure fun _ hd _ => (hm.returnType.mono (hb.trans hc)).mono hd)

theorem follows_methodApplied {args : List Expr} {c : ClassRef} {cls : String}
    (hc : IsClass p c cls)
    (hargs : ∀ {b : ArrayTypes} {params : List ValueType} {params' : List Outline},
      env.Fits p S current b → scope.Fits p.classTable b o →
      List.Forall₂ (ValueType.Matches p.classTable b) params params' →
      FollowsEvents p S b (checkArguments env scope args params)
        (verdictOfArguments S current o args params')) (tag : Tag) (name : Ident) :
    FollowsType p S a (methodApplied env scope tag name args c)
      (S.methodApplied (verdictOfArguments S current o args) args.length tag.span name cls) := by
  have h := methodCallee?_fits henv hc name.name
  rw [methodApplied, Setting.methodApplied]
  cases hx : methodCallee? env c name.name <;> cases hy : S.method? cls name.name <;>
    rw [hx, hy] at h
  · rw [hc.2]
    exact (follows_report _).returning ⟨.any, rfl⟩
  · exact h.elim
  · exact h.elim
  · exact follows_applied henv hscope h hargs tag

end parts

mutual

/-- The type of an expression has the outline that its verdict says. -/
theorem follows_checkExpr {a : ArrayTypes} : ∀ (e : Expr), e.written ⊆ p.typeExprs →
    env.Fits p S current a → scope.Fits p.classTable a o →
    FollowsType p S a (checkExpr env scope e) (e.verdict S current o)
  | .unary _ op operand, hw, henv, hscope => by
      rw [checkExpr_unary, Expr.verdict]
      exact ((follows_operandOf henv (matches_unaryType _ _ op)
        (follows_checkExpr operand hw henv hscope)).returning (matches_unaryType _ _ op)).noted _
  | .binary tag op left right, hw, henv, hscope => by
      rw [Expr.written, List.append_subset] at hw
      rw [Expr.verdict]
      have hl := follows_checkExpr left hw.1 henv hscope
      split_ifs with hop
      · subst hop
        rw [checkExpr_equal]
        refine Follows.noted ?_ _
        simp only [Setting.comparison, bind_assoc]
        refine hl.bind fun b V type hb _ hV => ?_
        refine (follows_checkExpr right hw.2 (henv.mono hb) (hscope.mono hb)).bind
          fun c W found hc _ hW => ?_
        rw [← ValueType.text_outline V, ← ValueType.text_outline W, hV.outline, hW.outline]
        refine Follows.returning (follows_require fun d hd hr => ?_) ⟨.bool, rfl⟩
        have hV := (hV.mono hc).mono hd
        rw [isSubtype_eq henv.ancestors hr hV (hW.mono hd),
          isSubtype_eq henv.ancestors hr (hW.mono hd) hV]
      · rw [checkExpr_binary hop]
        refine Follows.noted ?_ _
        refine (follows_operandOf henv (matches_operandType _ _ op) hl).bind
          fun b _ _ hb _ _ => ?_
        exact (follows_operandOf (henv.mono hb) (matches_operandType _ _ op)
          (follows_checkExpr right hw.2 (henv.mono hb) (hscope.mono hb))).returning
            (matches_resultType _ _ op)
  | .number _ _, _, _, _ => by
      rw [checkExpr_number, Expr.verdict]
      exact Follows.noted (follows_pure fun _ _ _ => ⟨.int, rfl⟩) _
  | .bool _ _, _, _, _ => by
      rw [checkExpr_bool, Expr.verdict]
      exact Follows.noted (follows_pure fun _ _ _ => ⟨.bool, rfl⟩) _
  | .null _, _, _, _ => by
      rw [checkExpr_null, Expr.verdict]
      exact Follows.noted (follows_pure fun _ _ _ => ⟨.null, rfl⟩) _
  | .this tag, _, henv, _ => by
      rw [checkExpr_this, Expr.verdict.eq_def]
      refine Follows.noted ?_ _
      have hcurrent := henv.current
      cases hc : env.current <;> cases hcls : current <;> rw [hc, hcls] at hcurrent
      · exact (follows_report _).returning ⟨.any, rfl⟩
      · exact hcurrent.elim
      · exact hcurrent.elim
      · exact follows_pure fun _ _ _ => ⟨.object hcurrent.1, congrArg Outline.object hcurrent.2⟩
  | .read _ location, hw, henv, hscope => by
      rw [checkExpr_read, Expr.verdict]
      exact (follows_checkLocation location hw henv hscope).noted _
  | .arrayLength _ array, hw, henv, hscope => by
      rw [checkExpr_arrayLength, Expr.verdict]
      refine Follows.noted ?_ _
      refine (follows_checkExpr array hw henv hscope).bind fun b V found hb _ hV => ?_
      exact (follows_requireArray hV _).bind fun _ _ _ _ _ _ =>
        follows_pure fun _ _ _ => ⟨.int, rfl⟩
  | .newObject _ cls, _, henv, _ => by
      rw [checkExpr_newObject, Expr.verdict]
      exact (follows_checkNewObject henv cls).noted _
  | .newArray _ element size, hw, henv, hscope => by
      rw [Expr.written, List.cons_subset] at hw
      rw [checkExpr_newArray, Expr.verdict]
      refine Follows.noted ?_ _
      refine (follows_operandOf henv ⟨.int, rfl⟩ (follows_checkExpr size hw.2 henv hscope)).bind
        fun b _ _ hb _ _ => ?_
      rw [henv.classes]
      exact (follows_checkType henv.ancestors henv.ids hw.1).bind fun c W type _ _ hW =>
        follows_arrayOf hW
  | .call tag name args, hw, henv, hscope => by
      rw [checkExpr_call, Expr.verdict]
      refine Follows.noted ?_ _
      refine (follows_callee? henv name).bind fun b x y hb _ hxy => ?_
      cases x <;> cases y
      · exact follows_pure fun _ _ _ => ⟨.any, rfl⟩
      · exact hxy.elim
      · exact hxy.elim
      · exact follows_applied (henv.mono hb) (hscope.mono hb) hxy
          (fun henv hscope hparams => follows_checkArguments args hw henv hscope hparams) tag
  | .methodCall tag receiver name args, hw, henv, hscope => by
      rw [Expr.written, List.append_subset] at hw
      rw [checkExpr_methodCall, Expr.verdict]
      refine Follows.noted ?_ _
      simp only [objectOf, bind_assoc]
      refine (follows_checkExpr receiver hw.1 henv hscope).bind fun b V found hb _ hV => ?_
      refine (follows_requireObject hV _).bind fun c x y hc _ hxy => ?_
      cases x <;> cases y
      · exact follows_pure fun _ _ _ => ⟨.any, rfl⟩
      · exact hxy.elim
      · exact hxy.elim
      · have hbc := hb.trans hc
        exact follows_methodApplied (henv.mono hbc) (hscope.mono hbc) hxy
          (fun henv hscope hparams => follows_checkArguments args hw.2 henv hscope hparams) tag name
termination_by structural e => e

theorem follows_checkLocation {a : ArrayTypes} : ∀ (l : Location), l.written ⊆ p.typeExprs →
    env.Fits p S current a → scope.Fits p.classTable a o →
    FollowsType p S a (checkLocation env scope l) (l.verdict S current o)
  | .var tag name, _, henv, hscope => by
      rw [checkLocation_var, Location.verdict]
      exact (follows_bindVariable henv hscope tag.id name).noted _
  | .field tag receiver name, hw, henv, hscope => by
      rw [checkLocation_field, Location.verdict]
      refine Follows.noted ?_ _
      simp only [objectOf, bind_assoc]
      refine (follows_checkExpr receiver hw henv hscope).bind fun b V found hb _ hV => ?_
      refine (follows_requireObject hV _).bind fun c x y hc _ hxy => ?_
      cases x <;> cases y
      · exact follows_pure fun _ _ _ => ⟨.any, rfl⟩
      · exact hxy.elim
      · exact hxy.elim
      · obtain ⟨hcls, rfl⟩ := hxy
        exact follows_bindField (henv.mono (hb.trans hc)) _ ⟨hcls, rfl⟩ _ _
  | .index _ array index, hw, henv, hscope => by
      rw [Location.written, List.append_subset] at hw
      rw [checkLocation_index, Location.verdict]
      refine Follows.noted ?_ _
      refine (follows_checkExpr array hw.1 henv hscope).bind fun b V found hb _ hV => ?_
      refine (follows_requireArray hV _).bind fun c W type hc _ hW => ?_
      have hbc := hb.trans hc
      exact (follows_operandOf (henv.mono hbc) ⟨.int, rfl⟩
        (follows_checkExpr index hw.2 (henv.mono hbc) (hscope.mono hbc))).returning
          (matches_component hW)
termination_by structural l => l

theorem follows_checkArguments {a : ArrayTypes} : ∀ (args : List Expr)
    {params : List ValueType} {params' : List Outline}, writtenInArguments args ⊆ p.typeExprs →
    env.Fits p S current a → scope.Fits p.classTable a o →
    List.Forall₂ (ValueType.Matches p.classTable a) params params' →
    FollowsEvents p S a (checkArguments env scope args params)
      (verdictOfArguments S current o args params')
  | [], _, _, _, _, _, hparams => by
      cases hparams <;> exact follows_pure fun _ _ _ => trivial
  | arg :: args, _, _, hw, henv, hscope, hparams => by
      rw [writtenInArguments, List.append_subset] at hw
      cases hparams with
      | nil => exact follows_pure fun _ _ _ => trivial
      | cons hV hparams =>
          rw [checkArguments_cons, verdictOfArguments]
          refine (follows_operandOf henv hV (follows_checkExpr arg hw.1 henv hscope)).bind
            fun b _ _ hb _ _ => ?_
          exact follows_checkArguments args hw.2 (henv.mono hb) (hscope.mono hb)
            (hparams.imp fun _ _ h => h.mono hb)
termination_by structural args => args

end

section statements

variable (henv : env.Fits p S current a) (hscope : scope.Fits p.classTable a o)
include henv hscope

/-- One more variable, about which there is a complaint if its name is taken. -/
theorem follows_declare {decl : VarDecl} (ht : decl.type ∈ p.typeExprs) (complaint : Diagnostic) :
    Follows p S a
      (do
        require (scope.find? decl.name.name).isNone complaint
        return scope.declare decl (← checkType env.classes decl.type))
      (do
        Verdict.require (o.find? decl.name.name).isNone complaint
        return o.declare decl.name.name (← S.resolve decl.type))
      fun b => Scope.Fits p.classTable b := by
  rw [henv.classes]
  have hnone : (scope.find? decl.name.name).isNone = (o.find? decl.name.name).isNone := by
    have h := hscope.find? decl.name.name
    cases hx : scope.find? decl.name.name <;> cases hy : o.find? decl.name.name <;>
      rw [hx, hy] at h <;> first | rfl | exact h.elim
  refine (follows_require fun _ _ _ => hnone).bind fun b _ _ hb _ _ => ?_
  refine (follows_checkType henv.ancestors henv.ids ht).bind fun c V type hc _ hV => ?_
  exact follows_pure fun d hd _ => (hscope.mono ((hb.trans hc).trans hd)).declare (hV.mono hd)

theorem follows_checkDeclaration {decl : VarDecl} (ht : decl.type ∈ p.typeExprs) :
    Follows p S a (checkDeclaration env scope decl) (S.declaration o decl)
      fun b => Scope.Fits p.classTable b := by
  rw [checkDeclaration, Setting.declaration, hscope.function]
  exact follows_declare henv hscope ht _

theorem follows_checkAssignment {target : Location} {value : Expr}
    (ht : target.written ⊆ p.typeExprs) (hv : value.written ⊆ p.typeExprs) :
    FollowsEvents p S a (checkAssignment env scope target value)
      (S.assignment current o target value) := by
  rw [checkAssignment, Setting.assignment]
  refine (follows_checkLocation target ht henv hscope).bind fun b V type hb _ hV => ?_
  refine (follows_checkExpr value hv (henv.mono hb) (hscope.mono hb)).bind
    fun c W found hc _ hW => ?_
  rw [← ValueType.text_outline V, ← ValueType.text_outline W, hV.outline, hW.outline]
  exact follows_require fun d hd hr =>
    isSubtype_eq henv.ancestors hr (hW.mono hd) ((hV.mono hc).mono hd)

theorem follows_checkCondition (construct : Conditional) {e : Expr}
    (he : e.written ⊆ p.typeExprs) :
    FollowsEvents p S a (checkCondition env scope construct e)
      (S.condition current o construct e) := by
  rw [checkCondition, Setting.condition]
  refine (follows_checkExpr e he henv hscope).bind fun b V type hb _ hV => ?_
  rw [← ValueType.text_outline V, hV.outline]
  exact follows_require fun c hc hr => isSubtype_eq henv.ancestors hr (hV.mono hc) ⟨.bool, rfl⟩

theorem follows_checkReturn (span : Span) {e : Expr} (he : e.written ⊆ p.typeExprs) :
    FollowsEvents p S a (checkReturn env scope span e) (S.returns current o span e) := by
  rw [checkReturn, Setting.returns]
  refine (follows_checkExpr e he henv hscope).bind fun b V type hb _ hV => ?_
  have hreturn := hscope.returnType
  rw [← ValueType.text_outline V, ← ValueType.text_outline scope.returnType, hV.outline,
    hreturn.outline]
  exact follows_require fun c hc hr =>
    isSubtype_eq henv.ancestors hr (hV.mono hc) ((hreturn.mono hb).mono hc)

end statements

/-- Behind a nested statement the scope is the one before it. -/
theorem Follows.leaving {α β : Type} {R : ArrayTypes → α → β → Prop} {m : Check α} {v : Verdict β}
    (h : Follows p S a m v R) (hscope : scope.Fits p.classTable a o) :
    Follows p S a (do let _ ← m; return scope) (do let _ ← v; return o)
      fun b => Scope.Fits p.classTable b :=
  h.bind fun _ _ _ hb _ _ => follows_pure fun _ hc _ => (hscope.mono hb).mono hc

mutual

/-- The scope behind a statement has the outline that its verdict says. -/
theorem follows_checkStmt {a : ArrayTypes} {scope : Scope} {o : ScopeOutline} :
    ∀ (s : Stmt), s.written ⊆ p.typeExprs → env.Fits p S current a →
    scope.Fits p.classTable a o →
    Follows p S a (checkStmt env scope s) (s.verdict S current o)
      fun b => Scope.Fits p.classTable b
  | .declare decl, hw, henv, hscope =>
      follows_checkDeclaration henv hscope (hw (List.mem_singleton_self _))
  | .eval value, hw, henv, hscope => (follows_checkExpr value hw henv hscope).leaving hscope
  | .assign _ target value, hw, henv, hscope => by
      rw [Stmt.written, List.append_subset] at hw
      exact (follows_checkAssignment henv hscope hw.1 hw.2).leaving hscope
  | .branch _ condition onTrue none, hw, henv, hscope => by
      rw [Stmt.written, List.append_subset] at hw
      rw [checkStmt, Stmt.verdict]
      refine (follows_checkCondition henv hscope .branch hw.1).bind fun b _ _ hb _ _ => ?_
      exact (follows_checkStmt onTrue hw.2 (henv.mono hb) (hscope.mono hb)).leaving
        (hscope.mono hb)
  | .branch _ condition onTrue (some onFalse), hw, henv, hscope => by
      rw [Stmt.written, List.append_subset, List.append_subset] at hw
      rw [checkStmt, Stmt.verdict]
      refine (follows_checkCondition henv hscope .branch hw.1).bind fun b _ _ hb _ _ => ?_
      refine (follows_checkStmt onTrue hw.2.1 (henv.mono hb) (hscope.mono hb)).bind
        fun c _ _ hc _ _ => ?_
      have hbc := hb.trans hc
      exact (follows_checkStmt onFalse hw.2.2 (henv.mono hbc) (hscope.mono hbc)).leaving
        (hscope.mono hbc)
  | .loop _ condition body, hw, henv, hscope => by
      rw [Stmt.written, List.append_subset] at hw
      rw [checkStmt, Stmt.verdict]
      refine (follows_checkCondition henv hscope .loop hw.1).bind fun b _ _ hb _ _ => ?_
      exact (follows_checkStmt body hw.2 (henv.mono hb) (hscope.mono hb)).leaving (hscope.mono hb)
  | .return span value, hw, henv, hscope =>
      (follows_checkReturn henv hscope span hw).leaving hscope
  | .block _ body, hw, henv, hscope => (follows_checkBlock body hw henv hscope).leaving hscope
termination_by structural s => s

theorem follows_checkBlock {a : ArrayTypes} {scope : Scope} {o : ScopeOutline} :
    ∀ (body : List Stmt), writtenInBody body ⊆ p.typeExprs → env.Fits p S current a →
    scope.Fits p.classTable a o →
    FollowsEvents p S a (checkBlock env scope body) (verdictOfBody S current o body)
  | [], _, _, _ => follows_pure fun _ _ _ => trivial
  | s :: rest, hw, henv, hscope => by
      rw [writtenInBody, List.append_subset] at hw
      rw [checkBlock, verdictOfBody]
      exact (follows_checkStmt s hw.1 henv hscope).bind fun b _ _ hb _ hscope =>
        follows_checkBlock rest hw.2 (henv.mono hb) hscope
termination_by structural body => body

end

/-- Parameters are declared as their verdicts say. -/
theorem follows_declareParameters (henv : env.Fits p S current a)
    (hscope : scope.Fits p.classTable a o) {params : List VarDecl}
    (hparams : ∀ d ∈ params, d.type ∈ p.typeExprs) :
    Follows p S a (declareParameters env scope params) (params.foldlM S.parameter o)
      fun b => Scope.Fits p.classTable b :=
  follows_foldlM (List.forall₂_same.2 fun d hd _ _ _ hb hscope =>
      follows_declare (henv.mono hb) hscope (hparams d hd) _)
    (fun _ _ _ _ hc h => h.mono hc) hscope

/-- A function is checked as its verdict says. -/
theorem follows_checkFunction (henv : env.Fits p S current a) {f : FunctionDecl}
    (hf : f.written ⊆ p.typeExprs) :
    FollowsEvents p S a (checkFunction env f) (S.function current f) := by
  rw [FunctionDecl.written, List.cons_subset, List.append_subset] at hf
  obtain ⟨hreturn, hparams, hbody⟩ := hf
  rw [checkFunction, Setting.function, henv.classes]
  refine (follows_checkType henv.ancestors henv.ids hreturn).bind fun b V type hb _ hV => ?_
  have hscope : Scope.Fits p.classTable b ⟨f.name.name, V, []⟩ ⟨f.name.name, type, []⟩ :=
    ⟨rfl, hV, .nil⟩
  have henv := henv.mono hb
  exact (follows_declareParameters henv hscope fun d hd => hparams (List.mem_map_of_mem hd)).bind
    fun c scope o hc _ hscope => follows_checkBlock f.body hbody (henv.mono hc) hscope

end Check
end ObjectLang
