import ObjectLang.Proofs.Analysis.Mentions
import ObjectLang.Proofs.Analysis.Visits

/-!
# Checking with less known of the variables

A part of a body is checked twice from the same findings, the second time with some variables of
type `any`. Whatever expression the second check comes to, the first one comes to it too, and finds
the type that the second one finds unless that is `any`; and the second check reports nothing that
the first one does not report. The two checks go on side by side: what they find out about array
types and written types differs, but the outlines of all variables are related as they were.
-/
namespace ObjectLang

open Check

section scopes

/-- The types of a scope are made of classes and array types that there are. -/
structure Scope.Belongs (t : ClassTable) (a : ArrayTypes) (scope : Scope) : Prop where
  returnType : scope.returnType.Belongs t a
  vars : ∀ x ∈ scope.vars, x.type.Belongs t a

/-- The second scope differs from the first one only in that some variables have type `any`. -/
structure Scope.Blurs (scope scope' : Scope) : Prop where
  function : scope'.function = scope.function
  returnType : scope'.returnType = scope.returnType
  vars : List.Forall₂ (fun x y => y.decl = x.decl ∧ (y.type = x.type ∨ y.type = .any))
    scope.vars scope'.vars

/-- The outline of a scope. -/
def Scope.outline (scope : Scope) : ScopeOutline :=
  ⟨scope.function, scope.returnType.outline,
    scope.vars.map fun x => (x.decl.name.name, x.type.outline)⟩

variable {t : ClassTable} {a : ArrayTypes} {scope scope' : Scope}

theorem Scope.Belongs.fits (h : scope.Belongs t a) : scope.Fits t a scope.outline :=
  ⟨rfl, ⟨h.returnType, rfl⟩,
    List.forall₂_map_right_iff.2 (List.forall₂_same.2 fun x hx => ⟨rfl, h.vars x hx, rfl⟩)⟩

theorem Scope.Fits.belongs {o : ScopeOutline} (h : scope.Fits t a o) : scope.Belongs t a := by
  refine ⟨h.returnType.belongs, ?_⟩
  have hvars := h.vars
  generalize scope.vars = xs, o.vars = ys at hvars ⊢
  induction hvars with
  | nil => exact List.forall_mem_nil _
  | cons hxy _ ih => exact List.forall_mem_cons.2 ⟨hxy.2.belongs, ih⟩

theorem Scope.Blurs.belongs (h : scope.Blurs scope') (hs : scope.Belongs t a) :
    scope'.Belongs t a := by
  refine ⟨h.returnType ▸ hs.returnType, ?_⟩
  have hvars := hs.vars
  have hblurs := h.vars
  generalize scope.vars = xs, scope'.vars = ys at hvars hblurs ⊢
  induction hblurs with
  | nil => exact List.forall_mem_nil _
  | cons hxy _ ih =>
      rw [List.forall_mem_cons] at hvars ⊢
      refine ⟨?_, ih hvars.2⟩
      rcases hxy.2 with heq | heq
      · exact heq ▸ hvars.1
      · exact heq ▸ .any

theorem Scope.Blurs.outline (h : scope.Blurs scope') : scope.outline.Blurs scope'.outline := by
  refine ⟨h.function, congrArg ValueType.outline h.returnType, ?_⟩
  rw [Scope.outline, Scope.outline, List.forall₂_map_left_iff, List.forall₂_map_right_iff]
  refine h.vars.imp fun x y hxy => ⟨by rw [hxy.1], ?_⟩
  rcases hxy.2 with heq | heq
  · exact .inl (congrArg ValueType.outline heq)
  · exact .inr (congrArg ValueType.outline heq)

end scopes

namespace Node

/-- The types that are written in a node. -/
def written : Node → List TypeExpr
  | .expr e => e.written
  | .location l => l.written

/-- What a node amounts to. -/
def verdict (S : Setting) (current : Option String) (o : ScopeOutline) : Node → Verdict Outline
  | .expr e => e.verdict S current o
  | .location l => l.verdict S current o

end Node

theorem absorbs_node (S : Setting) (current : Option String) {o o' : ScopeOutline}
    (ho : o.Blurs o') (n : Node) :
    Verdict.Absorbs Outline.Blurs (n.verdict S current o) (n.verdict S current o') := by
  cases n with
  | expr e => exact absorbs_expr S current ho e
  | location l => exact absorbs_location S current ho l

section sides

variable {p : Program} {S : Setting} {current : Option String} {env : Surroundings}
  {scope scope' : Scope} {o o' : ScopeOutline} {f f' : Findings}

/-- A part of the analysis begins with what was found out, in a scope that has an outline. -/
structure Placed (p : Program) (S : Setting) (current : Option String) (env : Surroundings)
    (o : ScopeOutline) (scope : Scope) (f : Findings) : Prop where
  knows : ∃ known, f.Knows p S known
  env : env.Fits p S current f.arrays
  scope : scope.Fits p.classTable f.arrays o

theorem Placed.after {α β : Type} {R : ArrayTypes → α → β → Prop} {m : Check α} {v : Verdict β}
    (h : Placed p S current env o scope f) (hm : Follows p S f.arrays m v R) :
    Placed p S current env o scope (m.after f) ∧ R (m.after f).arrays (m.value f) v.value := by
  obtain ⟨known, hknown⟩ := h.knows
  obtain ⟨hg, hvalue⟩ := hm known f hknown .rfl
  exact ⟨⟨⟨_, hg.knows⟩, h.env.mono hg.arrays, h.scope.mono hg.arrays⟩, hvalue⟩

theorem Placed.within {α β : Type} {R : ArrayTypes → α → β → Prop} {m : Check α} {v : Verdict β}
    (h : Placed p S current env o scope f) (hm : Follows p S f.arrays m v R) :
    f.arrays.Within (m.after f).arrays := by
  obtain ⟨known, hknown⟩ := h.knows
  exact (hm known f hknown .rfl).1.arrays

/-- The same part of the check, begun in two places whose scopes have related outlines. -/
inductive Task.Beside (p : Program) (S : Setting) (current : Option String) (env : Surroundings) :
    Task × Findings → Task × Findings → Prop
  | node {n : Node} {scope scope' : Scope} {f f' : Findings} {o o' : ScopeOutline} :
      n.written ⊆ p.typeExprs → Placed p S current env o scope f →
      Placed p S current env o' scope' f' → o.Blurs o' →
      Beside p S current env (.node scope n, f) (.node scope' n, f')
  | arguments {args : List Expr} {params params' : List ValueType} {types : List Outline}
      {scope scope' : Scope} {f f' : Findings} {o o' : ScopeOutline} :
      writtenInArguments args ⊆ p.typeExprs → Placed p S current env o scope f →
      Placed p S current env o' scope' f' → o.Blurs o' →
      List.Forall₂ (ValueType.Matches p.classTable f.arrays) params types →
      List.Forall₂ (ValueType.Matches p.classTable f'.arrays) params' types →
      Beside p S current env (.arguments scope args params, f) (.arguments scope' args params', f')
  | stmt {s : Stmt} {scope scope' : Scope} {f f' : Findings} {o o' : ScopeOutline} :
      s.written ⊆ p.typeExprs → Placed p S current env o scope f →
      Placed p S current env o' scope' f' → o.Blurs o' →
      Beside p S current env (.stmt scope s, f) (.stmt scope' s, f')
  | body {body : List Stmt} {scope scope' : Scope} {f f' : Findings} {o o' : ScopeOutline} :
      writtenInBody body ⊆ p.typeExprs → Placed p S current env o scope f →
      Placed p S current env o' scope' f' → o.Blurs o' →
      Beside p S current env (.body scope body, f) (.body scope' body, f')

namespace Placed

variable (h : Placed p S current env o scope f)
include h

theorem expr {e : Expr} (he : e.written ⊆ p.typeExprs) :
    FollowsType p S f.arrays (checkExpr env scope e) (e.verdict S current o) :=
  follows_checkExpr e he h.env h.scope

theorem location {l : Location} (hl : l.written ⊆ p.typeExprs) :
    FollowsType p S f.arrays (checkLocation env scope l) (l.verdict S current o) :=
  follows_checkLocation l hl h.env h.scope

theorem node {n : Node} (hn : n.written ⊆ p.typeExprs) :
    FollowsType p S f.arrays (n.check env scope) (n.verdict S current o) := by
  cases n with
  | expr e => exact h.expr hn
  | location l => exact h.location hn

theorem operand {e : Expr} (he : e.written ⊆ p.typeExprs) {T : ValueType} {type : Outline}
    (hT : T.Matches p.classTable f.arrays type) :
    FollowsEvents p S f.arrays (operandOf env scope T e (mismatch T e))
      (S.operand type (e.verdict S current o) e.span) :=
  follows_operandOf h.env hT (h.expr he)

theorem condition (construct : Conditional) {e : Expr} (he : e.written ⊆ p.typeExprs) :
    Placed p S current env o scope ((checkCondition env scope construct e).after f) :=
  (h.after (follows_checkCondition h.env h.scope construct he)).1

/-- The class of an object, which has the name that the verdict says. -/
theorem object {e : Expr} (he : e.written ⊆ p.typeExprs) :
    Follows p S f.arrays (objectOf env scope e)
      (do Setting.requireObject (← e.verdict S current o) e.span)
      fun _ => Option.Fits (IsClass p) :=
  (h.expr he).bind fun _ _ _ _ _ hV => follows_requireObject hV _

theorem array {e : Expr} (he : e.written ⊆ p.typeExprs) :
    Placed p S current env o scope
      ((do requireArray (← checkExpr env scope e) e.span : Check ValueType).after f) :=
  (h.after ((h.expr he).bind fun _ _ _ _ _ hV => follows_requireArray hV _)).1

end Placed

theorem isClass_unique {c d : ClassRef} {name : String} (hc : IsClass p c name)
    (hd : IsClass p d name) : c = d :=
  ClassTable.closed_build.eq_of_name hc.1 hd.1 (hc.2.trans hd.2.symm)

/-- Where the second check finds the class of an object, the first one finds it too. -/
theorem objectOf_beside {e : Expr} (he : e.written ⊆ p.typeExprs)
    (h : Placed p S current env o scope f) (h' : Placed p S current env o' scope' f')
    (ho : o.Blurs o') {c : ClassRef} (hc : (objectOf env scope' e).value f' = some c) :
    (objectOf env scope e).value f = some c ∧ ∃ name, IsClass p c name := by
  have hvalue := (h.after (h.object he)).2
  have hvalue' := (h'.after (h'.object he)).2
  have habsorbs := (absorbs_expr S current ho e).bind fun _ _ hfound =>
    Setting.absorbs_requireObject hfound e.span
  rw [hc] at hvalue'
  have hrelated := habsorbs.value
  generalize Verdict.value (do Setting.requireObject (← e.verdict S current o') e.span) = y
    at hvalue' hrelated
  generalize Verdict.value (do Setting.requireObject (← e.verdict S current o) e.span) = x
    at hvalue hrelated
  cases y with
  | none => exact hvalue'.elim
  | some name =>
      obtain rfl : some name = x := hrelated.resolve_right (Option.some_ne_none name)
      cases hd : (objectOf env scope e).value f with
      | none =>
          rw [hd] at hvalue
          exact hvalue.elim
      | some d =>
          rw [hd] at hvalue
          exact ⟨congrArg some (isClass_unique hvalue hvalue'), name, hvalue'⟩

theorem written_branch {span : Span} {c : Expr} {s : Stmt} {s? : Option Stmt} :
    (Stmt.branch span c s s?).written = c.written ++ (s.written ++ s?.elim [] Stmt.written) := by
  cases s? with
  | none => exact congrArg (c.written ++ ·) (List.append_nil _).symm
  | some s' => rfl

/-- What the second check is made up of, the first one is made up of too. -/
theorem Task.Beside.step {x x' y' : Task × Findings} (h : Beside p S current env x x')
    (hc : Task.Calls env x' y') : ∃ y, Task.Calls env x y ∧ Beside p S current env y y' := by
  cases hc with
  | operand =>
      cases h with
      | node hw hx hx' ho => exact ⟨_, .operand, .node hw hx hx' ho⟩
  | left =>
      cases h with
      | node hw hx hx' ho =>
          exact ⟨_, .left, .node (List.append_subset.1 hw).1 hx hx' ho⟩
  | @right _ _ op _ _ _ hop =>
      cases h with
      | node hw hx hx' ho =>
          obtain ⟨hl, hr⟩ := List.append_subset.1 hw
          exact ⟨_, .right hop, .node hr (hx.after (hx.operand hl (matches_operandType _ _ op))).1
            (hx'.after (hx'.operand hl (matches_operandType _ _ op))).1 ho⟩
  | rightOfEqual =>
      cases h with
      | node hw hx hx' ho =>
          obtain ⟨hl, hr⟩ := List.append_subset.1 hw
          exact ⟨_, .rightOfEqual,
            .node hr (hx.after (hx.expr hl)).1 (hx'.after (hx'.expr hl)).1 ho⟩
  | read =>
      cases h with
      | node hw hx hx' ho => exact ⟨_, .read, .node hw hx hx' ho⟩
  | arrayLength =>
      cases h with
      | node hw hx hx' ho => exact ⟨_, .arrayLength, .node hw hx hx' ho⟩
  | size =>
      cases h with
      | node hw hx hx' ho => exact ⟨_, .size, .node (List.cons_subset.1 hw).2 hx hx' ho⟩
  | @call _ _ name _ c' _ hc hl =>
      cases h with
      | node hw hx hx' ho =>
          obtain ⟨hg, hcallee⟩ := hx.after (follows_callee? hx.env name)
          obtain ⟨hg', hcallee'⟩ := hx'.after (follows_callee? hx'.env name)
          rw [hc] at hcallee'
          generalize (S.callee? current name).value = m at hcallee hcallee'
          cases m with
          | none => exact hcallee'.elim
          | some m =>
              generalize hfound : (callee? env name).value _ = found at hcallee
              cases found with
              | none => exact hcallee.elim
              | some c =>
                  refine ⟨_, .call hfound ?_,
                    .arguments hw hg hg' ho hcallee.params hcallee'.params⟩
                  rw [hl, hcallee.params.length_eq, hcallee'.params.length_eq]
  | receiver =>
      cases h with
      | node hw hx hx' ho =>
          exact ⟨_, .receiver, .node (List.append_subset.1 hw).1 hx hx' ho⟩
  | @methodCall _ _ _ name _ cls c' _ hobject hc hl =>
      cases h with
      | node hw hx hx' ho =>
          obtain ⟨hr, ha⟩ := List.append_subset.1 hw
          obtain ⟨hfound, _, hcls⟩ := objectOf_beside hr hx hx' ho hobject
          have hg := (hx.after (hx.object hr)).1
          have hg' := (hx'.after (hx'.object hr)).1
          have hfits := methodCallee?_fits hg.env hcls name.name
          have hfits' := methodCallee?_fits hg'.env hcls name.name
          rw [hc] at hfits hfits'
          generalize S.method? _ name.name = m at hfits hfits'
          cases m with
          | none => exact hfits.elim
          | some m =>
              exact ⟨_, .methodCall hfound hc hl,
                .arguments ha hg hg' ho hfits.params hfits'.params⟩
  | object =>
      cases h with
      | node hw hx hx' ho => exact ⟨_, .object, .node hw hx hx' ho⟩
  | array =>
      cases h with
      | node hw hx hx' ho => exact ⟨_, .array, .node (List.append_subset.1 hw).1 hx hx' ho⟩
  | index =>
      cases h with
      | node hw hx hx' ho =>
          obtain ⟨ha, hi⟩ := List.append_subset.1 hw
          exact ⟨_, .index, .node hi (hx.array ha) (hx'.array ha) ho⟩
  | argument =>
      cases h with
      | arguments hw hx hx' ho hparams hparams' =>
          cases hparams' with
          | cons _ _ =>
              cases hparams with
              | cons _ _ => exact ⟨_, .argument, .node (List.append_subset.1 hw).1 hx hx' ho⟩
  | arguments =>
      cases h with
      | arguments hw hx hx' ho hparams hparams' =>
          obtain ⟨he, hes⟩ := List.append_subset.1 hw
          cases hparams' with
          | cons hT' hTs' =>
              cases hparams with
              | cons hT hTs =>
                  have ho₁ := hx.operand he hT
                  have ho₂ := hx'.operand he hT'
                  exact ⟨_, .arguments, .arguments hes (hx.after ho₁).1 (hx'.after ho₂).1 ho
                    (hTs.imp fun _ _ h => h.mono (hx.within ho₁))
                    (hTs'.imp fun _ _ h => h.mono (hx'.within ho₂))⟩
  | eval =>
      cases h with
      | stmt hw hx hx' ho => exact ⟨_, .eval, .node hw hx hx' ho⟩
  | target =>
      cases h with
      | stmt hw hx hx' ho => exact ⟨_, .target, .node (List.append_subset.1 hw).1 hx hx' ho⟩
  | assigned =>
      cases h with
      | stmt hw hx hx' ho =>
          obtain ⟨hl, he⟩ := List.append_subset.1 hw
          exact ⟨_, .assigned, .node he (hx.after (hx.location hl)).1
            (hx'.after (hx'.location hl)).1 ho⟩
  | condition =>
      cases h with
      | stmt hw hx hx' ho =>
          rw [written_branch] at hw
          exact ⟨_, .condition, .node (List.append_subset.1 hw).1 hx hx' ho⟩
  | onTrue =>
      cases h with
      | stmt hw hx hx' ho =>
          rw [written_branch] at hw
          obtain ⟨hc, hs⟩ := List.append_subset.1 hw
          exact ⟨_, .onTrue, .stmt (List.append_subset.1 hs).1 (hx.condition .branch hc)
            (hx'.condition .branch hc) ho⟩
  | onFalse =>
      cases h with
      | stmt hw hx hx' ho =>
          rw [written_branch] at hw
          obtain ⟨hc, hs⟩ := List.append_subset.1 hw
          obtain ⟨hs, hs'⟩ := List.append_subset.1 hs
          have hg := hx.condition .branch hc
          have hg' := hx'.condition .branch hc
          exact ⟨_, .onFalse, .stmt hs' (hg.after (follows_checkStmt _ hs hg.env hg.scope)).1
            (hg'.after (follows_checkStmt _ hs hg'.env hg'.scope)).1 ho⟩
  | loopCondition =>
      cases h with
      | stmt hw hx hx' ho => exact ⟨_, .loopCondition, .node (List.append_subset.1 hw).1 hx hx' ho⟩
  | loop =>
      cases h with
      | stmt hw hx hx' ho =>
          obtain ⟨hc, hs⟩ := List.append_subset.1 hw
          exact ⟨_, .loop, .stmt hs (hx.condition .loop hc) (hx'.condition .loop hc) ho⟩
  | returned =>
      cases h with
      | stmt hw hx hx' ho => exact ⟨_, .returned, .node hw hx hx' ho⟩
  | block =>
      cases h with
      | stmt hw hx hx' ho => exact ⟨_, .block, .body hw hx hx' ho⟩
  | first =>
      cases h with
      | body hw hx hx' ho => exact ⟨_, .first, .stmt (List.append_subset.1 hw).1 hx hx' ho⟩
  | rest =>
      cases h with
      | body hw hx hx' ho =>
          obtain ⟨hs, hrest⟩ := List.append_subset.1 hw
          obtain ⟨hg, hscope⟩ := hx.after (follows_checkStmt _ hs hx.env hx.scope)
          obtain ⟨hg', hscope'⟩ := hx'.after (follows_checkStmt _ hs hx'.env hx'.scope)
          exact ⟨_, .rest, .body hrest ⟨hg.knows, hg.env, hscope⟩ ⟨hg'.knows, hg'.env, hscope'⟩
            (absorbs_stmt S current _ ho).value⟩

/-- Wherever the second check comes to, the first one comes to it too. -/
theorem Task.Beside.comesTo {x x' y' : Task × Findings} (h : Beside p S current env x x')
    (hc : Task.ComesTo env x' y') : ∃ y, Task.ComesTo env x y ∧ Beside p S current env y y' := by
  induction hc with
  | refl => exact ⟨x, .refl, h⟩
  | tail _ hstep ih =>
      obtain ⟨y, hy, hbeside⟩ := ih
      obtain ⟨z, hz, hbeside⟩ := hbeside.step hstep
      exact ⟨z, hy.tail hz, hbeside⟩

theorem ValueType.eq_any_of_outline {V : ValueType} (h : V.outline = .any) : V = .any := by
  cases V with
  | any => rfl
  | _ => cases h

/-- The second check of a node finds the type that the first one finds, or `any`. -/
theorem Task.Beside.type {n : Node} {x : Task × Findings}
    (h : Beside p S current env x (.node scope' n, f')) : ∃ scope f, x = (.node scope n, f) ∧
      (((n.check env scope').value f').outline = ((n.check env scope).value f).outline ∨
        (n.check env scope').value f' = .any) := by
  cases h with
  | @node _ scope _ f _ _ _ hw hx hx' ho =>
      refine ⟨scope, f, rfl, ?_⟩
      have hvalue := (hx.after (hx.node hw)).2.outline
      have hvalue' := (hx'.after (hx'.node hw)).2.outline
      rcases (absorbs_node S current ho n).value with heq | hany
      · exact .inl (hvalue'.trans (heq.trans hvalue.symm))
      · exact .inr (ValueType.eq_any_of_outline (hvalue'.trans hany))

end sides

end ObjectLang
