import Mathlib.Tactic
import ObjectLang.Proofs.Analysis.Sites
import ObjectLang.Proofs.Analysis.Verdict
import ObjectLang.Proofs.Typing.Written

/-!
# The sites of verdicts

What a verdict reports of a part of a program stands at sites of the nodes in that part, at each of
them at most once; and the sites of the names in written types are still free then. An expression
also leaves the site free at which the statement or the expression around it can report something.
So for each site the reports there are counted against the nodes that have it.
-/
namespace ObjectLang

open Phrase (sitesAt lateConcerns sitesAt_append sitesAt_cons)

/-- The name that a written type ends in. -/
def TypeExpr.names : TypeExpr → List Ident
  | .int _ | .bool _ => []
  | .named _ x => [x]
  | .array _ component => component.names

/-- How often a site is one of the nodes that bodies and members are made of. -/
def lateAt (x : Site) (ns : List Phrase) : Nat :=
  sitesAt lateConcerns x ns

/-- How often an undeclared class can be reported at a site, if it is in some written types. -/
def namedAt (x : Site) (ts : List TypeExpr) : Nat :=
  ((ts.flatMap TypeExpr.names).map fun name => (Concern.reference, some name.span)).count x

section counting

variable (x : Site) (ns ms : List Phrase) (ts us : List TypeExpr)

theorem lateAt_append : lateAt x (ns ++ ms) = lateAt x ns + lateAt x ms :=
  sitesAt_append

theorem lateAt_expr (e : Expr) : lateAt x (.expr e :: ns) =
    Concern.value.at e.span x + Concern.use.at e.span x + lateAt x ns :=
  sitesAt_cons

theorem lateAt_location (l : Location) : lateAt x (.location l :: ns) = lateAt x ns :=
  sitesAt_cons.trans (Nat.zero_add _)

theorem lateAt_name (name : Ident) : lateAt x (.name name :: ns) =
    Concern.reference.at name.span x + Concern.arity.at name.span x + lateAt x ns :=
  sitesAt_cons

theorem lateAt_type (t : TypeExpr) :
    lateAt x (.type t :: ns) = Concern.result.at t.span x + lateAt x ns :=
  sitesAt_cons

theorem lateAt_decl (d : VarDecl) : lateAt x (.decl d :: ns) = lateAt x ns :=
  sitesAt_cons.trans (Nat.zero_add _)

theorem lateAt_param (d : VarDecl) :
    lateAt x (.param d :: ns) = Concern.parameter.at d.span x + lateAt x ns :=
  sitesAt_cons

theorem lateAt_stmt (s : Stmt) :
    lateAt x (.stmt s :: ns) = Concern.returned.at s.span x + lateAt x ns :=
  sitesAt_cons

theorem lateAt_body (span : Span) (body : List Stmt) :
    lateAt x (.body span body :: ns) = lateAt x ns :=
  sitesAt_cons.trans (Nat.zero_add _)

theorem lateAt_function (f : FunctionDecl) : lateAt x (.function f :: ns) = lateAt x ns :=
  sitesAt_cons.trans (Nat.zero_add _)

theorem lateAt_cls (c : ClassDecl) : lateAt x (.cls c :: ns) = lateAt x ns :=
  sitesAt_cons.trans (Nat.zero_add _)

theorem lateAt_flatMap {α : Type} (k : α → List Phrase) (l : List α) :
    lateAt x (l.flatMap k) = (l.map fun a => lateAt x (k a)).sum :=
  Phrase.sitesAt_flatMap

theorem namedAt_flatMap {α : Type} (k : α → List TypeExpr) (l : List α) :
    namedAt x (l.flatMap k) = (l.map fun a => namedAt x (k a)).sum := by
  rw [namedAt, List.flatMap_assoc, List.map_flatMap, List.count_flatMap]
  rfl

theorem namedAt_map {α : Type} (t : α → TypeExpr) (l : List α) :
    namedAt x (l.map t) = (l.map fun a => namedAt x [t a]).sum := by
  rw [List.map_eq_flatMap, namedAt_flatMap]

theorem namedAt_nil : namedAt x [] = 0 :=
  rfl

theorem namedAt_append : namedAt x (ts ++ us) = namedAt x ts + namedAt x us := by
  simp [namedAt]

theorem namedAt_cons (t : TypeExpr) : namedAt x (t :: ts) = namedAt x [t] + namedAt x ts :=
  namedAt_append x [t] ts

/-- The sites of the name in a written type are among those in it. -/
theorem TypeExpr.namedAt_le (t : TypeExpr) : namedAt x [t] ≤ lateAt x t.inside := by
  induction t with
  | int | bool => exact Nat.le_refl _
  | named _ name =>
      rw [TypeExpr.inside, lateAt_name, Nat.add_assoc]
      exact Nat.le_add_right _ _
  | array _ component ih =>
      rw [TypeExpr.inside, lateAt_type]
      exact ih.trans (Nat.le_add_left ..)

/-- The sites of the names in a declaration. -/
theorem VarDecl.namedAt_le (d : VarDecl) :
    Concern.reference.at d.name.span x + namedAt x [d.type] ≤ lateAt x d.inside := by
  have := d.type.namedAt_le x
  rw [VarDecl.inside, lateAt_type, lateAt_append, lateAt_name]
  omega

end counting

/-- The sites of the reports among some events. -/
def Event.site? : Event → Option Site
  | .report d => some d.site
  | .resolve _ => none

namespace Verdict

variable {α β : Type} (x : Site)

/-- How often a verdict reports something at a site. -/
def hits (v : Verdict α) : Nat :=
  (v.events.filterMap Event.site?).count x

@[simp]
theorem hits_pure (a : α) : (pure a : Verdict α).hits x = 0 :=
  rfl

@[simp]
theorem hits_bind (v : Verdict α) (k : α → Verdict β) :
    (v >>= k).hits x = v.hits x + (k v.value).hits x := by
  simp [hits]

@[simp]
theorem hits_map (f : α → β) (v : Verdict α) : (f <$> v).hits x = v.hits x := by
  simp [← bind_pure_comp]

theorem hits_report (d : Diagnostic) : (report d).hits x = [d.site].count x :=
  rfl

theorem hits_reporting (d : Diagnostic) (a : α) :
    (do report d; return a : Verdict α).hits x = [d.site].count x := by
  simp [hits_report]

theorem hits_require (condition : Bool) (d : Diagnostic) :
    (require condition d).hits x ≤ [d.site].count x := by
  cases condition with
  | true => exact Nat.zero_le _
  | false => exact Nat.le_refl _

theorem hits_elim {n : Nat} {o : Option α} {v : Verdict β} {k : α → Verdict β}
    (hv : v.hits x ≤ n) (hk : ∀ a, (k a).hits x ≤ n) : (o.elim v k).hits x ≤ n := by
  cases o with
  | none => exact hv
  | some a => exact hk a

theorem hits_mapM (k : α → Verdict β) (l : List α) :
    (l.mapM k).hits x = (l.map fun a => (k a).hits x).sum := by
  induction l with
  | nil => rfl
  | cons a l ih => simp [ih]

theorem hits_forM (k : α → Verdict PUnit) (l : List α) :
    (l.forM k).hits x = (l.map fun a => (k a).hits x).sum := by
  induction l with
  | nil => rfl
  | cons a l ih =>
      rw [List.map_cons, List.sum_cons, ← ih]
      exact hits_bind ..

/-- What is done in turn for some members reports no more than what is counted for each. -/
theorem hits_foldlM {k : β → α → Verdict β} {n : α → Nat} (hk : ∀ b a, (k b a).hits x ≤ n a)
    (l : List α) (b : β) : (l.foldlM k b).hits x ≤ (l.map n).sum := by
  induction l generalizing b with
  | nil => exact Nat.le_refl _
  | cons a l ih =>
      rw [List.foldlM_cons, hits_bind, List.map_cons, List.sum_cons]
      exact Nat.add_le_add (hk b a) (ih _)

end Verdict

namespace Setting

variable (S : Setting) (current : Option String) (o : ScopeOutline) (x : Site)

@[simp]
theorem hits_resolve (t : TypeExpr) : (S.resolve t).hits x = 0 :=
  rfl

theorem hits_requireArray (found : Outline) (span : Span) :
    (requireArray found span).hits x ≤ Concern.use.at span x := by
  unfold requireArray
  split
  · exact Nat.zero_le _
  · exact Nat.zero_le _
  · exact (Verdict.hits_reporting ..).le

theorem hits_requireObject (found : Outline) (span : Span) :
    (requireObject found span).hits x ≤ Concern.use.at span x := by
  unfold requireObject
  split
  · exact Nat.zero_le _
  · exact Nat.zero_le _
  · exact (Verdict.hits_reporting ..).le

theorem hits_field (cls name : String) (unknown : Diagnostic) :
    (S.field cls name unknown).hits x ≤ [unknown.site].count x := by
  unfold field
  split
  · exact Nat.zero_le _
  · exact (Verdict.hits_reporting ..).le

theorem hits_typeOfVariable (name : Ident) :
    (S.typeOfVariable current o name).hits x ≤ Concern.reference.at name.span x := by
  unfold typeOfVariable
  simp only
  split
  · exact Nat.zero_le _
  · split
    · exact S.hits_field ..
    · exact (Verdict.hits_reporting ..).le

theorem hits_newObject (name : Ident) :
    (S.newObject name).hits x ≤ Concern.reference.at name.span x := by
  unfold newObject
  split_ifs
  · exact Nat.zero_le _
  · exact (Verdict.hits_reporting ..).le

theorem hits_callee? (name : Ident) :
    (S.callee? current name).hits x ≤ Concern.reference.at name.span x := by
  unfold callee?
  split
  · exact Nat.zero_le _
  · split
    · exact Nat.zero_le _
    · simp [Verdict.hits_mapM]
    · exact (Verdict.hits_reporting ..).le

theorem hits_operand (expected : Outline) (v : Verdict Outline) (span : Span) :
    (S.operand expected v span).hits x ≤ v.hits x + Concern.use.at span x := by
  rw [operand, Verdict.hits_bind]
  exact Nat.add_le_add_left (Verdict.hits_require ..) _

theorem hits_comparison (v w : Verdict Outline) (span : Span) :
    (S.comparison v w span).hits x ≤ v.hits x + w.hits x + Concern.value.at span x := by
  rw [comparison, Verdict.hits_bind, Verdict.hits_bind, Nat.add_assoc]
  exact Nat.add_le_add_left (Nat.add_le_add_left (Verdict.hits_require ..) _) _

variable {n : Nat} {args : List Outline → Verdict Unit}

theorem hits_applied (hargs : ∀ params, (args params).hits x ≤ n) (count : Nat) (span : Span)
    (callee : MethodOutline) :
    (applied args count span callee).hits x ≤ n + Concern.value.at span x := by
  have harity : (arity callee.params.length count span).hits x ≤ Concern.value.at span x := by
    unfold arity
    split_ifs
    · exact (Verdict.hits_reporting ..).le
    · exact (Verdict.hits_reporting ..).le
    · exact Nat.zero_le _
  have happlied : (if (arity callee.params.length count span).value = true then args callee.params
      else pure ()).hits x ≤ n := by
    split_ifs
    · exact hargs _
    · exact Nat.zero_le _
  rw [applied, Verdict.hits_bind, Verdict.hits_bind, Verdict.hits_pure]
  omega

theorem hits_methodApplied (hargs : ∀ params, (args params).hits x ≤ n) (count : Nat) (span : Span)
    (name : Ident) (cls : String) : (S.methodApplied args count span name cls).hits x ≤
      n + Concern.value.at span x + Concern.reference.at name.span x := by
  refine Verdict.hits_elim x ?_ fun callee => ?_
  · exact (Verdict.hits_reporting ..).le.trans (Nat.le_add_left ..)
  · exact (hits_applied x hargs ..).trans (Nat.le_add_right ..)

end Setting

section expressions

variable (S : Setting) (current : Option String) (o : ScopeOutline) (x : Site)

-- The induction is on the tree. What an expression reports about itself is counted beside the nodes
-- inside of it, so that the concern `use` at its span stays free for what it is an operand of.
mutual

/-- What an expression reports, apart from what is reported about it from around it. -/
theorem Expr.hits_verdict : ∀ e : Expr, (e.verdict S current o).hits x + namedAt x e.written ≤
    Concern.value.at e.span x + lateAt x e.inside
  | .unary _ op operand => by
      have := Expr.hits_verdict operand
      have := S.hits_operand x (unaryType op).outline (operand.verdict S current o) operand.span
      rw [Expr.verdict, Verdict.hits_bind, Verdict.hits_pure, Expr.written, Expr.inside,
        lateAt_expr]
      omega
  | .binary tag op left right => by
      have := Expr.hits_verdict left
      have := Expr.hits_verdict right
      rw [Expr.verdict, Expr.written, Expr.inside, lateAt_expr, lateAt_append, lateAt_expr,
        namedAt_append]
      split_ifs
      · have := S.hits_comparison x (left.verdict S current o) (right.verdict S current o) tag.span
        rw [Verdict.hits_bind, Verdict.hits_pure, Expr.span, Expr.tag]
        omega
      · have := S.hits_operand x (operandType op).outline (left.verdict S current o) left.span
        have := S.hits_operand x (operandType op).outline (right.verdict S current o) right.span
        rw [Verdict.hits_bind, Verdict.hits_bind, Verdict.hits_pure]
        omega
  | .number _ _ | .bool _ _ | .null _ => Nat.zero_le _
  | .this tag => by
      cases current with
      | some cls => exact Nat.zero_le _
      | none => exact Nat.le_refl _
  | .read _ location => by
      have := Location.hits_verdict location
      rw [Expr.verdict, Expr.written, Expr.inside, lateAt_location]
      omega
  | .arrayLength _ array => by
      have := Expr.hits_verdict array
      have := Setting.hits_requireArray x (array.verdict S current o).value array.span
      rw [Expr.verdict, Verdict.hits_bind, Verdict.hits_bind, Verdict.hits_pure, Expr.written,
        Expr.inside, lateAt_expr]
      omega
  | .newObject _ cls => by
      have := S.hits_newObject x cls
      rw [Expr.verdict, Expr.written, Expr.inside, lateAt_name, namedAt_nil]
      omega
  | .newArray _ element size => by
      have := Expr.hits_verdict size
      have := S.hits_operand x .int (size.verdict S current o) size.span
      have := element.namedAt_le x
      rw [Expr.verdict, Verdict.hits_bind, Verdict.hits_bind, Verdict.hits_pure,
        Setting.hits_resolve, Expr.written, Expr.inside, namedAt_cons, lateAt_type, lateAt_append,
        lateAt_expr]
      omega
  | .call tag name args => by
      have hargs := fun params => Nat.le_sub_of_add_le (hits_verdictOfArguments args params)
      have := S.hits_callee? current x name
      have := Verdict.hits_elim x (v := pure .any) (o := (S.callee? current name).value)
        (Nat.zero_le _) (Setting.hits_applied x hargs args.length tag.span)
      have := hits_verdictOfArguments args []
      rw [Expr.verdict, Verdict.hits_bind, Expr.written, Expr.inside, lateAt_name, Expr.span,
        Expr.tag]
      omega
  | .methodCall tag receiver name args => by
      have hargs := fun params => Nat.le_sub_of_add_le (hits_verdictOfArguments args params)
      have := Expr.hits_verdict receiver
      have := Setting.hits_requireObject x (receiver.verdict S current o).value receiver.span
      have := Verdict.hits_elim x (v := pure .any)
        (o := (Setting.requireObject (receiver.verdict S current o).value receiver.span).value)
        (Nat.zero_le _) (S.hits_methodApplied x hargs args.length tag.span name)
      have := hits_verdictOfArguments args []
      rw [Expr.verdict, Verdict.hits_bind, Verdict.hits_bind, Expr.written, Expr.inside,
        namedAt_append, lateAt_expr, lateAt_append, lateAt_name]
      change _ ≤ Concern.value.at tag.span x + _
      omega
termination_by structural e => e

theorem Location.hits_verdict : ∀ l : Location,
    (l.verdict S current o).hits x + namedAt x l.written ≤ lateAt x l.inside
  | .var _ name => by
      have := S.hits_typeOfVariable current o x name
      rw [Location.verdict, Location.written, Location.inside, lateAt_name]
      exact (this.trans (Nat.le_add_right ..)).trans (Nat.le_add_right ..)
  | .field _ receiver name => by
      have := Expr.hits_verdict receiver
      have := Setting.hits_requireObject x (receiver.verdict S current o).value receiver.span
      have := Verdict.hits_elim x (v := pure Outline.any) (n := Concern.reference.at name.span x)
        (o := (Setting.requireObject (receiver.verdict S current o).value receiver.span).value)
        (k := fun cls => S.field cls name.name (.unknownField name.name cls name.span))
        (Nat.zero_le _) fun cls => S.hits_field x ..
      rw [Location.verdict, Verdict.hits_bind, Verdict.hits_bind, Location.written,
        Location.inside, lateAt_expr, lateAt_append, lateAt_name]
      omega
  | .index _ array index => by
      have := Expr.hits_verdict array
      have := Setting.hits_requireArray x (array.verdict S current o).value array.span
      have := Expr.hits_verdict index
      have := S.hits_operand x .int (index.verdict S current o) index.span
      rw [Location.verdict, Verdict.hits_bind, Verdict.hits_bind, Verdict.hits_bind,
        Verdict.hits_pure, Location.written, Location.inside, namedAt_append, lateAt_expr,
        lateAt_append, lateAt_expr]
      omega
termination_by structural l => l

theorem hits_verdictOfArguments : ∀ (args : List Expr) (params : List Outline),
    (verdictOfArguments S current o args params).hits x + namedAt x (writtenInArguments args) ≤
      lateAt x (insideArguments args)
  | [], _ => Nat.le_refl _
  | e :: es, params => by
      have := Expr.hits_verdict e
      rw [writtenInArguments, insideArguments, namedAt_append, lateAt_expr, lateAt_append]
      cases params with
      | nil =>
          have := hits_verdictOfArguments es []
          rw [verdictOfArguments, Verdict.hits_pure]
          omega
      | cons param params =>
          have := hits_verdictOfArguments es params
          have := S.hits_operand x param (e.verdict S current o) e.span
          rw [verdictOfArguments, Verdict.hits_bind]
          omega
termination_by structural args => args

end

end expressions

section statements

variable (S : Setting) (current : Option String) (x : Site)

namespace Setting

theorem hits_declaration (o : ScopeOutline) (d : VarDecl) :
    (S.declaration o d).hits x ≤ Concern.reference.at d.name.span x := by
  rw [declaration, Verdict.hits_bind, Verdict.hits_bind, hits_resolve, Verdict.hits_pure]
  exact Verdict.hits_require ..

theorem hits_assignment (o : ScopeOutline) (target : Location) (value : Expr) :
    (S.assignment current o target value).hits x ≤ (target.verdict S current o).hits x +
      (value.verdict S current o).hits x + Concern.use.at value.span x := by
  rw [assignment, Verdict.hits_bind, Verdict.hits_bind, ← Nat.add_assoc]
  exact Nat.add_le_add_left (Verdict.hits_require ..) _

theorem hits_condition (o : ScopeOutline) (construct : Conditional) (e : Expr) :
    (S.condition current o construct e).hits x ≤
      (e.verdict S current o).hits x + Concern.use.at e.span x := by
  rw [condition, Verdict.hits_bind]
  exact Nat.add_le_add_left (Verdict.hits_require ..) _

theorem hits_returns (o : ScopeOutline) (span : Span) (value : Expr) :
    (S.returns current o span value).hits x ≤
      (value.verdict S current o).hits x + Concern.returned.at span x := by
  rw [returns, Verdict.hits_bind]
  exact Nat.add_le_add_left (Verdict.hits_require ..) _

end Setting

mutual

theorem Stmt.hits_verdict : ∀ (s : Stmt) (o : ScopeOutline),
    (s.verdict S current o).hits x + namedAt x s.written ≤
      Concern.returned.at s.span x + lateAt x s.inside
  | .declare d, o => by
      have := S.hits_declaration x o d
      have := d.namedAt_le x
      rw [Stmt.verdict, Stmt.written, Stmt.inside, lateAt_decl]
      omega
  | .eval value, o => by
      have := value.hits_verdict S current o x
      rw [Stmt.verdict, Verdict.hits_bind, Verdict.hits_pure, Stmt.written, Stmt.inside,
        lateAt_expr]
      omega
  | .assign _ target value, o => by
      have := target.hits_verdict S current o x
      have := value.hits_verdict S current o x
      have := S.hits_assignment current x o target value
      rw [Stmt.verdict, Verdict.hits_bind, Verdict.hits_pure, Stmt.written, Stmt.inside,
        namedAt_append, lateAt_location, lateAt_append, lateAt_expr]
      omega
  | .branch _ condition onTrue none, o => by
      have := condition.hits_verdict S current o x
      have := S.hits_condition current x o .branch condition
      have := Stmt.hits_verdict onTrue o
      rw [Stmt.verdict, Verdict.hits_bind, Verdict.hits_bind, Verdict.hits_pure, Stmt.written,
        Stmt.inside, namedAt_append, lateAt_expr, lateAt_append, lateAt_stmt]
      omega
  | .branch _ condition onTrue (some onFalse), o => by
      have := condition.hits_verdict S current o x
      have := S.hits_condition current x o .branch condition
      have := Stmt.hits_verdict onTrue o
      have := Stmt.hits_verdict onFalse o
      rw [Stmt.verdict, Verdict.hits_bind, Verdict.hits_bind, Verdict.hits_bind, Verdict.hits_pure,
        Stmt.written, Stmt.inside, namedAt_append, namedAt_append, lateAt_expr, lateAt_append,
        lateAt_stmt, lateAt_append, lateAt_stmt]
      omega
  | .loop _ condition body, o => by
      have := condition.hits_verdict S current o x
      have := S.hits_condition current x o .loop condition
      have := Stmt.hits_verdict body o
      rw [Stmt.verdict, Verdict.hits_bind, Verdict.hits_bind, Verdict.hits_pure, Stmt.written,
        Stmt.inside, namedAt_append, lateAt_expr, lateAt_append, lateAt_stmt]
      omega
  | .return span value, o => by
      have := value.hits_verdict S current o x
      have := S.hits_returns current x o span value
      rw [Stmt.verdict, Verdict.hits_bind, Verdict.hits_pure, Stmt.written, Stmt.inside,
        lateAt_expr]
      change _ ≤ Concern.returned.at span x + _
      omega
  | .block _ body, o => by
      have := hits_verdictOfBody body o
      rw [Stmt.verdict, Verdict.hits_bind, Verdict.hits_pure, Stmt.written, Stmt.inside,
        lateAt_body]
      omega
termination_by structural s => s

theorem hits_verdictOfBody : ∀ (body : List Stmt) (o : ScopeOutline),
    (verdictOfBody S current o body).hits x + namedAt x (writtenInBody body) ≤
      lateAt x (insideBody body)
  | [], _ => Nat.le_refl _
  | s :: rest, o => by
      have := Stmt.hits_verdict s o
      have := hits_verdictOfBody rest (s.verdict S current o).value
      rw [verdictOfBody, Verdict.hits_bind, writtenInBody, insideBody, namedAt_append, lateAt_stmt,
        lateAt_append]
      omega
termination_by structural body => body

end

end statements

end ObjectLang
