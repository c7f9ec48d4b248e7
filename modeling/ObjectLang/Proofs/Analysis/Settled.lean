import ObjectLang.Proofs.Analysis.Visits

/-!
# What is found out of a node stays

When the analysis of an accepted program comes to a node, nothing is reported, all that is found out
stays known, and what is noted of the node at the end is what the rules say. This holds of a body
when its check begins, and of every part of the check if it holds of what the part belongs to.
-/
namespace ObjectLang

namespace Check

open Findings

variable {α β : Type}

/-- Nothing is reported, and what is found out is known at the end. -/
structure Quiet (Φ : Findings) (m : Check α) (f : Findings) : Prop where
  silent : Silent m f
  kept : (m.after f).Kept Φ

section

variable {Φ f : Findings} {m : Check α} {k : α → Check β} [Adds m] [∀ a, Adds (k a)]

theorem Quiet.first [∀ a, Keeps (k a)] (h : Quiet Φ (m >>= k) f) : Quiet Φ m f :=
  ⟨((silent_bind m k f).1 h.silent).1, (Keeps.bind .rfl).trans h.kept⟩

theorem Quiet.second (h : Quiet Φ (m >>= k) f) : Quiet Φ (k (m.value f)) (m.after f) :=
  ⟨((silent_bind m k f).1 h.silent).2, h.kept⟩

theorem Quiet.unnoted {id : Nat} {m : Check ValueType} [Adds m] (h : Quiet Φ (noting id m) f) :
    Quiet Φ m f :=
  Quiet.first (k := fun type => do noteType id type; pure type) h

end

/-- A part of the analysis does what it should do at its place, and what it notes stays. -/
structure Fine (Φ : Findings) (Γ : Context) (env : Surroundings) (scope : Scope) (m : Check α)
    (ids : List Nat) (written : List TypeExpr) (recorded : Prop) (f : Findings) : Prop where
  ready : Ready Γ env scope f
  quiet : Quiet Φ m f
  ids : ids.Nodup
  written : ∀ t ∈ written, t ∈ Γ.program.typeExprs
  recorded : recorded

section

variable (Φ : Findings) (Γ : Context) (env : Surroundings) (scope : Scope) (f : Findings)

def ExprFine (e : Expr) : Prop :=
  Fine Φ Γ env scope (checkExpr env scope e) e.ids e.written (e.Recorded Φ.arrays Φ.notes Γ) f

def LocationFine (l : Location) : Prop :=
  Fine Φ Γ env scope (checkLocation env scope l) l.ids l.written
    (l.Recorded Φ.arrays Φ.notes Γ) f

/-- Arguments are checked against as many types, which mean something. -/
structure ArgumentsFine (es : List Expr) (Ts : List ValueType) : Prop where
  fine : Fine Φ Γ env scope (checkArguments env scope es Ts) (idsOfArguments es)
    (writtenInArguments es) (ArgumentsRecorded Φ.arrays Φ.notes Γ es) f
  length : es.length = Ts.length
  denote : ∃ us, List.Forall₂ (ValueType.Denotes Γ.program f.arrays) Ts us

structure StmtFine (s : Stmt) : Prop where
  fine : Fine Φ Γ env scope (checkStmt env scope s) s.ids s.written
    (s.Recorded Φ.arrays Φ.notes Γ) f
  returnType : ∃ r, scope.returnType.Denotes Γ.program f.arrays r

structure BodyFine (body : List Stmt) : Prop where
  fine : Fine Φ Γ env scope (checkBlock env scope body) (idsOfBody body) (writtenInBody body)
    (BodyRecorded Φ.arrays Φ.notes Γ body) f
  returnType : ∃ r, scope.returnType.Denotes Γ.program f.arrays r

end

section

variable {Φ f : Findings} {Γ : Context} {env : Surroundings} {scope : Scope}

/-- An operand is fine if its check is silent where it is asked to be of a type. -/
theorem Quiet.operand {T : ValueType} {e : Expr} {complaint : ValueType → Diagnostic}
    (h : Quiet Φ (operandOf env scope T e complaint) f) : Quiet Φ (checkExpr env scope e) f :=
  h.first

theorem Quiet.object {e : Expr} (h : Quiet Φ (objectOf env scope e) f) :
    Quiet Φ (checkExpr env scope e) f :=
  h.first

variable (hh : Γ.program.Hierarchy) (hp : Γ.program.ids.Nodup)
include hh hp

theorem ready_checkExpr (hr : Ready Γ env scope f) {e : Expr} (hids : e.ids.Nodup)
    (hw : ∀ t ∈ e.written, t ∈ Γ.program.typeExprs) (h : Silent (checkExpr env scope e) f) :
    Ready Γ env scope ((checkExpr env scope e).after f) :=
  hr.grow ((decided_expr hh hp env scope hids hw f hr).sound h).grows

theorem ready_checkLocation (hr : Ready Γ env scope f) {l : Location} (hids : l.ids.Nodup)
    (hw : ∀ t ∈ l.written, t ∈ Γ.program.typeExprs) (h : Silent (checkLocation env scope l) f) :
    Ready Γ env scope ((checkLocation env scope l).after f) :=
  hr.grow ((decided_location hh hp env scope hids hw f hr).sound h).grows

theorem ready_operandOf (hr : Ready Γ env scope f) {e : Expr} (hids : e.ids.Nodup)
    (hw : ∀ t ∈ e.written, t ∈ Γ.program.typeExprs) {T : ValueType}
    {complaint : ValueType → Diagnostic} (h : Silent (operandOf env scope T e complaint) f) :
    Ready Γ env scope ((operandOf env scope T e complaint).after f) := by
  obtain ⟨h, h'⟩ := (silent_bind _ _ f).1 h
  have hafter : (operandOf env scope T e complaint).after f = (checkExpr env scope e).after f :=
    after_require_of_silent h'
  rw [hafter]
  exact ready_checkExpr hh hp hr hids hw h

variable {tag : Tag}

omit hh hp in
theorem fine_operand {op : UnaryOp} {e : Expr} (h : ExprFine Φ Γ env scope f (.unary tag op e)) :
    ExprFine Φ Γ env scope f e := by
  obtain ⟨hr, hq, hids, hw, hrec⟩ := h
  rw [checkExpr_unary] at hq
  exact ⟨hr, hq.unnoted.first.operand, (List.nodup_cons.1 hids).2, hw, hrec.2⟩

omit hh hp in
theorem fine_left {op : BinaryOp} {l r : Expr}
    (h : ExprFine Φ Γ env scope f (.binary tag op l r)) : ExprFine Φ Γ env scope f l := by
  obtain ⟨hr, hq, hids, hw, hrec⟩ := h
  obtain ⟨hl, _, _⟩ := List.nodup_append'.1 (List.nodup_cons.1 hids).2
  rw [Expr.written, List.forall_mem_append] at hw
  refine ⟨hr, ?_, hl, hw.1, hrec.2.1⟩
  by_cases hop : op = .equal
  · subst hop
    rw [checkExpr_equal] at hq
    exact hq.unnoted.first
  · rw [checkExpr_binary hop] at hq
    exact hq.unnoted.first.operand

theorem fine_right {op : BinaryOp} {l r : Expr} (hop : op ≠ .equal)
    (h : ExprFine Φ Γ env scope f (.binary tag op l r)) : ExprFine Φ Γ env scope
      ((operandOf env scope (operandType op) l (mismatch (operandType op) l)).after f) r := by
  obtain ⟨hr, hq, hids, hw, hrec⟩ := h
  obtain ⟨hl, hright, _⟩ := List.nodup_append'.1 (List.nodup_cons.1 hids).2
  rw [Expr.written, List.forall_mem_append] at hw
  rw [checkExpr_binary hop] at hq
  have hq := hq.unnoted
  exact ⟨ready_operandOf hh hp hr hl hw.1 hq.first.silent, hq.second.first.operand, hright, hw.2,
    hrec.2.2⟩

theorem fine_rightOfEqual {l r : Expr} (h : ExprFine Φ Γ env scope f (.binary tag .equal l r)) :
    ExprFine Φ Γ env scope ((checkExpr env scope l).after f) r := by
  obtain ⟨hr, hq, hids, hw, hrec⟩ := h
  obtain ⟨hl, hright, _⟩ := List.nodup_append'.1 (List.nodup_cons.1 hids).2
  rw [Expr.written, List.forall_mem_append] at hw
  rw [checkExpr_equal] at hq
  have hq := hq.unnoted
  exact ⟨ready_checkExpr hh hp hr hl hw.1 hq.first.silent, hq.second.first, hright, hw.2,
    hrec.2.2⟩

omit hh hp in
theorem fine_read {l : Location} (h : ExprFine Φ Γ env scope f (.read tag l)) :
    LocationFine Φ Γ env scope f l := by
  obtain ⟨hr, hq, hids, hw, hrec⟩ := h
  rw [checkExpr_read] at hq
  exact ⟨hr, hq.unnoted, (List.nodup_cons.1 hids).2, hw, hrec.2⟩

omit hh hp in
theorem fine_arrayLength {array : Expr} (h : ExprFine Φ Γ env scope f (.arrayLength tag array)) :
    ExprFine Φ Γ env scope f array := by
  obtain ⟨hr, hq, hids, hw, hrec⟩ := h
  rw [checkExpr_arrayLength] at hq
  exact ⟨hr, hq.unnoted.first, (List.nodup_cons.1 hids).2, hw, hrec.2⟩

omit hh hp in
theorem fine_size {element : TypeExpr} {size : Expr}
    (h : ExprFine Φ Γ env scope f (.newArray tag element size)) :
    ExprFine Φ Γ env scope f size := by
  obtain ⟨hr, hq, hids, hw, hrec⟩ := h
  obtain ⟨_, hsize, _⟩ := List.nodup_append'.1 (List.nodup_cons.1 hids).2
  rw [Expr.written, List.forall_mem_cons] at hw
  rw [checkExpr_newArray] at hq
  exact ⟨hr, hq.unnoted.first.operand, hsize, hw.2, hrec.2⟩

omit hh hp in
/-- The arguments of a call that fits are checked next. -/
theorem quiet_arguments {args : List Expr} {c : Callee}
    (h : Quiet Φ (applied env scope tag args c) f) : args.length = c.params.length ∧
      Quiet Φ (checkArguments env scope args c.params) f := by
  have hl : args.length = c.params.length := silent_checkArity.1 h.first.silent
  refine ⟨hl, ?_⟩
  rw [applied, hl, checkArity_eq, pure_bind, if_pos rfl] at h
  exact h.first

theorem fine_call {name : Ident} {args : List Expr}
    (h : ExprFine Φ Γ env scope f (.call tag name args)) :
    ∃ c, (callee? env name).value f = some c ∧
      ArgumentsFine Φ Γ env scope ((callee? env name).after f) args c.params := by
  obtain ⟨hr, hq, hids, hw, hrec⟩ := h
  rw [checkExpr_call] at hq
  have hq := hq.unnoted
  obtain ⟨c, c', hc, _, hstands, hg⟩ := (callee?_spec hh hp hr name).1 hq.first.silent
  have hcall := hq.second
  rw [hc] at hcall
  obtain ⟨hl, hargs⟩ := quiet_arguments hcall
  exact ⟨c, hc, ⟨hr.grow hg, hargs, (List.nodup_cons.1 hids).2, hw, hrec.2.2⟩, hl, _,
    hstands.params⟩

omit hh hp in
theorem fine_receiver {receiver : Expr} {name : Ident} {args : List Expr}
    (h : ExprFine Φ Γ env scope f (.methodCall tag receiver name args)) :
    ExprFine Φ Γ env scope f receiver := by
  obtain ⟨hr, hq, hids, hw, hrec⟩ := h
  obtain ⟨hreceiver, _, _⟩ := List.nodup_append'.1 (List.nodup_cons.1 hids).2
  rw [Expr.written, List.forall_mem_append] at hw
  rw [checkExpr_methodCall] at hq
  exact ⟨hr, hq.unnoted.first.object, hreceiver, hw.1, hrec.2.2.1⟩

theorem fine_methodCall {receiver : Expr} {name : Ident} {args : List Expr}
    (h : ExprFine Φ Γ env scope f (.methodCall tag receiver name args)) :
    ∃ cls c, (objectOf env scope receiver).value f = some cls ∧
      methodCallee? env cls name.name = some c ∧
      ArgumentsFine Φ Γ env scope ((objectOf env scope receiver).after f) args c.params := by
  obtain ⟨hr, hq, hids, hw, hrec⟩ := h
  obtain ⟨hreceiver, hargs, _⟩ := List.nodup_append'.1 (List.nodup_cons.1 hids).2
  rw [Expr.written, List.forall_mem_append] at hw
  rw [checkExpr_methodCall] at hq
  have hq := hq.unnoted
  obtain ⟨cls, hv, hcls, _, _, hg⟩ :=
    (objectOf_spec (decided_expr hh hp env scope hreceiver hw.1) hr).1 hq.first.silent
  have hcall := hq.second
  rw [hv, Option.elim, methodApplied] at hcall
  have hfound := rel_methodCallee? hh (hr.grow hg) hcls name.name
  generalize hm : methodCallee? env cls name.name = found,
    Γ.method? cls.name name.name = found' at hfound hcall
  cases hfound with
  | none => exact (not_silent_report _ _ hcall.first.silent).elim
  | some hc =>
      obtain ⟨hl, hq⟩ := quiet_arguments hcall
      exact ⟨cls, _, hv, hm, ⟨hr.grow hg, hq, hargs, hw.2, hrec.2.2.2⟩, hl, _, hc.params⟩

omit hh hp in
theorem fine_object {receiver : Expr} {name : Ident}
    (h : LocationFine Φ Γ env scope f (.field tag receiver name)) :
    ExprFine Φ Γ env scope f receiver := by
  obtain ⟨hr, hq, hids, hw, hrec⟩ := h
  rw [checkLocation_field] at hq
  exact ⟨hr, hq.unnoted.first.object, (List.nodup_cons.1 hids).2, hw, hrec.2.2⟩

omit hh hp in
theorem fine_array {array index : Expr}
    (h : LocationFine Φ Γ env scope f (.index tag array index)) :
    ExprFine Φ Γ env scope f array := by
  obtain ⟨hr, hq, hids, hw, hrec⟩ := h
  obtain ⟨ha, _, _⟩ := List.nodup_append'.1 (List.nodup_cons.1 hids).2
  rw [Location.written, List.forall_mem_append] at hw
  rw [checkLocation_index] at hq
  exact ⟨hr, hq.unnoted.first, ha, hw.1, hrec.2.1⟩

theorem fine_index {array index : Expr}
    (h : LocationFine Φ Γ env scope f (.index tag array index)) : ExprFine Φ Γ env scope
      ((do requireArray (← checkExpr env scope array) array.span : Check ValueType).after f)
      index := by
  obtain ⟨hr, hq, hids, hw, hrec⟩ := h
  obtain ⟨ha, hi, _⟩ := List.nodup_append'.1 (List.nodup_cons.1 hids).2
  rw [Location.written, List.forall_mem_append] at hw
  rw [checkLocation_index] at hq
  have hq := hq.unnoted
  have hready := ready_checkExpr hh hp hr ha hw.1 hq.first.silent
  refine ⟨?_, hq.second.second.first.operand, hi, hw.2, hrec.2.2⟩
  rw [after_bind, after_requireArray hq.second.first.silent]
  exact hready

omit hh hp in
theorem fine_argument {e : Expr} {es : List Expr} {T : ValueType} {Ts : List ValueType}
    (h : ArgumentsFine Φ Γ env scope f (e :: es) (T :: Ts)) : ExprFine Φ Γ env scope f e := by
  obtain ⟨⟨hr, hq, hids, hw, hrec⟩, _, _⟩ := h
  rw [writtenInArguments, List.forall_mem_append] at hw
  rw [checkArguments_cons] at hq
  exact ⟨hr, hq.first.operand, (List.nodup_append'.1 hids).1, hw.1, hrec.1⟩

theorem fine_arguments {e : Expr} {es : List Expr} {T : ValueType} {Ts : List ValueType}
    (h : ArgumentsFine Φ Γ env scope f (e :: es) (T :: Ts)) : ArgumentsFine Φ Γ env scope
      ((operandOf env scope T e (mismatch T e)).after f) es Ts := by
  obtain ⟨⟨hr, hq, hids, hw, hrec⟩, hl, us, hus⟩ := h
  obtain ⟨he, hes, _⟩ := List.nodup_append'.1 hids
  rw [writtenInArguments, List.forall_mem_append] at hw
  rw [checkArguments_cons] at hq
  cases hus with
  | cons hT hTs =>
      have hg := ((operandOf_spec hh (decided_expr hh hp env scope he hw.1) hr hT
        (mismatch T e)).1 hq.first.silent).grows
      exact ⟨⟨hr.grow hg, hq.second, hes, hw.2, hrec.2⟩, by simpa using hl, _,
        hTs.imp fun _ _ hd => hd.mono hg.arrays⟩

theorem stmtTypes {s : Stmt} (h : StmtFine Φ Γ env scope f s) :
    ∃ r, StmtTypes Γ env scope r s f := by
  obtain ⟨⟨hr, hq, hids, hw, _⟩, r, hret⟩ := h
  exact ⟨r, (decided_stmt hids Γ scope f hr hret hh hp hw).1 hq.silent⟩

omit hh hp in
theorem fine_eval {e : Expr} (h : StmtFine Φ Γ env scope f (.eval e)) :
    ExprFine Φ Γ env scope f e := by
  obtain ⟨⟨hr, hq, hids, hw, hrec⟩, _⟩ := h
  rw [checkStmt] at hq
  exact ⟨hr, hq.first, hids, hw, hrec⟩

variable {span : Span}

omit hh hp in
theorem fine_target {l : Location} {e : Expr} (h : StmtFine Φ Γ env scope f (.assign span l e)) :
    LocationFine Φ Γ env scope f l := by
  obtain ⟨⟨hr, hq, hids, hw, hrec⟩, _⟩ := h
  rw [Stmt.written, List.forall_mem_append] at hw
  rw [checkStmt] at hq
  exact ⟨hr, hq.first.first, (List.nodup_append'.1 hids).1, hw.1, hrec.1⟩

theorem fine_assigned {l : Location} {e : Expr} (h : StmtFine Φ Γ env scope f (.assign span l e)) :
    ExprFine Φ Γ env scope ((checkLocation env scope l).after f) e := by
  obtain ⟨⟨hr, hq, hids, hw, hrec⟩, _⟩ := h
  obtain ⟨hl, he, _⟩ := List.nodup_append'.1 hids
  rw [Stmt.written, List.forall_mem_append] at hw
  rw [checkStmt] at hq
  have hq := hq.first
  exact ⟨ready_checkLocation hh hp hr hl hw.1 hq.first.silent, hq.second.first, he, hw.2, hrec.2⟩

omit hh hp in
theorem fine_returned {e : Expr} (h : StmtFine Φ Γ env scope f (.return span e)) :
    ExprFine Φ Γ env scope f e := by
  obtain ⟨⟨hr, hq, hids, hw, hrec⟩, _⟩ := h
  rw [checkStmt] at hq
  exact ⟨hr, hq.first.first, hids, hw, hrec⟩

omit hh hp in
theorem fine_block {body : List Stmt} (h : StmtFine Φ Γ env scope f (.block span body)) :
    BodyFine Φ Γ env scope.enter f body := by
  obtain ⟨⟨hr, hq, hids, hw, hrec⟩, hret⟩ := h
  rw [checkStmt] at hq
  exact ⟨⟨hr, hq.first, hids, hw, hrec⟩, hret⟩

omit hh hp in
/-- A condition is fine if it is checked before all else. -/
theorem fine_condition {construct : Conditional} {c : Expr} {ids : List Nat}
    {written : List TypeExpr} (hr : Ready Γ env scope f)
    (hq : Quiet Φ (checkCondition env scope construct c) f) (hids : (c.ids ++ ids).Nodup)
    (hw : ∀ t ∈ c.written ++ written, t ∈ Γ.program.typeExprs)
    (hrec : c.Recorded Φ.arrays Φ.notes Γ) : ExprFine Φ Γ env scope f c :=
  ⟨hr, hq.first, (List.nodup_append'.1 hids).1, (List.forall_mem_append.1 hw).1, hrec⟩

/-- A statement behind a condition is fine if its own check is. -/
theorem fine_guarded {construct : Conditional} {c : Expr} {s : Stmt} {ids : List Nat}
    {written : List TypeExpr} (hr : Ready Γ env scope f)
    (hret : ∃ r, scope.returnType.Denotes Γ.program f.arrays r)
    (hc : Silent (checkCondition env scope construct c) f)
    (hq : Quiet Φ (checkStmt env scope.enter s)
      ((checkCondition env scope construct c).after f)) (hids : (c.ids ++ (s.ids ++ ids)).Nodup)
    (hw : ∀ t ∈ c.written ++ (s.written ++ written), t ∈ Γ.program.typeExprs)
    (hrec : s.Recorded Φ.arrays Φ.notes Γ) :
    StmtFine Φ Γ env scope.enter ((checkCondition env scope construct c).after f) s := by
  obtain ⟨hcids, hrest, _⟩ := List.nodup_append'.1 hids
  rw [List.forall_mem_append, List.forall_mem_append] at hw
  have hready : Ready Γ env scope ((checkCondition env scope construct c).after f) :=
    ready_operandOf hh hp hr hcids hw.1 (T := .bool) hc
  refine ⟨⟨hready, hq, (List.nodup_append'.1 hrest).1, hw.2.1, hrec⟩, ?_⟩
  obtain ⟨r, hr⟩ := hret
  exact ⟨r, hr.mono (Keeps.kept (m := checkCondition env scope construct c) f).arrays⟩

omit hh hp in
theorem fine_branchCondition {c : Expr} {s : Stmt} {s? : Option Stmt}
    (h : StmtFine Φ Γ env scope f (.branch span c s s?)) : ExprFine Φ Γ env scope f c := by
  obtain ⟨⟨hr, hq, hids, hw, hrec⟩, _⟩ := h
  cases s? with
  | none =>
      rw [checkStmt] at hq
      exact fine_condition hr hq.first hids hw hrec.1
  | some s' =>
      rw [checkStmt] at hq
      exact fine_condition hr hq.first hids hw hrec.1

theorem fine_onTrue {c : Expr} {s : Stmt} {s? : Option Stmt}
    (h : StmtFine Φ Γ env scope f (.branch span c s s?)) :
    StmtFine Φ Γ env scope.enter ((checkCondition env scope .branch c).after f) s := by
  obtain ⟨⟨hr, hq, hids, hw, hrec⟩, hret⟩ := h
  cases s? with
  | none =>
      rw [checkStmt] at hq
      refine fine_guarded hh hp hr hret hq.first.silent hq.second.first
        (show (c.ids ++ (s.ids ++ [])).Nodup from ?_)
        (show ∀ t ∈ c.written ++ (s.written ++ []), _ from ?_) hrec.2
      · rw [List.append_nil]
        exact hids
      · rw [List.append_nil]
        exact hw
  | some s' =>
      rw [checkStmt] at hq
      exact fine_guarded hh hp hr hret hq.first.silent hq.second.first hids hw hrec.2.1

theorem fine_onFalse {c : Expr} {s s' : Stmt}
    (h : StmtFine Φ Γ env scope f (.branch span c s (some s'))) :
    StmtFine Φ Γ env scope.enter ((checkStmt env scope.enter s).after
      ((checkCondition env scope .branch c).after f)) s' := by
  have hfirst := fine_onTrue hh hp h
  obtain ⟨⟨hr, hq, hids, hw, hrec⟩, hret⟩ := h
  obtain ⟨_, ht⟩ := stmtTypes hh hp hfirst
  obtain ⟨_, hrest, _⟩ := List.nodup_append'.1 hids
  rw [Stmt.written, List.forall_mem_append, List.forall_mem_append] at hw
  rw [checkStmt] at hq
  obtain ⟨r, hr'⟩ := hfirst.returnType
  exact ⟨⟨hfirst.fine.ready.grow ht.grows, hq.second.second.first, (List.nodup_append'.1 hrest).2.1,
    hw.2.2, hrec.2.2⟩, r, hr'.mono ht.grows.arrays⟩

omit hh hp in
theorem fine_loopCondition {c : Expr} {s : Stmt} (h : StmtFine Φ Γ env scope f (.loop span c s)) :
    ExprFine Φ Γ env scope f c := by
  obtain ⟨⟨hr, hq, hids, hw, hrec⟩, _⟩ := h
  rw [checkStmt] at hq
  exact fine_condition hr hq.first hids hw hrec.1

theorem fine_loop {c : Expr} {s : Stmt} (h : StmtFine Φ Γ env scope f (.loop span c s)) :
    StmtFine Φ Γ env scope.enter ((checkCondition env scope .loop c).after f) s := by
  obtain ⟨⟨hr, hq, hids, hw, hrec⟩, hret⟩ := h
  rw [checkStmt] at hq
  refine fine_guarded hh hp hr hret hq.first.silent hq.second.first
    (show (c.ids ++ (s.ids ++ [])).Nodup from ?_)
    (show ∀ t ∈ c.written ++ (s.written ++ []), _ from ?_) hrec.2
  · rw [List.append_nil]
    exact hids
  · rw [List.append_nil]
    exact hw

omit hh hp in
theorem fine_first {s : Stmt} {rest : List Stmt} (h : BodyFine Φ Γ env scope f (s :: rest)) :
    StmtFine Φ Γ env scope f s := by
  obtain ⟨⟨hr, hq, hids, hw, hrec⟩, hret⟩ := h
  rw [writtenInBody, List.forall_mem_append] at hw
  rw [checkBlock] at hq
  exact ⟨⟨hr, hq.first, (List.nodup_append'.1 hids).1, hw.1, hrec.1⟩, hret⟩

theorem fine_rest {s : Stmt} {rest : List Stmt} (h : BodyFine Φ Γ env scope f (s :: rest)) :
    BodyFine Φ (s.after Γ) env ((checkStmt env scope s).value f)
      ((checkStmt env scope s).after f) rest := by
  obtain ⟨_, ht⟩ := stmtTypes hh hp (fine_first h)
  obtain ⟨⟨hr, hq, hids, hw, hrec⟩, r, hret⟩ := h
  rw [writtenInBody, List.forall_mem_append] at hw
  rw [checkBlock] at hq
  refine ⟨⟨ht.ready, hq.second, (List.nodup_append'.1 hids).2.1, ?_, hrec.2⟩, r, ?_⟩
  · rw [s.after_program]
    exact hw.2
  · rw [s.after_program, ht.returnType]
    exact hret.mono ht.grows.arrays

end

end Check

open Check

/-- The variables that a part of the check still declares. -/
def Task.locals : Task → List VarDecl
  | .node _ _ | .arguments _ _ _ => []
  | .stmt _ s => s.locals
  | .body _ stmts => localsOf stmts

/-- A part of the check does what it should do at its place. -/
def Task.Fine (Φ : Findings) (env : Surroundings) (Γ : Context) : Task × Findings → Prop
  | (.node scope (.expr e), f) => ExprFine Φ Γ env scope f e
  | (.node scope (.location l), f) => LocationFine Φ Γ env scope f l
  | (.arguments scope es Ts, f) => ArgumentsFine Φ Γ env scope f es Ts
  | (.stmt scope s, f) => StmtFine Φ Γ env scope f s
  | (.body scope stmts, f) => BodyFine Φ Γ env scope f stmts

/-- A part of the check of a function does what it should do, and all variables that it knows are
the function's. -/
structure Task.Settled (Φ : Findings) (env : Surroundings) (Γ : Context) (vars : List VarDecl)
    (t : Task × Findings) : Prop where
  fine : ∃ locals ⊆ vars, Task.Fine Φ env { Γ with locals } t
  locals : t.1.locals ⊆ vars

section

variable {Φ : Findings} {env : Surroundings} {Γ : Context} {vars : List VarDecl}

/-- What holds of a part of the check holds of all that it is made up of. -/
theorem Task.Calls.settled (hh : Γ.program.Hierarchy) (hp : Γ.program.ids.Nodup)
    {t u : Task × Findings} (h : Task.Calls env t u) (ht : Task.Settled Φ env Γ vars t) :
    Task.Settled Φ env Γ vars u := by
  obtain ⟨⟨locals, hl, ht⟩, hvars⟩ := ht
  replace hh : ({ Γ with locals } : Context).program.Hierarchy := hh
  replace hp : ({ Γ with locals } : Context).program.ids.Nodup := hp
  cases h with
  | operand => exact ⟨⟨locals, hl, fine_operand ht⟩, List.nil_subset _⟩
  | left => exact ⟨⟨locals, hl, fine_left ht⟩, List.nil_subset _⟩
  | right hop => exact ⟨⟨locals, hl, fine_right hh hp hop ht⟩, List.nil_subset _⟩
  | rightOfEqual => exact ⟨⟨locals, hl, fine_rightOfEqual hh hp ht⟩, List.nil_subset _⟩
  | read => exact ⟨⟨locals, hl, fine_read ht⟩, List.nil_subset _⟩
  | arrayLength => exact ⟨⟨locals, hl, fine_arrayLength ht⟩, List.nil_subset _⟩
  | size => exact ⟨⟨locals, hl, fine_size ht⟩, List.nil_subset _⟩
  | call hc =>
      obtain ⟨c, hc', hargs⟩ := fine_call hh hp ht
      cases hc.symm.trans hc'
      exact ⟨⟨locals, hl, hargs⟩, List.nil_subset _⟩
  | receiver => exact ⟨⟨locals, hl, fine_receiver ht⟩, List.nil_subset _⟩
  | methodCall hv hc =>
      obtain ⟨cls, c, hv', hc', hargs⟩ := fine_methodCall hh hp ht
      cases hv.symm.trans hv'
      cases hc.symm.trans hc'
      exact ⟨⟨locals, hl, hargs⟩, List.nil_subset _⟩
  | object => exact ⟨⟨locals, hl, fine_object ht⟩, List.nil_subset _⟩
  | array => exact ⟨⟨locals, hl, fine_array ht⟩, List.nil_subset _⟩
  | index => exact ⟨⟨locals, hl, fine_index hh hp ht⟩, List.nil_subset _⟩
  | argument => exact ⟨⟨locals, hl, fine_argument ht⟩, List.nil_subset _⟩
  | arguments => exact ⟨⟨locals, hl, fine_arguments hh hp ht⟩, List.nil_subset _⟩
  | eval => exact ⟨⟨locals, hl, fine_eval ht⟩, List.nil_subset _⟩
  | target => exact ⟨⟨locals, hl, fine_target ht⟩, List.nil_subset _⟩
  | assigned => exact ⟨⟨locals, hl, fine_assigned hh hp ht⟩, List.nil_subset _⟩
  | condition => exact ⟨⟨locals, hl, fine_branchCondition ht⟩, List.nil_subset _⟩
  | @onTrue _ _ _ _ s? =>
      refine ⟨⟨locals, hl, fine_onTrue hh hp ht⟩, ?_⟩
      cases s? with
      | none => exact hvars
      | some s' => exact (List.append_subset.1 hvars).1
  | onFalse => exact ⟨⟨locals, hl, fine_onFalse hh hp ht⟩, (List.append_subset.1 hvars).2⟩
  | loopCondition => exact ⟨⟨locals, hl, fine_loopCondition ht⟩, List.nil_subset _⟩
  | loop => exact ⟨⟨locals, hl, fine_loop hh hp ht⟩, hvars⟩
  | returned => exact ⟨⟨locals, hl, fine_returned ht⟩, List.nil_subset _⟩
  | block => exact ⟨⟨locals, hl, fine_block ht⟩, hvars⟩
  | first => exact ⟨⟨locals, hl, fine_first ht⟩, (List.append_subset.1 hvars).1⟩
  | @rest _ s =>
      obtain ⟨hs, hrest⟩ := List.append_subset.1 hvars
      have ht := fine_rest hh hp ht
      refine ⟨?_, hrest⟩
      cases s with
      | declare d =>
          exact ⟨d :: locals, List.cons_subset.2 ⟨hs List.mem_cons_self, hl⟩, ht⟩
      | _ => exact ⟨locals, hl, ht⟩

/-- What holds of a part of the check holds of all that it comes to. -/
theorem Task.ComesTo.settled (hh : Γ.program.Hierarchy) (hp : Γ.program.ids.Nodup)
    {t u : Task × Findings} (h : Task.ComesTo env t u) (ht : Task.Settled Φ env Γ vars t) :
    Task.Settled Φ env Γ vars u := by
  induction h with
  | refl => exact ht
  | tail _ hcall ih => exact hcall.settled hh hp ih

end

end ObjectLang
