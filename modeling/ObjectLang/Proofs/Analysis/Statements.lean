import ObjectLang.Proofs.Analysis.Expressions

/-!
# Statements are checked by the rules

A statement is silently checked exactly if it keeps the rules, and then the scope behind it is the
place behind it.
-/
namespace ObjectLang

theorem Stmt.WellTyped.after_eq {r : PlainType} {Γ Γ' : Context} {s : Stmt}
    (h : s.WellTyped r Γ Γ') : Γ' = s.after Γ := by
  cases h <;> rfl

namespace Check

open Findings

variable {Γ : Context} {env : Surroundings} {scope : Scope} {f : Findings}

theorem Ready.declare (h : Ready Γ env scope f) {d : VarDecl} {T : ValueType}
    (hT : T.Denotes Γ.program f.arrays d.plain) :
    Ready (Γ.declare d) env (scope.declare d T) f :=
  ⟨h.sound, ⟨h.env.classes, h.env.functions, h.env.members, h.env.current⟩, h.scope.declare hT⟩

/-- What a silent check of a statement finds out. -/
structure StmtTypes (Γ : Context) (env : Surroundings) (scope : Scope) (r : PlainType) (s : Stmt)
    (f : Findings) : Prop where
  typed : s.WellTyped r Γ (s.after Γ)
  recorded : s.Recorded ((checkStmt env scope s).after f).arrays
    ((checkStmt env scope s).after f).notes Γ
  grows : f.Grows Γ.program s.ids ((checkStmt env scope s).after f)
  ready : Ready (s.after Γ) env ((checkStmt env scope s).value f) ((checkStmt env scope s).after f)
  returnType : ((checkStmt env scope s).value f).returnType = scope.returnType

/-- What a silent check of statements finds out. -/
structure BodyTypes (Γ : Context) (env : Surroundings) (scope : Scope) (r : PlainType)
    (body : List Stmt) (f : Findings) : Prop where
  typed : BodyWellTyped r Γ body
  recorded : BodyRecorded ((checkBlock env scope body).after f).arrays
    ((checkBlock env scope body).after f).notes Γ body
  grows : f.Grows Γ.program (idsOfBody body) ((checkBlock env scope body).after f)

/-- What the check of a statement has to do, wherever it comes. -/
def StmtDecided (env : Surroundings) (r : PlainType) (s : Stmt) : Prop :=
  ∀ Γ scope f, Ready Γ env scope f → scope.returnType.Denotes Γ.program f.arrays r →
    Γ.program.Hierarchy → Γ.program.ids.Nodup → (∀ t ∈ s.written, t ∈ Γ.program.typeExprs) →
      (Silent (checkStmt env scope s) f → StmtTypes Γ env scope r s f) ∧
        (SignaturesKnown Γ.program → ∀ Γ', s.WellTyped r Γ Γ' → Silent (checkStmt env scope s) f)

def BodyDecided (env : Surroundings) (r : PlainType) (body : List Stmt) : Prop :=
  ∀ Γ scope f, Ready Γ env scope f → scope.returnType.Denotes Γ.program f.arrays r →
    Γ.program.Hierarchy → Γ.program.ids.Nodup →
    (∀ t ∈ writtenInBody body, t ∈ Γ.program.typeExprs) →
      (Silent (checkBlock env scope body) f → BodyTypes Γ env scope r body f) ∧
        (SignaturesKnown Γ.program → BodyWellTyped r Γ body →
          Silent (checkBlock env scope body) f)

variable {r : PlainType}

theorem decided_declare {d : VarDecl} : StmtDecided env r (.declare d) := by
  intro Γ scope f hf hr hh hp hw
  have hname : (scope.find? d.name.name).isNone = true ↔ Γ.local? d.name.name = none := by
    have hfound := hf.scope.rel_find? d.name.name
    generalize scope.find? d.name.name = found, Γ.local? d.name.name = found' at hfound ⊢
    cases hfound <;> simp
  have hd : d.type ∈ Γ.program.typeExprs := hw d.type List.mem_cons_self
  obtain ⟨hsound, hcomplete⟩ := checkType_spec hh hf.env.classes hp hd hf.sound
  have hsilent : Silent (checkStmt env scope (.declare d)) f ↔
      Γ.local? d.name.name = none ∧ Silent (checkType env.classes d.type) f := by
    rw [← hname]
    simp only [checkStmt, checkDeclaration, silent_bind, silent_require, silent_pure, and_true]
    refine and_congr_right fun h => ?_
    rw [after_require, if_pos h]
  rw [hsilent]
  constructor
  · rintro ⟨h, h'⟩
    have ht := hsound h'
    have hafter : (checkStmt env scope (.declare d)).run f =
        (scope.declare d ((checkType env.classes d.type).value f),
          (checkType env.classes d.type).after f) := by
      simp only [checkStmt, checkDeclaration, require, hname.2 h, if_true]
      rfl
    refine ⟨.declare h ht.denotes.known, ?_, ?_, ?_, ?_⟩ <;> simp only [value, after, hafter]
    · exact ⟨_, ht.noted, ht.denotes⟩
    · exact ht.grows.mono (by simp)
    · exact (hf.grow ht.grows).declare ht.denotes
    · rfl
  · intro _ Γ' ht
    cases ht with
    | declare h hk => exact ⟨h, hcomplete hk⟩

theorem decided_eval {e : Expr} (hids : e.ids.Nodup) : StmtDecided env r (.eval e) := by
  intro Γ scope f hf hr hh hp hw
  obtain ⟨hsound, hcomplete⟩ := decided_expr hh hp env scope hids hw f hf
  have hsilent : Silent (checkStmt env scope (.eval e)) f ↔ Silent (checkExpr env scope e) f := by
    simp [checkStmt]
  rw [hsilent]
  constructor
  · intro h
    obtain ⟨⟨t, ht, _⟩, hrec, hg⟩ := hsound h
    exact ⟨.eval ht, hrec, hg, hf.grow hg, rfl⟩
  · intro hk Γ' ht
    cases ht with
    | eval ht => exact hcomplete hk _ ht

theorem decided_return {span : Span} {e : Expr} (hids : e.ids.Nodup) :
    StmtDecided env r (.return span e) := by
  intro Γ scope f hf hr hh hp hw
  obtain ⟨hsound, hcomplete⟩ := operandOf_spec hh (decided_expr hh hp env scope hids hw) hf hr
    fun found => .invalidReturn scope.returnType.text found.text span
  have heq : checkStmt env scope (.return span e) = (do
      operandOf env scope scope.returnType e
        fun found => .invalidReturn scope.returnType.text found.text span
      pure scope) := by
    rw [checkStmt]
    rfl
  have hsilent : ∀ m : Check Unit, Silent (do m; pure scope) f ↔ Silent m f := by
    simp
  constructor
  · intro h
    rw [heq, hsilent] at h
    obtain ⟨⟨t, ht, hs⟩, hrec, hg⟩ := hsound h
    refine ⟨.return ht hs, ?_, ?_, ?_, ?_⟩ <;>
      simp only [heq, after_bind, after_pure, value_bind, value_pure]
    · exact hrec
    · exact hg
    · exact hf.grow hg
  · intro hk Γ' ht
    rw [heq, hsilent]
    cases ht with
    | «return» ht hs => exact hcomplete hk _ ht hs

theorem decided_assign {span : Span} {l : Location} {e : Expr}
    (hids : (Stmt.assign span l e).ids.Nodup) : StmtDecided env r (.assign span l e) := by
  intro Γ scope f hf hr hh hp hw
  obtain ⟨hl, he, hdisjoint⟩ := List.nodup_append'.1 hids
  rw [Stmt.written, List.forall_mem_append] at hw
  obtain ⟨hleft, hleft'⟩ := decided_location hh hp env scope hl hw.1 f hf
  have hright := fun h t (hd : ((checkLocation env scope l).value f).Denotes Γ.program
      ((checkLocation env scope l).after f).arrays t) =>
    operandOf_spec hh (decided_expr hh hp env scope he hw.2) (hf.grow (hleft h).grows) hd
      fun found => .invalidAssignment ((checkLocation env scope l).value f).text found.text e.span
  have hsilent : Silent (checkStmt env scope (.assign span l e)) f ↔
      Silent (checkLocation env scope l) f ∧
        Silent (operandOf env scope ((checkLocation env scope l).value f) e fun found =>
          .invalidAssignment ((checkLocation env scope l).value f).text found.text e.span)
          ((checkLocation env scope l).after f) := by
    simp only [checkStmt, checkAssignment, operandOf, silent_bind, silent_pure, and_true]
  have hafter : (checkStmt env scope (.assign span l e)).run f =
      (scope, (operandOf env scope ((checkLocation env scope l).value f) e fun found =>
          .invalidAssignment ((checkLocation env scope l).value f).text found.text e.span).after
          ((checkLocation env scope l).after f)) := by
    rw [checkStmt]
    rfl
  rw [hsilent]
  constructor
  · rintro ⟨h, h'⟩
    obtain ⟨⟨u, hu, hd⟩, hlr, hlg⟩ := hleft h
    obtain ⟨⟨t, ht, hs⟩, her, heg⟩ := (hright h u hd).1 h'
    refine ⟨.assign hu ht hs, ?_, ?_, ?_, ?_⟩ <;> simp only [value, after, hafter]
    · refine ⟨hlr.mono heg.arrays fun id hid => heg.same id fun hid' => ?_, her⟩
      exact hdisjoint hid hid'
    · exact hlg.trans heg
    · exact hf.grow (hlg.trans heg)
  · intro hk Γ' ht
    cases ht with
    | assign hu ht hs =>
        have h := hleft' hk _ hu
        obtain ⟨⟨u', hu', hd⟩, _, _⟩ := hleft h
        cases hu.unique hu'
        exact ⟨h, (hright h _ hd).2 hk _ ht hs⟩

/-- A condition with a statement that it decides over. -/
def guarded (env : Surroundings) (scope : Scope) (construct : Conditional) (c : Expr) (s : Stmt) :
    Check Scope := do
  checkCondition env scope construct c
  let _ ← checkStmt env scope.enter s
  return scope

/-- What a silent check of a condition and a statement finds out. -/
structure GuardedTypes (Γ : Context) (r : PlainType) (c : Expr) (s : Stmt) (f g : Findings) :
    Prop where
  condition : HasType Γ c .bool
  typed : s.WellTyped r Γ (s.after Γ)
  conditionRecorded : c.Recorded g.arrays g.notes Γ
  recorded : s.Recorded g.arrays g.notes Γ
  grows : f.Grows Γ.program (c.ids ++ s.ids) g

theorem guarded_spec {c : Expr} {s : Stmt} (hids : (c.ids ++ s.ids).Nodup)
    (ih : StmtDecided env r s) (hf : Ready Γ env scope f)
    (hr : scope.returnType.Denotes Γ.program f.arrays r) (hh : Γ.program.Hierarchy)
    (hp : Γ.program.ids.Nodup) (hw : ∀ t ∈ c.written ++ s.written, t ∈ Γ.program.typeExprs)
    (construct : Conditional) :
    (Silent (guarded env scope construct c s) f →
      (guarded env scope construct c s).value f = scope ∧
      GuardedTypes Γ r c s f ((guarded env scope construct c s).after f)) ∧
    (SignaturesKnown Γ.program → HasType Γ c .bool → ∀ Γ', s.WellTyped r Γ Γ' →
      Silent (guarded env scope construct c s) f) := by
  obtain ⟨hc, hs, hdisjoint⟩ := List.nodup_append'.1 hids
  rw [List.forall_mem_append] at hw
  let m := operandOf env scope .bool c fun found => .invalidCondition construct found.text c.span
  obtain ⟨htest, htest'⟩ := operandOf_primitive hh (decided_expr hh hp env scope hc hw.1) hf
    .bool (.inr rfl) fun found => .invalidCondition construct found.text c.span
  have hbody := fun h => ih Γ scope _ (hf.grow (htest h).2.2) (hr.mono (htest h).2.2.arrays) hh hp
    hw.2
  have hrun : (guarded env scope construct c s).run f =
      (scope, (checkStmt env scope s).after (m.after f)) := rfl
  have hsilent : Silent (guarded env scope construct c s) f ↔
      Silent m f ∧ Silent (checkStmt env scope s) (m.after f) := by
    simp only [guarded, silent_bind, silent_pure, and_true]
    exact Iff.rfl
  rw [hsilent]
  constructor
  · rintro ⟨h, h'⟩
    obtain ⟨ht, hcr, hcg⟩ := htest h
    obtain ⟨hts, hsr, hsg, _, _⟩ := (hbody h).1 h'
    refine ⟨?_, ht, hts, ?_, ?_, ?_⟩ <;> simp only [value, after, hrun]
    · exact recorded_grow hcr hsg hdisjoint
    · exact hsr
    · exact hcg.trans hsg
  · intro hk ht Γ' hts
    have h := htest' hk ht
    exact ⟨h, (hbody h).2 hk Γ' hts⟩

theorem decided_branch {span : Span} {c : Expr} {s : Stmt}
    (hids : (Stmt.branch span c s none).ids.Nodup) (ih : StmtDecided env r s) :
    StmtDecided env r (.branch span c s none) := by
  intro Γ scope f hf hr hh hp hw
  obtain ⟨hsound, hcomplete⟩ := guarded_spec hids ih hf hr hh hp hw .branch
  constructor
  · intro h
    obtain ⟨hv, ht, hts, hcr, hsr, hg⟩ := hsound h
    exact ⟨.branch ht hts, ⟨hcr, hsr⟩, hg, hv ▸ hf.grow hg, congrArg _ hv⟩
  · intro hk Γ' ht
    cases ht with
    | branch ht hts => exact hcomplete hk ht _ hts

theorem decided_loop {span : Span} {c : Expr} {s : Stmt}
    (hids : (Stmt.loop span c s).ids.Nodup) (ih : StmtDecided env r s) :
    StmtDecided env r (.loop span c s) := by
  intro Γ scope f hf hr hh hp hw
  obtain ⟨hsound, hcomplete⟩ := guarded_spec hids ih hf hr hh hp hw .loop
  constructor
  · intro h
    obtain ⟨hv, ht, hts, hcr, hsr, hg⟩ := hsound h
    exact ⟨.loop ht hts, ⟨hcr, hsr⟩, hg, hv ▸ hf.grow hg, congrArg _ hv⟩
  · intro hk Γ' ht
    cases ht with
    | loop ht hts => exact hcomplete hk ht _ hts

theorem decided_branchElse {span : Span} {c : Expr} {s s' : Stmt}
    (hids : (Stmt.branch span c s (some s')).ids.Nodup) (ih : StmtDecided env r s)
    (ih' : StmtDecided env r s') : StmtDecided env r (.branch span c s (some s')) := by
  intro Γ scope f hf hr hh hp hw
  have hids : ((c.ids ++ s.ids) ++ s'.ids).Nodup := by
    simpa [Stmt.ids] using hids
  have hw : ∀ t ∈ (c.written ++ s.written) ++ s'.written, t ∈ Γ.program.typeExprs := by
    simpa [Stmt.written] using hw
  obtain ⟨hids, hs', hdisjoint⟩ := List.nodup_append'.1 hids
  rw [List.forall_mem_append] at hw
  obtain ⟨hsound, hcomplete⟩ := guarded_spec hids ih hf hr hh hp hw.1 .branch
  have hother := fun h => ih' Γ scope _ (hf.grow (hsound h).2.grows)
    (hr.mono (hsound h).2.grows.arrays) hh hp hw.2
  have hrun : (checkStmt env scope (.branch span c s (some s'))).run f =
      (scope, (checkStmt env scope s').after ((guarded env scope .branch c s).after f)) := rfl
  have hsilent : Silent (checkStmt env scope (.branch span c s (some s'))) f ↔
      Silent (guarded env scope .branch c s) f ∧
        Silent (checkStmt env scope s') ((guarded env scope .branch c s).after f) := by
    simp only [checkStmt, guarded, silent_bind, silent_pure, and_true, and_assoc]
    exact Iff.rfl
  rw [hsilent]
  constructor
  · rintro ⟨h, h'⟩
    obtain ⟨_, ht, hts, hcr, hsr, hg⟩ := hsound h
    obtain ⟨hts', hsr', hg', _, _⟩ := (hother h).1 h'
    have hsame : ∀ id ∈ c.ids ++ s.ids, _ := fun id hid => hg'.same id fun h => hdisjoint hid h
    rw [List.forall_mem_append] at hsame
    refine ⟨.branchElse ht hts hts', ?_, ?_, ?_, ?_⟩ <;> simp only [value, after, hrun]
    · exact ⟨hcr.mono hg'.arrays hsame.1, hsr.mono hg'.arrays hg'.typeExprs hsame.2, hsr'⟩
    · exact (hg.trans hg').mono (by simp [Stmt.ids])
    · exact hf.grow (hg.trans hg')
  · intro hk Γ' ht
    cases ht with
    | branchElse ht hts hts' =>
        have h := hcomplete hk ht _ hts
        exact ⟨h, (hother h).2 hk _ hts'⟩

theorem decided_block {span : Span} {body : List Stmt} (ih : BodyDecided env r body) :
    StmtDecided env r (.block span body) := by
  intro Γ scope f hf hr hh hp hw
  obtain ⟨hsound, hcomplete⟩ := ih Γ scope f hf hr hh hp hw
  have hrun : (checkStmt env scope (.block span body)).run f =
      (scope, (checkBlock env scope body).after f) := rfl
  constructor
  · intro h
    obtain ⟨ht, hrec, hg⟩ := hsound h
    exact ⟨.block ht, hrec, hg, hf.grow hg, rfl⟩
  · intro hk Γ' ht
    cases ht with
    | block ht => exact hcomplete hk ht

theorem decided_nil_body : BodyDecided env r [] := by
  intro Γ scope f _ _ _ _ _
  exact ⟨fun _ => ⟨.nil, trivial, .rfl⟩, fun _ _ => rfl⟩

theorem decided_cons_body {s : Stmt} {rest : List Stmt} (hids : (idsOfBody (s :: rest)).Nodup)
    (ih : StmtDecided env r s) (ihs : BodyDecided env r rest) :
    BodyDecided env r (s :: rest) := by
  intro Γ scope f hf hr hh hp hw
  obtain ⟨_, _, hdisjoint⟩ := List.nodup_append'.1 hids
  rw [writtenInBody, List.forall_mem_append] at hw
  obtain ⟨hsound, hcomplete⟩ := ih Γ scope f hf hr hh hp hw.1
  have hrest := fun h => ihs (s.after Γ) _ _ (hsound h).ready
    (by
      rw [(hsound h).returnType, s.after_program]
      exact hr.mono (hsound h).grows.arrays)
    (by rwa [s.after_program]) (by rwa [s.after_program]) (by rw [s.after_program]; exact hw.2)
  have hrun : (checkBlock env scope (s :: rest)).run f =
      (checkBlock env ((checkStmt env scope s).value f) rest).run
        ((checkStmt env scope s).after f) := rfl
  have hsilent : Silent (checkBlock env scope (s :: rest)) f ↔
      Silent (checkStmt env scope s) f ∧
        Silent (checkBlock env ((checkStmt env scope s).value f) rest)
          ((checkStmt env scope s).after f) := by
    rw [checkBlock, silent_bind]
  rw [hsilent]
  constructor
  · rintro ⟨h, h'⟩
    obtain ⟨ht, hrec, hg, _, _⟩ := hsound h
    obtain ⟨hts, hrecs, hgs⟩ := (hrest h).1 h'
    rw [s.after_program] at hgs
    refine ⟨.cons ht hts, ?_, ?_⟩ <;> simp only [after, hrun]
    · refine ⟨hrec.mono hgs.arrays hgs.typeExprs fun id hid => hgs.same id fun hid' => ?_, hrecs⟩
      exact hdisjoint hid hid'
    · exact hg.trans hgs
  · intro hk ht
    cases ht with
    | cons ht hts =>
        have h := hcomplete hk _ ht
        cases ht.after_eq
        exact ⟨h, (hrest h).2 (by rwa [s.after_program]) hts⟩

mutual

/-- A statement of the program is silently checked exactly if it keeps the rules. -/
theorem decided_stmt : ∀ {s : Stmt}, s.ids.Nodup → StmtDecided env r s
  | .declare _, _ => decided_declare
  | .eval _, hids => decided_eval hids
  | .assign _ _ _, hids => decided_assign hids
  | .branch _ c s none, hids =>
      decided_branch hids (decided_stmt (List.nodup_append'.1 hids).2.1)
  | .branch _ c s (some s'), hids => by
      obtain ⟨_, hss', _⟩ := List.nodup_append'.1 hids
      obtain ⟨hs, hs', _⟩ := List.nodup_append'.1 hss'
      exact decided_branchElse hids (decided_stmt hs) (decided_stmt hs')
  | .loop _ c s, hids => decided_loop hids (decided_stmt (List.nodup_append'.1 hids).2.1)
  | .return _ _, hids => decided_return hids
  | .block _ body, hids => decided_block (decided_body hids)
termination_by structural s => s

theorem decided_body : ∀ {body : List Stmt}, (idsOfBody body).Nodup → BodyDecided env r body
  | [], _ => decided_nil_body
  | s :: rest, hids => by
      obtain ⟨hs, hrest, _⟩ := List.nodup_append'.1 hids
      exact decided_cons_body hids (decided_stmt hs) (decided_body hrest)
termination_by structural body => body

end

end Check
end ObjectLang
