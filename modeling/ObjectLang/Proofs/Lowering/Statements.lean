import Mathlib.Tactic
import ObjectLang.Lowering.Statements
import ObjectLang.Proofs.Analysis.Statements
import ObjectLang.Proofs.Lowering.Expressions

/-!
# The meaning of code for statements

The code for a statement leads to what stands behind it, or to where the function is left with a
value. Whether a block is open behind the statement is known if it can lead there. A loop takes at
least one step each time that it repeats.
-/
namespace ObjectLang

open Machine IR

section equations

variable {body : Body} {span : Span} {e : Expr} {l : Location} {x : Stmt} {other : Option Stmt}
  {xs : List Stmt}

theorem lowerStmt_declare {d : VarDecl} : lowerStmt body (.declare d) = pure () :=
  rfl

theorem lowerStmt_eval : lowerStmt body (.eval e) = (do
    commentOn body (.eval e)
    let _ ← lowerExpr body e) :=
  rfl

theorem lowerStmt_assign : lowerStmt body (.assign span l e) = (do
    commentOn body (.assign span l e)
    let address ← lowerLocation body l
    let value ← lowerExpr body e
    assign address value) :=
  rfl

theorem lowerStmt_branch : lowerStmt body (.branch span e x other) = (do
    commentOn body (.branch span e x other)
    let condition ← lowerExpr body e
    let first ← compute (·.newBlock "if_true")
    let second ← compute (·.newBlock "if_false")
    let done ← compute (·.newBlock "if_end")
    perform (·.branch condition first second)
    perform (·.switchTo first)
    lowerStmt body x
    perform (·.jump done)
    perform (·.switchTo second)
    other.elim (pure ()) (lowerStmt body)
    perform (·.jump done)
    perform (·.switchTo done)) := by
  cases other <;> rfl

theorem lowerStmt_loop : lowerStmt body (.loop span e x) = (do
    commentOn body (.loop span e x)
    let check ← compute (·.newBlock "while_cond")
    let again ← compute (·.newBlock "while_body")
    let done ← compute (·.newBlock "while_end")
    perform (·.jump check)
    perform (·.switchTo check)
    let condition ← lowerExpr body e
    perform (·.branch condition again done)
    perform (·.switchTo again)
    lowerStmt body x
    perform (·.jump check)
    perform (·.switchTo done)) :=
  rfl

theorem lowerStmt_return : lowerStmt body (.return span e) = (do
    commentOn body (.return span e)
    let value ← lowerExpr body e
    returnValue value) :=
  rfl

theorem lowerStmt_block : lowerStmt body (.block span xs) = (do
    commentOn body (.block span xs)
    lowerStmts body xs) :=
  rfl

theorem lowerStmts_cons : lowerStmts body (x :: xs) = (do
    lowerStmt body x
    lowerStmts body xs) :=
  rfl

theorem lowerStmts_singleton : lowerStmts body [x] = lowerStmt body x := by
  rw [lowerStmts_cons]
  exact bind_pure _

end equations

/-- Where a statement leads. -/
def Act.Flows (A : Act) (s s' : LowerState) (θ : Census) (μ : Config) :
    Flow → Store → State → Prop
  | .next locals, σ, st => s'.IsOpen ∧ ∃ θ' μ', st = A.at s'.builder μ' ∧
      A.Running locals θ' σ μ' ∧ A.Follows s.next θ μ θ' μ'
  | .returned v, σ, st => ∃ θ',
      Leaves A.target.module A.job.program A.callers θ' σ A.job.result v st ∧
      A.Follows 0 θ μ θ' ⟨st.world.memory, st.world.output, #[]⟩

/-- A piece of code does what an evaluation does to the variables, whose loops are bounded. -/
def Job.LowersFlow (J : Job) (code : Lower Unit)
    (flow : Invoke → Nat → Option Datum → Locals → Eval Flow) : Prop :=
  ∀ pending s, J.Stage pending s → Does code s fun _ s' =>
    s.Leads s' ∧ J.Stage pending s' ∧ J.Runs s s' fun A locals θ σ μ => ∀ invoke n,
      A.Answers invoke n → Simulates A.target.module (n + 1) (A.at s.builder μ)
        (flow invoke (n + 1) A.self locals σ) (A.Flows s s' θ μ)

/-- The code for a statement does what the statement does. -/
def Job.LowersStmt (J : Job) (Γ : Context) (x : Stmt) : Prop :=
  J.LowersFlow (lowerStmt J.body x)
    fun invoke bound self locals => execStmt invoke bound self Γ locals x

/-- The code for some statements does what they do. -/
def Job.LowersBody (J : Job) (Γ : Context) (xs : List Stmt) : Prop :=
  J.LowersFlow (lowerStmts J.body xs)
    fun invoke bound self locals => execBody invoke bound self Γ locals xs

variable {J : Job} {Γ : Context} {pending : List Nat} {s s' : LowerState} {t u : PlainType}

namespace Act

variable {A : Act} {s₁ s₂ : LowerState} {θ θ₁ : Census} {σ : Store} {μ μ₁ : Config} {flow : Flow}
  {st : State} {n : Nat} {r : Except Stop Flow × Store}

/-- Control is behind the statement. -/
theorem simulates_next {locals : Locals} (ho : s'.IsOpen) (hrun : A.Running locals θ₁ σ μ₁)
    (hf : A.Follows s.next θ μ θ₁ μ₁) :
    Simulates A.target.module n (A.at s'.builder μ₁) ((pure (.next locals) : Eval Flow) σ)
      (A.Flows s s' θ μ) :=
  ⟨0, _, .refl _, ho, θ₁, μ₁, rfl, hrun, hf⟩

/-- The function is left. -/
theorem simulates_returned {v : Datum} (h : Leaves A.target.module A.job.program A.callers θ₁ σ
      A.job.result v st) (hf : A.Follows 0 θ μ θ₁ ⟨st.world.memory, st.world.output, #[]⟩) :
    Simulates A.target.module n st ((pure (.returned v) : Eval Flow) σ)
      (A.Flows s s' θ μ) :=
  ⟨0, _, .refl _, θ₁, h, hf⟩

/-- Some code runs before a statement, and some steps lead on behind it. -/
theorem simulates_flows (hf : A.Follows s.next θ μ θ₁ μ₁) (hl : s.next ≤ s₁.next)
    (hend : s₂.IsOpen → s'.IsOpen ∧ ∀ μ', ∃ k,
      Steps A.target.module k (A.at s₂.builder μ') (A.at s'.builder μ'))
    (h : Simulates A.target.module n st r (A.Flows s₁ s₂ θ₁ μ₁)) :
    Simulates A.target.module n st r (A.Flows s s' θ μ) := by
  apply h.extend
  intro flow σ' st' hflow
  cases flow with
  | next locals =>
      obtain ⟨ho, θ', μ', rfl, hrun, hf'⟩ := hflow
      obtain ⟨ho', hsteps⟩ := hend ho
      obtain ⟨k, hk⟩ := hsteps μ'
      exact ⟨k, _, hk, ho', θ', μ', rfl, hrun, hf.trans hf' hl⟩
  | returned v =>
      obtain ⟨θ', hleaves, hf'⟩ := hflow
      exact ⟨0, st', .refl _, θ', hleaves, (hf.weaken (Nat.zero_le _)).trans hf' le_rfl⟩

end Act

/-- A comment, if comments are asked for. -/
theorem does_comment (hs : J.Stage pending s) (x : Stmt) :
    Does (commentOn J.body x) s fun _ s' => J.Goes pending s s' ∧
      J.Runs s s' fun A locals θ σ μ => A.Passes locals s s' θ σ μ fun _ => True := by
  unfold commentOn
  split_ifs with hcomments
  · refine does_emit hs rfl .comment fun s₁ he₁ h₁ => ⟨he₁.goes h₁, ?_⟩
    intro A hA hB ⟨c, hc⟩ locals θ σ μ hrun
    obtain ⟨rest, hpoint, hpoint'⟩ := he₁.point _ hB.procedure c hc
    refine ⟨1, μ, .one ?_, hrun, .rfl, trivial⟩
    rw [Act.at, Act.at, hpoint, hpoint']
    exact step_comment
  · refine does_pure ⟨⟨.rfl, hs, id⟩, ?_⟩
    intro A hA hB ho locals θ σ μ hrun
    exact .refl hrun trivial

theorem lowers_declare {d : VarDecl} : J.LowersStmt Γ (.declare d) := by
  intro pending s hs
  rw [lowerStmt_declare]
  refine does_pure ⟨.rfl, hs, ?_⟩
  intro A hA hB ho locals θ σ μ hrun invoke n hans
  simp only [execStmt_declare]
  exact Act.simulates_next ho hrun .rfl

theorem lowers_eval {e : Expr} (he : J.Lowers Γ e) (ht : HasType Γ e t) :
    J.LowersStmt Γ (.eval e) := by
  intro pending s hs
  rw [lowerStmt_eval]
  refine (does_comment hs _).bind fun _ s₁ hz => ?_
  obtain ⟨hg₁, hruns₁⟩ := hz
  refine (he _ _ _ ht hg₁.stage).bind fun x s₂ hx => ?_
  obtain ⟨hg₂, _, hruns₂⟩ := hx
  refine does_pure ⟨hg₁.leads.trans hg₂.leads, hg₂.stage, ?_⟩
  intro A hA hB ho locals θ σ μ hrun invoke n hans
  simp only [execStmt_eval]
  refine (hruns₁ A hA (hg₂.leads.before hB) ho locals θ σ μ hrun).simulates
    fun μ₁ hrun₁ hf₁ _ => ?_
  refine (hruns₂ A hA hB (hg₁.isOpen ho) locals θ σ μ₁ hrun₁ invoke n hans).simulates
    fun v θ₂ σ₂ μ₂ hrun₂ hf₂ _ => ?_
  exact Act.simulates_next (hg₂.isOpen (hg₁.isOpen ho)) hrun₂ (hf₁.trans hf₂ hg₁.leads.next_le)

theorem lowers_assign {span : Span} {l : Location} {e : Expr} (hΓ : J.Sees Γ)
    (hl : J.LowersLocation Γ l) (he : J.Lowers Γ e) (hu : l.HasType Γ u) (ht : HasType Γ e t)
    (hsub : Γ.program.Subtype t u) : J.LowersStmt Γ (.assign span l e) := by
  intro pending s hs
  rw [lowerStmt_assign]
  refine (does_comment hs _).bind fun _ s₁ hz => ?_
  obtain ⟨hg₁, hruns₁⟩ := hz
  refine (hl _ _ _ hu hg₁.stage).bind fun x s₂ hx => ?_
  obtain ⟨hg₂, hx, hruns₂⟩ := hx
  refine (he _ _ _ ht hg₂.stage).bind fun y s₃ hy => ?_
  obtain ⟨hg₃, hy, hruns₃⟩ := hy
  rw [hΓ.program] at hsub
  obtain ⟨ty, hty, hr⟩ := hx.mono hg₃.leads
  have htypeOf : s₃.builder.typeOf x = .pointer ty := by
    rw [Builder.typeOf, hty]
    rfl
  unfold assign
  apply Does.seq
  apply does_typeOfOperand
  rw [htypeOf]
  refine (does_upcast hg₃.stage hy hr hsub).bind fun z s₄ hz => ?_
  obtain ⟨hg₄, hz, hruns₄⟩ := hz
  have hl₃ := hg₃.leads.trans hg₄.leads
  refine (does_store hg₄.stage (hg₄.leads.typeOf? hty) hz).mono fun _ s₅ hs₅ => ?_
  obtain ⟨he₅, h₅⟩ := hs₅
  have hl₂ := hg₁.leads.trans hg₂.leads
  have hl₄ := hl₂.trans hl₃
  refine ⟨hl₄.trans he₅.leads, h₅, ?_⟩
  intro A hA hB ho locals θ σ μ hrun invoke n hans
  subst hA
  have hB₄ := he₅.leads.before hB
  have hB₃ := hg₄.leads.before hB₄
  have hB₂ := hg₃.leads.before hB₃
  have ho₁ := hg₁.isOpen ho
  have ho₂ := hg₂.isOpen ho₁
  have ho₃ := hg₃.isOpen ho₂
  obtain ⟨c, hc⟩ := hg₄.isOpen ho₃
  simp only [execStmt_assign]
  refine (hruns₁ A rfl (hg₂.leads.before hB₂) ho locals θ σ μ hrun).simulates
    fun μ₁ hrun₁ hf₁ _ => ?_
  refine (hruns₂ A rfl hB₂ ho₁ locals θ σ μ₁ hrun₁ invoke n hans).simulates
    fun spot θ₂ σ₂ μ₂ hrun₂ hf₂ hspot => ?_
  refine (hruns₃ A rfl hB₃ ho₂ locals θ₂ σ₂ μ₂ hrun₂ invoke n hans).simulates
    fun v θ₃ σ₃ μ₃ hrun₃ hf₃ hv => ?_
  obtain ⟨mv, hmv, hshows⟩ := hv
  refine (hruns₄ A rfl hB₄ ho₃ locals θ₃ σ₃ μ₃ hrun₃ v mv hshows hmv).simulates
    fun μ₄ hrun₄ hf₄ hmv₄ => ?_
  obtain ⟨a, ha, hkeeps⟩ := (hspot.follows hf₃ hx.fits).follows hf₄ (hx.mono hg₃.leads).fits
  obtain ⟨locals', σ', hwrite, hcovers, hrun₅, hf₅⟩ :=
    hrun₄.write hs.wellFormed (Act.placed hg₄.stage hB₄) hkeeps
      (hshows.subtype hsub)
  rw [Eval.run_bind, hwrite]
  refine Simulates.after (Act.steps_store he₅ hB hc ha hmv₄ hcovers) ?_
  have hf₁₂ := hf₁.trans hf₂ hg₁.leads.next_le
  have hf₃₄ := hf₃.trans hf₄ hg₃.leads.next_le
  exact Act.simulates_next ⟨c, he₅.current.trans hc⟩ hrun₅
    ((hf₁₂.trans hf₃₄ hl₂.next_le).trans hf₅ hl₄.next_le)

theorem lowers_return {span : Span} {e : Expr} (hΓ : J.Sees Γ) (he : J.Lowers Γ e)
    (ht : HasType Γ e t) (hsub : Γ.program.Subtype t J.result) :
    J.LowersStmt Γ (.return span e) := by
  intro pending s hs
  rw [lowerStmt_return]
  refine (does_comment hs _).bind fun _ s₁ hz => ?_
  obtain ⟨hg₁, hruns₁⟩ := hz
  refine (he _ _ _ ht hg₁.stage).bind fun x s₂ hx => ?_
  obtain ⟨hg₂, hx, hruns₂⟩ := hx
  rw [hΓ.program] at hsub
  unfold returnValue
  apply Does.seq
  apply does_get
  refine (does_upcast hg₂.stage hx hg₂.stage.result hsub).bind fun y s₃ hy => ?_
  obtain ⟨hg₃, hy, hruns₃⟩ := hy
  rw [← hg₃.leads.procedure.returnType] at hy
  refine does_terminate hg₃.stage (.ret hy) fun s₄ he₄ h₄ => ?_
  have hl₂ := hg₁.leads.trans hg₂.leads
  have hl₃ := hl₂.trans hg₃.leads
  refine ⟨hl₃.trans he₄.leads, h₄, ?_⟩
  intro A hA hB ho locals θ σ μ hrun invoke n hans
  subst hA
  have hB₃ := he₄.leads.before hB
  have hB₂ := hg₃.leads.before hB₃
  have ho₁ := hg₁.isOpen ho
  have ho₂ := hg₂.isOpen ho₁
  obtain ⟨c, hc⟩ := hg₃.isOpen ho₂
  obtain ⟨hpoint, b, hb, hterm⟩ := he₄.point _ hB.procedure c hc
  simp only [execStmt_return]
  refine (hruns₁ A rfl (hg₂.leads.before hB₂) ho locals θ σ μ hrun).simulates
    fun μ₁ hrun₁ hf₁ _ => ?_
  refine (hruns₂ A rfl hB₂ ho₁ locals θ σ μ₁ hrun₁ invoke n hans).simulates
    fun v θ₂ σ₂ μ₂ hrun₂ hf₂ hv => ?_
  obtain ⟨mv, hmv, hshows⟩ := hv
  refine (hruns₃ A rfl hB₃ ho₂ locals θ₂ σ₂ μ₂ hrun₂ v mv hshows hmv).simulates
    fun μ₃ hrun₃ hf₃ hmv₃ => ?_
  have hf₁₂ := hf₁.trans hf₂ hg₁.leads.next_le
  refine Act.simulates_returned ⟨⟨mv, ?_, hshows.subtype hsub⟩, rfl, hrun₃.heap, hrun₃.output⟩ ?_
  · rw [Act.at, hpoint]
    exact step_ret hb hterm hmv₃
  · have hf := (hf₁₂.trans hf₃ hl₂.next_le).weaken (Nat.zero_le _)
    exact { hf with temps := fun t ht => absurd ht (Nat.not_lt_zero t) }

/-- From the end of a piece of code control goes to a block that the builder is switched to. -/
theorem Act.flows_end {A : Act} {block : Nat} {q q' r s₀ s₁ s' : LowerState} {θ θ₁ : Census}
    {μ μ₁ : Config} {bound : Nat} {st : State} {z : Except Stop Flow × Store}
    (he : q.Ends (.jump block) q') (hB : q'.Before A) (hr : r.Enters block s')
    (hB' : s'.Before A) (hf : A.Follows s₀.next θ μ θ₁ μ₁) (hl : s₀.next ≤ s₁.next)
    (h : Simulates A.target.module bound st z (A.Flows s₁ q θ₁ μ₁)) :
    Simulates A.target.module bound st z (A.Flows s₀ s' θ μ) := by
  refine Act.simulates_flows hf hl (fun ⟨c, hc⟩ => ⟨⟨_, hr.current⟩, fun μ' => ?_⟩) h
  exact ⟨1, Act.steps_jump he hB hc hr hB'⟩

theorem lowers_skip : J.LowersFlow (pure ()) fun _ _ _ locals => pure (.next locals) := by
  intro pending s hs
  refine does_pure ⟨.rfl, hs, ?_⟩
  intro A hA hB ho locals θ σ μ hrun invoke n hans
  exact Act.simulates_next ho hrun .rfl

/-- A conditional statement, whose second arm may be missing. -/
theorem lowers_branch {span : Span} {e : Expr} {x : Stmt} {other : Option Stmt}
    (he : J.Lowers Γ e) (ht : HasType Γ e .bool) (hx : J.LowersStmt Γ x)
    (hother : J.LowersFlow (other.elim (pure ()) (lowerStmt J.body))
      fun invoke bound self locals => other.elim (pure (.next locals))
        (execStmt invoke bound self Γ locals)) :
    J.LowersStmt Γ (.branch span e x other) := by
  intro pending s hs
  rw [lowerStmt_branch]
  refine (does_comment hs _).bind fun _ s₁ hz => ?_
  obtain ⟨hg₁, hruns₁⟩ := hz
  refine (he _ _ _ ht hg₁.stage).bind fun y s₂ hy => ?_
  obtain ⟨hg₂, hy, hruns₂⟩ := hy
  apply Does.seq
  refine does_newBlock hg₂.stage fun s₃ hstays₃ h₃ => ?_
  apply Does.seq
  refine does_newBlock h₃ fun s₄ hstays₄ h₄ => ?_
  apply Does.seq
  refine does_newBlock h₄ fun s₅ hstays₅ h₅ => ?_
  have hl₅ := hstays₃.leads.trans (hstays₄.leads.trans hstays₅.leads)
  have hlt := fun i (hi : i ∈ _) => h₅.builder.lt_of_mem (i := i) hi
  apply Does.seq
  refine does_terminate h₅ (Terminator.Fits.branch (hl₅.typeOf? hy.bool)
    (hlt _ (by simp)) (hlt _ (by simp))) fun s₆ he₆ h₆ => ?_
  apply Does.seq
  refine does_switchTo (h₆.perm (List.reverse_perm [_, _, _] |>.symm.append_right _))
    he₆.current fun s₇ he₇ h₇ => ?_
  refine (hx _ _ h₇).bind fun _ s₈ hz => ?_
  obtain ⟨hl₈, h₈, hruns₈⟩ := hz
  apply Does.seq
  refine does_terminate h₈ (Terminator.Fits.jump (h₈.builder.lt_of_mem (by simp)))
    fun s₉ he₉ h₉ => ?_
  apply Does.seq
  refine does_switchTo h₉ he₉.current fun s₁₀ he₁₀ h₁₀ => ?_
  refine (hother _ _ h₁₀).bind fun _ s₁₁ hz => ?_
  obtain ⟨hl₁₁, h₁₁, hruns₁₁⟩ := hz
  apply Does.seq
  refine does_terminate h₁₁ (Terminator.Fits.jump (h₁₁.builder.lt_of_mem (by simp)))
    fun s₁₂ he₁₂ h₁₂ => ?_
  refine does_switchTo h₁₂ he₁₂.current fun s₁₃ he₁₃ h₁₃ => ?_
  have hl₂ := hg₁.leads.trans hg₂.leads
  have hl₇ := (hl₂.trans hl₅).trans (he₆.leads.trans he₇.leads)
  have hl₁₀ := he₉.leads.trans he₁₀.leads
  have hl₁₃ := he₁₂.leads.trans he₁₃.leads
  have hl₇₁₀ := hl₈.trans hl₁₀
  refine ⟨hl₇.trans (hl₇₁₀.trans (hl₁₁.trans hl₁₃)), h₁₃, ?_⟩
  intro A hA hB ho locals θ σ μ hrun invoke n hans
  subst hA
  have hB₁₂ := he₁₃.leads.before hB
  have hB₁₁ := he₁₂.leads.before hB₁₂
  have hB₁₀ := hl₁₁.before hB₁₁
  have hB₈ := hl₁₀.before hB₁₀
  have hB₇ := hl₈.before hB₈
  have hB₆ := he₇.leads.before hB₇
  have hB₂ := (hl₅.trans he₆.leads).before hB₆
  have ho₁ := hg₁.isOpen ho
  obtain ⟨c, hc⟩ := hg₂.isOpen ho₁
  have hc₅ : s₅.builder.current = some c :=
    hstays₅.current.trans (hstays₄.current.trans (hstays₃.current.trans hc))
  simp only [execStmt_branch]
  refine (hruns₁ A rfl (hg₂.leads.before hB₂) ho locals θ σ μ hrun).simulates
    fun μ₁ hrun₁ hf₁ _ => ?_
  refine (hruns₂ A rfl hB₂ ho₁ locals θ σ μ₁ hrun₁ invoke n hans).simulates
    fun v θ₂ σ₂ μ₂ hrun₂ hf₂ hv => ?_
  obtain ⟨b, rfl, hvb⟩ := hv.bool
  have hf := hf₁.trans hf₂ hg₁.leads.next_le
  have hat : A.at s₂.builder μ₂ = A.at s₅.builder μ₂ := by
    rw [Act.at, Act.at, hstays₅.point, hstays₄.point, hstays₃.point]
  rw [hat]
  cases b with
  | true =>
      refine Simulates.after (Act.steps_branch he₆ hB₆ hc₅ hvb he₇ hB₇) ?_
      refine Act.flows_end he₉ (he₁₀.leads.before hB₁₀) he₁₃ hB hf hl₇.next_le ?_
      exact hruns₈ A rfl hB₈ ⟨_, he₇.current⟩ locals θ₂ σ₂ μ₂ hrun₂ invoke n hans
  | false =>
      refine Simulates.after (Act.steps_branch he₆ hB₆ hc₅ hvb he₁₀ hB₁₀) ?_
      refine Act.flows_end he₁₂ hB₁₂ he₁₃ hB hf (hl₇.trans hl₇₁₀).next_le ?_
      exact hruns₁₁ A rfl hB₁₁ ⟨_, he₁₀.current⟩ locals θ₂ σ₂ μ₂ hrun₂ invoke n hans

/-- The test of a loop leads from `p` to `q`, its body from `r` to `r'` and back, and the loop is
left for `s'`. -/
theorem Act.simulates_repeat {A : Act} {p q r r' s' : LowerState} {y : Operand} {bound : Nat}
    {test : Locals → Eval Datum} {body : Locals → Eval Flow}
    (htest : ∀ locals θ σ μ, A.Running locals θ σ μ →
      A.Evaluates bound locals p q θ μ (test locals σ) fun v θ μ => A.Holds θ μ y .bool v)
    (hagain : ∀ μ, μ.value? y = some (.bool true) →
      Steps A.target.module 1 (A.at q.builder μ) (A.at r.builder μ))
    (hdone : ∀ μ, μ.value? y = some (.bool false) →
      Steps A.target.module 1 (A.at q.builder μ) (A.at s'.builder μ))
    (hbody : ∀ locals θ σ μ, A.Running locals θ σ μ →
      Simulates A.target.module bound (A.at r.builder μ) (body locals σ) (A.Flows r r' θ μ))
    (hback : r'.IsOpen → ∀ μ, Steps A.target.module 1 (A.at r'.builder μ) (A.at p.builder μ))
    (hl : p.next ≤ r.next) (ho : s'.IsOpen) {k : Nat} (hk : k ≤ bound) {locals : Locals}
    {θ : Census} {σ : Store} {μ : Config} (hrun : A.Running locals θ σ μ) :
    Simulates A.target.module k (A.at p.builder μ) (repeatWhile test body k locals σ)
      (A.Flows p s' θ μ) := by
  induction k generalizing locals θ σ μ with
  | zero => exact .timeout hrun.output
  | succ k ih =>
      have htest' : A.Evaluates (k + 1) locals p q θ μ (test locals σ)
          fun v θ μ => A.Holds θ μ y .bool v :=
        Simulates.mono (htest locals θ σ μ hrun) hk fun _ _ _ h => h
      refine htest'.simulates fun v θ₁ σ₁ μ₁ hrun₁ hf₁ hv => ?_
      obtain ⟨b, rfl, hvb⟩ := hv.bool
      cases b with
      | false =>
          exact Simulates.after (hdone μ₁ hvb) (Act.simulates_next ho hrun₁ hf₁)
      | true =>
          have hbody' := (hbody locals θ₁ σ₁ μ₁ hrun₁).mono (Nat.le_of_succ_le hk)
            fun _ _ _ h => h
          rw [Nat.add_comm]
          refine .steps (hagain μ₁ hvb) (hbody'.bind fun flow σ₂ st hflow => ?_)
          cases flow with
          | next locals' =>
              obtain ⟨ho₂, θ₂, μ₂, rfl, hrun₂, hf₂⟩ := hflow
              refine Simulates.after (hback ho₂ μ₂) ?_
              exact Act.simulates_flows (hf₁.trans hf₂ hl) le_rfl
                (fun ho => ⟨ho, fun _ => ⟨0, .refl _⟩⟩) (ih (Nat.le_of_succ_le hk) hrun₂)
          | returned v =>
              obtain ⟨θ₂, hleaves, hf₂⟩ := hflow
              exact Act.simulates_returned hleaves
                ((hf₁.weaken (Nat.zero_le _)).trans hf₂ le_rfl)

theorem lowers_loop {span : Span} {e : Expr} {x : Stmt} (he : J.Lowers Γ e)
    (ht : HasType Γ e .bool) (hx : J.LowersStmt Γ x) :
    J.LowersStmt Γ (.loop span e x) := by
  intro pending s hs
  rw [lowerStmt_loop]
  refine (does_comment hs _).bind fun _ s₁ hz => ?_
  obtain ⟨hg₁, hruns₁⟩ := hz
  apply Does.seq
  refine does_newBlock hg₁.stage fun s₂ hstays₂ h₂ => ?_
  apply Does.seq
  refine does_newBlock h₂ fun s₃ hstays₃ h₃ => ?_
  apply Does.seq
  refine does_newBlock h₃ fun s₄ hstays₄ h₄ => ?_
  have hlt₄ := fun i (hi : i ∈ _) => h₄.builder.lt_of_mem (i := i) hi
  apply Does.seq
  refine does_terminate h₄ (Terminator.Fits.jump (hlt₄ _ (by simp))) fun s₅ he₅ h₅ => ?_
  apply Does.seq
  refine does_switchTo (h₅.perm (List.reverse_perm [_, _, _] |>.symm.append_right _))
    he₅.current fun s₆ he₆ h₆ => ?_
  refine (he _ _ _ ht h₆).bind fun y s₇ hy => ?_
  obtain ⟨hg₇, hy, hruns₇⟩ := hy
  apply Does.seq
  refine does_terminate hg₇.stage (Terminator.Fits.branch hy.bool
    (hg₇.stage.builder.lt_of_mem (by simp)) (hg₇.stage.builder.lt_of_mem (by simp)))
    fun s₈ he₈ h₈ => ?_
  apply Does.seq
  refine does_switchTo h₈ he₈.current fun s₉ he₉ h₉ => ?_
  refine (hx _ _ h₉).bind fun _ s₁₀ hz => ?_
  obtain ⟨hl₁₀, h₁₀, hruns₁₀⟩ := hz
  have hl₄ := hstays₂.leads.trans (hstays₃.leads.trans hstays₄.leads)
  have hl₆ := he₅.leads.trans he₆.leads
  have hl₉ := hg₇.leads.trans (he₈.leads.trans he₉.leads)
  have hcheck := Nat.lt_of_lt_of_le (hlt₄ s₁.builder.procedure.blocks.size (by simp))
    (hl₆.trans (hl₉.trans hl₁₀)).procedure.size_blocks
  apply Does.seq
  refine does_terminate h₁₀ (Terminator.Fits.jump hcheck) fun s₁₁ he₁₁ h₁₁ => ?_
  refine does_switchTo h₁₁ he₁₁.current fun s₁₂ he₁₂ h₁₂ => ?_
  have hl₁₂ := hl₁₀.trans (he₁₁.leads.trans he₁₂.leads)
  have hl := hg₁.leads.trans (hl₄.trans hl₆)
  refine ⟨hl.trans (hl₉.trans hl₁₂), h₁₂, ?_⟩
  intro A hA hB ho locals θ σ μ hrun invoke n hans
  subst hA
  have hB₁₁ := he₁₂.leads.before hB
  have hB₁₀ := he₁₁.leads.before hB₁₁
  have hB₉ := hl₁₀.before hB₁₀
  have hB₈ := he₉.leads.before hB₉
  have hB₇ := he₈.leads.before hB₈
  have hB₆ := hg₇.leads.before hB₇
  have hB₅ := he₆.leads.before hB₆
  have hB₁ := (hl₄.trans he₅.leads).before hB₅
  have ho₆ : s₆.IsOpen := ⟨_, he₆.current⟩
  obtain ⟨c, hc⟩ := hg₁.isOpen ho
  obtain ⟨c₇, hc₇⟩ := hg₇.isOpen ho₆
  have hc₄ : s₄.builder.current = some c :=
    hstays₄.current.trans (hstays₃.current.trans (hstays₂.current.trans hc))
  simp only [execStmt_loop]
  refine (hruns₁ A rfl hB₁ ho locals θ σ μ hrun).simulates fun μ₁ hrun₁ hf₁ _ => ?_
  have hat : A.at s₁.builder μ₁ = A.at s₄.builder μ₁ := by
    rw [Act.at, Act.at, hstays₄.point, hstays₃.point, hstays₂.point]
  rw [hat]
  refine Simulates.after (Act.steps_jump he₅ hB₅ hc₄ he₆ hB₆) ?_
  refine Act.simulates_flows hf₁ hl.next_le (fun ho => ⟨ho, fun _ => ⟨0, .refl _⟩⟩) ?_
  refine Act.simulates_repeat
    (fun locals θ σ μ hrun => hruns₇ A rfl hB₇ ho₆ locals θ σ μ hrun invoke n hans)
    (fun μ hv => Act.steps_branch he₈ hB₈ hc₇ hv he₉ hB₉)
    (fun μ hv => Act.steps_branch he₈ hB₈ hc₇ hv he₁₂ hB)
    (fun locals θ σ μ hrun =>
      hruns₁₀ A rfl hB₁₀ ⟨_, he₉.current⟩ locals θ σ μ hrun invoke n hans)
    (fun ho₁₀ μ => Act.steps_jump he₁₁ hB₁₁ ho₁₀.choose_spec he₆ hB₆) hl₉.next_le
    ⟨_, he₁₂.current⟩
    le_rfl hrun₁

theorem lowers_empty : J.LowersBody Γ [] :=
  lowers_skip

theorem lowers_sequence {x : Stmt} {xs : List Stmt} (hx : J.LowersStmt Γ x)
    (hxs : J.LowersBody (x.after Γ) xs) : J.LowersBody Γ (x :: xs) := by
  intro pending s hs
  rw [lowerStmts_cons]
  refine (hx _ _ hs).bind fun _ s₁ hz => ?_
  obtain ⟨hl₁, h₁, hruns₁⟩ := hz
  refine (hxs _ _ h₁).mono fun _ s₂ hz => ?_
  obtain ⟨hl₂, h₂, hruns₂⟩ := hz
  refine ⟨hl₁.trans hl₂, h₂, ?_⟩
  intro A hA hB ho locals θ σ μ hrun invoke n hans
  simp only [execBody_cons]
  refine (hruns₁ A hA (hl₂.before hB) ho locals θ σ μ hrun invoke n hans).bind
    fun flow σ₁ st hflow => ?_
  cases flow with
  | next locals' =>
      obtain ⟨ho₁, θ₁, μ₁, rfl, hrun₁, hf₁⟩ := hflow
      exact Act.simulates_flows hf₁ hl₁.next_le (fun ho => ⟨ho, fun _ => ⟨0, .refl _⟩⟩)
        (hruns₂ A hA hB ho₁ locals' θ₁ σ₁ μ₁ hrun₁ invoke n hans)
  | returned v =>
      obtain ⟨θ₁, hleaves, hf₁⟩ := hflow
      exact Act.simulates_returned hleaves hf₁

theorem lowers_block {span : Span} {xs : List Stmt} (hxs : J.LowersBody Γ xs) :
    J.LowersStmt Γ (.block span xs) := by
  intro pending s hs
  rw [lowerStmt_block]
  refine (does_comment hs _).bind fun _ s₁ hz => ?_
  obtain ⟨hg₁, hruns₁⟩ := hz
  refine (hxs _ _ hg₁.stage).mono fun _ s₂ hz => ?_
  obtain ⟨hl₂, h₂, hruns₂⟩ := hz
  refine ⟨hg₁.leads.trans hl₂, h₂, ?_⟩
  intro A hA hB ho locals θ σ μ hrun invoke n hans
  simp only [execStmt_block]
  refine (hruns₁ A hA (hl₂.before hB) ho locals θ σ μ hrun).simulates fun μ₁ hrun₁ hf₁ _ => ?_
  exact Act.simulates_flows hf₁ hg₁.leads.next_le (fun ho => ⟨ho, fun _ => ⟨0, .refl _⟩⟩)
    (hruns₂ A hA hB (hg₁.isOpen ho) locals θ σ μ₁ hrun₁ invoke n hans)

/-- All variables that are declared in some statements have slots. -/
def Job.HasSlots (J : Job) (ds : List VarDecl) : Prop :=
  ∀ d ∈ ds, ∃ slot, (d, slot) ∈ J.vars

theorem Job.Sees.after {x : Stmt} (hΓ : J.Sees Γ) (hx : J.HasSlots x.locals) :
    J.Sees (x.after Γ) := by
  cases x with
  | declare d =>
      refine ⟨hΓ.program, hΓ.printName, hΓ.current, fun d' hd' => ?_⟩
      rcases List.mem_cons.1 hd' with rfl | hd'
      · exact hx d' (List.mem_singleton_self d')
      · exact hΓ.locals d' hd'
  | _ => exact hΓ

section

variable (hh : J.program.Hierarchy)
include hh

omit hh in
mutual

/-- Code for a statement does what the statement does. -/
theorem lowers_stmt (hh : J.program.Hierarchy) : ∀ {Γ Γ' : Context} {x : Stmt}, J.Sees Γ →
    x.WellTyped J.result Γ Γ' →
    x.Recorded J.body.analysis.arrays J.body.analysis.notes Γ → J.HasSlots x.locals →
    J.LowersStmt Γ x
  | _, _, .declare _, _, _, _, _ => lowers_declare
  | _, _, .eval _, hΓ, .eval ht, hr, _ => lowers_eval (lowers_expr hΓ hh hr) ht
  | _, _, .assign _ _ _, hΓ, .assign hu ht hsub, hr, _ =>
      lowers_assign hΓ (lowers_location hΓ hh hr.1) (lowers_expr hΓ hh hr.2) hu ht hsub
  | _, _, .branch _ _ _ none, hΓ, .branch ht hx, hr, hs =>
      lowers_branch (lowers_expr hΓ hh hr.1) ht (lowers_stmt hh hΓ hx hr.2 hs) lowers_skip
  | _, _, .branch _ _ _ (some _), hΓ, .branchElse ht hx hy, hr, hs =>
      lowers_branch (lowers_expr hΓ hh hr.1) ht
        (lowers_stmt hh hΓ hx hr.2.1 fun d hd => hs d (List.mem_append_left _ hd))
        (lowers_stmt hh hΓ hy hr.2.2 fun d hd => hs d (List.mem_append_right _ hd))
  | _, _, .loop _ _ _, hΓ, .loop ht hx, hr, hs =>
      lowers_loop (lowers_expr hΓ hh hr.1) ht (lowers_stmt hh hΓ hx hr.2 hs)
  | _, _, .return _ _, hΓ, .return ht hsub, hr, _ =>
      lowers_return hΓ (lowers_expr hΓ hh hr) ht hsub
  | _, _, .block _ _, hΓ, .block hb, hr, hs => lowers_block (lowers_stmts hh hΓ hb hr hs)
termination_by structural _ _ x => x

/-- Code for statements does what they do. -/
theorem lowers_stmts (hh : J.program.Hierarchy) : ∀ {Γ : Context} {xs : List Stmt}, J.Sees Γ →
    BodyWellTyped J.result Γ xs →
    BodyRecorded J.body.analysis.arrays J.body.analysis.notes Γ xs → J.HasSlots (localsOf xs) →
    J.LowersBody Γ xs
  | _, [], _, _, _, _ => lowers_empty
  | _, _ :: _, hΓ, .cons hx hxs, hr, hs => by
      have hslots := fun d hd => hs d (List.mem_append_left _ hd)
      rw [hx.after_eq] at hxs
      exact lowers_sequence (lowers_stmt hh hΓ hx hr.1 hslots)
        (lowers_stmts hh (hΓ.after hslots) hxs hr.2 fun d hd => hs d (List.mem_append_right _ hd))
termination_by structural _ xs => xs

end

end

end ObjectLang
