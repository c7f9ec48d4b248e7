import Mathlib.Tactic
import ObjectLang.Proofs.IR.Definitions
import ObjectLang.Proofs.Lowering.OpenBlocks

/-!
# Dead code stays dead

A procedure is built in three stretches, and behind the first one no block is open. Then the blocks
that are made in the second stretch are dead: blocks lead to one of them only if they are among
them themselves, and the third stretch knows none of them. So no way through the finished procedure
comes to them.

Making code for a body comes to every block in it, with something made before and something made
behind it. Where statements follow a `return` in its block, they are such a second stretch.
-/
namespace ObjectLang.IR

/-- The blocks that came between two states of a builder are dead in the finished procedure: the
older ones did not change meanwhile, lead to none of them, and there is no way to any of them. -/
structure Procedure.Bypasses (q : Procedure) (b b' : Builder) : Prop where
  /-- Older blocks stay as they are, but for slots of the entry block. -/
  kept : ∀ n c, b.block? n = some c → ∃ d, b'.block? n = some d ∧ c.KeptAt n d
  edges : ∀ n d t, n < b.size → q.blocks[n]? = some d → d.terminator = some t →
    ∀ k ∈ t.successors, k < b.size ∨ b'.size ≤ k
  ways : ∀ before n, q.Way before n → n < b.size ∨ b'.size ≤ n

namespace Builder

/-- A builder has a block, and no block has a terminator. -/
structure Fresh (b : Builder) : Prop where
  nonempty : 0 < b.size
  unterminated : ∀ n c, b.block? n = some c → c.terminator = none

variable {b₀ b₁ b₂ b₃ : Builder} {ms₁ ms₂ ms₃ : List Move} {o o₂ o₃ : Outlook}

/-- Terminators that were set from the start on lead to blocks that are there. -/
theorem Course.edges_lt (h : b₀.Course [] [] ms₁ o) (h₀ : b₀.Fresh) {n k : Nat} {c : Block}
    {t : Terminator} (hc : (b₀.makeAll ms₁).block? n = some c) (ht : c.terminator = some t)
    (hk : k ∈ t.successors) : k < (b₀.makeAll ms₁).size := by
  rcases h.becomes.edges n c t hc ht with ⟨d, hd, hdt⟩ | ⟨-, hsuccessors⟩
  · rw [h₀.unterminated n d hd] at hdt
    cases hdt
  · exact (hsuccessors k hk).2

section stretches

variable (h₀ : b₀.Fresh) (h₁ : b₀.Course [] [] ms₁ o) (hb₁ : b₁ = b₀.makeAll ms₁)
  (hshut : o.isOpen = some false) (h₂ : b₁.Course [] [] ms₂ o₂) (hb₂ : b₂ = b₁.makeAll ms₂)
include h₁ hb₁ hshut

theorem Course.current_eq_none : b₁.current = none := by
  have hopen := h₁.isOpen _ hshut
  rw [← hb₁, Builder.isOpen, Option.isSome_eq_false_iff] at hopen
  exact Option.isNone_iff_eq_none.1 hopen

include h₂ hb₂

/-- The second stretch leaves older blocks as they are. -/
theorem Course.kept_of_shut {n : Nat} {c : Block} (hc : b₁.block? n = some c) :
    ∃ d, b₂.block? n = some d ∧ c.KeptAt n d := by
  obtain ⟨d, hd, hkept⟩ := h₂.becomes.kept n c hc
  rw [← hb₂] at hd
  exact ⟨d, hd, hkept (by simp [Course.current_eq_none h₁ hb₁ hshut]) List.not_mem_nil⟩

/-- A third course may begin behind the second stretch: what was still to be opened before it still
is. -/
theorem Course.restart : b₂.Course o.pending o.known [] ⟨o.pending, o.known, none⟩ := by
  have hle : b₁.size ≤ b₂.size := hb₂ ▸ h₂.becomes.size_le
  refine .start (fun n hn => ?_) h₁.nodup (fun n hn => ⟨?_, fun heq => ?_⟩) (fun k hk => ?_) nofun
  · rw [hb₂] at hn ⊢
    exact (h₂.becomes.current n hn).1
  · obtain ⟨-, ⟨c, hc, hnone⟩, -⟩ := h₁.pending n hn
    rw [← hb₁] at hc
    obtain ⟨d, hd, hkept⟩ := Course.kept_of_shut h₁ hb₁ hshut h₂ hb₂ hc
    exact ⟨d, hd, hkept.terminator.trans hnone⟩
  · -- What is open behind the second stretch is new.
    have hlt : n < b₁.size := hb₁ ▸ (h₁.pending n hn).2.1.lt
    rw [hb₂] at heq
    rcases (h₂.becomes.current n heq).2 with hold | hmem | hnew
    · rw [Course.current_eq_none h₁ hb₁ hshut] at hold
      cases hold
    · cases hmem
    · exact absurd hlt hnew.not_gt
  · exact ((h₁.known k hk).2.trans_le (hb₁ ▸ le_rfl)).trans_le hle

variable (h₃ : b₂.Course o.pending o.known ms₃ o₃) (hb₃ : b₃ = b₂.makeAll ms₃)
include h₀ h₃ hb₃

/-- In the end only blocks of the second stretch lead to blocks of it. -/
theorem Course.edges_between {n k : Nat} {d : Block} {t : Terminator}
    (hd : b₃.block? n = some d) (ht : d.terminator = some t) (hk : k ∈ t.successors)
    (hle : b₁.size ≤ k) (hlt : k < b₂.size) : b₁.size ≤ n ∧ n < b₂.size := by
  rw [hb₃] at hd
  rcases h₃.becomes.edges n d t hd ht with ⟨c, hc, hct⟩ | ⟨-, hsuccessors⟩
  · have hn : n < b₂.size := block?_lt hc
    rw [hb₂] at hc
    rcases h₂.becomes.edges n c t hc hct with ⟨c', hc', hct'⟩ | ⟨hnew, -⟩
    · rw [hb₁] at hc'
      exact absurd (hb₁ ▸ h₁.edges_lt h₀ hc' hct' hk) hle.not_gt
    · rcases hnew with hold | hmem | hnew
      · rw [Course.current_eq_none h₁ hb₁ hshut] at hold
        cases hold
      · cases hmem
      · exact ⟨hnew, hn⟩
  · rcases (hsuccessors k hk).1 with hknown | hnew
    · exact absurd (hb₁ ▸ (h₁.known k hknown).2) hle.not_gt
    · exact absurd hlt hnew.not_gt

/-- The blocks of the second stretch are dead. -/
theorem Course.bypasses : b₃.procedure.Bypasses b₁ b₂ := by
  have hbetween : ∀ {n k : Nat} {d : Block} {t : Terminator}, b₃.procedure.blocks[n]? = some d →
      d.terminator = some t → k ∈ t.successors → (n < b₁.size ∨ b₂.size ≤ n) →
        k < b₁.size ∨ b₂.size ≤ k := by
    intro n k d t hd ht hk hn
    by_contra hdead
    rw [not_or, not_lt, not_le] at hdead
    obtain ⟨hle, hlt⟩ :=
      Course.edges_between h₀ h₁ hb₁ hshut h₂ hb₂ h₃ hb₃ hd ht hk hdead.1 hdead.2
    omega
  refine ⟨fun n c hc => Course.kept_of_shut h₁ hb₁ hshut h₂ hb₂ hc,
    fun n d t hn hd ht k hk => hbetween hd ht hk (.inl hn), fun before n hway => ?_⟩
  induction hway with
  | entry =>
      have hsize : b₀.size ≤ b₁.size := hb₁ ▸ h₁.becomes.size_le
      exact .inl (h₀.nonempty.trans_le hsize)
  | step _ hd ht hk ih => exact hbetween hd ht hk ih

end stretches

end Builder
end ObjectLang.IR

namespace ObjectLang

open IR

/-- What is made before the second arm of a conditional statement. Gives the block behind it. -/
def enterSecond (body : Body) (span : Span) (test : Expr) (onTrue : Stmt) (onFalse : Option Stmt) :
    Lower Nat := do
  let (second, done) ← enterFirst body span test onTrue onFalse
  lowerStmt body onTrue
  perform (·.jump done)
  perform (·.switchTo second)
  return done

/-- Making code for some statements comes to making code for others: to those behind the first one
when the first is made, or to those of a block in the first one. -/
inductive Body.Calls (body : Body) : List Stmt × LowerState → List Stmt × LowerState → Prop
  | behind {x : Stmt} {rest : List Stmt} {s t : LowerState} : lowerStmt body x s = .ok ((), t) →
      Calls body (x :: rest, s) (rest, t)
  | block {span : Span} {xs rest : List Stmt} {s t : LowerState} :
      commentOn body (.block span xs) s = .ok ((), t) →
      Calls body (.block span xs :: rest, s) (xs, t)
  | onTrue {span : Span} {test : Expr} {x : Stmt} {other : Option Stmt} {rest : List Stmt}
      {s t : LowerState} {arms : Nat × Nat} :
      enterFirst body span test x other s = .ok (arms, t) →
      Calls body (.branch span test x other :: rest, s) ([x], t)
  | onFalse {span : Span} {test : Expr} {x y : Stmt} {rest : List Stmt} {s t : LowerState}
      {done : Nat} : enterSecond body span test x (some y) s = .ok (done, t) →
      Calls body (.branch span test x (some y) :: rest, s) ([y], t)
  | repeated {span : Span} {test : Expr} {x : Stmt} {rest : List Stmt} {s t : LowerState}
      {blocks : Nat × Nat} : enterLoop body span test x s = .ok (blocks, t) →
      Calls body (.loop span test x :: rest, s) ([x], t)

/-- Making code for some statements comes at last to making code for others. -/
def Body.ComesTo (body : Body) : List Stmt × LowerState → List Stmt × LowerState → Prop :=
  Relation.ReflTransGen body.Calls

/-- Some code is a part of other code: something is made before it and something behind it, so that
in the end the same blocks are still to be opened as at first. -/
def Amid {β : Type} (lead : Lower β) (part whole : Lower Unit) : Prop :=
  ∃ follow : β → Lower Unit, whole = (do
      let b ← lead
      part
      follow b) ∧
    ∀ o, ∃ d : β → Outlook, Steers o lead d ∧ ∀ b, Steers (d b).blind (follow b) fun _ => o.blind

section amid

variable {body : Body} {span : Span} {test : Expr} {x y : Stmt} {other : Option Stmt}
  {xs rest : List Stmt}

theorem amid_behind :
    Amid (lowerStmt body x) (lowerStmts body rest) (lowerStmts body (x :: rest)) := by
  refine ⟨pure, ?_, fun o => ⟨fun _ => o.blind, steers_stmt x, fun _ => steers_pure .rfl⟩⟩
  rw [lowerStmts_cons]
  exact congrArg _ (funext fun _ => (bind_pure _).symm)

theorem amid_block : Amid (commentOn body (.block span xs)) (lowerStmts body xs)
    (lowerStmts body (.block span xs :: rest)) := by
  refine ⟨fun _ => lowerStmts body rest, ?_,
    fun o => ⟨fun _ => o, steers_commentOn, fun _ => steers_stmts rest⟩⟩
  rw [lowerStmts_cons, lowerStmt_block, bind_assoc]

theorem amid_onTrue : Amid (enterFirst body span test x other) (lowerStmts body [x])
    (lowerStmts body (.branch span test x other :: rest)) := by
  refine ⟨fun arms => (do
    perform (·.jump arms.2)
    perform (·.switchTo arms.1)
    other.elim (pure ()) (lowerStmt body)
    perform (·.jump arms.2)
    perform (·.switchTo arms.2)
    lowerStmts body rest), ?_, fun o => ⟨_, steers_enterFirst, fun arms => ?_⟩⟩
  · rw [lowerStmts_cons, lowerStmt_branch_eq, lowerStmts_singleton]
    simp only [bind_assoc]
  · refine .bind (steers_jump (by simp)) fun _ =>
      .bind (steers_switchTo [arms.2]) fun _ => .bind steers_other fun _ => ?_
    refine .bind (steers_jump (by simp)) fun _ => .bind (steers_switchTo []) fun _ => ?_
    exact (steers_stmts rest).mono fun _ =>
      ⟨rfl, List.subset_append_right [arms.2, arms.1] _, .inl rfl⟩

theorem steers_enterSecond {o : Outlook} :
    Steers o (enterSecond body span test x other) fun done =>
      ⟨done :: o.pending, done :: o.known, some true⟩ := by
  refine .bind steers_enterFirst fun arms => ?_
  obtain ⟨second, done⟩ := arms
  refine .bind (steers_stmt x) fun _ => .bind (steers_jump (by simp)) fun _ =>
    .bind (steers_switchTo [done]) fun _ => ?_
  exact steers_pure ⟨rfl, by simp, .inr rfl⟩

theorem amid_onFalse : Amid (enterSecond body span test x (some y)) (lowerStmts body [y])
    (lowerStmts body (.branch span test x (some y) :: rest)) := by
  refine ⟨fun done => (do
    perform (·.jump done)
    perform (·.switchTo done)
    lowerStmts body rest), ?_, fun o => ⟨_, steers_enterSecond, fun done => ?_⟩⟩
  · rw [lowerStmts_cons, lowerStmt_branch_eq, lowerStmts_singleton, enterSecond]
    simp only [bind_assoc, pure_bind, Option.elim_some]
  · refine .bind (steers_jump (by simp)) fun _ => .bind (steers_switchTo []) fun _ => ?_
    exact (steers_stmts rest).mono fun _ => ⟨rfl, List.subset_append_right [done] _, .inl rfl⟩

theorem amid_repeated : Amid (enterLoop body span test x) (lowerStmts body [x])
    (lowerStmts body (.loop span test x :: rest)) := by
  refine ⟨fun blocks => (do
    perform (·.jump blocks.1)
    perform (·.switchTo blocks.2)
    lowerStmts body rest), ?_, fun o => ⟨_, steers_enterLoop, fun blocks => ?_⟩⟩
  · rw [lowerStmts_cons, lowerStmt_loop_eq, lowerStmts_singleton]
    simp only [bind_assoc]
  · refine .bind (steers_jump (by simp)) fun _ => .bind (steers_switchTo []) fun _ => ?_
    exact (steers_stmts rest).mono fun _ =>
      ⟨rfl, List.subset_append_right [blocks.2, blocks.1] _, .inl rfl⟩

end amid

section comes

variable {env : Body} {x : Stmt} {xs ys rest block items : List Stmt} {s s' t u : LowerState}
  {b : Builder} {entries targets : List Nat} {ms : List Move} {o : Outlook}

theorem Amid.split {β : Type} {lead : Lower β} {part whole : Lower Unit} (h : Amid lead part whole)
    (hrun : whole s = .ok ((), u)) : ∃ v t t', lead s = .ok (v, t) ∧ part t = .ok ((), t') := by
  obtain ⟨follow, rfl, -⟩ := h
  obtain ⟨v, t, hlead, hrest⟩ := Lower.of_bind hrun
  obtain ⟨_, t', hpart, -⟩ := Lower.of_bind hrest
  exact ⟨v, t, t', hlead, hpart⟩

/-- Making code comes to all blocks inside of a statement. -/
theorem Body.exists_calls (hblock : block ∈ x.inner)
    (hrun : lowerStmts env (x :: rest) s = .ok ((), u)) :
    ∃ t t', env.Calls (x :: rest, s) (block, t) ∧ lowerStmts env block t = .ok ((), t') := by
  cases x with
  | declare | eval | assign | «return» => cases hblock
  | branch span test y other =>
      cases other with
      | none =>
          obtain rfl := List.mem_singleton.1 hblock
          obtain ⟨v, t, t', hlead, hpart⟩ := amid_onTrue.split hrun
          exact ⟨t, t', .onTrue hlead, hpart⟩
      | some z =>
          rcases List.mem_cons.1 hblock with rfl | hblock
          · obtain ⟨v, t, t', hlead, hpart⟩ := amid_onTrue.split hrun
            exact ⟨t, t', .onTrue hlead, hpart⟩
          · obtain rfl := List.mem_singleton.1 hblock
            obtain ⟨v, t, t', hlead, hpart⟩ := amid_onFalse.split hrun
            exact ⟨t, t', .onFalse hlead, hpart⟩
  | loop span test y =>
      obtain rfl := List.mem_singleton.1 hblock
      obtain ⟨v, t, t', hlead, hpart⟩ := amid_repeated.split hrun
      exact ⟨t, t', .repeated hlead, hpart⟩
  | block span ys =>
      obtain rfl := List.mem_singleton.1 hblock
      obtain ⟨v, t, t', hlead, hpart⟩ := amid_block.split hrun
      exact ⟨t, t', .block hlead, hpart⟩

/-- Making code for a body comes to all statements that stand in it. -/
theorem Body.exists_comesTo (h : Stands items xs) (hrun : lowerStmts env xs s = .ok ((), u)) :
    ∃ t, env.ComesTo (xs, s) (items, t) := by
  induction h generalizing s u with
  | here => exact ⟨s, .refl⟩
  | behind _ ih =>
      obtain ⟨_, t, hfirst, hrest⟩ := Lower.of_bind hrun
      obtain ⟨t', hcomes⟩ := ih hrest
      exact ⟨t', .head (.behind hfirst) hcomes⟩
  | inside hblock _ ih =>
      obtain ⟨t, _, hcalls, hpart⟩ := Body.exists_calls hblock hrun
      obtain ⟨t', hcomes⟩ := ih hpart
      exact ⟨t', .head hcalls hcomes⟩

/-- What is made at once before some statements, and what is made behind them. -/
theorem Body.Calls.amid (h : env.Calls (xs, s) (ys, t)) : ∃ (β : Type) (lead : Lower β) (v : β),
    lead s = .ok (v, t) ∧ Amid lead (lowerStmts env ys) (lowerStmts env xs) := by
  cases h with
  | behind hlead => exact ⟨_, _, _, hlead, amid_behind⟩
  | block hlead => exact ⟨_, _, _, hlead, amid_block⟩
  | onTrue hlead => exact ⟨_, _, _, hlead, amid_onTrue⟩
  | onFalse hlead => exact ⟨_, _, _, hlead, amid_onFalse⟩
  | repeated hlead => exact ⟨_, _, _, hlead, amid_repeated⟩

/-- In a state a course has come to where some is known, and the code that is still to be made, from
`t'` on to `u`, leads to where nothing is left to be opened but what was at first. -/
structure Midway (b : Builder) (entries targets : List Nat) (t t' u : LowerState)
    (o o' : Outlook) : Prop where
  course : ∃ ms, t.builder = b.makeAll ms ∧ b.Course entries targets ms o'
  follow : ∃ follow : Lower Unit, follow t' = .ok ((), u) ∧
    Steers o'.blind follow fun _ => o.blind

/-- A course leads to whatever making code comes to. -/
theorem Body.ComesTo.midway (h : env.ComesTo (xs, s) (ys, t))
    (hc : b.Course entries targets ms o) (hs : s.builder = b.makeAll ms)
    (hrun : lowerStmts env xs s = .ok ((), u)) :
    ∃ t' o', lowerStmts env ys t = .ok ((), t') ∧ Midway b entries targets t t' u o o' := by
  generalize hx : (xs, s) = x at h
  induction h using Relation.ReflTransGen.head_induction_on generalizing xs s ms o u with
  | refl =>
      cases hx
      exact ⟨u, o, hrun, ⟨ms, hs, hc⟩, pure (), rfl, steers_pure .rfl⟩
  | @head _ c hcalls _ ih =>
      cases hx
      obtain ⟨zs, r⟩ := c
      obtain ⟨β, lead, v, hlead, follow, heq, hsteers⟩ := hcalls.amid
      obtain ⟨d, hbefore, hbehind⟩ := hsteers o
      rw [heq] at hrun
      obtain ⟨v', _, hlead', hrest⟩ := Lower.of_bind hrun
      cases Except.ok.inj (hlead.symm.trans hlead')
      obtain ⟨_, r', hpart, hfollow⟩ := Lower.of_bind hrest
      obtain ⟨ms', hmade, hcourse⟩ := hbefore _ _ _ _ _ _ _ hc hs hlead
      have hr : r.builder = b.makeAll (ms ++ ms') := by
        rw [hmade, hs, Builder.makeAll_append]
      obtain ⟨t', o', hrun', hcourse', follow', hfollow', hbehind'⟩ := ih hcourse hr hpart rfl
      refine ⟨t', o', hrun', hcourse', follow' >>= fun _ => follow v, ?_, ?_⟩
      · change (follow' t' >>= fun r => follow v r.2) = _
        rw [hfollow']
        exact hfollow
      · exact hbehind'.bind fun _ => hbehind v

/-- What is made behind a `return` is bypassed in the end. -/
theorem Midway.bypasses {span : Span} {value : Expr} {o' : Outlook} (hb : b.Fresh)
    (h : Midway b [] [] t s' u o o') (hreturn : lowerStmt env (.return span value) t = .ok ((), s))
    (hrest : lowerStmts env rest s = .ok ((), s')) :
    u.builder.procedure.Bypasses s.builder s'.builder := by
  obtain ⟨⟨ms, ht, hc⟩, follow, hfollow, hbehind⟩ := h
  obtain ⟨ms', hmade, h₁⟩ := steers_return _ _ _ _ _ _ _ hc ht hreturn
  have hs : s.builder = b.makeAll (ms ++ ms') := by
    rw [hmade, ht, Builder.makeAll_append]
  have hstart : s.builder.Course [] [] [] ⟨[], [], none⟩ := by
    refine .start (fun n hn => ?_) List.nodup_nil (by simp) (by simp) nofun
    rw [hs] at hn ⊢
    exact (h₁.becomes.current n hn).1
  obtain ⟨ms₂, hmade₂, h₂⟩ := steers_stmts rest _ _ _ _ _ _ _ hstart rfl hrest
  have hrestart := Builder.Course.restart h₁ hs rfl h₂ hmade₂
  obtain ⟨ms₃, hmade₃, h₃⟩ := hbehind _ _ _ _ _ _ _ hrestart rfl hfollow
  exact Builder.Course.bypasses hb h₁ hs rfl h₂ hmade₂ h₃ hmade₃

end comes

section programs

variable {α β : Type} {o : Outlook} {body env : Body} {p : Program} {r : Routine} {m : Module}
  {source : String} {s start : LowerState} {q : Procedure}

theorem steers_mapM {f : α → Lower β} {l : List α} (hf : ∀ a, Steers o (f a) fun _ => o) :
    Steers o (l.mapM f) fun _ => o := by
  induction l with
  | nil => exact steers_pure .rfl
  | cons a l ih =>
      rw [List.mapM_cons]
      exact (hf a).bind fun _ => ih.bind fun _ => steers_pure .rfl

theorem steers_enterBody {isMethod : Bool} {f : FunctionDecl} :
    Steers o (enterBody body isMethod f) fun _ => o := by
  refine steers_get.bind fun _ => .bind (steers_mapM fun (temp, decl) => ?_) fun _ =>
    .bind (steers_mapM fun decl => ?_) fun _ => steers_pure .rfl
  · exact steers_typeOfOperand.bind fun _ => steers_slot.bind fun _ => steers_store.bind fun _ =>
      steers_pure .rfl
  · exact steers_lowerTypeExpr.bind fun _ => steers_slot.bind fun _ => steers_store.bind fun _ =>
      steers_pure .rfl

theorem IR.Builder.fresh_start (hq : q.blocks = #[]) (entry : String) :
    (Builder.start q entry).Fresh := by
  have hblocks := blocks_start entry hq
  refine ⟨by rw [Builder.size, hblocks]; exact Nat.one_pos, fun n c hc => ?_⟩
  rw [Builder.block?, hblocks] at hc
  cases n with
  | zero =>
      cases hc
      rfl
  | succ n => cases hc

/-- The code of a function or a method becomes a procedure: its variables get their places at the
start of a procedure without code, and then code is made for its statements. -/
structure Routine.Becomes (r : Routine) (body env : Body) (start : LowerState) (q : Procedure) :
    Prop where
  begins : ∃ q₀ s, q₀.blocks = #[] ∧ s.builder = Builder.start q₀ "entry" ∧
    enterBody body r.owner.isSome r.decl s = .ok (env, start)
  ends : ∃ s', lowerStmts env r.decl.body start = .ok ((), s') ∧ s'.builder.procedure = q

theorem Routine.Made.exists_becomes {s₁ s₂ : LowerState} (h : r.Made p body s₁ s₂) :
    ∃ env start, r.Becomes body env start s₂.builder.procedure := by
  have hran := h.ran
  rw [lowerBody_eq_enterBody] at hran
  obtain ⟨env, start, henter, hstmts⟩ := Lower.of_bind hran
  obtain ⟨q₀, _, _, hbare, _, hstart⟩ := h.start
  exact ⟨env, start, ⟨q₀, s₁, hbare.blocks, hstart, henter⟩, s₂, hstmts, rfl⟩

/-- In what a function or a method becomes, all that is made behind a `return` is bypassed. -/
theorem Routine.Becomes.bypasses (h : r.Becomes body env start q) {span : Span} {value : Expr}
    {rest : List Stmt} {t : LowerState}
    (hcomes : env.ComesTo (r.decl.body, start) (.return span value :: rest, t)) :
    ∃ s s', lowerStmt env (.return span value) t = .ok ((), s) ∧
      lowerStmts env rest s = .ok ((), s') ∧ q.Bypasses s.builder s'.builder := by
  obtain ⟨⟨q₀, s₀, hblocks, hs₀, henter⟩, u, hran, rfl⟩ := h
  have hfresh := Builder.fresh_start hblocks "entry"
  have hfirst : (Builder.start q₀ "entry").Course [] [] [] ⟨[], [], none⟩ := by
    refine .start ?_ List.nodup_nil (by simp) (by simp) nofun
    rintro _ ⟨⟩
    exact ⟨_, Array.getElem?_push_size, rfl⟩
  obtain ⟨ms, hmade, hcourse⟩ := steers_enterBody _ _ _ _ _ _ _ hfirst hs₀ henter
  have hstart : start.builder = (Builder.start q₀ "entry").makeAll ([] ++ ms) := by
    rw [hmade, hs₀]
    rfl
  obtain ⟨t', o', hrun, hmidway⟩ := Body.ComesTo.midway hcomes hcourse hstart hran
  obtain ⟨_, s, hreturn, hrest⟩ := Lower.of_bind hrun
  exact ⟨s, t', hreturn, hrest, hmidway.bypasses hfresh hreturn hrest⟩

/-- Dead code stays dead. In an accepted program, code for a function or a method comes to each
`return` that stands in it, wherever that is. What is then made for the statements behind it in its
block leaves all older blocks as they are, but for slots of the entry block. In the procedure of the
module no older block leads to a block that was made for them, and there is no way to any of these
from the entry block. -/
theorem compile_bypasses (options : CompileOptions) (hp : Program.ofText source = .ok p)
    (ha : (p.analyze options.printFunction).isAccepted = true) (hr : r.Belongs p) :
    ∃ m body sg q env start, compile source options = .ok m ∧
      body.analysis = p.analyze options.printFunction ∧
      body.layouts = (Layouts.build p (p.analyze options.printFunction) {}).1 ∧
      body.options = options ∧ body.layouts.signature? r = some sg ∧
      m.procedures[sg.procedure]? = some q ∧ r.Becomes body env start q ∧
      ∀ span value rest, Stands (.return span value :: rest) r.decl.body →
        (∃ t, env.ComesTo (r.decl.body, start) (.return span value :: rest, t)) ∧
        ∀ t, env.ComesTo (r.decl.body, start) (.return span value :: rest, t) →
          ∃ s s', lowerStmt env (.return span value) t = .ok ((), s) ∧
            lowerStmts env rest s = .ok ((), s') ∧ q.Bypasses s.builder s'.builder := by
  obtain ⟨body, routines, s, hanalysis, hlayouts, hoptions, hcompiled, hlower⟩ :=
    (Program.accepted hp ha).exists_compiled options
  obtain ⟨sg, hsg, s₁, s₂, hmade, -, -, -, hq⟩ := hcompiled.exists_coded hr
  obtain ⟨env, start, hbecomes⟩ := hmade.exists_becomes
  have hcompile : compile source options = .ok s.target.module := by
    rw [compile, hp]
    change p.compile options = _
    rw [Program.compile, if_pos ha, hlower]
    rfl
  refine ⟨_, body, sg, _, env, start, hcompile, hanalysis, hlayouts, hoptions, hsg, hq, hbecomes,
    fun span value rest hstands => ⟨?_, fun t ht => hbecomes.bypasses ht⟩⟩
  obtain ⟨u, hran, -⟩ := hbecomes.ends
  exact Body.exists_comesTo hstands hran

end programs

/-- A loop whose body goes on behind a `return`, with a conditional statement, a loop, a division
and one more `return`. -/
def leavingText : String :=
  "int main() \x7b while (1 < 2) \x7b return 1; if (true && false) return 4 / 2; " ++
    "else while (2 < 1) { } \x7d return 0; \x7d"

theorem compile_bypasses_loop : ∃ p d span value x rest m q, Program.ofText leavingText = .ok p ∧
    (p.analyze "printInt").isAccepted = true ∧ Routine.Belongs p ⟨none, d⟩ ∧
    Stands (.return span value :: x :: rest) d.body ∧ compile leavingText {} = .ok m ∧
    q ∈ m.procedures ∧ ∃ body env start t s s',
      Routine.Becomes ⟨none, d⟩ body env start q ∧
      env.ComesTo (d.body, start) (.return span value :: x :: rest, t) ∧
      lowerStmt env (.return span value) t = .ok ((), s) ∧
      lowerStmts env (x :: rest) s = .ok ((), s') ∧ q.Bypasses s.builder s'.builder := by
  obtain ⟨p, d, hp, ha, hr, hread⟩ := exists_function_of_any leavingText (fun d =>
    ((d.body.flatMap Stmt.inner).flatten.flatMap Stmt.inner).any fun items =>
      items.head?.any Stmt.isReturn && decide (1 < items.length)) (by decide +kernel)
  -- A block of the body of a loop starts with a return that is not its end.
  obtain ⟨items, hitems, hshape⟩ := List.any_eq_true.1 hread
  obtain ⟨y, hy, hitems⟩ := List.mem_flatMap.1 hitems
  obtain ⟨block, hblock, hy⟩ := List.mem_flatten.1 hy
  obtain ⟨z, hz, hblock⟩ := List.mem_flatMap.1 hblock
  have hstands : Stands items d.body := .of_mem hz hblock (.of_mem hy hitems .here)
  obtain ⟨hreturns, hmore⟩ := Bool.and_eq_true_iff.1 hshape
  obtain ⟨first, x, rest, rfl⟩ : ∃ first x rest, items = first :: x :: rest := by
    rcases items with _ | ⟨first, _ | ⟨x, rest⟩⟩
    · cases hmore
    · cases hmore
    · exact ⟨first, x, rest, rfl⟩
  obtain ⟨span, value, rfl⟩ := Stmt.isReturn_iff.1 (Option.any_some.symm.trans hreturns)
  obtain ⟨m, body, sg, q, env, start, hm, -, -, -, -, hq, hbecomes, hdead⟩ :=
    compile_bypasses {} hp ha hr
  obtain ⟨⟨t, ht⟩, hall⟩ := hdead span value _ hstands
  obtain ⟨s, s', hreturn, hrest, hbypasses⟩ := hall t ht
  exact ⟨p, d, span, value, x, rest, m, q, hp, ha, hr, hstands, hm,
    Array.mem_iff_getElem?.2 ⟨_, hq⟩, body, env, start, t, s, s', hbecomes, ht, hreturn, hrest,
    hbypasses⟩

end ObjectLang
