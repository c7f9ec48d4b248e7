import Mathlib.Tactic
import ObjectLang.Proofs.Lowering.Operators
import ObjectLang.Proofs.Simulation.Calls

/-!
# The meaning of code for operators

The code for an expression simulates its evaluation and ends with an operand that holds the value.
Shown here for constants, the receiver and operators, provided that it is so for their operands.
-/
namespace ObjectLang

open Machine IR

/-- A place of the body that code is made for. -/
structure Job.Sees (J : Job) (Γ : Context) : Prop where
  program : Γ.program = J.program
  printName : Γ.printName = J.printName
  current : Γ.current = J.current
  locals : ∀ d ∈ Γ.locals, ∃ slot, (d, slot) ∈ J.vars

/-- A piece of code simulates an evaluation, as long as all procedures serve. -/
def Job.Evaluates {α : Type} (J : Job) (s s' : LowerState)
    (x : Invoke → Option Datum → Locals → Eval α) (Q : Act → α → Census → Config → Prop) : Prop :=
  J.Runs s s' fun A locals θ σ μ => ∀ (invoke : Invoke) (n : Nat), A.Answers invoke n →
    A.Evaluates (n + 1) locals s s' θ μ (x invoke A.self locals σ) (Q A)

/-- The code for an expression computes its value. -/
def Job.Lowers (J : Job) (Γ : Context) (e : Expr) : Prop :=
  ∀ t pending s, HasType Γ e t → J.Stage pending s → Does (lowerExpr J.body e) s fun x s' =>
    J.Goes pending s s' ∧ J.Typed s' x t ∧
      J.Evaluates s s' (fun invoke self locals => evalExpr invoke Γ self locals e)
        fun A v θ μ => A.Holds θ μ x t v

variable {J : Job} {Γ : Context} {pending : List Nat} {s s' : LowerState} {t u w : PlainType}

-- The equations of both functions are worked out here, once for the lemmas that follow.
attribute [local simp] lowerExpr evalExpr

/-- An operand that needs no code. -/
theorem does_constant {e : Expr} {x : Operand} {v : Datum} (hs : J.Stage pending s)
    (hx : J.Typed s x t) (heval : ∀ invoke self locals, evalExpr invoke Γ self locals e = pure v)
    (hv : ∀ A θ μ, Act.Holds A θ μ x t v) :
    Does (pure x : Lower Operand) s fun x s' => J.Goes pending s s' ∧ J.Typed s' x t ∧
      J.Evaluates s s' (fun invoke self locals => evalExpr invoke Γ self locals e)
        fun A v θ μ => A.Holds θ μ x t v := by
  refine does_pure ⟨⟨.rfl, hs, id⟩, hx, ?_⟩
  intro A hA hB ho locals θ σ μ hrun invoke n hans
  simp only [heval]
  exact (Act.Passes.refl (Q := fun _ => True) hrun trivial).returns fun μ' _ => hv A θ μ'

theorem lowers_number {tag : Tag} {value : Nat} : J.Lowers Γ (.number tag value) := by
  intro t pending s ht hs
  cases ht
  exact does_constant hs ⟨.int, rfl, .int⟩ (fun _ _ _ => rfl) fun _ _ _ => ⟨_, rfl, .int⟩

theorem lowers_bool {tag : Tag} {value : Bool} : J.Lowers Γ (.bool tag value) := by
  intro t pending s ht hs
  cases ht
  exact does_constant hs ⟨.bool, rfl, .bool⟩ (fun _ _ _ => rfl) fun _ _ _ => ⟨_, rfl, .bool⟩

theorem lowers_null {tag : Tag} : J.Lowers Γ (.null tag) := by
  intro t pending s ht hs
  cases ht
  exact does_constant hs ⟨.null, rfl, .null⟩ (fun _ _ _ => rfl)
    fun _ _ _ => ⟨_, rfl, .null (.refl _)⟩

theorem lowers_this {tag : Tag} (hΓ : J.Sees Γ) : J.Lowers Γ (.this tag) := by
  intro t pending s ht hs
  cases ht with
  | @this _ cls hcls =>
      obtain ⟨temp, hthis, htyped⟩ := hs.receiver cls (hΓ.current ▸ hcls)
      rw [lowerExpr]
      refine Does.seq (does_known hthis (does_pure ⟨⟨.rfl, hs, id⟩, htyped, ?_⟩))
      intro A hA hB ho locals θ σ μ hrun invoke n hans
      subst hA
      obtain ⟨r, c', mv, hself, hc', htemp, hshows⟩ := hrun.self temp hthis
      obtain rfl : c' = cls := Option.some.inj (hc'.symm.trans (hΓ.current ▸ hcls))
      simp only [evalExpr, hself]
      refine (Act.Passes.refl (Q := fun μ' => μ'.temps[temp]? = some (some mv)) hrun
        htemp).returns fun μ' htemp' => ⟨mv, ?_, hshows⟩
      rw [Config.value?, htemp']
      rfl

section unary

variable {tag : Tag} {e : Expr} (he : J.Lowers Γ e)
include he

theorem lowers_neg : J.Lowers Γ (.unary tag .neg e) := by
  intro t pending s ht hs
  cases ht with
  | neg ht =>
      rw [lowerExpr]
      refine (he _ _ _ ht hs).bind fun x s₁ hx => ?_
      obtain ⟨hg₁, hx, hruns₁⟩ := hx
      refine (does_binary hg₁.stage .sub (.int 0) x ⟨rfl, hx.int⟩).mono fun z s₂ hz => ?_
      obtain ⟨rfl, hd₂, h₂⟩ := hz
      refine ⟨hg₁.trans (hd₂.toEmits.goes h₂), ⟨.int, hd₂.typed, .int⟩, ?_⟩
      intro A hA hB ho locals θ σ μ hrun invoke n hans
      subst hA
      obtain ⟨c, hc⟩ := hg₁.isOpen ho
      simp only [evalExpr]
      refine (hruns₁ A rfl (hd₂.leads.before hB) ho locals θ σ μ hrun invoke n hans).bind hg₁.leads
        fun v θ₁ σ₁ μ₁ hrun₁ hf₁ hv => ?_
      obtain ⟨a, rfl, hva⟩ := hv.int
      refine (Act.passes_binary hrun₁ hg₁.stage hd₂ hB hc (x := .int 0) rfl hva .sub).returns
        fun μ' hz => ⟨_, hz, ?_⟩
      rw [Int32.zero_sub]
      exact .int

theorem lowers_not : J.Lowers Γ (.unary tag .not e) := by
  intro t pending s ht hs
  cases ht with
  | not ht =>
      rw [lowerExpr]
      refine (he _ _ _ ht hs).bind fun x s₁ hx => ?_
      obtain ⟨hg₁, hx, hruns₁⟩ := hx
      refine (does_binary hg₁.stage .eq (.bool false) x
        ⟨_, _, rfl, hx.bool, .inl rfl⟩).mono fun z s₂ hz => ?_
      obtain ⟨rfl, hd₂, h₂⟩ := hz
      refine ⟨hg₁.trans (hd₂.toEmits.goes h₂), ⟨.bool, hd₂.typed, .bool⟩, ?_⟩
      intro A hA hB ho locals θ σ μ hrun invoke n hans
      subst hA
      obtain ⟨c, hc⟩ := hg₁.isOpen ho
      simp only [evalExpr]
      refine (hruns₁ A rfl (hd₂.leads.before hB) ho locals θ σ μ hrun invoke n hans).bind hg₁.leads
        fun v θ₁ σ₁ μ₁ hrun₁ hf₁ hv => ?_
      obtain ⟨b, rfl, hvb⟩ := hv.bool
      refine (Act.passes_binary hrun₁ hg₁.stage hd₂ hB hc (x := .bool false) rfl hvb .eq).returns
        fun μ' hz => ⟨_, hz, ?_⟩
      cases b <;> exact .bool

end unary

section binary

variable {tag : Tag} {l r : Expr} (hl : J.Lowers Γ l) (hr : J.Lowers Γ r)
include hl hr

/-- Two operands, and then what is made of them. -/
theorem does_operands {f : Operand → Operand → Lower Operand} {g : Datum → Datum → Eval Datum}
    (ht : HasType Γ l t) (hu : HasType Γ r u) (hs : J.Stage pending s)
    (hf : ∀ x y s₁, J.Typed s₁ x t → J.Typed s₁ y u → J.Stage pending s₁ →
      Does (f x y) s₁ fun z s' => J.Goes pending s₁ s' ∧ J.Typed s' z w ∧
        J.Runs s₁ s' fun A locals θ σ μ => ∀ n v v', A.Holds θ μ x t v → A.Holds θ μ y u v' →
          A.Evaluates n locals s₁ s' θ μ (g v v' σ) fun v θ' μ' => A.Holds θ' μ' z w v) :
    Does (do
      let x ← lowerExpr J.body l
      let y ← lowerExpr J.body r
      f x y) s fun z s' => J.Goes pending s s' ∧ J.Typed s' z w ∧
        J.Evaluates s s' (fun invoke self locals => do
          let v ← evalExpr invoke Γ self locals l
          let v' ← evalExpr invoke Γ self locals r
          g v v') fun A v θ μ => A.Holds θ μ z w v := by
  refine (hl _ _ _ ht hs).bind fun x s₁ hx => ?_
  obtain ⟨hg₁, hx, hruns₁⟩ := hx
  refine (hr _ _ _ hu hg₁.stage).bind fun y s₂ hy => ?_
  obtain ⟨hg₂, hy, hruns₂⟩ := hy
  refine (hf x y s₂ (hx.mono hg₂.leads) hy hg₂.stage).mono fun z s₃ hz => ?_
  obtain ⟨hg₃, hz, hruns₃⟩ := hz
  refine ⟨(hg₁.trans hg₂).trans hg₃, hz, ?_⟩
  intro A hA hB ho locals θ σ μ hrun invoke n hans
  have hB₂ := hg₃.leads.before hB
  have ho₁ := hg₁.isOpen ho
  refine (hruns₁ A hA (hg₂.leads.before hB₂) ho locals θ σ μ hrun invoke n hans).bind hg₁.leads
    fun v θ₁ σ₁ μ₁ hrun₁ hf₁ hv => ?_
  refine (hruns₂ A hA hB₂ ho₁ locals θ₁ σ₁ μ₁ hrun₁ invoke n hans).bind hg₂.leads
    fun v' θ₂ σ₂ μ₂ hrun₂ hf₂ hv' => ?_
  exact hruns₃ A hA hB (hg₂.isOpen ho₁) locals θ₂ σ₂ μ₂ hrun₂ (n + 1) v v'
    (hv.follows hf₂ hx.fits) hv'

/-- An operator on numbers that is one operation of the machine. -/
theorem lowers_operation {op : BinaryOp} (operation : Operation) (hop : op ≠ .and)
    (hw : ∀ T, J.Represents T w operation.resultType)
    (hoperates : ∀ (p : Procedure) x y, p.typeOf? x = some .int → p.typeOf? y = some .int →
      p.Operates operation x y)
    (hoperands : HasType Γ l .int ∧ HasType Γ r .int)
    (happly : ∀ a b, ∃ v mv, op.apply tag.span (.int a) (.int b) = pure v ∧
      Computes operation (.int a) (.int b) mv ∧ ∀ θ, Shows J.program θ v w mv)
    (hs : J.Stage pending s) :
    Does (do
      let x ← lowerExpr J.body l
      let y ← lowerExpr J.body r
      compute (·.binary operation x y)) s fun z s' => J.Goes pending s s' ∧ J.Typed s' z w ∧
        J.Evaluates s s' (fun invoke self locals =>
          evalExpr invoke Γ self locals (.binary tag op l r)) fun A v θ μ => A.Holds θ μ z w v := by
  have heval : ∀ invoke self locals, evalExpr invoke Γ self locals (.binary tag op l r) = (do
      let v ← evalExpr invoke Γ self locals l
      let v' ← evalExpr invoke Γ self locals r
      op.apply tag.span v v') := by
    intro invoke self locals
    cases op with
    | and => exact (hop rfl).elim
    | _ => rfl
  simp only [heval]
  refine does_operands hl hr hoperands.1 hoperands.2 hs fun x y s₁ hx hy h₁ => ?_
  refine (does_binary h₁ operation x y (hoperates _ x y hx.int hy.int)).mono fun z s₂ hz => ?_
  obtain ⟨rfl, hd₂, h₂⟩ := hz
  refine ⟨hd₂.toEmits.goes h₂, ⟨_, hd₂.typed, hw _⟩, ?_⟩
  intro A hA hB ⟨c, hc⟩ locals θ σ μ hrun n v v' hv hv'
  subst hA
  obtain ⟨a, rfl, hva⟩ := hv.int
  obtain ⟨b, rfl, hvb⟩ := hv'.int
  obtain ⟨v, mv, heq, hcomputes, hshows⟩ := happly a b
  rw [heq]
  exact (Act.passes_binary hrun h₁ hd₂ hB hc hva hvb hcomputes).returns
    fun μ' hz => ⟨mv, hz, hshows θ⟩

theorem lowers_add : J.Lowers Γ (.binary tag .add l r) := by
  intro t pending s ht hs
  cases ht with
  | arithmetic _ hl' hr' =>
      rw [lowerExpr]
      exact lowers_operation hl hr .add nofun (fun _ => .int)
        (fun _ _ _ hx hy => ⟨hx, hy⟩) ⟨hl', hr'⟩
        (fun a b => ⟨_, _, rfl, .add, fun _ => .int⟩) hs

theorem lowers_sub : J.Lowers Γ (.binary tag .sub l r) := by
  intro t pending s ht hs
  cases ht with
  | arithmetic _ hl' hr' =>
      rw [lowerExpr]
      exact lowers_operation hl hr .sub nofun (fun _ => .int)
        (fun _ _ _ hx hy => ⟨hx, hy⟩) ⟨hl', hr'⟩
        (fun a b => ⟨_, _, rfl, .sub, fun _ => .int⟩) hs

theorem lowers_mul : J.Lowers Γ (.binary tag .mul l r) := by
  intro t pending s ht hs
  cases ht with
  | arithmetic _ hl' hr' =>
      rw [lowerExpr]
      exact lowers_operation hl hr .mul nofun (fun _ => .int)
        (fun _ _ _ hx hy => ⟨hx, hy⟩) ⟨hl', hr'⟩
        (fun a b => ⟨_, _, rfl, .mul, fun _ => .int⟩) hs

theorem lowers_less : J.Lowers Γ (.binary tag .less l r) := by
  intro t pending s ht hs
  cases ht with
  | less hl' hr' =>
      rw [lowerExpr]
      exact lowers_operation hl hr .slt nofun (fun _ => .bool) (fun _ _ _ hx hy => ⟨hx, hy⟩)
        ⟨hl', hr'⟩
        (fun a b => ⟨_, _, rfl, .slt, fun _ => .bool⟩) hs
  | arithmetic hop => cases hop

theorem lowers_div : J.Lowers Γ (.binary tag .div l r) := by
  intro t pending s ht hs
  cases ht with
  | arithmetic _ hl' hr' =>
      rw [lowerExpr]
      refine does_operands hl hr hl' hr' hs fun x y s₁ hx hy h₁ => ?_
      refine (does_quotient h₁ hx.int hy.int tag.span).mono fun z s₂ hz => ?_
      obtain ⟨hg₂, hz, hruns₂⟩ := hz
      refine ⟨hg₂, hz, ?_⟩
      intro A hA hB ho locals θ σ μ hrun n v v' hv hv'
      obtain ⟨a, rfl, hva⟩ := hv.int
      obtain ⟨b, rfl, hvb⟩ := hv'.int
      obtain ⟨hzero, hdivide⟩ := hruns₂ A hA hB ho locals θ σ μ hrun a b hva hvb
      simp only [BinaryOp.apply]
      split_ifs with hb
      · exact (hzero hb).simulates
      · exact (hdivide hb).returns fun μ' hz => ⟨_, hz, .int⟩

theorem lowers_equal (hΓ : J.Sees Γ)
    (htype : ∃ T U, J.body.analysis.notes.type? l.id = some T ∧
      J.body.analysis.notes.type? r.id = some U) : J.Lowers Γ (.binary tag .equal l r) := by
  intro t pending s ht hs
  obtain ⟨T, U, hT, hU⟩ := htype
  cases ht with
  | equal hl' hr' htu =>
      rw [lowerExpr]
      refine does_operands hl hr hl' hr' hs fun x y s₁ hx hy h₁ => ?_
      refine Does.seq (does_known hT (Does.seq (does_known hU ?_)))
      refine (does_equality h₁ hx hy T U (hΓ.program ▸ htu)).mono fun z s₂ hz => ?_
      obtain ⟨hg₂, hz, hruns₂⟩ := hz
      refine ⟨hg₂, hz, ?_⟩
      intro A hA hB ho locals θ σ μ hrun n v v' hv hv'
      exact (hruns₂ A hA hB ho locals θ σ μ hrun v v' hv hv').returns
        fun μ' hz => ⟨_, hz, .bool⟩
  | arithmetic hop => cases hop

/-- The right side runs only if the left side is true. -/
theorem lowers_and : J.Lowers Γ (.binary tag .and l r) := by
  intro t pending s ht hs
  cases ht with
  | arithmetic hop => cases hop
  | and hl' hr' =>
      rw [lowerExpr]
      refine (does_scratch hs (t := .bool) .bool).bind fun slot s₁ hz => ?_
      obtain ⟨hstays₁, h₁, hslot, halloca, hvars⟩ := hz
      refine (hl _ _ _ hl' h₁).bind fun x s₂ hx => ?_
      obtain ⟨hg₂, hx, hruns₂⟩ := hx
      refine (does_store hg₂.stage (hg₂.leads.typeOf? hslot) (.inl hx.bool)).bind fun _ s₃ hz => ?_
      obtain ⟨he₃, h₃⟩ := hz
      apply Does.seq
      refine does_newBlock h₃ fun s₄ hstays₄ h₄ => ?_
      apply Does.seq
      refine does_newBlock h₄ fun s₅ hstays₅ h₅ => ?_
      have hl₅ := he₃.leads.trans (hstays₄.leads.trans hstays₅.leads)
      have hfits : (Terminator.branch x s₃.builder.procedure.blocks.size
          s₄.builder.procedure.blocks.size).Fits s₅.builder.procedure :=
        .branch (hl₅.typeOf? hx.bool)
          (h₅.builder.lt_of_mem (List.mem_cons_of_mem _ (List.mem_cons_self ..)))
          (h₅.builder.lt_of_mem (List.mem_cons_self ..))
      apply Does.seq
      refine does_terminate h₅ hfits fun s₆ he₆ h₆ => ?_
      apply Does.seq
      refine does_switchTo (h₆.perm (List.Perm.swap _ _ _)) he₆.current fun s₇ he₇ h₇ => ?_
      refine (hr _ _ _ hr' h₇).bind fun y s₈ hy => ?_
      obtain ⟨hg₈, hy, hruns₈⟩ := hy
      have hl₂ := hstays₁.leads.trans hg₂.leads
      have hl₇ := hl₅.trans (he₆.leads.trans he₇.leads)
      have hl₈ := hg₂.leads.trans (hl₇.trans hg₈.leads)
      refine (does_join hg₈.stage (t := .bool) .bool (hl₈.typeOf? hslot)
        (hl₈.procedure.slots.subset halloca) hvars hy.bool).mono fun z s' hz => ?_
      obtain ⟨hl', h', ho', htyped, hjoin, q, q', hq, hlq, hlq', hload⟩ := hz
      refine ⟨⟨(hstays₁.leads.trans hl₈).trans hl', h', fun _ => ho'⟩, htyped, ?_⟩
      intro A hA hB ⟨c, hc⟩ locals θ σ μ hrun invoke n hans
      subst hA
      have hB₈ := hl'.before hB
      have hB₇ := hg₈.leads.before hB₈
      have hB₆ := he₇.leads.before hB₇
      have hB₅ := he₆.leads.before hB₆
      have hB₃ := (hstays₄.leads.trans hstays₅.leads).before hB₅
      have hB₂ := he₃.leads.before hB₃
      have ho₁ : s₁.IsOpen := ⟨c, hstays₁.current.trans hc⟩
      obtain ⟨c₂, hc₂⟩ := hg₂.isOpen ho₁
      have hc₅ : s₅.builder.current = some c₂ :=
        hstays₅.current.trans (hstays₄.current.trans (he₃.current.trans hc₂))
      have hsl := hB₂.procedure.slots.subset (hg₂.leads.procedure.slots.subset halloca)
      simp only [evalExpr]
      refine (Act.Passes.stays hrun hstays₁).evaluates hstays₁.leads fun μ₁ hrun₁ hf₁ hμ₁ => ?_
      refine (hruns₂ A rfl hB₂ ho₁ locals θ σ μ₁ hrun₁ invoke n hans).bind hg₂.leads
        fun v θ₂ σ₂ μ₂ hrun₂ hf₂ hv => ?_
      obtain ⟨b, rfl, hvb⟩ := hv.bool
      obtain ⟨_, hcovers, _⟩ := hrun₂.slots slot .bool hsl
      refine (Act.passes_scratch hrun₂ hg₂.stage he₃ hB₃ hc₂ hvb hsl hvars).evaluates he₃.leads
        fun μ₃ hrun₃ hf₃ hμ₃ => ?_
      have hget : μ₃.memory.get? ⟨A.place slot, 0⟩ = some (.bool b) := by
        rw [hμ₃]
        exact Memory.get?_put_self hcovers
      have hvb₃ := (hf₃.value? hx.fits).trans hvb
      have hat : A.at s₃.builder μ₃ = A.at s₅.builder μ₃ := by
        rw [Act.at, Act.at, hstays₅.point, hstays₄.point]
      cases b with
      | true =>
          have hstep := Act.steps_branch (A := A) he₆ hB₆ hc₅ hvb₃ he₇ hB₇
          have hpass : A.Passes locals s₃ s₇ θ₂ σ₂ μ₃ fun μ' => μ' = μ₃ :=
            ⟨1, μ₃, hat ▸ hstep, hrun₃, .rfl, rfl⟩
          refine hpass.evaluates ((hstays₄.leads.trans hstays₅.leads).trans
            (he₆.leads.trans he₇.leads)) fun μ₇ hrun₇ hf₇ hμ₇ => ?_
          refine (hruns₈ A rfl hB₈ ⟨_, he₇.current⟩ locals θ₂ σ₂ μ₇ hrun₇ invoke n hans).bind
            hg₈.leads fun w θ₈ σ₈ μ₈ hrun₈ hf₈ hw => ?_
          obtain ⟨b, rfl, hwb⟩ := hw.bool
          exact (hjoin A rfl hB (hg₈.isOpen ⟨_, he₇.current⟩) locals θ₈ σ₈ μ₈ hrun₈ _ hwb).returns
            fun μ' hz => ⟨_, hz, .bool⟩
      | false =>
          have hstep := Act.steps_branch (A := A) he₆ hB₆ hc₅ hvb₃ hq (hlq'.before hB)
          obtain ⟨k, μ', hsteps, hrun', hf', hv'⟩ :=
            hload A rfl hB ⟨_, hq.current⟩ locals θ₂ σ₂ μ₃ hrun₃ _ hget
          have hpass : A.Passes locals s₃ s' θ₂ σ₂ μ₃ fun μ' =>
              μ'.value? z = some (.bool false) := by
            refine ⟨1 + k, μ', (hat ▸ hstep).trans hsteps, hrun', .trans .rfl hf' ?_, hv'⟩
            exact ((hstays₄.leads.trans hstays₅.leads).trans ((he₆.leads.trans he₇.leads).trans
              (hg₈.leads.trans hlq))).next_le
          exact hpass.returns fun μ' hz => ⟨_, hz, .bool⟩

end binary

end ObjectLang
