import Mathlib.Tactic
import ObjectLang.Proofs.Lowering.Locations

/-!
# The meaning of code for calls

The arguments of a call are computed one after the other, behind the receiver and its check. Each is
cast to the type of its parameter, which leaves its value as it is.
-/
namespace ObjectLang

open Machine IR

variable {J : Job} {Γ : Context} {pending : List Nat} {s s' : LowerState} {t u : PlainType}
  {args : List Expr}

theorem Act.Follows.values {A : Act} {lo : Nat} {θ θ' : Census} {μ μ' : Config}
    (h : A.Follows lo θ μ θ' μ') {xs : List Operand} {mvs : List Value}
    (hxs : ∀ x ∈ xs, x.Fits lo) (hv : List.Forall₂ (fun x v => μ.value? x = some v) xs mvs) :
    List.Forall₂ (fun x v => μ'.value? x = some v) xs mvs := by
  induction hv with
  | nil => exact .nil
  | cons hx _ ih =>
      simp only [List.forall_mem_cons] at hxs
      exact .cons ((h.value? hxs.1).trans hx) (ih hxs.2)

/-- The code for arguments computes their values. -/
def Job.LowersArguments (J : Job) (Γ : Context) (es : List Expr) : Prop :=
  ∀ us params pending s, HaveTypes Γ es us → List.Forall₂ (J.Represents s.target) us params →
    J.Stage pending s → Does (lowerArguments J.body es params) s fun xs s' =>
      J.Goes pending s s' ∧ List.Forall₂ s'.builder.procedure.Passes xs params ∧
        J.Evaluates s s' (fun invoke self locals => evalArguments invoke Γ self locals es)
          fun _ vs θ μ => ∃ mvs, List.Forall₂ (fun x v => μ.value? x = some v) xs mvs ∧
            ShowAll J.program θ vs us mvs

theorem lowers_nil : J.LowersArguments Γ [] := by
  intro us params pending s ht hparams hs
  cases ht
  cases hparams
  rw [lowerArguments]
  refine does_pure ⟨⟨.rfl, hs, id⟩, .nil, ?_⟩
  · intro A hA hB ho locals θ σ μ hrun invoke n hans
    exact (Act.Passes.refl (Q := fun _ => True) hrun trivial).returns
      fun μ' _ => ⟨[], .nil, .nil⟩
  · simp

theorem lowers_cons {e : Expr} {es : List Expr} (hΓ : J.Sees Γ) (he : J.Lowers Γ e)
    (hes : J.LowersArguments Γ es) : J.LowersArguments Γ (e :: es) := by
  intro us params pending s ht hparams hs
  cases ht with
  | @cons _ _ t u us ht hsub hts =>
      cases hparams with
      | @cons _ type _ params hu hus =>
          rw [hΓ.program] at hsub
          rw [lowerArguments]
          refine (he _ _ _ ht hs).bind fun x s₁ hx => ?_
          obtain ⟨hg₁, hx, hruns₁⟩ := hx
          refine (does_upcast hg₁.stage hx (hu.mono hg₁.leads.target.arrays) hsub).bind
            fun y s₂ hy => ?_
          obtain ⟨hg₂, hy, hruns₂⟩ := hy
          have hl₂ := hg₁.leads.trans hg₂.leads
          refine (hes us params pending s₂ hts (hus.imp fun _ _ hr => hr.mono hl₂.target.arrays)
            hg₂.stage).bind fun ys s₃ hys => ?_
          obtain ⟨hg₃, hys, hruns₃⟩ := hys
          refine does_pure ⟨(hg₁.trans hg₂).trans hg₃, .cons (hg₃.leads.passes hy) hys, ?_⟩
          intro A hA hB ho locals θ σ μ hrun invoke n hans
          subst hA
          have hB₂ := hg₃.leads.before hB
          have hB₁ := hg₂.leads.before hB₂
          have ho₁ := hg₁.isOpen ho
          simp only [evalArguments]
          refine (hruns₁ A rfl hB₁ ho locals θ σ μ hrun invoke n hans).bind hg₁.leads
            fun v θ₁ σ₁ μ₁ hrun₁ hf₁ hv => ?_
          obtain ⟨mv, hmv, hshows⟩ := hv
          refine (hruns₂ A rfl hB₂ ho₁ locals θ₁ σ₁ μ₁ hrun₁ v mv hshows hmv).evaluates hg₂.leads
            fun μ₂ hrun₂ hf₂ hmv₂ => ?_
          refine (hruns₃ A rfl hB (hg₂.isOpen ho₁) locals θ₁ σ₁ μ₂ hrun₂ invoke n hans).bind
            hg₃.leads fun vs θ₃ σ₃ μ₃ hrun₃ hf₃ hvs => ?_
          obtain ⟨mvs, hmvs, hall⟩ := hvs
          exact (Act.Passes.refl (Q := fun μ' => μ' = μ₃) hrun₃ rfl).returns fun μ' hμ =>
            ⟨mv :: mvs, hμ ▸ .cons ((hf₃.value? hy.fits).trans hmv₂) hmvs,
              .cons ((hshows.mono hf₃.census).subtype hsub) hall⟩

section calls

variable (hargs : J.LowersArguments Γ args)
include hargs

theorem lowers_print {tag : Tag} {f : Ident} (hf : Γ.callable? f.name = some .print)
    (hnote : J.body.analysis.notes.call? tag.id = some .print) : J.Lowers Γ (.call tag f args) := by
  intro t pending s ht hs
  cases ht with
  | call hf' ht =>
      cases hf.symm.trans hf'
      rw [lowerExpr]
      refine Does.seq (does_known hnote ?_)
      refine (hargs [.int] [.int] _ _ ht (.cons .int .nil) hs).bind fun xs s₁ hxs => ?_
      obtain ⟨hg₁, hxs, hruns₁⟩ := hxs
      obtain ⟨x, rfl, hx⟩ : ∃ x, xs = [x] ∧ s₁.builder.procedure.typeOf? x = some .int := by
        cases hxs with
        | @cons x _ _ _ hx hnil =>
            cases hnil
            exact ⟨x, rfl, hx.elim id fun ⟨_, _, h⟩ => by cases h⟩
      refine Does.seq (does_known rfl (Does.seq ?_))
      refine does_emit hg₁.stage rfl (.print hx) fun s₂ he₂ h₂ => ?_
      refine does_pure ⟨hg₁.trans (he₂.goes h₂), ⟨.int, rfl, .int⟩, ?_⟩
      intro A hA hB ho locals θ σ μ hrun invoke n hans
      subst hA
      obtain ⟨c, hc⟩ := hg₁.isOpen ho
      simp only [evalExpr, hf]
      refine (hruns₁ A rfl (he₂.leads.before hB) ho locals θ σ μ hrun invoke n hans).bind hg₁.leads
        fun vs θ₁ σ₁ μ₁ hrun₁ hf₁ hvs => ?_
      obtain ⟨mvs, hmvs, hall⟩ := hvs
      cases hall with
      | cons hv hnil =>
          cases hnil
          cases hmvs with
          | cons hmv _ =>
              obtain ⟨k, rfl, hk⟩ := Act.Holds.int ⟨_, hmv, hv⟩
              obtain ⟨rest, hpoint, hpoint'⟩ := he₂.point _ hB.procedure c hc
              refine ⟨1, _, .one ?_, θ₁, μ₁.print k, rfl, hrun₁.print k, .print, _, rfl, .int⟩
              rw [Act.at, Act.at, hpoint, hpoint']
              exact step_print hk

theorem lowers_function {tag : Tag} {f : Ident} {decl : FunctionDecl}
    (hf : Γ.callable? f.name = some (.function decl)) (hmem : decl ∈ J.program.functions)
    (hnote : J.body.analysis.notes.call? tag.id = some (.function decl)) :
    J.Lowers Γ (.call tag f args) := by
  intro t pending s ht hs
  cases ht with
  | call hf' ht =>
      cases hf.symm.trans hf'
      obtain ⟨sig, hsig, hstands⟩ := hs.layouts.functions decl hmem
      rw [lowerExpr]
      refine Does.seq (does_known hnote (Does.seq (does_known hsig ?_)))
      refine (hargs _ _ _ _ ht (List.forall₂_map_left_iff.2 hstands.params) hs).bind
        fun xs s₁ hxs => ?_
      obtain ⟨hg₁, hxs, hruns₁⟩ := hxs
      have hi := hg₁.stage.interfaces.functions decl sig hmem hsig
      refine (does_call hg₁.stage hi hxs).mono fun z s₂ hz => ?_
      obtain ⟨rfl, hd₂, h₂⟩ := hz
      have hl₂ := hg₁.leads.trans hd₂.leads
      refine ⟨hg₁.trans (hd₂.toEmits.goes h₂), ⟨_, hd₂.typed,
        hstands.returnType.mono hl₂.target.arrays⟩, ?_⟩
      intro A hA hB ho locals θ σ μ hrun invoke n hans
      subst hA
      obtain ⟨c, hc⟩ := hg₁.isOpen ho
      simp only [evalExpr, hf]
      refine (hruns₁ A rfl (hd₂.leads.before hB) ho locals θ σ μ hrun invoke n hans).bind hg₁.leads
        fun vs θ₁ σ₁ μ₁ hrun₁ hf₁ hvs => ?_
      obtain ⟨mvs, hmvs, hall⟩ := hvs
      exact Act.evaluates_call hrun₁ hg₁.stage hd₂ hB hc hmvs
        (hans.functions decl sig hmem hsig θ₁ σ₁ vs mvs hall)

/-- A method is called with a receiver that is at hand. -/
theorem does_method {x : Operand} {c : ClassRef} {l : ClassLayout} {decl : FunctionDecl}
    {sig : Signature} (hs : J.Stage pending s)
    (hx : s.builder.procedure.Passes x l.pointerType)
    (ht : HaveTypes Γ args (decl.params.map VarDecl.plain)) (hc : c.Faithful J.program)
    (hl : J.body.layouts.class? c.name = some l) (hmem : decl ∈ (J.program.classDecl c).methods)
    (hsig : l.method? decl.name.name = some sig)
    (hstands : sig.Stands J.program J.body.analysis.arrays J.body.layouts.structs s.target decl) :
    Does (do
      let values ← lowerArguments J.body args sig.params
      compute (·.call sig.procedure (x :: values) sig.returnType)) s fun z s' =>
        J.Goes pending s s' ∧ J.Typed s' z decl.returnType.plain ∧
          J.Runs s s' fun A locals θ σ μ => ∀ (invoke : Invoke) n r, A.Answers invoke n →
            A.Holds θ μ x (.object c.name) (.ref r) →
              A.Evaluates (n + 1) locals s s' θ μ ((do
                invoke (.method c.name decl) (some (.ref r))
                  (← evalArguments invoke Γ A.self locals args)) σ) fun v θ' μ' =>
                    A.Holds θ' μ' z decl.returnType.plain v := by
  refine (hargs _ _ _ _ ht (List.forall₂_map_left_iff.2 hstands.params) hs).bind
    fun xs s₁ hxs => ?_
  obtain ⟨hg₁, hxs, hruns₁⟩ := hxs
  have hi := hg₁.stage.interfaces.methods c l decl sig hc hl hmem hsig
  refine (does_call hg₁.stage hi (.cons (hg₁.leads.passes hx) hxs)).mono fun z s₂ hz => ?_
  obtain ⟨rfl, hd₂, h₂⟩ := hz
  have hl₂ := hg₁.leads.trans hd₂.leads
  refine ⟨hg₁.trans (hd₂.toEmits.goes h₂), ⟨_, hd₂.typed,
    hstands.returnType.mono hl₂.target.arrays⟩, ?_⟩
  intro A hA hB ho locals θ σ μ hrun invoke n r hans hv
  subst hA
  obtain ⟨cur, hcur⟩ := hg₁.isOpen ho
  refine (hruns₁ A rfl (hd₂.leads.before hB) ho locals θ σ μ hrun invoke n hans).bind hg₁.leads
    fun vs θ₁ σ₁ μ₁ hrun₁ hf₁ hvs => ?_
  obtain ⟨mvs, hmvs, hall⟩ := hvs
  obtain ⟨mv, hmv, hshows⟩ := hv.follows hf₁ hx.fits
  exact Act.evaluates_call hrun₁ hg₁.stage hd₂ hB hcur (.cons hmv hmvs)
    (hans.methods c l decl sig hc hl hmem hsig θ₁ σ₁ r mv vs mvs hshows hall)

/-- A method of the class around is called with the receiver of the method. -/
theorem lowers_ownMethod {tag : Tag} {f : Ident} {cls : String} {owner : ClassRef}
    {decl : FunctionDecl} (hf : Γ.callable? f.name = some (.method owner.name decl))
    (hcls : J.current = some cls) (howner : owner.Faithful J.program)
    (hbelow : J.program.Below cls owner.name) (hmem : decl ∈ (J.program.classDecl owner).methods)
    (hnote : J.body.analysis.notes.call? tag.id = some (.method owner decl)) :
    J.Lowers Γ (.call tag f args) := by
  intro t pending s ht hs
  cases ht with
  | call hf' ht =>
      cases hf.symm.trans hf'
      rw [lowerExpr]
      refine Does.seq (does_known hnote ?_)
      refine (does_thisAs hs hcls howner).bind fun x s₁ hx => ?_
      obtain ⟨hg₁, hx, hruns₁⟩ := hx
      refine (does_classLayout hg₁.stage howner).bind fun l s₂ hl => ?_
      obtain ⟨rfl, hl, hstands⟩ := hl
      obtain ⟨sig, hsig, hsigStands⟩ := hstands.methods decl hmem
      refine Does.seq (does_known hsig ?_)
      obtain ⟨ty, hty, hr⟩ := hx
      obtain rfl := hr.functional hg₁.stage.target hstands.represents
      refine (does_method hargs hg₁.stage (.inl hty) ht howner hl hmem hsig hsigStands).mono
        fun z s₃ hz => ?_
      obtain ⟨hg₃, hz, hruns₃⟩ := hz
      refine ⟨hg₁.trans hg₃, hz, ?_⟩
      intro A hA hB ho locals θ σ μ hrun invoke n hans
      subst hA
      obtain ⟨r, mv, hself, hshows, hpass⟩ :=
        hruns₁ A rfl (hg₃.leads.before hB) ho locals θ σ μ hrun
      simp only [evalExpr, hf, hself]
      refine hpass.evaluates hg₁.leads fun μ₁ hrun₁ hf₁ hv => ?_
      rw [← hself]
      have h := hruns₃ A rfl hB (hg₁.isOpen ho) locals θ σ μ₁ hrun₁ invoke n r hans
        ⟨mv, hv, hshows.subtype (.object hbelow)⟩
      rwa [← hself] at h

theorem lowers_methodCall {tag : Tag} {e : Expr} {f : Ident} {cls : String} {owner : ClassRef}
    {decl : FunctionDecl} (he : J.Lowers Γ e) (hecls : HasType Γ e (.object cls))
    (hf : Γ.method? cls f.name = some (.method owner.name decl))
    (howner : owner.Faithful J.program) (hbelow : J.program.Below cls owner.name)
    (hmem : decl ∈ (J.program.classDecl owner).methods)
    (hnote : J.body.analysis.notes.call? tag.id = some (.method owner decl)) :
    J.Lowers Γ (.methodCall tag e f args) := by
  intro t pending s ht hs
  cases ht with
  | methodCall hte hf' ht =>
      cases hte.unique hecls
      cases hf.symm.trans hf'
      rw [lowerExpr]
      refine does_checked he hecls (.nullObject _) hs fun x s₁ hg₁ hx hruns₁ => ?_
      refine Does.seq (does_known hnote ?_)
      refine (does_classLayout hg₁.stage howner).bind fun l s₂ hl => ?_
      obtain ⟨rfl, hl, hstands⟩ := hl
      obtain ⟨sig, hsig, hsigStands⟩ := hstands.methods decl hmem
      refine (does_upcast hg₁.stage hx hstands.represents (.object hbelow)).bind fun y s₃ hy => ?_
      obtain ⟨hg₃, hy, hruns₃⟩ := hy
      refine Does.seq (does_known hsig ?_)
      refine (does_method hargs hg₃.stage hy ht howner hl hmem hsig
        (hsigStands.mono hg₃.leads.target.toKeeps)).mono fun z s₄ hz => ?_
      obtain ⟨hg₄, hz, hruns₄⟩ := hz
      refine ⟨(hg₁.trans hg₃).trans hg₄, hz, ?_⟩
      intro A hA hB ho locals θ σ μ hrun invoke n hans
      subst hA
      have hB₃ := hg₄.leads.before hB
      simp only [evalExpr]
      rw [← bind_assoc]
      refine (hruns₁ A rfl (hg₃.leads.before hB₃) ho locals θ σ μ hrun invoke n hans).bind
        hg₁.leads fun r θ₁ σ₁ μ₁ hrun₁ hf₁ hv => ?_
      simp only [hecls.typeOf?, Option.bind_some, PlainType.class?, hf]
      obtain ⟨mv, hmv, hshows⟩ := hv
      refine (hruns₃ A rfl hB₃ (hg₁.isOpen ho) locals θ₁ σ₁ μ₁ hrun₁ _ mv hshows hmv).evaluates
        hg₃.leads fun μ₃ hrun₃ hf₃ hv₃ => ?_
      exact hruns₄ A rfl hB (hg₃.isOpen (hg₁.isOpen ho)) locals θ₁ σ₁ μ₃ hrun₃ invoke n r hans
        ⟨mv, hv₃, hshows.subtype (.object hbelow)⟩

end calls

end ObjectLang
