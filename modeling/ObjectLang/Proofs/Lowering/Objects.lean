import Mathlib.Tactic
import ObjectLang.Proofs.Lowering.Meaning

/-!
# The meaning of code for objects and arrays

Objects and arrays are made by procedures, and the procedure for an array type is declared when it
is first asked for. The receiver of a location is computed and checked first, then the index; what
the location keeps is loaded from the address that its code gives.
-/
namespace ObjectLang

open Machine IR

variable {J : Job} {Γ : Context} {pending : List Nat} {s s' : LowerState} {t u w : PlainType}

/-- The code for a location computes its address. -/
def Job.LowersLocation (J : Job) (Γ : Context) (l : Location) : Prop :=
  ∀ t pending s, l.HasType Γ t → J.Stage pending s → Does (lowerLocation J.body l) s fun x s' =>
    J.Goes pending s s' ∧ J.Addresses s' x t ∧
      J.Evaluates s s' (fun invoke self locals => evalLocation invoke Γ self locals l)
        fun A spot θ μ => A.Points θ μ x t spot

theorem does_call (h : J.Stage pending s) {id : Nat} {args : List Operand} {i : Interface}
    (hi : s.target.module.interface? id = some i)
    (hargs : List.Forall₂ s.builder.procedure.Passes args i.params) :
    Does (compute (·.call id args i.returnType)) s fun z s' => z = .temp s.next ∧
      s.Defines (.call s.next id args) i.returnType s' ∧ J.Stage pending s' :=
  does_define h i.returnType (.call · id args) rfl rfl
    (fun _ hp hd => .call hi (hargs.imp fun _ _ hx => hx.mono hp) hd)
    fun _ hd hs => ⟨rfl, hd, hs⟩

/-- The procedure that makes the arrays of a type was asked for before, or is declared now. -/
theorem does_allocator_of_sound (hh : J.program.Hierarchy)
    (ha : J.body.analysis.arrays.Canonical J.program)
    (hlayouts : J.body.layouts.Stands J.program J.body.analysis.arrays s.target)
    (htarget : s.target.Sound J.program J.body.analysis.arrays J.body.layouts.structs)
    (hallocators : ∀ x ∈ s.allocators, ∃ t, x.1.Denotes J.program J.body.analysis.arrays t)
    {V : ValueType} (hV : V.Denotes J.program J.body.analysis.arrays t) (ht : t ≠ .null) :
    Does (allocator J.body V) s fun id s' => s.Leads s' ∧ s'.builder = s.builder ∧
      s'.target.Sound J.program J.body.analysis.arrays J.body.layouts.structs ∧
      (∀ x ∈ s'.allocators, x ∈ s.allocators ∨ ∃ t, J.Allocates s'.target x.1 x.2 t) ∧
      ∃ U, (U, id) ∈ s'.allocators ∧ U.Denotes J.program J.body.analysis.arrays t := by
  unfold allocator
  apply Does.seq
  apply does_get
  cases hf : s.allocators.find? (·.1.same V) with
  | some x =>
      obtain ⟨U, id⟩ := x
      have hm := List.mem_of_find?_eq_some hf
      obtain ⟨u, hU⟩ := hallocators _ hm
      have hsame : U.same V = true := by simpa using List.find?_some hf
      obtain rfl : u = t := (hU.same_iff hh ha hV).1 hsame
      exact does_pure ⟨.rfl, rfl, htarget, fun _ hx => .inl hx, U, hm, hU⟩
  | none =>
      obtain ⟨hleads, hsound, hlayout⟩ :=
        arrayLayout_spec hh ha hlayouts.exists_struct hV ht htarget
      apply Does.seq
      apply does_onTarget
      have hprocedures := procedures_arrayLayout J.body.layouts.structs V s.target
      generalize arrayLayout J.body.layouts.structs V s.target = r at *
      obtain ⟨layout, T⟩ := r
      have hcount : T.module.procedures.size = s.target.module.procedures.size :=
        congrArg Array.size hprocedures
      have hnew : ∀ x ∈ s.allocators, x.1.same V = false := fun x hx => by
        simpa using List.find?_eq_none.1 hf x hx
      have hl : s.Leads ⟨(T.addProcedure (allocatorSkeleton V layout.pointerType)).2,
          s.allocators ++ [(V, (T.addProcedure (allocatorSkeleton V layout.pointerType)).1)],
          s.builder⟩ :=
        ⟨.rfl, hleads.trans (Target.leads_addProcedure T _), List.prefix_append _ _, 1,
          by simp [Target.size, Target.addProcedure, Module.addProcedure, hcount],
          by simp [Target.size, Target.addProcedure, Module.addProcedure, hcount], fun hs =>
            List.pairwise_append.2 ⟨hs, List.pairwise_singleton _ _, fun x hx y hy =>
              List.mem_singleton.1 hy ▸ hnew x hx⟩⟩
      obtain ⟨W, hW, hWd⟩ := hlayout
      have hallocates : J.Allocates (T.addProcedure (allocatorSkeleton V layout.pointerType)).2 V
          (T.addProcedure (allocatorSkeleton V layout.pointerType)).1 t :=
        ⟨hV, _, Target.getElem?_addProcedure T _, .array hW hWd⟩
      apply Does.seq
      apply does_onTarget
      apply Does.seq
      apply does_modify
      refine does_pure ⟨hl, rfl, hsound.addProcedure _, fun x hx => ?_, V,
        List.mem_append_right _ (List.mem_singleton_self _), hV⟩
      rcases List.mem_append.1 hx with hx | hx
      · exact .inl hx
      · rw [List.mem_singleton.1 hx]
        exact .inr ⟨t, hallocates⟩

/-- The procedure that makes the arrays of a type. -/
theorem does_allocator (h : J.Stage pending s) {V : ValueType}
    (hV : V.Denotes J.program J.body.analysis.arrays t) (ht : t ≠ .null) :
    Does (allocator J.body V) s fun id s' => s.Stays s' ∧ J.Stage pending s' ∧
      ∃ U, (U, id) ∈ s'.allocators ∧ J.Allocates s'.target U id t := by
  refine (does_allocator_of_sound h.wellFormed.hierarchy h.canonical h.layouts h.target
    (fun x hx => (h.allocators x hx).imp fun _ hu => hu.1) hV ht).mono fun id s' hz => ?_
  obtain ⟨hl, hbuilder, hsound, hallocators, U, hm, hU⟩ := hz
  have hs' : J.Stage pending s' := by
    refine h.lead hl hsound hallocators ?_ fun _ _ hd => .inl (hbuilder ▸ hd)
    exact hbuilder ▸ h.builder.mono hl.target.grows
  obtain ⟨u, hu⟩ := hs'.allocators _ hm
  obtain rfl := hu.1.functional hU
  exact ⟨⟨hl, congrArg _ hbuilder, fun p => congrArg (·.point p) hbuilder⟩, hs', U, hm, hu⟩

theorem lowers_newObject {tag : Tag} {c : Ident} (hΓ : J.Sees Γ)
    (hnote : TypeRecorded J.body.analysis.arrays J.body.analysis.notes Γ tag.id
      (HasType Γ (.newObject tag c))) : J.Lowers Γ (.newObject tag c) := by
  intro t pending s ht hs
  obtain ⟨u, hu, T, hT, hd⟩ := hnote
  obtain rfl := ht.unique hu
  cases ht
  rw [hΓ.program] at hd
  cases hd with
  | @object cls _ hcls hname =>
      have hclassOf : J.body.classOf tag.id = (do
          known (← J.body.typeOf tag.id).class? (.receiverClass tag.id)) := rfl
      rw [lowerExpr, hclassOf]
      refine Does.seq (Does.seq (does_known hT (does_known rfl ?_)))
      refine (does_classLayout hs hcls).bind fun l s₁ hl => ?_
      obtain ⟨rfl, hl, hstands⟩ := hl
      have hi := hs.interfaces.constructors cls l hcls hl
      refine (does_call hs hi .nil).mono fun z s₂ hz => ?_
      obtain ⟨rfl, hd₂, h₂⟩ := hz
      have hr := hstands.represents.mono hd₂.leads.target.arrays
      rw [hname] at hr
      refine ⟨hd₂.toEmits.goes h₂, ⟨_, hd₂.typed, hr⟩, ?_⟩
      intro A hA hB ⟨cur, hc⟩ locals θ σ μ hrun invoke n hans
      subst hA
      simp only [evalExpr, hΓ.program, ← hname]
      exact Act.evaluates_call hrun hs hd₂ hB hc .nil (hans.constructors cls l hcls hl θ σ)

section receivers

variable {e : Expr} (he : J.Lowers Γ e)
include he

/-- A receiver is computed, and the program stops if it is null. -/
theorem does_checked {α : Type} {f : Operand → Lower α} {R : α → LowerState → Prop}
    (ht : HasType Γ e t) (hnull : J.program.Subtype .null t) (hs : J.Stage pending s)
    (hf : ∀ x s₁, J.Goes pending s s₁ → J.Typed s₁ x t →
      (J.Evaluates s s₁ (fun invoke self locals => do
        reference (← evalExpr invoke Γ self locals e) e.span)
          fun A r θ μ => A.Holds θ μ x t (.ref r)) → Does (f x) s₁ R) :
    Does (do
      let x ← lowerExpr J.body e
      nullCheck x e.span
      f x) s R := by
  refine (he _ _ _ ht hs).bind fun x s₁ hx => ?_
  obtain ⟨hg₁, hx, hruns₁⟩ := hx
  obtain ⟨ty, hty, hpointer⟩ : ∃ ty, s₁.builder.procedure.typeOf? x = some ty ∧
      ty.isPointer = true := by
    obtain ⟨ty, hty, hr⟩ := hx
    refine ⟨ty, hty, ?_⟩
    cases hnull <;> cases hr <;> rfl
  refine (does_nullCheck hg₁.stage hty hpointer e.span).bind fun _ s₂ hz => ?_
  obtain ⟨hg₂, hruns₂⟩ := hz
  refine hf x s₂ (hg₁.trans hg₂) (hx.mono hg₂.leads) ?_
  intro A hA hB ho locals θ σ μ hrun invoke n hans
  subst hA
  have hB₁ := hg₂.leads.before hB
  refine (hruns₁ A rfl hB₁ ho locals θ σ μ hrun invoke n hans).bind hg₁.leads
    fun v θ₁ σ₁ μ₁ hrun₁ hf₁ hv => ?_
  obtain ⟨hhalts, hpasses⟩ := hruns₂ A rfl hB (hg₁.isOpen ho) locals θ₁ σ₁ μ₁ hrun₁
  obtain ⟨mv, hmv, hshows⟩ := hv
  have hpass : ∀ a, mv = .pointer (some a) → A.Passes locals s₁ s₂ θ₁ σ₁ μ₁ fun μ' =>
      μ'.value? x = some mv := by
    intro a ha
    obtain ⟨k, μ', hsteps, hrun', hf', _⟩ := hpasses a (ha ▸ hmv)
    exact ⟨k, μ', hsteps, hrun', hf', (hf'.value? hx.fits).trans hmv⟩
  cases hshows with
  | int => cases hnull
  | bool => cases hnull
  | null ht => exact (hhalts hmv).simulates
  | object hr hb => exact (hpass _ rfl).returns fun μ' hz => ⟨_, hz, .object hr hb⟩
  | array hr => exact (hpass _ rfl).returns fun μ' hz => ⟨_, hz, .array hr⟩

theorem lowers_arrayLength {tag : Tag} : J.Lowers Γ (.arrayLength tag e) := by
  intro t pending s ht hs
  cases ht with
  | arrayLength ht =>
      rw [lowerExpr]
      refine does_checked he ht (.nullArray _) hs fun x s₁ hg₁ hx hruns₁ => ?_
      refine (does_arrayLength hg₁.stage hx).mono fun z s₂ hz => ?_
      obtain ⟨hg₂, hz, hruns₂⟩ := hz
      refine ⟨hg₁.trans hg₂, hz, ?_⟩
      intro A hA hB ho locals θ σ μ hrun invoke n hans
      subst hA
      simp only [evalExpr]
      rw [← bind_assoc]
      refine (hruns₁ A rfl (hg₂.leads.before hB) ho locals θ σ μ hrun invoke n hans).bind hg₁.leads
        fun r θ₁ σ₁ μ₁ hrun₁ hf₁ hv => ?_
      obtain ⟨_, hmv, hshows⟩ := hv
      cases hshows with
      | array hr =>
          obtain ⟨items, hheap, rfl, _⟩ := hrun₁.heap.exists_array hr
          have hitems : (itemsOf r >>= fun items => pure (.int (Int32.ofNat items.length)) :
              Eval Datum) σ₁ = (pure (.int (Int32.ofNat items.length)) : Eval Datum) σ₁ := by
            rw [Eval.run_bind, itemsOf_eq hheap]
          rw [hitems]
          exact (hruns₂ A rfl hB (hg₁.isOpen ho) locals θ₁ σ₁ μ₁ hrun₁ r _ _ hr hmv).returns
            fun μ' hz => ⟨_, hz, .int⟩

theorem lowers_newArray {tag : Tag} {element : TypeExpr} (hΓ : J.Sees Γ)
    (hnote : TypeRecorded J.body.analysis.arrays J.body.analysis.notes Γ tag.id
      (HasType Γ (.newArray tag element e))) : J.Lowers Γ (.newArray tag element e) := by
  intro t pending s ht hs
  obtain ⟨u, hu, T, hT, hd⟩ := hnote
  obtain rfl := ht.unique hu
  cases ht with
  | newArray _ hsize =>
      rw [hΓ.program] at hd
      cases hd with
      | @array i V _ hi hV =>
          rw [lowerExpr]
          refine Does.seq (does_known hT (Does.seq (does_known rfl ?_)))
          obtain ⟨u, hu, hne⟩ := hs.canonical.denotes _ _ hi
          obtain rfl := hV.functional hu
          refine (does_allocator hs hV hne).bind fun id s₁ hz => ?_
          obtain ⟨hstays₁, h₁, U, hm, hU⟩ := hz
          refine (he _ _ _ hsize h₁).bind fun x s₂ hx => ?_
          obtain ⟨hg₂, hx, hruns₂⟩ := hx
          refine (does_lower hg₂.stage (.array hi hV)).bind fun ty s₃ hz => ?_
          obtain ⟨hstays₃, h₃, hr⟩ := hz
          have hl₃ := hg₂.leads.trans hstays₃.leads
          obtain ⟨_, hinterface, hr'⟩ := (hU.mono hl₃.target).interface?
          obtain rfl := hr.functional h₃.target hr'
          have hsize := (hx.mono hstays₃.leads).int
          refine (does_call h₃ hinterface (.cons (.inl hsize) .nil)).mono fun z s₄ hz => ?_
          obtain ⟨rfl, hd₄, h₄⟩ := hz
          have hg₃ := ((hstays₁.goes h₁).trans hg₂).trans (hstays₃.goes h₃)
          refine ⟨hg₃.trans (hd₄.toEmits.goes h₄), ⟨_, hd₄.typed,
            hr.mono hd₄.leads.target.arrays⟩, ?_⟩
          intro A hA hB ho locals θ σ μ hrun invoke n hans
          subst hA
          have hB₃ := hd₄.leads.before hB
          have hB₂ := hstays₃.leads.before hB₃
          have ho₁ := (hstays₁.goes h₁).isOpen ho
          obtain ⟨c, hc⟩ := hg₃.isOpen ho
          have hmem := hB.allocators.subset ((hl₃.trans hd₄.leads).allocators.subset hm)
          simp only [evalExpr]
          refine (Act.Passes.stays hrun hstays₁).evaluates hstays₁.leads fun μ₁ hrun₁ hf₁ hμ₁ => ?_
          refine (hruns₂ A rfl hB₂ ho₁ locals θ σ μ₁ hrun₁ invoke n hans).bind hg₂.leads
            fun v θ₂ σ₂ μ₂ hrun₂ hf₂ hv => ?_
          obtain ⟨k, rfl, hk⟩ := hv.int
          refine (Act.Passes.stays hrun₂ hstays₃).evaluates hstays₃.leads
            fun μ₃ hrun₃ hf₃ hμ₃ => ?_
          subst hμ₃
          exact Act.evaluates_call hrun₃ h₃ hd₄ hB hc (.cons hk .nil)
            (hans.allocators U id _ hmem hU.1 θ₂ σ₂ k)

end receivers

end ObjectLang
