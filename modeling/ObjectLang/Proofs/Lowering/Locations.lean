import Mathlib.Tactic
import ObjectLang.Proofs.Lowering.Objects

/-!
# The meaning of code for locations

A variable is in its slot, a field stands in the object that the receiver is, and an element in the
array, if the index is in it. Reading a location loads what is at its address.
-/
namespace ObjectLang

open Machine IR

variable {J : Job} {Γ : Context} {pending : List Nat} {s s' : LowerState} {t u w : PlainType}

/-- The slot of a variable is found by its declaration. -/
theorem Job.Stage.find?_slot (h : J.Stage pending s) {x : VarDecl × Nat} (hx : x ∈ J.vars) :
    J.body.slots.find? (·.1 == x.1.id) = some (x.1.id, x.2) := by
  rw [h.slots]
  cases hf : (J.vars.map fun x => (x.1.id, x.2)).find? (·.1 == x.1.id) with
  | none =>
      have hnone := List.find?_eq_none.1 hf (x.1.id, x.2) (List.mem_map.2 ⟨x, hx, rfl⟩)
      simp at hnone
  | some y =>
      obtain ⟨z, hz, rfl⟩ := List.mem_map.1 (List.mem_of_find?_eq_some hf)
      have hid : z.1.id = x.1.id := by simpa using List.find?_some hf
      rw [List.inj_on_of_nodup_map h.ids hz hx hid]

theorem lowers_slot {tag : Tag} {x : Ident} {d : VarDecl} (hΓ : J.Sees Γ)
    (hx : Γ.resolve? x.name = some (.slot d)) (hd : d ∈ Γ.locals)
    (hnote : J.body.analysis.notes.binding? tag.id = some (.variable d)) :
    J.LowersLocation Γ (.var tag x) := by
  intro t pending s ht hs
  obtain ⟨slot, hslot⟩ := hΓ.locals d hd
  have hslotRun : J.body.slot d =
      known (J.body.slots.find? (·.1 == d.id)) (.variableSlot d.id) >>=
        fun x => pure (.temp x.2) := rfl
  rw [lowerLocation]
  refine Does.seq (does_known hnote ?_)
  simp only
  rw [hslotRun]
  refine Does.seq (does_known (hs.find?_slot hslot) (does_pure ⟨⟨.rfl, hs, id⟩, ?_, ?_⟩))
  · cases ht with
    | var hv =>
        cases hx.symm.trans hv
        exact (hs.vars _ hslot).1
  · intro A hA hB ho locals θ σ μ hrun invoke n hans
    subst hA
    have hkeeps : A.Keeps θ (.slot d.id) t ⟨A.place slot, 0⟩ := by
      cases ht with
      | var hv =>
          cases hx.symm.trans hv
          exact .slot hslot
    obtain ⟨_, type, halloca⟩ := hs.vars _ hslot
    obtain ⟨htemp, _, _⟩ := hrun.slots slot type (hB.procedure.slots.subset halloca)
    simp only [evalLocation, hx]
    refine (Act.Passes.refl (Q := fun μ' => μ' = μ) hrun rfl).returns fun μ' hμ =>
      ⟨_, ?_, hkeeps⟩
    rw [hμ, Config.value?, htemp]
    rfl

/-- The address of a field of the receiver of the method. -/
theorem lowers_ownField {tag : Tag} {x : Ident} {cls : String} {owner : ClassRef} {d : VarDecl}
    (hΓ : J.Sees Γ) (hx : Γ.resolve? x.name = some (.field owner.name d))
    (hcls : J.current = some cls) (howner : owner.Faithful J.program)
    (hbelow : J.program.Below cls owner.name) (hd : d ∈ (J.program.classDecl owner).fields)
    (hnote : J.body.analysis.notes.binding? tag.id = some (.field owner d)) :
    J.LowersLocation Γ (.var tag x) := by
  intro t pending s ht hs
  have hmem := hs.wellFormed.hierarchy.mem_fieldsOf_self howner hd
  have htype := hs.fieldTypes _ howner.mem d hd
  rw [lowerLocation]
  refine Does.seq (does_known hnote ?_)
  refine (does_thisAs hs hcls howner).bind fun y s₁ hy => ?_
  obtain ⟨hg₁, hy, hruns₁⟩ := hy
  refine (does_fieldAddress hg₁.stage howner hy hmem htype).mono fun z s₂ hz => ?_
  obtain ⟨hg₂, hz, hruns₂⟩ := hz
  obtain rfl : t = d.plain := by
    cases ht with
    | var hv =>
        cases hx.symm.trans hv
        rfl
  refine ⟨hg₁.trans hg₂, hz, ?_⟩
  intro A hA hB ho locals θ σ μ hrun invoke n hans
  subst hA
  obtain ⟨r, mv, hself, hshows, hpass⟩ := hruns₁ A rfl (hg₂.leads.before hB) ho locals θ σ μ hrun
  simp only [evalLocation, hx, hself]
  refine hpass.evaluates hg₁.leads fun μ₁ hrun₁ hf₁ hv => ?_
  cases hshows with
  | object hr hb =>
      obtain ⟨k, hk, hpass₂⟩ := hruns₂ A rfl hB (hg₁.isOpen ho) locals θ σ μ₁ hrun₁ r _ _ hr
        (hb.trans hbelow) hv
      exact hpass₂.returns fun μ' hz => ⟨_, hz, .field hr hk⟩

theorem lowers_field {tag : Tag} {e : Expr} {x : Ident} {cls owner : ClassRef} {d : VarDecl}
    (hΓ : J.Sees Γ) (he : J.Lowers Γ e) (hcls : cls.Faithful J.program)
    (hecls : HasType Γ e (.object cls.name))
    (hetype : J.body.analysis.notes.type? e.id = some (.object cls))
    (hx : Γ.field? cls.name x.name = some (.field owner.name d))
    (howner : owner.Faithful J.program) (hmem : (owner.name, d) ∈ J.program.fieldsOf cls.name)
    (hd : d ∈ (J.program.classDecl owner).fields)
    (hnote : J.body.analysis.notes.binding? tag.id = some (.field owner d)) :
    J.LowersLocation Γ (.field tag e x) := by
  intro t pending s ht hs
  have htype := hs.fieldTypes _ howner.mem d hd
  have hclassOf : J.body.classOf e.id = (do
      known (← J.body.typeOf e.id).class? (.receiverClass e.id)) := rfl
  rw [lowerLocation]
  refine does_checked he hecls (.nullObject _) hs fun y s₁ hg₁ hy hruns₁ => ?_
  rw [hclassOf]
  refine Does.seq (Does.seq (does_known hetype (does_known rfl ?_)))
  refine Does.seq (does_known hnote ?_)
  refine (does_fieldAddress hg₁.stage hcls hy hmem htype).mono fun z s₂ hz => ?_
  obtain ⟨hg₂, hz, hruns₂⟩ := hz
  obtain rfl : t = d.plain := by
    cases ht with
    | field hr hv =>
        cases hr.unique hecls
        cases hx.symm.trans hv
        rfl
  refine ⟨hg₁.trans hg₂, hz, ?_⟩
  intro A hA hB ho locals θ σ μ hrun invoke n hans
  subst hA
  simp only [evalLocation]
  rw [← bind_assoc]
  refine (hruns₁ A rfl (hg₂.leads.before hB) ho locals θ σ μ hrun invoke n hans).bind hg₁.leads
    fun r θ₁ σ₁ μ₁ hrun₁ hf₁ hv => ?_
  simp only [hecls.typeOf?, Option.bind_some, PlainType.class?, hx]
  obtain ⟨_, hmv, hshows⟩ := hv
  cases hshows with
  | object hr hb =>
      obtain ⟨k, hk, hpass₂⟩ := hruns₂ A rfl hB (hg₁.isOpen ho) locals θ₁ σ₁ μ₁ hrun₁ r _ _ hr hb
        hmv
      exact hpass₂.returns fun μ' hz => ⟨_, hz, .field hr hk⟩

/-- The address of an element of an array. -/
theorem does_elementAddress (h : J.Stage pending s) {x y : Operand} {ty : Ty}
    (hx : J.Typed s x (.array t)) (hy : s.builder.procedure.typeOf? y = some .int)
    (hr : J.Represents s.target t ty) :
    Does (compute (·.elementPtr x [.int 0, .int 1, y] ty)) s fun z s' => J.Goes pending s s' ∧
      J.Addresses s' z t ∧
      J.Runs s s' fun A locals θ σ μ => ∀ (r a n : Nat) (i : Int32), θ[r]? = some (.array t n, a) →
        0 ≤ i ∧ i.toNatClampNeg < n → μ.value? x = some (.pointer (some ⟨a, 0⟩)) →
        μ.value? y = some (.int i) → A.Passes locals s s' θ σ μ fun μ' =>
          μ'.value? z = some (.pointer (some ⟨a, 4 + i.toNatClampNeg * t.size⟩)) := by
  obtain ⟨_, htype, hrx⟩ := hx
  obtain ⟨id, element, name, rfl, hstruct, helement⟩ := h.array_struct hrx
  obtain rfl := hr.functional h.target helement
  refine (does_elementPtr h (k := 1) htype hstruct rfl (.element hy .whole)).mono
    fun z s₁ hz => ?_
  obtain ⟨rfl, hd₁, h₁⟩ := hz
  refine ⟨hd₁.toEmits.goes h₁, ⟨ty, hd₁.typed, hr.mono hd₁.leads.target.arrays⟩, ?_⟩
  intro A hA hB ⟨c, hc⟩ locals θ σ μ hrun r a n i hθ hi hvx hvy
  subst hA
  have hs := hB.target.structs _ _ (hd₁.leads.target.structs _ _ hstruct)
  have hoffset : ∀ f : Frame, f.temps = μ.temps →
      pointerOffset A.target.module f (0 : Nat) (.struct id) [.int 0, .int 1, y] =
        .ok ((4 + i.toNatClampNeg * t.size : Nat) : Int) := by
    intro f hf
    have hsmall : ty.size < UInt32.size := by
      rw [helement.size]
      exact t.size_le.trans_lt (by decide)
    rw [pointerOffset_element hs (ArrayLayout.fields_flat helement.flat) rfl helement.flat hsmall
      (show 4 < 2147483648 by decide) (evalInt_eq hf hvy)]
    have hnum : i.toInt = i.toNatClampNeg := by
      have := Int32.le_iff_toInt_le.1 hi.1
      rw [show (0 : Int32).toInt = 0 from rfl] at this
      rw [← Int32.toNat_toInt]
      omega
    have hbytes : fieldBytes ((ArrayLayout.fields ty).take 1) = 4 := rfl
    rw [helement.size, hnum, hbytes]
    simp
  obtain ⟨items, _, rfl, _, hle, _⟩ := hrun.heap.exists_array hθ
  have hmul := Nat.mul_le_mul_right t.size (Nat.le_of_lt hi.2)
  refine (Act.passes_elementPtr hrun h hd₁ hB hc hvx htype hoffset ?_).mono fun μ' hz => hz
  simp only [maxBytes] at hle
  change _ < 4294967296
  omega

theorem lowers_index {tag : Tag} {e i : Expr} (hΓ : J.Sees Γ) (he : J.Lowers Γ e)
    (hi : J.Lowers Γ i)
    (hnote : TypeRecorded J.body.analysis.arrays J.body.analysis.notes Γ tag.id
      (Location.HasType Γ (.index tag e i))) : J.LowersLocation Γ (.index tag e i) := by
  intro t pending s ht hs
  obtain ⟨u, hu, T, hT, hd⟩ := hnote
  obtain rfl := ht.unique hu
  rw [hΓ.program] at hd
  cases ht with
  | index hte hti =>
      rw [lowerLocation]
      refine does_checked he hte (.nullArray _) hs fun x s₁ hg₁ hx hruns₁ => ?_
      refine (hi _ _ _ hti hg₁.stage).bind fun y s₂ hy => ?_
      obtain ⟨hg₂, hy, hruns₂⟩ := hy
      refine (does_boundsCheck hg₂.stage (hx.mono hg₂.leads) hy.int tag.span).bind fun _ s₃ hz => ?_
      obtain ⟨hg₃, hruns₃⟩ := hz
      refine Does.seq (does_known hT ?_)
      refine (does_lower hg₃.stage hd).bind fun ty s₄ hz => ?_
      obtain ⟨hstays₄, h₄, hr⟩ := hz
      have hl₄ := hg₃.leads.trans hstays₄.leads
      refine (does_elementAddress h₄ (hx.mono (hg₂.leads.trans hl₄)) (hy.mono hl₄).int
        hr).mono fun z s₅ hz => ?_
      obtain ⟨hg₅, hz, hruns₅⟩ := hz
      have hg₄ := hg₃.trans (hstays₄.goes h₄)
      refine ⟨(hg₁.trans hg₂).trans (hg₄.trans hg₅), hz, ?_⟩
      intro A hA hB ho locals θ σ μ hrun invoke n hans
      subst hA
      have hB₄ := hg₅.leads.before hB
      have hB₃ := hstays₄.leads.before hB₄
      have hB₂ := hg₃.leads.before hB₃
      have ho₁ := hg₁.isOpen ho
      have ho₂ := hg₂.isOpen ho₁
      simp only [evalLocation]
      rw [← bind_assoc]
      refine (hruns₁ A rfl (hg₂.leads.before hB₂) ho locals θ σ μ hrun invoke n hans).bind hg₁.leads
        fun r θ₁ σ₁ μ₁ hrun₁ hf₁ hv => ?_
      refine (hruns₂ A rfl hB₂ ho₁ locals θ₁ σ₁ μ₁ hrun₁ invoke n hans).bind hg₂.leads
        fun v θ₂ σ₂ μ₂ hrun₂ hf₂ hv₂ => ?_
      obtain ⟨_, hmv, hshows⟩ := hv.follows hf₂ hx.fits
      obtain ⟨k, rfl, hk⟩ := hv₂.int
      cases hshows with
      | array hr =>
          obtain ⟨items, hheap, rfl, _⟩ := hrun₂.heap.exists_array hr
          obtain ⟨houtside, hinside⟩ :=
            hruns₃ A rfl hB₃ ho₂ locals θ₂ σ₂ μ₂ hrun₂ r _ _ k hr hmv hk
          change A.Evaluates (n + 1) locals s₂ s₅ θ₂ μ₂ ((itemsOf r >>= fun items =>
            if 0 ≤ k ∧ k.toNatClampNeg < items.length then pure (.element r k.toNatClampNeg)
            else haltBounds tag.span : Eval Spot) σ₂) _
          rw [Eval.run_bind, itemsOf_eq hheap]
          simp only
          split_ifs with hin
          · refine (hinside hin).evaluates hg₃.leads fun μ₃ hrun₃ hf₃ _ => ?_
            refine (Act.Passes.stays hrun₃ hstays₄).evaluates hstays₄.leads
              fun μ₄ hrun₄ hf₄ hμ₄ => ?_
            subst hμ₄
            exact (hruns₅ A rfl hB ((hg₄.isOpen ho₂)) locals θ₂ σ₂ _ hrun₄ r _ _ k hr hin
              ((hf₃.value? (hx.mono hg₂.leads).fits).trans hmv)
              ((hf₃.value? hy.fits).trans hk)).returns fun μ' hz => ⟨_, hz, .element hr hin.2⟩
          · exact (houtside hin).simulates

theorem lowers_read {tag : Tag} {l : Location} (hl : J.LowersLocation Γ l) :
    J.Lowers Γ (.read tag l) := by
  intro t pending s ht hs
  cases ht with
  | read ht =>
      rw [lowerExpr]
      refine (hl _ _ _ ht hs).bind fun x s₁ hx => ?_
      obtain ⟨hg₁, ⟨ty, hty, hr⟩, hruns₁⟩ := hx
      refine (does_load hg₁.stage hty).mono fun z s₂ hz => ?_
      obtain ⟨rfl, hd₂, h₂⟩ := hz
      refine ⟨hg₁.trans (hd₂.toEmits.goes h₂), ⟨ty, hd₂.typed,
        hr.mono hd₂.leads.target.arrays⟩, ?_⟩
      intro A hA hB ho locals θ σ μ hrun invoke n hans
      subst hA
      have hB₁ := hd₂.leads.before hB
      obtain ⟨c, hc⟩ := hg₁.isOpen ho
      simp only [evalExpr]
      refine (hruns₁ A rfl hB₁ ho locals θ σ μ hrun invoke n hans).bind hg₁.leads
        fun spot θ₁ σ₁ μ₁ hrun₁ hf₁ hspot => ?_
      obtain ⟨a, ha, hkeeps⟩ := hspot
      obtain ⟨v, mv, hread, hcovers, hget, hshows⟩ := hrun₁.read (Act.placed hg₁.stage hB₁) hkeeps
      rw [hread]
      exact (Act.passes_load hrun₁ hg₁.stage hd₂ hB hc ha hcovers hget).returns
        fun μ' hz => ⟨mv, hz, hshows⟩

end ObjectLang
