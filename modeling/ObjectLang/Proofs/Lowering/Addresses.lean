import Mathlib.Tactic
import ObjectLang.Proofs.Analysis.Recorded
import ObjectLang.Proofs.Lowering.Checks

/-!
# Types, receivers and fields

The types that code is made with represent the types of the program, a receiver is cast to the class
that a member is declared by, and the address of a field is where the object has it.
-/
namespace ObjectLang

open Machine IR

variable {J : Job} {pending : List Nat} {s s' : LowerState}

theorem LowerState.Stays.goes (h : s.Stays s') (hs : J.Stage pending s') : J.Goes pending s s' :=
  ⟨h.leads, hs, fun ⟨c, hc⟩ => ⟨c, h.current.trans hc⟩⟩

/-- The type of the code for a type of values. -/
theorem does_lower (h : J.Stage pending s) {V : ValueType} {t : PlainType}
    (hV : V.Denotes J.program J.body.analysis.arrays t) :
    Does (J.body.lower V) s fun ty s' => s.Stays s' ∧ J.Stage pending s' ∧
      J.Represents s'.target t ty := by
  obtain ⟨hleads, hsound, hr⟩ := lowerType_spec h.wellFormed.hierarchy h.canonical
    h.layouts.exists_struct hV h.target
  have hl : s.Leads { s with target := (lowerType J.body.layouts.structs V s.target).2 } :=
    ⟨.rfl, hleads, List.prefix_refl _,
      .none (congrArg Array.size (procedures_lowerType _ V s.target)) rfl⟩
  refine does_onTarget ⟨⟨hl, rfl, fun _ => rfl⟩, ?_, hr⟩
  exact h.lead hl hsound (fun _ hx => .inl hx) (h.builder.mono hl.target.grows) fun _ _ hd =>
    .inl hd

/-- The type of the code for a type that is written. -/
theorem does_lowerTypeExpr (h : J.Stage pending s) {t : TypeExpr}
    (ht : t.Recorded J.body.analysis.arrays J.body.analysis.notes J.program) :
    Does (J.body.lowerTypeExpr t) s fun ty s' => s.Stays s' ∧ J.Stage pending s' ∧
      J.Represents s'.target t.plain ty := by
  obtain ⟨V, hnote, hV⟩ := ht
  exact Does.seq (does_known hnote (does_lower h hV))

theorem does_classLayout (h : J.Stage pending s) {c : ClassRef} (hc : c.Faithful J.program) :
    Does (J.body.classLayout c) s fun l s' => s' = s ∧ J.body.layouts.class? c.name = some l ∧
      l.Stands J.program J.body.analysis.arrays J.body.layouts.structs s.target c := by
  obtain ⟨l, hl, hstands⟩ := h.layouts.classes c hc
  exact does_known hl ⟨rfl, hl, hstands⟩

/-- The receiver as an object of some class. -/
theorem does_thisAs (h : J.Stage pending s) {cls : String} (hcls : J.current = some cls)
    {c : ClassRef} (hc : c.Faithful J.program) :
    Does (thisAs J.body c) s fun z s' => J.Goes pending s s' ∧ J.Typed s' z (.object c.name) ∧
      J.Runs s s' fun A locals θ σ μ => ∃ r mv, A.self = some (.ref r) ∧
        Shows J.program θ (.ref r) (.object cls) mv ∧
          A.Passes locals s s' θ σ μ fun μ' => μ'.value? z = some mv := by
  obtain ⟨t, ht, htyped⟩ := h.receiver cls hcls
  unfold thisAs
  refine Does.seq (does_known ht ?_)
  refine (does_classLayout h hc).bind fun l s₁ hl => ?_
  obtain ⟨rfl, _, hstands⟩ := hl
  refine (does_cast h htyped l.pointerType).mono fun z s₂ hz => ?_
  obtain ⟨hg, htype, hruns⟩ := hz
  obtain ⟨ty, hty, hr⟩ := htyped
  have hcast : castType ty l.pointerType = l.pointerType := by
    cases hr
    rfl
  refine ⟨hg, ⟨_, hcast ▸ htype ty hty, hstands.represents.mono hg.leads.target.arrays⟩, ?_⟩
  intro A hA hB ho locals θ σ μ hrun
  subst hA
  obtain ⟨r, c', mv, hself, hc', htemp, hshows⟩ := hrun.self t ht
  obtain rfl : c' = cls := Option.some.inj (hc'.symm.trans hcls)
  have hvalue : μ.value? (.temp t) = some mv := by
    rw [Config.value?, htemp]
    rfl
  exact ⟨r, mv, hself, hshows, hruns A rfl hB ho locals θ σ μ hrun _ mv hshows hvalue⟩

/-- The address of a field is where the objects of the class and of all classes below have it. -/
theorem does_fieldAddress (h : J.Stage pending s) {x : Operand} {c owner : ClassRef} {d : VarDecl}
    (hc : c.Faithful J.program) (hx : J.Typed s x (.object c.name))
    (hd : (owner.name, d) ∈ J.program.fieldsOf c.name)
    (htype : d.type.Recorded J.body.analysis.arrays J.body.analysis.notes J.program) :
    Does (fieldAddress J.body x c owner d) s fun z s' => J.Goes pending s s' ∧
      J.Addresses s' z d.plain ∧
      J.Runs s s' fun A locals θ σ μ => ∀ (r a : Nat) (sub : String),
        θ[r]? = some (.object sub, a) → J.program.Below sub c.name →
        μ.value? x = some (.pointer (some ⟨a, 0⟩)) →
          ∃ k, (J.program.fieldsOf sub)[k]? = some (owner.name, d) ∧
            A.Passes locals s s' θ σ μ fun μ' =>
              μ'.value? z = some (.pointer (some ⟨a, J.program.offsetAt sub k⟩)) := by
  have hh := h.wellFormed.hierarchy
  unfold fieldAddress
  refine (does_classLayout h hc).bind fun l s₁ hl => ?_
  obtain ⟨rfl, _, hstands⟩ := hl
  obtain ⟨k, hindex, hk⟩ := hstands.fieldIndex? hd
    (hh.nodup_fieldsOf h.wellFormed.fieldNames c.name)
  refine Does.seq (does_known hindex ?_)
  refine (does_lowerTypeExpr h htype).bind fun type s₁ hz => ?_
  obtain ⟨hstays, h₁, hr⟩ := hz
  have hstands₁ := hstands.mono hstays.leads.target.toKeeps
  obtain ⟨_, hty, hrty⟩ := hx.mono hstays.leads
  rw [hrty.functional h₁.target hstands₁.represents] at hty
  obtain ⟨st, hst, hflat, _, hfields⟩ := hstands₁.exists_struct
  obtain ⟨f, hf, hrf, hoffset⟩ := hfields k owner.name d hk
  obtain rfl := hr.functional h₁.target hrf
  refine (does_elementPtr h₁ hty hst hf .whole).mono fun z s₂ hz => ?_
  obtain ⟨rfl, hd₂, h₂⟩ := hz
  refine ⟨(hstays.goes h₁).trans (hd₂.toEmits.goes h₂),
    ⟨_, hd₂.typed, hr.mono hd₂.leads.target.arrays⟩, ?_⟩
  intro A hA hB ⟨cur, hcur⟩ locals θ σ μ hrun r a sub hθ hb hv
  subst hA
  have hst' := hB.target.structs _ _ (hd₂.leads.target.structs _ _ hst)
  have hlt : k < st.fields.length := (List.getElem?_eq_some_iff.1 hf).1
  have hklt := (List.getElem?_eq_some_iff.1 hk).1
  obtain ⟨fs, hheap, _, hle, _⟩ := hrun.heap.exists_object hθ
  obtain ⟨rest, hrest⟩ := hh.prefix_fieldsOf hb
  have hksub : (A.job.program.fieldsOf sub)[k]? = some (owner.name, d) := by
    rw [← hrest, List.getElem?_append_left hklt]
    exact hk
  have hsub : A.job.program.offsetAt sub k = A.job.program.offsetAt c.name k :=
    hh.offsetAt_eq hb (Nat.le_of_lt hklt)
  -- The object is not too large, so the position and the offset of the field are small numbers.
  have hend := Program.offsetAt_add_le hksub
  have hpos := d.plain.size_pos
  have hkle := Program.le_offsetAt (p := A.job.program) (Nat.le_of_lt hklt)
  have hsmall : A.job.program.offsetAt sub k < 2147483647 := by
    simp only [maxBytes] at hle
    omega
  refine ⟨k, hksub, ?_⟩
  refine (Act.Passes.stays hrun hstays).bind hstays.leads fun μ₁ hrun₁ _ hμ => ?_
  subst hμ
  have hword : fieldBytes (st.fields.take k) < UInt32.size := by
    rw [hoffset, ← hsub]
    change _ < 4294967296
    omega
  have hptr := fun (g : Frame) (_ : g.temps = μ₁.temps) => pointerOffset_field (f := g) hst' hflat
    hlt (by omega) hword
  refine (Act.passes_elementPtr hrun₁ h₁ hd₂ hB (hstays.current.trans hcur) hv hty hptr
    hword).mono fun μ' hv' => ?_
  rw [hv', hoffset, ← hsub]

end ObjectLang
