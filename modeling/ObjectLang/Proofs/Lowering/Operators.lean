import Mathlib.Tactic
import ObjectLang.Proofs.Lowering.Addresses
import ObjectLang.Proofs.Simulation.Spots

/-!
# Division and equality

The code for a division gives the truncated quotient, where the least number divided by minus one is
itself, and halts if the divisor is zero. Values are compared as they are, whichever of them is
cast.
-/
namespace ObjectLang

open Machine IR

variable {J : Job} {pending : List Nat} {s s' : LowerState}

theorem does_store (h : J.Stage pending s) {x y : Operand} {type : Ty}
    (hx : s.builder.procedure.typeOf? x = some (.pointer type))
    (hy : s.builder.procedure.Passes y type) : Does (perform (·.store x y)) s fun _ s' =>
      s.Emits (.store x y) s' ∧ J.Stage pending s' :=
  does_emit h rfl (.store hx hy) fun _ he hs => ⟨he, hs⟩

/-- A slot for a value that is no variable. -/
theorem does_scratch (h : J.Stage pending s) {t : PlainType} {type : Ty}
    (hr : J.Represents s.target t type) :
    Does (compute (·.slot type)) s fun z s' => s.Stays s' ∧ J.Stage pending s' ∧
      s'.builder.procedure.typeOf? (.temp z) = some (.pointer type) ∧
        .alloca z type ∈ s'.builder.procedure.slots ∧ ∀ x ∈ J.vars, x.2 ≠ z := by
  refine does_slot h ⟨hr.flat, hr.size_pos⟩ fun s' hstays htype hslot hs =>
    ⟨hstays, hs, htype, hslot, fun x hx hz => ?_⟩
  obtain ⟨_, ty, hx⟩ := h.vars x hx
  have hlt := slot_lt h hx
  rw [hz] at hlt
  exact Nat.lt_irrefl _ hlt

/-- A block ends with a store to a slot and goes on to another block, where the slot is loaded. The
second block may also be entered from elsewhere. -/
theorem does_join {done slot : Nat} (h : J.Stage (done :: pending) s) {x : Operand} {t : PlainType}
    {type : Ty} (hr : J.Represents s.target t type)
    (hslot : s.builder.procedure.typeOf? (.temp slot) = some (.pointer type))
    (halloca : .alloca slot type ∈ s.builder.procedure.slots) (hvars : ∀ x ∈ J.vars, x.2 ≠ slot)
    (hx : s.builder.procedure.typeOf? x = some type) :
    Does (do
      perform (·.store (.temp slot) x)
      perform (·.jump done)
      perform (·.switchTo done)
      compute (·.load (.temp slot))) s fun z s' => s.Leads s' ∧ J.Stage pending s' ∧ s'.IsOpen ∧
        J.Typed s' z t ∧
        (J.Runs s s' fun A locals θ σ μ => ∀ v, μ.value? x = some v →
          A.Passes locals s s' θ σ μ fun μ' => μ'.value? z = some v) ∧
        ∃ q r : LowerState, q.Enters done r ∧ s.Leads r ∧ r.Leads s' ∧
          J.Runs r s' fun A locals θ σ μ => ∀ v, μ.memory.get? ⟨A.place slot, 0⟩ = some v →
            A.Passes locals r s' θ σ μ fun μ' => μ'.value? z = some v := by
  refine (does_store h hslot (.inl hx)).bind fun _ s₁ hz => ?_
  obtain ⟨he₁, h₁⟩ := hz
  apply Does.seq
  refine does_terminate h₁
    (.jump (h₁.builder.lt_of_mem (List.mem_cons_self ..))) fun s₂ he₂ h₂ => ?_
  apply Does.seq
  refine does_switchTo h₂ he₂.current fun s₃ he₃ h₃ => ?_
  have hl₃ := (he₁.leads.trans he₂.leads).trans he₃.leads
  refine (does_load h₃ (hl₃.typeOf? hslot)).mono fun z s₄ hz => ?_
  obtain ⟨rfl, hd₄, h₄⟩ := hz
  have hload : J.Runs s₃ s₄ fun A locals θ σ μ => ∀ v,
      μ.memory.get? ⟨A.place slot, 0⟩ = some v →
        A.Passes locals s₃ s₄ θ σ μ fun μ' => μ'.value? (.temp s₃.next) = some v := by
    intro A hA hB _ locals θ σ μ hrun v hv
    subst hA
    have hs := hB.procedure.slots.subset ((hl₃.trans hd₄.leads).procedure.slots.subset halloca)
    obtain ⟨htemp, hcovers, _⟩ := hrun.slots slot type hs
    have hptr : μ.value? (.temp slot) = some (.pointer (some ⟨A.place slot, 0⟩)) := by
      rw [Config.value?, htemp]
      rfl
    exact Act.passes_load hrun h₃ hd₄ hB he₃.current hptr hcovers hv
  refine ⟨hl₃.trans hd₄.leads, h₄, ⟨done, hd₄.current.trans he₃.current⟩,
    ⟨type, hd₄.typed, hr.mono (hl₃.trans hd₄.leads).target.arrays⟩, ?_, s₂, s₃, he₃, hl₃,
    hd₄.leads, hload⟩
  intro A hA hB ho locals θ σ μ hrun v hv
  subst hA
  obtain ⟨c, hc⟩ := ho
  have hB₃ := hd₄.leads.before hB
  have hB₂ := he₃.leads.before hB₃
  have hs := hB.procedure.slots.subset ((hl₃.trans hd₄.leads).procedure.slots.subset halloca)
  obtain ⟨_, hcovers, _⟩ := hrun.slots slot type hs
  refine (Act.passes_scratch hrun h he₁ (he₂.leads.before hB₂) hc hv hs hvars).bind he₁.leads
    fun μ₁ hrun₁ hf₁ hμ₁ => ?_
  have hjump := Act.steps_jump (A := A) (μ := μ₁) he₂ hB₂ (he₁.current.trans hc) he₃ hB₃
  have hget : μ₁.memory.get? ⟨A.place slot, 0⟩ = some v := by
    rw [hμ₁]
    exact Memory.get?_put_self hcovers
  obtain ⟨n, μ₂, hsteps, hrun₂, hf₂, hv₂⟩ :=
    hload A rfl hB ⟨done, he₃.current⟩ locals θ σ μ₁ hrun₁ v hget
  exact ⟨1 + n, μ₂, hjump.trans hsteps, hrun₂,
    .trans .rfl hf₂ (he₂.leads.trans he₃.leads).next_le, hv₂⟩

theorem minValue_div_neg_one : Int32.minValue / (-1) = Int32.minValue := by
  decide

/-- A division of numbers that is no division by zero: the quotient is found without dividing if it
is that of the least number by minus one. -/
theorem does_divide (h : J.Stage pending s) {x y : Operand}
    (hx : s.builder.procedure.typeOf? x = some .int)
    (hy : s.builder.procedure.typeOf? y = some .int) {slot : Nat}
    (hslot : s.builder.procedure.typeOf? (.temp slot) = some (.pointer .int))
    (halloca : .alloca slot .int ∈ s.builder.procedure.slots) (hvars : ∀ x ∈ J.vars, x.2 ≠ slot) :
    Does (do
      let minusOne ← compute (·.binary .eq y (.int (-1)))
      let least ← compute (·.binary .eq x (.int Int32.minValue))
      let overflow ← compute (·.binary .and minusOne least)
      perform (·.store (.temp slot) (.int Int32.minValue))
      let divide ← compute (·.newBlock "div_no_overflow")
      let done ← compute (·.newBlock "div_end")
      perform (·.branch overflow done divide)
      perform (·.switchTo divide)
      let value ← compute (·.binary .sdiv x y)
      perform (·.store (.temp slot) value)
      perform (·.jump done)
      perform (·.switchTo done)
      compute (·.load (.temp slot))) s fun z s' => J.Goes pending s s' ∧ J.Typed s' z .int ∧
        J.Runs s s' fun A locals θ σ μ => ∀ a b : Int32, b ≠ 0 → μ.value? x = some (.int a) →
          μ.value? y = some (.int b) →
            A.Passes locals s s' θ σ μ fun μ' => μ'.value? z = some (.int (a / b)) := by
  refine (does_binary h .eq y (.int (-1)) ⟨_, _, hy, rfl, .inl rfl⟩).bind fun z s₁ hz => ?_
  obtain ⟨rfl, hd₁, h₁⟩ := hz
  refine (does_binary h₁ .eq x (.int Int32.minValue)
    ⟨_, _, hd₁.leads.typeOf? hx, rfl, .inl rfl⟩).bind fun z s₂ hz => ?_
  obtain ⟨rfl, hd₂, h₂⟩ := hz
  refine (does_binary h₂ .and _ _ ⟨hd₂.leads.typeOf? hd₁.typed, hd₂.typed⟩).bind
    fun z s₃ hz => ?_
  obtain ⟨rfl, hd₃, h₃⟩ := hz
  have hl₃ := (hd₁.leads.trans hd₂.leads).trans hd₃.leads
  refine (does_store h₃ (y := .int Int32.minValue) (hl₃.typeOf? hslot) (.inl rfl)).bind
    fun _ s₄ hz => ?_
  obtain ⟨he₄, h₄⟩ := hz
  apply Does.seq
  refine does_newBlock h₄ fun s₅ hstays₅ h₅ => ?_
  apply Does.seq
  refine does_newBlock h₅ fun s₆ hstays₆ h₆ => ?_
  have hl₆ := (hl₃.trans he₄.leads).trans (hstays₅.leads.trans hstays₆.leads)
  have hfits : (Terminator.branch (.temp s₂.next) s₅.builder.procedure.blocks.size
      s₄.builder.procedure.blocks.size).Fits s₆.builder.procedure :=
    .branch ((he₄.leads.trans (hstays₅.leads.trans hstays₆.leads)).typeOf? hd₃.typed)
      (h₆.builder.lt_of_mem (List.mem_cons_self ..))
      (h₆.builder.lt_of_mem (List.mem_cons_of_mem _ (List.mem_cons_self ..)))
  apply Does.seq
  refine does_terminate h₆ hfits fun s₇ he₇ h₇ => ?_
  apply Does.seq
  refine does_switchTo (h₇.perm (List.Perm.swap _ _ _)) he₇.current fun s₈ he₈ h₈ => ?_
  have hl₈ := hl₆.trans (he₇.leads.trans he₈.leads)
  refine (does_binary h₈ .sdiv x y ⟨hl₈.typeOf? hx, hl₈.typeOf? hy⟩).bind fun z s₉ hz => ?_
  obtain ⟨rfl, hd₉, h₉⟩ := hz
  have hl₉ := hl₈.trans hd₉.leads
  refine (does_join h₉ (t := .int) .int (hl₉.typeOf? hslot) (hl₉.procedure.slots.subset halloca)
    hvars hd₉.typed).mono fun z s' hz => ?_
  obtain ⟨hl', h', ho', htyped, hjoin, q, r, hr, hlr, hlr', hload⟩ := hz
  refine ⟨⟨hl₉.trans hl', h', fun _ => ho'⟩, htyped, ?_⟩
  intro A hA hB ⟨c, hc⟩ locals θ σ μ hrun a b hb hvx hvy
  subst hA
  have hB₉ := hl'.before hB
  have hB₈ := hd₉.leads.before hB₉
  have hB₇ := he₈.leads.before hB₈
  have hB₆ := he₇.leads.before hB₇
  have hB₄ := (hstays₅.leads.trans hstays₆.leads).before hB₆
  have hB₃ := he₄.leads.before hB₄
  have hB₂ := hd₃.leads.before hB₃
  have hc₁ := hd₁.current.trans hc
  have hc₂ := hd₂.current.trans hc₁
  have hc₃ := hd₃.current.trans hc₂
  have hs := hB₃.procedure.slots.subset (hl₃.procedure.slots.subset halloca)
  have hxfits := fits_of_typeOf? hx
  have hyfits := fits_of_typeOf? hy
  -- Up to the branch: the condition is known, and the slot holds the least number.
  have hpass : A.Passes locals s s₆ θ σ μ fun μ' =>
      μ'.value? (.temp s₂.next) = some (.bool (decide (b = -1) && decide (a = Int32.minValue))) ∧
        μ'.value? x = some (.int a) ∧ μ'.value? y = some (.int b) ∧
          μ'.memory.get? ⟨A.place slot, 0⟩ = some (.int Int32.minValue) := by
    refine (Act.passes_binary hrun h hd₁ (hd₂.leads.before hB₂) hc hvy (y := .int (-1)) rfl
      .eq).bind hd₁.leads fun μ₁ hrun₁ hf₁ hv₁ => ?_
    have hvx₁ := (hf₁.value? hxfits).trans hvx
    refine (Act.passes_binary hrun₁ h₁ hd₂ hB₂ hc₁ hvx₁ (y := .int Int32.minValue) rfl
      .eq).bind hd₂.leads fun μ₂ hrun₂ hf₂ hv₂ => ?_
    have hv₁' := (hf₂.value? (fits_of_typeOf? hd₁.typed)).trans hv₁
    refine (Act.passes_binary hrun₂ h₂ hd₃ hB₃ hc₂ hv₁' hv₂ .and).bind hd₃.leads
      fun μ₃ hrun₃ hf₃ hv₃ => ?_
    refine (Act.passes_scratch hrun₃ h₃ he₄ hB₄ hc₃ (y := .int Int32.minValue) rfl hs
      hvars).bind he₄.leads fun μ₄ hrun₄ hf₄ hμ₄ => ?_
    refine (Act.Passes.stays hrun₄ hstays₅).bind hstays₅.leads fun μ₅ hrun₅ _ hμ₅ => ?_
    refine (Act.Passes.stays hrun₅ hstays₆).mono fun μ₆ hμ₆ => ?_
    obtain ⟨_, hcovers, _⟩ := hrun₃.slots slot .int hs
    have hf := (hf₁.trans hf₂ hd₁.leads.next_le).trans hf₃ (hd₁.leads.trans hd₂.leads).next_le
    subst hμ₆ hμ₅ hμ₄
    simp only [Config.value?_write]
    refine ⟨?_, (hf.value? hxfits).trans hvx, (hf.value? hyfits).trans hvy,
      Memory.get?_put_self hcovers⟩
    rw [hv₃]
    simp
  refine hpass.bind hl₆ fun μ' hrun' _ hv => ?_
  obtain ⟨hcond, hvx', hvy', hget⟩ := hv
  have hc₆ : s₆.builder.current = some c :=
    hstays₆.current.trans (hstays₅.current.trans (he₄.current.trans hc₃))
  by_cases hover : b = -1 ∧ a = Int32.minValue
  · obtain ⟨rfl, rfl⟩ := hover
    have hstep := Act.steps_branch (A := A) he₇ hB₇ hc₆ hcond hr (hlr'.before hB)
    obtain ⟨n, μ'', hsteps, hrun'', hf'', hv''⟩ :=
      hload A rfl hB ⟨_, hr.current⟩ locals θ σ μ' hrun' _ hget
    rw [minValue_div_neg_one]
    refine ⟨1 + n, μ'', hstep.trans hsteps, hrun'', .trans .rfl hf'' ?_, hv''⟩
    exact ((he₇.leads.trans he₈.leads).trans (hd₉.leads.trans hlr)).next_le
  · have hfalse : (decide (b = -1) && decide (a = Int32.minValue)) = false := by
      simpa using hover
    rw [hfalse] at hcond
    have hstep := Act.steps_branch (A := A) he₇ hB₇ hc₆ hcond he₈ hB₈
    have hdiv := Act.passes_binary hrun' h₈ hd₉ hB₉ he₈.current hvx' hvy' (.sdiv hb)
    obtain ⟨n, μ'', hsteps, hrun'', hf'', hv''⟩ := hdiv.bind hd₉.leads fun μ₉ hrun₉ _ hv₉ =>
      hjoin A rfl hB ⟨_, hd₉.current.trans he₈.current⟩ locals θ σ μ₉ hrun₉ _ hv₉
    refine ⟨1 + n, μ'', hstep.trans hsteps, hrun'', .trans .rfl hf'' ?_, hv''⟩
    exact (he₇.leads.trans he₈.leads).next_le

/-- A division. -/
theorem does_quotient (h : J.Stage pending s) {x y : Operand}
    (hx : s.builder.procedure.typeOf? x = some .int)
    (hy : s.builder.procedure.typeOf? y = some .int) (span : Span) :
    Does (quotient x y span) s fun z s' => J.Goes pending s s' ∧ J.Typed s' z .int ∧
      J.Runs s s' fun A locals θ σ μ => ∀ a b : Int32, μ.value? x = some (.int a) →
        μ.value? y = some (.int b) →
          (b = 0 → A.Halts s σ μ ("Division by zero in line " ++ toString span.line)) ∧
          (b ≠ 0 → A.Passes locals s s' θ σ μ fun μ' => μ'.value? z = some (.int (a / b))) := by
  unfold quotient
  refine (does_binary h .eq y (.int 0) ⟨_, _, hy, rfl, .inl rfl⟩).bind fun z s₁ hz => ?_
  obtain ⟨rfl, hd₁, h₁⟩ := hz
  refine (does_stopIf h₁ hd₁.typed _ _ _).bind fun _ s₂ hz => ?_
  obtain ⟨hg₂, hruns₂⟩ := hz
  refine (does_scratch hg₂.stage (t := .int) .int).bind fun slot s₃ hz => ?_
  obtain ⟨hstays₃, h₃, hslot, halloca, hvars⟩ := hz
  have hg₃ := ((hd₁.toEmits.goes h₁).trans hg₂).trans (hstays₃.goes h₃)
  have hl₃ := hg₃.leads
  refine (does_divide h₃ (hl₃.typeOf? hx) (hl₃.typeOf? hy) hslot halloca hvars).mono
    fun z s₄ hz => ?_
  obtain ⟨hg₄, htyped, hruns₄⟩ := hz
  refine ⟨hg₃.trans hg₄, htyped, ?_⟩
  intro A hA hB ⟨c, hc⟩ locals θ σ μ hrun a b hvx hvy
  subst hA
  have hB₃ := hg₄.leads.before hB
  have hB₂ := hstays₃.leads.before hB₃
  have ho₁ : s₁.IsOpen := ⟨c, hd₁.current.trans hc⟩
  have hzero := Act.passes_binary hrun h hd₁ (hg₂.leads.before hB₂) hc hvy (y := .int 0) rfl .eq
  constructor
  · rintro rfl
    exact hzero.halts fun μ₁ hrun₁ _ hv₁ => (hruns₂ A rfl hB₂ ho₁ locals θ σ μ₁ hrun₁).1 hv₁
  · intro hb
    refine hzero.bind hd₁.leads fun μ₁ hrun₁ hf₁ hv₁ => ?_
    have hfalse : Value.bool (decide (Value.int b = Value.int 0)) = .bool false := by
      simp [hb]
    rw [hfalse] at hv₁
    refine ((hruns₂ A rfl hB₂ ho₁ locals θ σ μ₁ hrun₁).2 hv₁).bind hg₂.leads
      fun μ₂ hrun₂ hf₂ hμ₂ => ?_
    refine (Act.Passes.stays hrun₂ hstays₃).bind hstays₃.leads fun μ₃ hrun₃ hf₃ hμ₃ => ?_
    subst hμ₃ hμ₂
    exact hruns₄ A rfl hB (hg₃.isOpen ⟨c, hc⟩) locals θ σ _ hrun₃ a b hb
      ((hf₁.value? (fits_of_typeOf? hx)).trans hvx) ((hf₁.value? (fits_of_typeOf? hy)).trans hvy)

/-- A value that was cast can be compared with one of the type that it was cast to. -/
theorem compares_cast {T : Target} {t u : PlainType} {type target : Ty} {p : Procedure}
    {x y : Operand} (ht : J.Represents T t type) (hu : J.Represents T u target)
    (htu : J.program.Subtype t u ∨ J.program.Subtype u t)
    (hx : p.typeOf? x = some (castType type target)) (hy : p.typeOf? y = some target) :
    p.Compares x y := by
  refine ⟨_, _, hx, hy, ?_⟩
  rcases htu with htu | htu
  · rcases castType_eq ht hu htu with heq | ⟨heq, v, rfl⟩
    · exact .inl heq
    · exact .inr (.inl ⟨heq, rfl⟩)
  · cases htu with
    | refl => cases ht <;> cases hu <;> exact .inl rfl
    | nullArray | nullObject =>
        cases hu
        cases ht
        exact .inr (.inr ⟨rfl, rfl⟩)
    | object =>
        cases hu
        cases ht
        exact .inl rfl

/-- Two values are compared, where one of them is cast to the type of the other one. -/
theorem does_equality (h : J.Stage pending s) {x y : Operand} {t u : PlainType}
    (hx : J.Typed s x t) (hy : J.Typed s y u) (T U : ValueType)
    (htu : J.program.Subtype t u ∨ J.program.Subtype u t) :
    Does (equality T U x y) s fun z s' => J.Goes pending s s' ∧ J.Typed s' z .bool ∧
      J.Runs s s' fun A locals θ σ μ => ∀ v w, A.Holds θ μ x t v → A.Holds θ μ y u w →
        A.Passes locals s s' θ σ μ fun μ' =>
          μ'.value? z = some (.bool (decide (v = w))) := by
  have hcompare : ∀ (A : Act) (θ : Census) (σ : Store) (μ : Config) (locals : Locals) v w mv mw,
      A.job = J → A.Running locals θ σ μ → Shows J.program θ v t mv → Shows J.program θ w u mw →
        Value.bool (decide (mv = mw)) = .bool (decide (v = w)) := by
    intro A θ σ μ locals v w mv mw hA hrun hv hw
    rw [decide_eq_decide.2 (hv.eq_iff hrun.heap.apart hw htu)]
  obtain ⟨tx, htx, hrx⟩ := hx
  obtain ⟨ty, hty, hry⟩ := hy
  have htypeOf : s.builder.typeOf x = tx ∧ s.builder.typeOf y = ty := by
    rw [Builder.typeOf, Builder.typeOf, htx, hty]
    exact ⟨rfl, rfl⟩
  unfold equality
  apply Does.seq
  apply does_typeOfOperand
  apply Does.seq
  apply does_typeOfOperand
  rw [htypeOf.1, htypeOf.2]
  extract_lets rightIsBelow
  split_ifs
  · refine (does_cast h ⟨ty, hty, hry⟩ _).bind fun z s₁ hz => ?_
    obtain ⟨hg₁, hz, hruns₁⟩ := hz
    have hcompares := compares_cast hry hrx htu.symm (hz ty hty) (hg₁.leads.typeOf? htx)
    refine (does_binary hg₁.stage .eq x z hcompares.symm).mono fun r s₂ hr => ?_
    obtain ⟨rfl, hd₂, h₂⟩ := hr
    refine ⟨hg₁.trans (hd₂.toEmits.goes h₂), ⟨.bool, hd₂.typed, .bool⟩, ?_⟩
    intro A hA hB ho locals θ σ μ hrun v w hholds hholds'
    subst hA
    obtain ⟨mv, hmv, hv⟩ := hholds
    obtain ⟨mw, hmw, hw⟩ := hholds'
    obtain ⟨c, hc⟩ := hg₁.isOpen ho
    refine (hruns₁ A rfl (hd₂.leads.before hB) ho locals θ σ μ hrun w mw hw hmw).bind hg₁.leads
      fun μ₁ hrun₁ hf₁ hz₁ => ?_
    rw [← hcompare A θ σ μ locals v w mv mw rfl hrun hv hw]
    have hfits := fits_of_typeOf? htx
    exact Act.passes_binary hrun₁ hg₁.stage hd₂ hB hc ((hf₁.value? hfits).trans hmv) hz₁ .eq
  · refine (does_cast h ⟨tx, htx, hrx⟩ _).bind fun z s₁ hz => ?_
    obtain ⟨hg₁, hz, hruns₁⟩ := hz
    have hcompares := compares_cast hrx hry htu (hz tx htx) (hg₁.leads.typeOf? hty)
    refine (does_binary hg₁.stage .eq z y hcompares).mono fun r s₂ hr => ?_
    obtain ⟨rfl, hd₂, h₂⟩ := hr
    refine ⟨hg₁.trans (hd₂.toEmits.goes h₂), ⟨.bool, hd₂.typed, .bool⟩, ?_⟩
    intro A hA hB ho locals θ σ μ hrun v w hholds hholds'
    subst hA
    obtain ⟨mv, hmv, hv⟩ := hholds
    obtain ⟨mw, hmw, hw⟩ := hholds'
    obtain ⟨c, hc⟩ := hg₁.isOpen ho
    refine (hruns₁ A rfl (hd₂.leads.before hB) ho locals θ σ μ hrun v mv hv hmv).bind hg₁.leads
      fun μ₁ hrun₁ hf₁ hz₁ => ?_
    rw [← hcompare A θ σ μ locals v w mv mw rfl hrun hv hw]
    have hfits := fits_of_typeOf? hty
    exact Act.passes_binary hrun₁ hg₁.stage hd₂ hB hc hz₁ ((hf₁.value? hfits).trans hmw) .eq

end ObjectLang
