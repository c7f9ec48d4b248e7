import Mathlib.Tactic
import ObjectLang.Lowering.Expressions
import ObjectLang.Proofs.Simulation.Code

/-!
# Checks, casts and addresses

The pieces that the code of expressions is put together from: checks that stop the program, casts,
the addresses of fields and elements, and division. Each keeps the stage and, when it runs, gives
the value that it stands for or halts with its message.
-/
namespace ObjectLang

open Machine IR

theorem toInt_ofNat_sub_one {n : Nat} (hn : n ≤ 2147483647) :
    (Int32.ofNat n - 1).toInt = (n : Int) - 1 := by
  have h : (Int32.ofNat n).toInt = n := Int32.toInt_ofNat_of_lt (by omega)
  rw [Int32.toInt_sub, h]
  apply Int.bmod_eq_of_le
  · change -((2 ^ 32 : Int) / 2) ≤ n - 1
    omega
  · change (n : Int) - 1 < (2 ^ 32 + 1) / 2
    omega

/-- The test of the code for an index that is not in an array. -/
theorem outside_eq {i : Int32} {n : Nat} (hn : n ≤ maxBytes) :
    (decide (i < 0) || decide (Int32.ofNat n - 1 < i)) =
      !decide (0 ≤ i ∧ i.toNatClampNeg < n) := by
  have hlast := toInt_ofNat_sub_one hn
  have hzero : (0 : Int32).toInt = 0 := rfl
  rw [Bool.eq_iff_iff]
  simp only [Bool.or_eq_true, decide_eq_true_eq, Bool.not_eq_true', decide_eq_false_iff_not]
  rw [Int32.lt_iff_toInt_lt, Int32.lt_iff_toInt_lt, Int32.le_iff_toInt_le, hlast, hzero,
    ← Int32.toNat_toInt]
  omega

variable {J : Job} {pending : List Nat} {s s' : LowerState}

theorem LowerState.Emits.goes {i : Instruction} (h : s.Emits i s') (hs : J.Stage pending s') :
    J.Goes pending s s' :=
  ⟨h.leads, hs, fun ⟨c, hc⟩ => ⟨c, h.current.trans hc⟩⟩

theorem does_binary (h : J.Stage pending s) (op : Operation) (x y : Operand)
    (hop : s.builder.procedure.Operates op x y) :
    Does (compute (·.binary op x y)) s fun z s' => z = .temp s.next ∧
      s.Defines (.binary s.next op x y) op.resultType s' ∧ J.Stage pending s' :=
  does_define h op.resultType (.binary · op x y) rfl rfl
    (fun _ hp hd => .binary (hop.mono hp) hd) fun _ hd hs => ⟨rfl, hd, hs⟩

/-- The program stops exactly if the condition holds. -/
theorem does_stopIf (h : J.Stage pending s) {condition : Operand}
    (hx : s.builder.procedure.typeOf? condition = some .bool) (stopName goName message : String) :
    Does (stopIf condition stopName goName message) s fun _ s' => J.Goes pending s s' ∧
      J.Runs s s' fun A locals θ σ μ =>
        (μ.value? condition = some (.bool true) → A.Halts s σ μ message) ∧
        (μ.value? condition = some (.bool false) →
          A.Passes locals s s' θ σ μ fun μ' => μ' = μ) := by
  unfold stopIf
  apply Does.seq
  refine does_newBlock h fun s₁ hl₁ h₁ => ?_
  apply Does.seq
  refine does_newBlock h₁ fun s₂ hl₂ h₂ => ?_
  have hlt := fun i (hi : i ∈ _) => h₂.builder.lt_of_mem (i := i) hi
  have hfits : (Terminator.branch condition s.builder.procedure.blocks.size
      s₁.builder.procedure.blocks.size).Fits s₂.builder.procedure :=
    .branch ((hl₁.leads.trans hl₂.leads).typeOf? hx)
      (hlt _ (List.mem_cons_of_mem _ (List.mem_cons_self ..))) (hlt _ (List.mem_cons_self ..))
  apply Does.seq
  refine does_terminate h₂ hfits fun s₃ he₃ h₃ => ?_
  apply Does.seq
  refine does_switchTo (h₃.perm (List.Perm.swap _ _ _)) he₃.current fun s₄ he₄ h₄ => ?_
  apply Does.seq
  refine does_terminate h₄ .halt fun s₅ he₅ h₅ => ?_
  refine does_switchTo h₅ he₅.current fun s₆ he₆ h₆ => ?_
  have hleads₂ := hl₁.leads.trans hl₂.leads
  have hleads₄ := (hleads₂.trans he₃.leads).trans he₄.leads
  have hleads := (hleads₄.trans he₅.leads).trans he₆.leads
  refine ⟨⟨hleads, h₆, fun _ => ⟨_, he₆.current⟩⟩, ?_⟩
  intro A hA hB ⟨c, hc⟩ locals θ σ μ hrun
  have hB₅ := he₆.leads.before hB
  have hB₄ := he₅.leads.before hB₅
  have hc₂ : s₂.builder.current = some c := hl₂.current.trans (hl₁.current.trans hc)
  have hat : A.at s.builder μ = A.at s₂.builder μ := by
    rw [Act.at, Act.at, hl₂.point, hl₁.point]
  constructor
  · intro hv
    have hstep := Act.steps_branch (A := A) he₃ (he₄.leads.before hB₄) hc₂ hv he₄ hB₄
    rw [← hat] at hstep
    exact .steps hstep (Act.halts_halt he₅ hB₅ he₄.current hrun.output)
  · intro hv
    have hstep := Act.steps_branch (A := A) he₃ (he₄.leads.before hB₄) hc₂ hv he₆ hB
    exact ⟨1, μ, hat ▸ hstep, hrun, .rfl, rfl⟩

theorem does_elementPtr (h : J.Stage pending s) {x : Operand} {rest : List Operand} {id k : Nat}
    {st : Struct} {f : Field} {target : Ty}
    (hx : s.builder.procedure.typeOf? x = some (.pointer (.struct id)))
    (hst : s.target.module.structs[id]? = some st) (hf : st.fields[k]? = some f)
    (hrest : s.builder.procedure.Selects f.type rest target) :
    Does (compute (·.elementPtr x (.int 0 :: .int (Int32.ofNat k) :: rest) target)) s
      fun z s' => z = .temp s.next ∧
        s.Defines (.elementPtr s.next x (.int 0 :: .int (Int32.ofNat k) :: rest))
          (.pointer target) s' ∧ J.Stage pending s' :=
  does_define h (.pointer target) (.elementPtr · x (.int 0 :: .int (Int32.ofNat k) :: rest)) rfl rfl
    (fun _ hp hd => .elementPtr (hp.types _ _ hx) hst rfl hf (hrest.mono hp) hd)
    fun _ hd hs => ⟨rfl, hd, hs⟩

theorem does_load (h : J.Stage pending s) {x : Operand} {type : Ty}
    (hx : s.builder.procedure.typeOf? x = some (.pointer type)) :
    Does (compute (·.load x)) s fun z s' => z = .temp s.next ∧
      s.Defines (.load s.next x) type s' ∧ J.Stage pending s' := by
  refine does_define h type (.load · x) ?_ rfl (fun _ hp hd => .load (hp.types _ _ hx) hd)
    fun _ hd hs => ⟨rfl, hd, hs⟩
  rw [Builder.load, Builder.typeOf, hx]
  rfl

/-- The program stops exactly if a pointer is null. -/
theorem does_nullCheck (h : J.Stage pending s) {x : Operand} {type : Ty}
    (hx : s.builder.procedure.typeOf? x = some type) (htype : type.isPointer = true) (span : Span) :
    Does (nullCheck x span) s fun _ s' => J.Goes pending s s' ∧
      J.Runs s s' fun A locals θ σ μ =>
        (μ.value? x = some (.pointer none) →
          A.Halts s σ μ ("Nullpointer exception in line " ++ toString span.line)) ∧
        ∀ a, μ.value? x = some (.pointer (some a)) →
          A.Passes locals s s' θ σ μ fun _ => True := by
  unfold nullCheck
  refine (does_binary h .eq x .null ⟨_, _, hx, rfl, .inr (.inr ⟨rfl, htype⟩)⟩).bind
    fun z s₁ hz => ?_
  obtain ⟨rfl, hd, h₁⟩ := hz
  refine (does_stopIf h₁ hd.typed _ _ _).mono fun _ s₂ hs₂ => ?_
  obtain ⟨hg, hruns⟩ := hs₂
  refine ⟨(hd.toEmits.goes h₁).trans hg, ?_⟩
  intro A hA hB ⟨c, hc⟩ locals θ σ μ hrun
  subst hA
  have hB₁ := hg.leads.before hB
  have ho : s₁.IsOpen := ⟨c, hd.current.trans hc⟩
  have hpass := fun v (hv : μ.value? x = some v) =>
    Act.passes_binary hrun h hd hB₁ hc hv (y := .null) rfl .eq
  constructor
  · intro hv
    refine (hpass _ hv).halts fun μ' hrun' _ hz => ?_
    exact (hruns A rfl hB ho locals θ σ μ' hrun').1 hz
  · intro a hv
    refine (hpass _ hv).bind hd.leads fun μ' hrun' _ hz => ?_
    exact ((hruns A rfl hB ho locals θ σ μ' hrun').2 hz).mono fun _ _ => trivial

/-- The struct of an array type. -/
theorem Job.Stage.array_struct (h : J.Stage pending s) {t : PlainType} {ty : Ty}
    (hr : J.Represents s.target (.array t) ty) : ∃ id element name, ty = .pointer (.struct id) ∧
      s.target.module.structs[id]? = some ⟨name, ArrayLayout.fields element⟩ ∧
      J.Represents s.target t element := by
  cases hr with
  | array hm hd =>
      obtain ⟨u, name, ⟨hu, _⟩, helement, hs⟩ := h.target.struct _ _ hm
      obtain rfl := hu.functional hd
      exact ⟨_, _, name, rfl, hs, helement⟩

/-- The length of an array. -/
theorem does_arrayLength (h : J.Stage pending s) {x : Operand} {t : PlainType}
    (hx : J.Typed s x (.array t)) :
    Does (arrayLength x) s fun z s' => J.Goes pending s s' ∧ J.Typed s' z .int ∧
      J.Runs s s' fun A locals θ σ μ => ∀ r a n : Nat, θ[r]? = some (.array t n, a) →
        μ.value? x = some (.pointer (some ⟨a, 0⟩)) →
          A.Passes locals s s' θ σ μ fun μ' => μ'.value? z = some (.int (Int32.ofNat n)) := by
  obtain ⟨_, htype, hr⟩ := hx
  obtain ⟨id, element, name, rfl, hstruct, helement⟩ := h.array_struct hr
  unfold arrayLength
  refine (does_elementPtr h (k := 0) htype hstruct rfl .whole).bind fun z s₁ hz => ?_
  obtain ⟨rfl, hd₁, h₁⟩ := hz
  refine (does_load h₁ hd₁.typed).mono fun z s₂ hz => ?_
  obtain ⟨rfl, hd₂, h₂⟩ := hz
  refine ⟨(hd₁.toEmits.goes h₁).trans (hd₂.toEmits.goes h₂), ⟨.int, hd₂.typed, .int⟩, ?_⟩
  intro A hA hB ⟨c, hc⟩ locals θ σ μ hrun r a n hθ hv
  subst hA
  have hB₁ := hd₂.leads.before hB
  have hs := hB.target.structs _ _ ((hd₁.leads.trans hd₂.leads).target.structs _ _ hstruct)
  have hword : 0 < UInt32.size := by decide
  have hoffset := fun (f : Frame) (_ : f.temps = μ.temps) => pointerOffset_field (f := f) hs
    (ArrayLayout.fields_flat helement.flat) (k := 0) (by simp [ArrayLayout.fields]) (by decide)
    hword
  refine (Act.passes_elementPtr hrun h hd₁ hB₁ hc hv htype hoffset hword).bind hd₁.leads
    fun μ₁ hrun₁ _ hv₁ => ?_
  obtain ⟨items, _, rfl, _, _, hlength, _⟩ := hrun₁.heap.exists_array hθ
  exact Act.passes_load hrun₁ h₁ hd₂ hB (hd₁.current.trans hc) hv₁ (hrun₁.heap.covers_length hθ)
    hlength

/-- The program stops unless an index is in an array. -/
theorem does_boundsCheck (h : J.Stage pending s) {x y : Operand} {t : PlainType}
    (hx : J.Typed s x (.array t)) (hy : s.builder.procedure.typeOf? y = some .int) (span : Span) :
    Does (boundsCheck x y span) s fun _ s' => J.Goes pending s s' ∧
      J.Runs s s' fun A locals θ σ μ => ∀ (r a n : Nat) (i : Int32),
        θ[r]? = some (.array t n, a) → μ.value? x = some (.pointer (some ⟨a, 0⟩)) →
        μ.value? y = some (.int i) →
          (¬ (0 ≤ i ∧ i.toNatClampNeg < n) →
            A.Halts s σ μ ("Index out of bounds error in line " ++ toString span.line)) ∧
          (0 ≤ i ∧ i.toNatClampNeg < n → A.Passes locals s s' θ σ μ fun _ => True) := by
  unfold boundsCheck
  refine (does_arrayLength h hx).bind fun length s₁ hz => ?_
  obtain ⟨hg₁, hlength, hruns₁⟩ := hz
  have hy₁ := hg₁.leads.typeOf? hy
  refine (does_binary hg₁.stage .slt y (.int 0) ⟨hy₁, rfl⟩).bind fun z s₂ hz => ?_
  obtain ⟨rfl, hd₂, h₂⟩ := hz
  refine (does_binary h₂ .sub length (.int 1) ⟨(hlength.mono hd₂.leads).int, rfl⟩).bind
    fun z s₃ hz => ?_
  obtain ⟨rfl, hd₃, h₃⟩ := hz
  have hy₃ := (hd₂.leads.trans hd₃.leads).typeOf? hy₁
  refine (does_binary h₃ .slt _ y ⟨hd₃.typed, hy₃⟩).bind fun z s₄ hz => ?_
  obtain ⟨rfl, hd₄, h₄⟩ := hz
  have hnegative := (hd₃.leads.trans hd₄.leads).typeOf? hd₂.typed
  refine (does_binary h₄ .or _ _ ⟨hnegative, hd₄.typed⟩).bind fun z s₅ hz => ?_
  obtain ⟨rfl, hd₅, h₅⟩ := hz
  refine (does_stopIf h₅ hd₅.typed _ _ _).mono fun _ s₆ hz => ?_
  obtain ⟨hg₆, hruns₆⟩ := hz
  have hg₃ := ((hg₁.trans (hd₂.toEmits.goes h₂)).trans (hd₃.toEmits.goes h₃))
  have hg₅ := (hg₃.trans (hd₄.toEmits.goes h₄)).trans (hd₅.toEmits.goes h₅)
  refine ⟨hg₅.trans hg₆, ?_⟩
  intro A hA hB ho locals θ σ μ hrun r a n i hθ hvx hvy
  subst hA
  have hB₅ := hg₆.leads.before hB
  have hB₄ := hd₅.leads.before hB₅
  have hB₃ := hd₄.leads.before hB₄
  have hB₂ := hd₃.leads.before hB₃
  obtain ⟨c, hc⟩ := hg₁.isOpen ho
  have hc₂ := hd₂.current.trans hc
  have hc₃ := hd₃.current.trans hc₂
  have hn : n ≤ maxBytes := by
    obtain ⟨items, _, rfl, _, hle, _⟩ := hrun.heap.exists_array hθ
    have := Nat.le_mul_of_pos_right items.length t.size_pos
    omega
  have hpass : A.Passes locals s s₅ θ σ μ fun μ' => μ'.value? (.temp s₄.next) =
      some (.bool (!decide (0 ≤ i ∧ i.toNatClampNeg < n))) := by
    refine (hruns₁ A rfl (hd₂.leads.before hB₂) ho locals θ σ μ hrun r a n hθ hvx).bind hg₁.leads
      fun μ₁ hrun₁ hf₁ hv₁ => ?_
    have hvy₁ := (hf₁.value? (fits_of_typeOf? hy)).trans hvy
    refine (Act.passes_binary hrun₁ hg₁.stage hd₂ hB₂ hc hvy₁ (y := .int 0) rfl .slt).bind hd₂.leads
      fun μ₂ hrun₂ hf₂ hv₂ => ?_
    have hv₁' := (hf₂.value? hlength.fits).trans hv₁
    refine (Act.passes_binary hrun₂ h₂ hd₃ hB₃ hc₂ hv₁' (y := .int 1) rfl .sub).bind hd₃.leads
      fun μ₃ hrun₃ hf₃ hv₃ => ?_
    have hfits₁ := fits_of_typeOf? hy₁
    have hvy₃ := (hf₃.value? (hfits₁.mono hd₂.leads.next_le)).trans ((hf₂.value? hfits₁).trans hvy₁)
    refine (Act.passes_binary hrun₃ h₃ hd₄ hB₄ hc₃ hv₃ hvy₃ .slt).bind hd₄.leads
      fun μ₄ hrun₄ hf₄ hv₄ => ?_
    have hfits := fits_of_typeOf? hd₂.typed
    have hv₂' := (hf₄.value? (hfits.mono hd₃.leads.next_le)).trans ((hf₃.value? hfits).trans hv₂)
    refine (Act.passes_binary hrun₄ h₄ hd₅ hB₅ (hd₄.current.trans hc₃) hv₂' hv₄ .or).mono
      fun μ₅ hv₅ => ?_
    rwa [outside_eq hn] at hv₅
  have ho₅ := hg₅.isOpen ho
  constructor
  · intro hout
    refine hpass.halts fun μ' hrun' _ hv => ?_
    exact (hruns₆ A rfl hB ho₅ locals θ σ μ' hrun').1 (by rw [hv, decide_eq_false hout]; rfl)
  · intro hin
    refine hpass.bind hg₅.leads fun μ' hrun' _ hv => ?_
    refine ((hruns₆ A rfl hB ho₅ locals θ σ μ' hrun').2 ?_).mono fun _ _ => trivial
    rw [hv, decide_eq_true hin]
    rfl

/-- The type of what a cast gives. -/
def castType (type target : Ty) : Ty :=
  if type.target?.isSome && target.target?.isSome then target else type

/-- A value of a type, cast to a type above, can stand where a value of that type is asked for. -/
theorem castType_eq {p : Program} {a : ArrayTypes} {structs : ClassStructs} {T : Target}
    {t u : PlainType} {type target : Ty} (ht : Represents p a structs T t type)
    (hu : Represents p a structs T u target) (htu : p.Subtype t u) :
    castType type target = target ∨
      castType type target = .null ∧ ∃ v, target = .pointer v := by
  cases htu with
  | refl =>
      cases ht <;> cases hu <;> exact .inl rfl
  | nullArray =>
      cases ht
      cases hu
      exact .inr ⟨rfl, _, rfl⟩
  | nullObject =>
      cases ht
      cases hu
      exact .inr ⟨rfl, _, rfl⟩
  | object =>
      cases ht
      cases hu
      exact .inl rfl

/-- A cast to a type of pointers leaves the value as it is. -/
theorem does_cast (h : J.Stage pending s) {x : Operand} {t : PlainType} (hx : J.Typed s x t)
    (target : Ty) :
    Does (cast x target) s fun z s' => J.Goes pending s s' ∧
      (∀ ty, s.builder.procedure.typeOf? x = some ty →
        s'.builder.procedure.typeOf? z = some (castType ty target)) ∧
      J.Runs s s' fun A locals θ σ μ => ∀ v mv, Shows J.program θ v t mv →
        μ.value? x = some mv → A.Passes locals s s' θ σ μ fun μ' => μ'.value? z = some mv := by
  obtain ⟨ty, htype, hr⟩ := hx
  unfold cast
  apply Does.seq
  apply does_typeOfOperand
  have htypeOf : s.builder.typeOf x = ty := by
    rw [Builder.typeOf, htype]
    rfl
  rw [htypeOf, htype]
  split_ifs with hcast
  · simp only [Bool.and_eq_true, decide_eq_true_eq] at hcast
    obtain ⟨⟨hty, htarget⟩, _⟩ := hcast
    obtain ⟨v, rfl⟩ : ∃ v, ty = .pointer v := by
      cases ty <;> first | exact ⟨_, rfl⟩ | cases hty
    obtain ⟨w, rfl⟩ : ∃ w, target = .pointer w := by
      cases target <;> first | exact ⟨_, rfl⟩ | cases htarget
    refine does_define h (.pointer w) (.bitcast · x) rfl rfl
      (fun _ hp hd => .bitcast (hp.types _ _ htype) hd) fun s' hd hs => ?_
    refine ⟨hd.toEmits.goes hs, fun _ heq => Option.some.inj heq ▸ hd.typed, ?_⟩
    intro A hA hB ⟨c, hc⟩ locals θ σ μ hrun v mv hv hx
    subst hA
    obtain ⟨a, rfl⟩ : ∃ a, mv = .pointer a := by
      cases hv with
      | int | bool => cases hr
      | null => exact ⟨_, rfl⟩
      | object => exact ⟨_, rfl⟩
      | array => exact ⟨_, rfl⟩
    exact Act.passes_bitcast hrun h hd hB hc hx
  · refine does_pure ⟨⟨.rfl, h, id⟩, fun ty' heq => ?_, ?_⟩
    · cases heq
      rw [htype, castType]
      split_ifs with hpointers
      · simp only [hpointers, Bool.true_and, decide_eq_true_eq, ne_eq, not_not] at hcast
        rw [hcast]
      · rfl
    · intro A hA hB _ locals θ σ μ hrun v mv _ hx
      exact .refl hrun hx

/-- A cast to a type that represents a type above. -/
theorem does_upcast (h : J.Stage pending s) {x : Operand} {t u : PlainType} {target : Ty}
    (hx : J.Typed s x t) (hu : J.Represents s.target u target) (htu : J.program.Subtype t u) :
    Does (cast x target) s fun z s' => J.Goes pending s s' ∧
      s'.builder.procedure.Passes z target ∧
      J.Runs s s' fun A locals θ σ μ => ∀ v mv, Shows J.program θ v t mv →
        μ.value? x = some mv → A.Passes locals s s' θ σ μ fun μ' => μ'.value? z = some mv := by
  refine (does_cast h hx target).mono fun z s' hz => ?_
  obtain ⟨hg, htype, hruns⟩ := hz
  obtain ⟨ty, hty, hr⟩ := hx
  refine ⟨hg, ?_, hruns⟩
  rcases castType_eq hr hu htu with heq | ⟨heq, hpointer⟩
  · exact .inl (heq ▸ htype ty hty)
  · exact .inr ⟨heq ▸ htype ty hty, hpointer⟩

end ObjectLang
