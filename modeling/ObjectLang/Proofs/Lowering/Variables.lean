import Mathlib.Tactic
import ObjectLang.Lowering.Statements
import ObjectLang.Proofs.Lowering.Operators
import ObjectLang.Proofs.Simulation.Spots

/-!
# Slots for variables

Before the statements of a function become code, each parameter and each variable gets a slot, one
after the other, with the argument or the default of its type stored there. A variable is one of the
job from the moment on that its slot is filled.
-/
namespace ObjectLang

open Machine IR

/-- The job with more variables, each with the temporary that points to its slot. -/
def Job.declare (J : Job) (xs : List (VarDecl × Nat)) : Job :=
  { J with
    vars := J.vars ++ xs
    body := { J.body with slots := J.body.slots ++ xs.map fun x => (x.1.id, x.2) } }

/-- The same activation, as one of another job. -/
def Act.withJob (A : Act) (J : Job) : Act :=
  { A with job := J }

theorem LowerState.Before.withJob {A : Act} {s : LowerState} (h : s.Before A) (J : Job) :
    s.Before (A.withJob J) :=
  ⟨h.procedure, h.target, h.allocators⟩

theorem Act.Follows.ofJob {A : Act} {J : Job} {lo : Nat} {θ θ' : Census} {μ μ' : Config}
    (h : (A.withJob J).Follows lo θ μ θ' μ') : A.Follows lo θ μ θ' μ' :=
  ⟨h.temps, h.census, h.fresh, h.count, h.memory⟩

theorem Job.declare_nil (J : Job) : J.declare [] = J := by
  simp [declare]

theorem Job.declare_declare (J : Job) (xs ys : List (VarDecl × Nat)) :
    (J.declare xs).declare ys = J.declare (xs ++ ys) := by
  simp [declare]

/-- Code gives the variables `ds` slots, which its result tells, and fills them, as long as what is
stored there shows the values that the variables should have. -/
def Job.Declares {α : Type} (J : Job) (pending : List Nat) (code : Lower α)
    (slots : α → List (Nat × Nat)) (ds : List VarDecl) (s : LowerState)
    (init : Locals → Census → Config → Prop) : Prop :=
  Does code s fun a s' => ∃ xs : List (VarDecl × Nat),
    xs.map Prod.fst = ds ∧ slots a = xs.map (fun x => (x.1.id, x.2)) ∧ s.Leads s' ∧
      (J.declare xs).Stage pending s' ∧ (s.IsOpen → s'.IsOpen) ∧
      ∀ A : Act, A.job = J.declare xs → s'.Before A → s.IsOpen → ∀ locals θ σ μ,
        (A.withJob J).Running locals θ σ μ → init locals θ μ →
          ∃ n μ', Steps A.target.module n (A.at s.builder μ) (A.at s'.builder μ') ∧
            A.Running locals θ σ μ' ∧ A.Follows s.next θ μ θ μ'

variable {J : Job} {pending : List Nat} {s s' : LowerState}

/-- The job of a stage has one more variable. -/
theorem Job.Stage.declare (h : J.Stage pending s) {d : VarDecl} {slot : Nat} {type : Ty}
    (hslot : J.Addresses s (.temp slot) d.plain)
    (halloca : .alloca slot type ∈ s.builder.procedure.slots)
    (hid : d.id ∉ J.vars.map (·.1.id)) (hvars : ∀ x ∈ J.vars, x.2 ≠ slot) :
    (J.declare [(d, slot)]).Stage pending s where
  wellFormed := h.wellFormed
  canonical := h.canonical
  fieldTypes := h.fieldTypes
  layouts := h.layouts
  interfaces := h.interfaces
  target := h.target
  allocators := h.allocators
  builder := h.builder
  result := h.result
  slotTypes := h.slotTypes
  receiver := h.receiver
  slots := by
    simp only [Job.declare, h.slots, List.map_append, List.map_cons, List.map_nil]
  vars x hx := by
    rcases List.mem_append.1 hx with hx | hx
    · exact h.vars x hx
    · obtain rfl := List.mem_singleton.1 hx
      exact ⟨hslot, type, halloca⟩
  ids := by
    simp only [Job.declare, List.map_append, List.map_cons, List.map_nil]
    refine List.nodup_append.2 ⟨h.ids, List.nodup_singleton _, fun i hi j hj hij => ?_⟩
    obtain rfl := List.mem_singleton.1 hj
    exact hid (hij ▸ hi)
  temps := by
    simp only [Job.declare, List.map_append, List.map_cons, List.map_nil]
    refine List.nodup_append.2 ⟨h.temps, List.nodup_singleton _, fun i hi j hj hij => ?_⟩
    obtain rfl := List.mem_singleton.1 hj
    obtain ⟨x, hx, rfl⟩ := List.mem_map.1 hi
    exact hvars x hx hij

/-- A variable whose slot is filled is one of those that the machine shows. -/
theorem Act.Running.declare {A : Act} {d : VarDecl} {slot : Nat} {locals : Locals} {θ : Census}
    {σ : Store} {μ : Config} {mv : Value} (hA : A.job = J.declare [(d, slot)])
    (h : (A.withJob J).Running locals θ σ μ)
    (hv : μ.memory.get? ⟨A.place slot, 0⟩ = some mv)
    (hshows : Shows J.program θ (locals d.id) d.plain mv) : A.Running locals θ σ μ := by
  refine ⟨h.size, h.output, ?_, h.slots, h.apart, fun x hx => ?_, ?_⟩
  · rw [hA]
    exact h.heap
  · rw [hA] at hx ⊢
    rcases List.mem_append.1 hx with hx | hx
    · exact h.vars x hx
    · obtain rfl := List.mem_singleton.1 hx
      exact ⟨mv, hv, hshows⟩
  · rw [hA]
    exact h.self

/-- A slot for a variable is made and filled. -/
theorem does_variable (h : J.Stage pending s) {d : VarDecl} {type : Ty} {x : Operand}
    (hx : s.builder.procedure.Passes x type) (hr : J.Represents s.target d.plain type)
    (hid : d.id ∉ J.vars.map (·.1.id)) :
    J.Declares pending (do
        let slot ← compute (·.slot type)
        perform (·.store (.temp slot) x)
        return (d.id, slot)) ([·]) [d] s fun locals θ μ =>
      ∃ mv, μ.value? x = some mv ∧ Shows J.program θ (locals d.id) d.plain mv := by
  unfold Job.Declares
  refine (does_scratch h hr).bind fun slot s₁ hz => ?_
  obtain ⟨hstays, h₁, hslot, halloca, hvars⟩ := hz
  refine (does_store h₁ hslot (hstays.leads.passes hx)).bind fun _ s₂ hz => ?_
  obtain ⟨he, h₂⟩ := hz
  have hsl := he.leads.procedure.slots.subset halloca
  refine does_pure ⟨[(d, slot)], rfl, rfl, hstays.leads.trans he.leads,
    h₂.declare ⟨type, he.leads.typeOf? hslot, hr.mono (hstays.leads.trans he.leads).target.arrays⟩
      hsl hid hvars, fun ⟨c, hc⟩ =>
      ⟨c, he.current.trans (hstays.current.trans hc)⟩, ?_⟩
  intro A hA hB ⟨c, hc⟩ locals θ σ μ hrun ⟨mv, hmv, hshows⟩
  have hc₁ : s₁.builder.current = some c := hstays.current.trans hc
  have hpass := Act.passes_scratch (A := A.withJob J) hrun h₁ he (hB.withJob J) hc₁
    hmv (hB.procedure.slots.subset hsl) hvars
  obtain ⟨n, μ', hsteps, hrun', hf, rfl⟩ := hpass
  have hat : A.at s.builder μ = A.at s₁.builder μ := by
    rw [Act.at, Act.at, hstays.point]
  refine ⟨n, _, hat ▸ hsteps, hrun'.declare hA ?_ hshows,
    hf.ofJob.weaken hstays.leads.next_le⟩
  obtain ⟨_, hcovers, _⟩ := hrun.slots slot type (hB.procedure.slots.subset hsl)
  exact Memory.get?_put_self hcovers

/-- Variables get slots one after the other, if each of them gets one whenever its turn comes. -/
theorem declares_mapM {α : Type} {f : α → Lower (Nat × Nat)} (decl : α → VarDecl)
    (good : LowerState → α → Prop) (init : α → Locals → Census → Config → Prop)
    (hgood : ∀ a s s', s.Leads s' → good s a → good s' a)
    (hinit : ∀ a (A : Act) s locals θ μ μ', good s a → A.Follows s.next θ μ θ μ' →
      init a locals θ μ → init a locals θ μ')
    (hf : ∀ xs s a, (J.declare xs).Stage pending s → good s a →
      (decl a).id ∉ (J.declare xs).vars.map (·.1.id) →
        (J.declare xs).Declares pending (f a) ([·]) [decl a] s (init a)) :
    ∀ (l : List α) (earlier : List (VarDecl × Nat)) {s : LowerState},
      (J.declare earlier).Stage pending s → (∀ a ∈ l, good s a) →
      ((J.declare earlier).vars.map (·.1.id) ++ l.map fun a => (decl a).id).Nodup →
        (J.declare earlier).Declares pending (l.mapM f) id (l.map decl) s
          fun locals θ μ => ∀ a ∈ l, init a locals θ μ
  | [], earlier, s, h, _, _ => by
      rw [List.mapM_nil]
      refine does_pure ⟨[], rfl, rfl, .rfl, ?_, id, ?_⟩
      · rwa [Job.declare_nil]
      · intro A hA hB ho locals θ σ μ hrun _
        rw [Job.declare_nil] at hA
        rw [← hA] at hrun
        exact ⟨0, μ, .refl _, hrun, .rfl⟩
  | a :: l, earlier, s, h, hl, hids => by
      simp only [List.forall_mem_cons] at hl
      simp only [List.map_cons] at hids
      rw [List.mapM_cons]
      have hid : (decl a).id ∉ (J.declare earlier).vars.map (·.1.id) := fun hm =>
        List.nodup_middle.1 hids |>.notMem (List.mem_append_left _ hm)
      refine (hf earlier s a h hl.1 hid).bind fun r s₁ hz => ?_
      obtain ⟨xs, hxs, hr, hl₁, h₁, ho₁, hruns₁⟩ := hz
      rw [Job.declare_declare] at h₁ hruns₁
      obtain ⟨slot, rfl⟩ : ∃ slot, xs = [(decl a, slot)] := by
        obtain ⟨x, rfl, hx⟩ := List.map_eq_singleton_iff.1 hxs
        exact ⟨x.2, by rw [← hx]⟩
      have hids₁ : ((J.declare (earlier ++ [(decl a, slot)])).vars.map (·.1.id) ++
          l.map fun a => (decl a).id).Nodup := by
        simpa [Job.declare] using hids
      refine (declares_mapM decl good init hgood hinit hf l _ h₁
        (fun b hb => hgood b _ _ hl₁ (hl.2 b hb)) hids₁).bind fun rs s₂ hz => ?_
      obtain ⟨ys, hys, hrs, hl₂, h₂, ho₂, hruns₂⟩ := hz
      refine does_pure ⟨(decl a, slot) :: ys, by simp [hys], ?_, hl₁.trans hl₂, ?_,
        fun ho => ho₂ (ho₁ ho), ?_⟩
      · obtain rfl : r = ((decl a).id, slot) := List.singleton_inj.1 hr
        simp only [id] at hrs ⊢
        rw [hrs]
        rfl
      · rw [Job.declare_declare] at h₂ ⊢
        simpa using h₂
      · intro A hA hB ho locals θ σ μ hrun hall
        rw [Job.declare_declare] at hA hruns₂
        have hA' : A.job = J.declare (earlier ++ [(decl a, slot)] ++ ys) := by simpa using hA
        obtain ⟨n, μ₁, hsteps₁, hrun₁, hf₁⟩ := hruns₁
          (A.withJob (J.declare (earlier ++ [(decl a, slot)]))) rfl
          ((hl₂.before hB).withJob _) ho locals θ σ μ hrun (hall a (List.mem_cons_self ..))
        obtain ⟨k, μ₂, hsteps₂, hrun₂, hf₂⟩ := hruns₂ A hA' hB (ho₁ ho) locals θ σ μ₁ hrun₁
          fun b hb => hinit b A s locals θ μ μ₁ (hl.2 b hb) hf₁.ofJob
            (hall b (List.mem_cons_of_mem _ hb))
        exact ⟨n + k, μ₂, hsteps₁.trans hsteps₂, hrun₂,
          hf₁.ofJob.trans hf₂ hl₁.next_le⟩

/-- The parameters get slots, where the arguments are copied to. -/
theorem declares_parameters (h : J.Stage pending s) {l : List (Nat × VarDecl)}
    (htyped : ∀ x ∈ l, J.Typed s (.temp x.1) x.2.plain)
    (hids : (J.vars.map (·.1.id) ++ l.map (·.2.id)).Nodup) :
    J.Declares pending (l.mapM fun (temp, decl) => lowerParameter temp decl) id (l.map Prod.snd) s
      fun locals θ μ => ∀ x ∈ l, ∃ mv, μ.value? (.temp x.1) = some mv ∧
        Shows J.program θ (locals x.2.id) x.2.plain mv := by
  have hstep := declares_mapM (f := fun (temp, decl) => lowerParameter temp decl) Prod.snd
    (fun s x => J.Typed s (.temp x.1) x.2.plain)
    (fun x locals θ μ => ∃ mv, μ.value? (.temp x.1) = some mv ∧
      Shows J.program θ (locals x.2.id) x.2.plain mv)
    (fun x s s' hl ht => ht.mono hl)
    (fun x A s locals θ μ μ' ht hf ⟨mv, hmv, hshows⟩ => ⟨mv, (hf.value? ht.fits).trans hmv, hshows⟩)
    (fun xs s x h ht hid => ?_) l [] (by rwa [Job.declare_nil]) htyped
    (by rwa [Job.declare_nil])
  · rwa [Job.declare_nil] at hstep
  · obtain ⟨type, htype, hr⟩ := ht
    unfold lowerParameter
    apply Does.seq
    apply does_typeOfOperand
    rw [Builder.typeOf, htype]
    exact does_variable h (.inl htype) hr hid

/-- What a variable, field or element of a type holds before it is assigned. -/
def IR.Ty.initial : Ty → Value
  | .int => .int 0
  | .bool => .bool false
  | _ => .pointer none

theorem value?_defaultValue (μ : Config) (type : Ty) :
    μ.value? type.defaultValue = some type.initial := by
  cases type <;> rfl

/-- It shows the default of the type that is represented. -/
theorem shows_initial {p : Program} {a : ArrayTypes} {structs : ClassStructs} {T : Target}
    {t : PlainType} {type : Ty} {θ : Census} (h : Represents p a structs T t type) :
    Shows p θ t.default t type.initial := by
  cases h with
  | int => exact .int
  | bool => exact .bool
  | null => exact .null (.refl _)
  | object => exact .null (.nullObject _)
  | array => exact .null (.nullArray _)

theorem passes_default {p : Program} {a : ArrayTypes} {structs : ClassStructs} {T : Target}
    {t : PlainType} {type : Ty} (h : Represents p a structs T t type) (q : Procedure) :
    q.Passes type.defaultValue type := by
  cases h with
  | int | bool | null => exact .inl rfl
  | object | array => exact .inr ⟨rfl, _, rfl⟩

/-- The variables get slots with the defaults of their types. -/
theorem declares_locals (h : J.Stage pending s) {l : List VarDecl}
    (hrecorded : ∀ d ∈ l,
      d.type.Recorded J.body.analysis.arrays J.body.analysis.notes J.program)
    (hids : (J.vars.map (·.1.id) ++ l.map (·.id)).Nodup) :
    J.Declares pending (l.mapM (lowerLocal J.body)) id l s
      fun locals _ _ => ∀ d ∈ l, locals d.id = d.plain.default := by
  have hstep := declares_mapM (f := lowerLocal J.body) id
    (fun _ d => d.type.Recorded J.body.analysis.arrays J.body.analysis.notes J.program)
    (fun d locals _ _ => locals d.id = d.plain.default)
    (fun _ _ _ _ hd => hd) (fun _ _ _ _ _ _ _ _ _ hd => hd)
    (fun xs s d h hd hid => ?_) l [] (by rwa [Job.declare_nil]) hrecorded
    (by rwa [Job.declare_nil])
  · rw [Job.declare_nil, List.map_id] at hstep
    exact hstep
  · unfold lowerLocal
    refine (does_lowerTypeExpr h hd).bind fun type s₁ hz => ?_
    obtain ⟨hstays, h₁, hr⟩ := hz
    refine (does_variable h₁ (passes_default hr _) hr hid).mono fun _ s₂ hz => ?_
    obtain ⟨ys, hys, hslots, hl, h₂, ho, hruns⟩ := hz
    refine ⟨ys, hys, hslots, hstays.leads.trans hl, h₂,
      fun ⟨c, hc⟩ => ho ⟨c, hstays.current.trans hc⟩, ?_⟩
    intro A hA hB ⟨c, hc⟩ locals θ σ μ hrun hdefault
    have hshows := shows_initial (θ := θ) hr
    rw [← show locals d.id = d.type.plain.default from hdefault] at hshows
    obtain ⟨n, μ', hsteps, hrun', hf⟩ := hruns A hA hB ⟨c, hstays.current.trans hc⟩ locals θ σ μ
      hrun ⟨_, value?_defaultValue μ _, hshows⟩
    refine ⟨n, μ', ?_, hrun', hf.weaken hstays.leads.next_le⟩
    rwa [Act.at, ← hstays.point]

end ObjectLang
