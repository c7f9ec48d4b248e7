import Mathlib.Tactic
import ObjectLang.Proofs.Machine.Offsets
import ObjectLang.Proofs.Simulation.Activation

/-!
# Code that runs

What the machine does with a piece of code, told by the states of the builder before and after the
piece was made. Nothing is said of code that is made while no block is open, because nothing is
made then. The code of the finished procedure has more behind the piece and more slots, so what is
said holds in all procedures that the builder can still come to.
-/
namespace ObjectLang

open Machine IR

/-- Whether instructions go to some block. -/
def LowerState.IsOpen (s : LowerState) : Prop :=
  ∃ c, s.builder.current = some c

/-- The code of a running function has been made from a state on. -/
structure LowerState.Before (s : LowerState) (A : Act) : Prop where
  procedure : s.builder.procedure.Within A.procedure
  target : s.target.Keeps A.target
  allocators : s.allocators <+: A.allocators

theorem LowerState.Leads.before {s s' : LowerState} {A : Act} (hl : s.Leads s')
    (h : s'.Before A) : s.Before A :=
  ⟨hl.procedure.trans h.procedure, hl.target.toKeeps.trans h.target,
    hl.allocators.trans h.allocators⟩

/-- A piece of code leads from one stage to another. -/
structure Job.Goes (J : Job) (pending : List Nat) (s s' : LowerState) : Prop where
  leads : s.Leads s'
  stage : J.Stage pending s'
  isOpen : s.IsOpen → s'.IsOpen

theorem Job.Goes.trans {J : Job} {pending pending' : List Nat} {s s' s'' : LowerState}
    (h : J.Goes pending s s') (h' : J.Goes pending' s' s'') : J.Goes pending' s s'' :=
  ⟨h.leads.trans h'.leads, h'.stage, fun ho => h'.isOpen (h.isOpen ho)⟩

/-- What holds whenever a function comes to a piece of code. -/
def Job.Runs (J : Job) (s s' : LowerState)
    (P : Act → Locals → Census → Store → Config → Prop) : Prop :=
  ∀ A : Act, A.job = J → s'.Before A → s.IsOpen → ∀ locals θ σ μ, A.Running locals θ σ μ →
    P A locals θ σ μ

namespace Act

/-- The machine halts with a message. -/
def Halts (A : Act) (s : LowerState) (σ : Store) (μ : Config) (message : String) : Prop :=
  ∃ n t, Steps A.target.module n (A.at s.builder μ) t ∧
    step A.target.module t = .stopped t.world (.error (.halt message)) ∧
      t.world.output.toList = σ.output

/-- The machine comes through a piece of code, and the store stays. -/
def Passes (A : Act) (locals : Locals) (s s' : LowerState) (θ : Census) (σ : Store) (μ : Config)
    (Q : Config → Prop) : Prop :=
  ∃ n μ', Steps A.target.module n (A.at s.builder μ) (A.at s'.builder μ') ∧
    A.Running locals θ σ μ' ∧ A.Follows s.next θ μ θ μ' ∧ Q μ'

variable {A : Act} {pending : List Nat} {s s' s'' : LowerState} {locals : Locals} {θ : Census}
  {σ : Store} {μ : Config} {c : Nat} {x y : Operand} {type : Ty} {Q Q' : Config → Prop}

theorem Passes.refl (hrun : A.Running locals θ σ μ) (hQ : Q μ) :
    A.Passes locals s s θ σ μ Q :=
  ⟨0, μ, .refl _, hrun, .rfl, hQ⟩

theorem Passes.stays (hrun : A.Running locals θ σ μ) (h : s.Stays s') :
    A.Passes locals s s' θ σ μ fun μ' => μ' = μ := by
  refine ⟨0, μ, ?_, hrun, .rfl, rfl⟩
  rw [Act.at, Act.at, h.point]
  exact .refl _

theorem Passes.bind (h : A.Passes locals s s' θ σ μ Q) (hl : s.Leads s')
    (h' : ∀ μ', A.Running locals θ σ μ' → A.Follows s.next θ μ θ μ' → Q μ' →
      A.Passes locals s' s'' θ σ μ' Q') : A.Passes locals s s'' θ σ μ Q' := by
  obtain ⟨n, μ', hsteps, hrun, hf, hq⟩ := h
  obtain ⟨n', μ'', hsteps', hrun', hf', hq'⟩ := h' μ' hrun hf hq
  exact ⟨n + n', μ'', hsteps.trans hsteps', hrun', hf.trans hf' hl.next_le, hq'⟩

theorem Passes.mono (h : A.Passes locals s s' θ σ μ Q) (hQ : ∀ μ', Q μ' → Q' μ') :
    A.Passes locals s s' θ σ μ Q' := by
  obtain ⟨n, μ', hsteps, hrun, hf, hq⟩ := h
  exact ⟨n, μ', hsteps, hrun, hf, hQ μ' hq⟩

theorem Passes.halts {message : String} (h : A.Passes locals s s' θ σ μ Q)
    (h' : ∀ μ', A.Running locals θ σ μ' → A.Follows s.next θ μ θ μ' → Q μ' →
      A.Halts s' σ μ' message) : A.Halts s σ μ message := by
  obtain ⟨n, μ', hsteps, hrun, hf, hq⟩ := h
  obtain ⟨k, t, ht, hhalt⟩ := h' μ' hrun hf hq
  exact ⟨n + k, t, hsteps.trans ht, hhalt⟩

/-- The variables of a stage have slots of their own. -/
theorem placed (hs : A.job.Stage pending s) (hB : s.Before A) : A.Placed := by
  refine ⟨fun x hx => ?_, hs.temps, hs.ids⟩
  obtain ⟨_, type, hslot⟩ := hs.vars x hx
  exact ⟨type, hB.procedure.slots.subset hslot⟩

section

variable (hrun : A.Running locals θ σ μ) (hs : A.job.Stage pending s)
include hrun hs

theorem this_lt {t : Nat} (ht : A.job.body.this = some t) : t < s.next := by
  obtain ⟨_, c, _, _, hc, _⟩ := hrun.self t ht
  obtain ⟨t', ht', hty⟩ := hs.receiver c hc
  obtain rfl : t' = t := Option.some.inj (ht'.symm.trans ht)
  exact hty.fits

/-- An instruction that assigns a new temporary. -/
theorem passes_define {i : Instruction} {mv : Value} (hd : s.Defines i type s')
    (hB : s'.Before A) (hc : s.builder.current = some c)
    (hstep : ∀ rest, step A.target.module (μ.state A.procedure A.callers (c, i :: rest)) =
      .running ((μ.set s.next mv).state A.procedure A.callers (c, rest))) :
    A.Passes locals s s' θ σ μ fun μ' => μ' = μ.set s.next mv ∧
      μ'.value? (.temp s.next) = some mv := by
  have hfree : A.Free s.next := by
    refine ⟨hd.free _ hB.procedure, fun ht => ?_⟩
    exact Nat.lt_irrefl _ (this_lt hrun hs ht)
  obtain ⟨rest, hpoint, hpoint'⟩ := hd.point _ hB.procedure c hc
  refine ⟨1, μ.set s.next mv, .one ?_, hrun.set hfree, .set le_rfl, rfl, ?_⟩
  · rw [Act.at, Act.at, hpoint, hpoint']
    exact hstep rest
  · apply Config.value?_set_self
    obtain ⟨ty, hty, _⟩ := Option.map_eq_some_iff.1 (hB.procedure.typeOf? hd.typed)
    rw [hrun.size]
    exact (Array.getElem?_eq_some_iff.1 hty).1

theorem passes_binary {op : Operation} {v w u : Value}
    (hd : s.Defines (.binary s.next op x y) type s') (hB : s'.Before A)
    (hc : s.builder.current = some c) (hx : μ.value? x = some v) (hy : μ.value? y = some w)
    (h : Computes op v w u) :
    A.Passes locals s s' θ σ μ fun μ' => μ'.value? (.temp s.next) = some u :=
  (passes_define hrun hs hd hB hc fun _ => step_binary hx hy h).mono fun _ h => h.2

theorem passes_bitcast {a : Option Address} (hd : s.Defines (.bitcast s.next x) type s')
    (hB : s'.Before A) (hc : s.builder.current = some c) (hx : μ.value? x = some (.pointer a)) :
    A.Passes locals s s' θ σ μ fun μ' => μ'.value? (.temp s.next) = some (.pointer a) :=
  (passes_define hrun hs hd hB hc fun _ => step_bitcast hx).mono fun _ h => h.2

theorem passes_load {a : Address} {v : Value} (hd : s.Defines (.load s.next x) type s')
    (hB : s'.Before A) (hc : s.builder.current = some c)
    (hx : μ.value? x = some (.pointer (some a))) (ha : μ.memory.Covers a)
    (hv : μ.memory.get? a = some v) :
    A.Passes locals s s' θ σ μ fun μ' => μ'.value? (.temp s.next) = some v :=
  (passes_define hrun hs hd hB hc fun _ => step_load hx ha hv).mono fun _ h => h.2

theorem passes_elementPtr {indices : List Operand} {a : Address} {target : Ty} {offset : Nat}
    (hd : s.Defines (.elementPtr s.next x indices) type s') (hB : s'.Before A)
    (hc : s.builder.current = some c) (hx : μ.value? x = some (.pointer (some a)))
    (htype : s.builder.procedure.typeOf? x = some (.pointer target))
    (hoffset : ∀ f : Frame, f.temps = μ.temps →
      pointerOffset A.target.module f a.offset target indices = .ok (offset : Int))
    (hlt : offset < UInt32.size) :
    A.Passes locals s s' θ σ μ fun μ' =>
      μ'.value? (.temp s.next) = some (.pointer (some ⟨a.allocation, offset⟩)) :=
  (passes_define hrun hs hd hB hc fun _ => step_elementPtr hx
    (hB.procedure.typeOf? (hd.leads.procedure.typeOf? htype)) (hoffset _ rfl) hlt).mono
      fun _ h => h.2

end

/-- A store, told by what it does to the memory. -/
theorem steps_store {a : Address} {v : Value} (he : s.Emits (.store x y) s') (hB : s'.Before A)
    (hc : s.builder.current = some c) (hx : μ.value? x = some (.pointer (some a)))
    (hy : μ.value? y = some v) (ha : μ.memory.Covers a) :
    Steps A.target.module 1 (A.at s.builder μ) (A.at s'.builder (μ.write a v)) := by
  obtain ⟨rest, hpoint, hpoint'⟩ := he.point _ hB.procedure c hc
  refine .one ?_
  rw [Act.at, Act.at, hpoint, hpoint']
  exact step_store hx hy ha

/-- A store to a slot that holds no variable. -/
theorem passes_scratch {dest : Nat} {ty : Ty} {v : Value} (hrun : A.Running locals θ σ μ)
    (hs : A.job.Stage pending s) (he : s.Emits (.store (.temp dest) y) s') (hB : s'.Before A)
    (hc : s.builder.current = some c) (hy : μ.value? y = some v)
    (hslot : .alloca dest ty ∈ A.procedure.slots) (hvars : ∀ x ∈ A.job.vars, x.2 ≠ dest) :
    A.Passes locals s s' θ σ μ fun μ' => μ' = μ.write ⟨A.place dest, 0⟩ v := by
  obtain ⟨htemp, hcovers, _⟩ := hrun.slots dest ty hslot
  have hx : μ.value? (.temp dest) = some (.pointer (some ⟨A.place dest, 0⟩)) := by
    rw [Config.value?, htemp]
    rfl
  refine ⟨1, _, steps_store he hB hc hx hy hcovers, ?_, .write (.inl ⟨dest, ty, hslot, rfl⟩), rfl⟩
  exact hrun.write_scratch hslot (placed hs (he.leads.before hB)) hvars

/-- A jump to a block that the builder was switched to in some state. -/
theorem steps_jump {block : Nat} {r r' : LowerState} (he : s.Ends (.jump block) s')
    (hB : s'.Before A) (hc : s.builder.current = some c) (hr : r.Enters block r')
    (hB' : r'.Before A) :
    Steps A.target.module 1 (A.at s.builder μ) (A.at r'.builder μ) := by
  obtain ⟨hpoint, b, hb, ht⟩ := he.point _ hB.procedure c hc
  obtain ⟨b', hb', hpoint'⟩ := hr.point _ hB'.procedure
  refine .one ?_
  rw [Act.at, Act.at, hpoint, hpoint']
  exact step_jump hb ht hb'

/-- A branch to one of two blocks. -/
theorem steps_branch {onTrue onFalse : Nat} {v : Bool} {r r' : LowerState}
    (he : s.Ends (.branch x onTrue onFalse) s') (hB : s'.Before A)
    (hc : s.builder.current = some c) (hx : μ.value? x = some (.bool v))
    (hr : r.Enters (if v then onTrue else onFalse) r') (hB' : r'.Before A) :
    Steps A.target.module 1 (A.at s.builder μ) (A.at r'.builder μ) := by
  obtain ⟨hpoint, b, hb, ht⟩ := he.point _ hB.procedure c hc
  obtain ⟨b', hb', hpoint'⟩ := hr.point _ hB'.procedure
  refine .one ?_
  rw [Act.at, Act.at, hpoint, hpoint']
  exact step_branch hb ht hx hb'

/-- A block that halts. -/
theorem halts_halt {message : String} (he : s.Ends (.halt message) s') (hB : s'.Before A)
    (hc : s.builder.current = some c) (hout : μ.output.toList = σ.output) :
    A.Halts s σ μ message := by
  obtain ⟨hpoint, b, hb, ht⟩ := he.point _ hB.procedure c hc
  refine ⟨0, _, .refl _, ?_, hout⟩
  rw [Act.at, hpoint]
  exact step_halt hb ht

theorem Halts.steps {n : Nat} {message : String} {μ' : Config}
    (hsteps : Steps A.target.module n (A.at s.builder μ) (A.at s'.builder μ'))
    (h : A.Halts s' σ μ' message) : A.Halts s σ μ message := by
  obtain ⟨k, t, ht, hhalt⟩ := h
  exact ⟨n + k, t, hsteps.trans ht, hhalt⟩

/-- A run that halts simulates an evaluation that halts. -/
theorem Halts.simulates {α : Type} {bound : Nat} {message : String}
    {post : α → Store → State → Prop} (h : A.Halts s σ μ message) :
    Simulates A.target.module bound (A.at s.builder μ)
      ((throw (.halt message) : Eval α) σ) post :=
  h

end Act

end ObjectLang
