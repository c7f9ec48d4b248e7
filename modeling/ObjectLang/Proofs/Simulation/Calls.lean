import Mathlib.Tactic
import ObjectLang.Proofs.Simulation.Code
import ObjectLang.Proofs.Simulation.Spots

/-!
# Calls

A procedure serves an evaluation if, whenever it is entered with the arguments, its run simulates
the evaluation up to where it leaves with a value that shows the result. It may change objects and
arrays and make new allocations, and leaves alone all else that was there before. Code that calls
only procedures that serve simulates the evaluation that it was made from.
-/
namespace ObjectLang

open Machine IR

/-- Objects and arrays may have changed and more may have been made, and nothing else that was in
memory has changed. -/
structure Spreads (θ : Census) (memory : Memory) (θ' : Census) (memory' : Memory) : Prop where
  census : θ <+: θ'
  fresh : ∀ a ∈ θ'.places, a ∈ θ.places ∨ memory.count ≤ a
  count : memory.count ≤ memory'.count
  memory : ∀ a < memory.count, a ∉ θ.places → memory'.allocations[a]? = memory.allocations[a]?

/-- A run is about to leave a procedure with a value that shows one of the program. -/
structure Leaves (m : Module) (p : Program) (callers : List (Nat × Frame)) (θ : Census) (σ : Store)
    (t : PlainType) (v : Datum) (s : State) : Prop where
  leave : ∃ mv, step m s = s.perform (.leave mv) ∧ Shows p θ v t mv
  callers : s.callers = callers
  heap : HeapShown p θ σ.heap s.world.memory
  output : s.world.output.toList = σ.output

/-- A procedure simulates an evaluation whenever it is entered with some arguments. -/
def Serves (m : Module) (p : Program) (n id : Nat) (args : List Value) (θ : Census) (σ : Store)
    (r : Except Stop Datum × Store) (t : PlainType) : Prop :=
  ∃ f, enter m id args = .ok f ∧
    ∀ (memory : Memory) (output : Array Int32) (callers : List (Nat × Frame)),
    HeapShown p θ σ.heap memory → output.toList = σ.output →
      Simulates m n ⟨⟨memory, output⟩, f, callers⟩ r fun v σ' s =>
        ∃ θ', Leaves m p callers θ' σ' t v s ∧ Spreads θ memory θ' s.world.memory

/-- The values of the machine show some values, each of its type. -/
inductive ShowAll (p : Program) (θ : Census) : List Datum → List PlainType → List Value → Prop
  | nil : ShowAll p θ [] [] []
  | cons {v : Datum} {t : PlainType} {mv : Value} {vs : List Datum} {ts : List PlainType}
      {mvs : List Value} : Shows p θ v t mv → ShowAll p θ vs ts mvs →
      ShowAll p θ (v :: vs) (t :: ts) (mv :: mvs)

/-- All procedures of a module serve: functions and methods do what calls do whose nesting is
bounded, and constructors and allocators make objects and arrays. -/
structure Answers (m : Module) (p : Program) (arrays : ArrayTypes) (l : Layouts)
    (allocators : List (ValueType × Nat)) (invoke : Invoke) (n : Nat) : Prop where
  functions : ∀ (f : FunctionDecl) (s : Signature), f ∈ p.functions →
    l.function? f.name.name = some s → ∀ θ σ vs mvs,
      ShowAll p θ vs (f.params.map VarDecl.plain) mvs →
        Serves m p n s.procedure mvs θ σ (invoke (.function f) none vs σ) f.returnType.plain
  methods : ∀ (c : ClassRef) (layout : ClassLayout) (f : FunctionDecl) (s : Signature),
    c.Faithful p → l.class? c.name = some layout → f ∈ (p.classDecl c).methods →
      layout.method? f.name.name = some s → ∀ θ σ r mv vs mvs,
        Shows p θ (.ref r) (.object c.name) mv → ShowAll p θ vs (f.params.map VarDecl.plain) mvs →
          Serves m p n s.procedure (mv :: mvs) θ σ (invoke (.method c.name f) (some (.ref r)) vs σ)
            f.returnType.plain
  constructors : ∀ (c : ClassRef) (layout : ClassLayout), c.Faithful p →
    l.class? c.name = some layout → ∀ θ σ,
      Serves m p n layout.constructor [] θ σ (p.create c.name σ) (.object c.name)
  allocators : ∀ (V : ValueType) (id : Nat) (t : PlainType), (V, id) ∈ allocators →
    V.Denotes p arrays t → ∀ θ σ k,
      Serves m p n id [.int k] θ σ (createArray t k σ) (.array t)

namespace Act

/-- The procedures that an activation calls serve. -/
def Answers (A : Act) (invoke : Invoke) (n : Nat) : Prop :=
  ObjectLang.Answers A.target.module A.job.program A.job.body.analysis.arrays A.job.body.layouts
    A.allocators invoke n

variable {α β : Type}

/-- The code between two states simulates an evaluation that leaves the variables alone. -/
def Evaluates (A : Act) (n : Nat) (locals : Locals) (s s' : LowerState) (θ : Census) (μ : Config)
    (r : Except Stop α × Store) (Q : α → Census → Config → Prop) : Prop :=
  Simulates A.target.module n (A.at s.builder μ) r fun a σ' st => ∃ θ' μ',
    st = A.at s'.builder μ' ∧ A.Running locals θ' σ' μ' ∧ A.Follows s.next θ μ θ' μ' ∧ Q a θ' μ'

variable {A : Act} {n : Nat} {locals : Locals} {s s' s'' : LowerState} {θ : Census} {σ : Store}
  {μ : Config} {r : Except Stop α × Store}

theorem Passes.simulates {Q : Config → Prop} {post : α → Store → State → Prop}
    (h : A.Passes locals s s' θ σ μ Q)
    (hf : ∀ μ', A.Running locals θ σ μ' → A.Follows s.next θ μ θ μ' → Q μ' →
      Simulates A.target.module n (A.at s'.builder μ') r post) :
    Simulates A.target.module n (A.at s.builder μ) r post := by
  obtain ⟨k, μ', hsteps, hrun, hfollows, hq⟩ := h
  exact (hf μ' hrun hfollows hq).after hsteps

theorem Passes.evaluates {Q : Config → Prop} {Q' : α → Census → Config → Prop}
    (h : A.Passes locals s s' θ σ μ Q) (hl : s.Leads s')
    (hf : ∀ μ', A.Running locals θ σ μ' → A.Follows s.next θ μ θ μ' → Q μ' →
      A.Evaluates n locals s' s'' θ μ' r Q') : A.Evaluates n locals s s'' θ μ r Q' := by
  refine h.simulates fun μ' hrun hfollows hq => (hf μ' hrun hfollows hq).mono le_rfl ?_
  rintro a σ' st ⟨θ', μ'', hst, hrun', hfollows', hq'⟩
  exact ⟨θ', μ'', hst, hrun', hfollows.trans hfollows' hl.next_le, hq'⟩

theorem Passes.returns {Q : Config → Prop} {Q' : α → Census → Config → Prop} {a : α}
    (h : A.Passes locals s s' θ σ μ Q) (hQ : ∀ μ', Q μ' → Q' a θ μ') :
    A.Evaluates n locals s s' θ μ ((pure a : Eval α) σ) Q' := by
  obtain ⟨k, μ', hsteps, hrun, hfollows, hq⟩ := h
  exact ⟨k, _, hsteps, θ, μ', rfl, hrun, hfollows, hQ μ' hq⟩

namespace Evaluates

variable {x : Eval α} {f : α → Eval β} {Q Q' : α → Census → Config → Prop}
  {Q'' : β → Census → Config → Prop}

theorem simulates {post : β → Store → State → Prop}
    (h : A.Evaluates n locals s s' θ μ (x σ) Q)
    (hf : ∀ a θ' σ' μ', A.Running locals θ' σ' μ' → A.Follows s.next θ μ θ' μ' → Q a θ' μ' →
      Simulates A.target.module n (A.at s'.builder μ') (f a σ') post) :
    Simulates A.target.module n (A.at s.builder μ) ((x >>= f) σ) post := by
  apply Simulates.bind h
  rintro a σ' st ⟨θ', μ', rfl, hrun, hfollows, hq⟩
  exact hf a θ' σ' μ' hrun hfollows hq

/-- One piece of code after the other. -/
theorem bind (h : A.Evaluates n locals s s' θ μ (x σ) Q) (hl : s.Leads s')
    (hf : ∀ a θ' σ' μ', A.Running locals θ' σ' μ' → A.Follows s.next θ μ θ' μ' → Q a θ' μ' →
      A.Evaluates n locals s' s'' θ' μ' (f a σ') Q'') :
    A.Evaluates n locals s s'' θ μ ((x >>= f) σ) Q'' := by
  refine h.simulates fun a θ' σ' μ' hrun hfollows hq => ?_
  apply Simulates.mono (hf a θ' σ' μ' hrun hfollows hq) le_rfl
  rintro b σ'' st ⟨θ'', μ'', hst, hrun', hfollows', hq'⟩
  exact ⟨θ'', μ'', hst, hrun', hfollows.trans hfollows' hl.next_le, hq'⟩

end Evaluates

theorem Follows.elsewhere {lo : Nat} {θ' : Census} {memory : Memory} {output : Array Int32}
    (h : Spreads θ μ.memory θ' memory) : A.Follows lo θ μ θ' { μ with memory, output } :=
  ⟨fun _ _ => Eq.refl _, h.census, h.fresh, h.count, fun a ha hθ _ => h.memory a ha hθ⟩

/-- A call of a procedure that serves. -/
theorem evaluates_call {pending : List Nat} {id c : Nat} {args : List Operand} {mvs : List Value}
    {type : Ty} {t : PlainType} {x : Eval Datum} (hrun : A.Running locals θ σ μ)
    (hs : A.job.Stage pending s) (hd : s.Defines (.call s.next id args) type s')
    (hB : s'.Before A) (hc : s.builder.current = some c)
    (hargs : List.Forall₂ (fun x v => μ.value? x = some v) args mvs)
    (h : Serves A.target.module A.job.program n id mvs θ σ (x σ) t) :
    A.Evaluates (n + 1) locals s s' θ μ (x σ) fun v θ' μ' =>
      A.Holds θ' μ' (.temp s.next) t v := by
  obtain ⟨f, hf, hsim⟩ := h
  obtain ⟨rest, hpoint, hpoint'⟩ := hd.point _ hB.procedure c hc
  have hstep : Steps A.target.module 1 (A.at s.builder μ)
      ⟨⟨μ.memory, μ.output⟩, f, (s.next, ⟨A.procedure, c, rest, μ.temps⟩) :: A.callers⟩ := by
    rw [Act.at, hpoint]
    exact .one (step_call hargs hf)
  have hcall := (hsim μ.memory μ.output _ hrun.heap hrun.output).steps hstep
  rw [Nat.add_comm 1 n] at hcall
  refine hcall.extend ?_
  rintro v σ' st ⟨θ', ⟨⟨mv, hleave, hshows⟩, hcallers, hheap, hout⟩, hspreads⟩
  have hfree : A.Free s.next := by
    refine ⟨hd.free _ hB.procedure, fun ht => ?_⟩
    exact Nat.lt_irrefl _ (this_lt hrun hs ht)
  have hrun' := hrun.elsewhere (placed hs (hd.leads.before hB)) hheap hout hspreads.census
    hspreads.fresh hspreads.memory
  refine ⟨1, _, .one ?_, θ', Config.set ⟨st.world.memory, st.world.output, μ.temps⟩ s.next mv, rfl,
    hrun'.set hfree, .trans (.elsewhere hspreads) (.set le_rfl) le_rfl, mv, ?_, hshows⟩
  · rw [hleave, Act.at, hpoint']
    obtain ⟨⟨memory, output⟩, ⟨p, b, todo, temps⟩, callers⟩ := st
    obtain rfl := hcallers
    rfl
  · apply Config.value?_set_self
    obtain ⟨ty, hty, _⟩ := Option.map_eq_some_iff.1 (hB.procedure.typeOf? hd.typed)
    change s.next < μ.temps.size
    rw [hrun.size]
    exact (Array.getElem?_eq_some_iff.1 hty).1

end Act

end ObjectLang
