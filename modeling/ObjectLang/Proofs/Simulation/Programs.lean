import Mathlib.Tactic
import ObjectLang.Compile
import ObjectLang.Proofs.Lowering.Programs
import ObjectLang.Proofs.Simulation.Allocators
import ObjectLang.Proofs.Simulation.Constructors

/-!
# Compiled programs

All procedures of a compiled program serve, however deep calls may nest: constructors and the
procedures that make arrays by themselves, functions and methods by induction on the bound, as their
code calls only procedures that serve what is bounded by less. So a run of the compiled program
shows what the program means.
-/
namespace ObjectLang

open Machine IR

section serving

variable {p : Program} {θ : Census} {vs : List Datum} {ts : List PlainType} {mvs : List Value}

namespace ShowAll

variable (h : ShowAll p θ vs ts mvs)
include h

theorem length : vs.length = ts.length ∧ mvs.length = ts.length := by
  induction h with
  | nil => exact ⟨rfl, rfl⟩
  | cons _ _ ih => simp [ih]

theorem get {i : Nat} {v : Datum} {t : PlainType} {mv : Value} (hv : vs[i]? = some v)
    (ht : ts[i]? = some t) (hmv : mvs[i]? = some mv) : Shows p θ v t mv := by
  induction h generalizing i with
  | nil => cases hv
  | cons hs _ ih =>
      cases i with
      | zero =>
          obtain rfl := Option.some.inj hv
          obtain rfl := Option.some.inj ht
          obtain rfl := Option.some.inj hmv
          exact hs
      | succ i => exact ih hv ht hmv

end ShowAll

/-- What a routine gets as its receiver: nothing, or an object of the class that it is a method of,
which is the first argument of its procedure. -/
inductive Receives (p : Program) (θ : Census) :
    Option ClassRef → Option Datum → List Value → Prop
  | function : Receives p θ none none []
  | method {c : ClassRef} {id : Nat} {mv : Value} : Shows p θ (.ref id) (.object c.name) mv →
      Receives p θ (some c) (some (.ref id)) [mv]

theorem Receives.length {owner : Option ClassRef} {self : Option Datum} {mvs₀ : List Value}
    (h : Receives p θ owner self mvs₀) : mvs₀.length = owner.toList.length := by
  cases h <;> rfl

variable {body : Body} {r : Routine} {s s₁ s₂ : LowerState} {invoke : Invoke} {id n : Nat}
  {self : Option Datum} {mvs₀ : List Value} {σ : Store}

/-- The procedure of a routine serves what the routine evaluates to, if all procedures serve what is
bounded by less. -/
theorem Routine.Coded.serves (h : r.Coded p body s id) (hr : r.Proper p body)
    (hans : Answers s.target.module p body.analysis.arrays body.layouts s.allocators invoke n)
    (hself : Receives p θ r.owner self mvs₀)
    (hargs : ShowAll p θ vs (r.decl.params.map VarDecl.plain) mvs) :
    Serves s.target.module p (n + 1) id (mvs₀ ++ mvs) θ σ
      (r.decl.evaluate p body.options.printFunction invoke (n + 1) r.current self vs σ)
      r.decl.returnType.plain := by
  obtain ⟨s₁, s₂, hmade, hkeeps, _, hallocators, hid⟩ := h
  obtain ⟨q, types, returnType, hq, hlength, hstart⟩ := hmade.start
  obtain ⟨xs, hfinishes⟩ := hmade.finishes
  obtain ⟨hvs, hmvs⟩ := hargs.length
  rw [List.length_map] at hvs hmvs
  have hcount := hself.length
  have hzip : ∀ (i : Nat) (mv : Value), (mvs₀ ++ mvs)[i]? = some mv →
      (i, mv) ∈ q.params.zip (mvs₀ ++ mvs) := by
    intro i mv hmv
    have hi := (List.getElem?_eq_some_iff.1 hmv).1
    rw [List.length_append] at hi
    refine List.mem_iff_getElem?.2 ⟨i, ?_⟩
    rw [List.getElem?_zip_eq_some, hq.params]
    exact ⟨List.getElem?_range (by omega), hmv⟩
  refine hfinishes.serves rfl hstart hq.blocks hq.nodup_params hq.params_lt hr.ids hkeeps
    hallocators hid ?_ (fun t ht => ?_) (fun x hx => ?_) hans
  · rw [hq.params, List.length_range, hlength, List.length_append, hcount, hmvs]
  · obtain ⟨c, howner, ht⟩ := Option.map_eq_some_iff.1 ht
    obtain rfl : 0 = t := ht
    rw [howner] at hself
    cases hself with
    | method hshows =>
        exact ⟨_, c.name, _, rfl, congrArg (Option.map ClassRef.name) howner, hzip 0 _ rfl, hshows⟩
  · obtain ⟨i, hx⟩ := List.mem_iff_getElem?.1 hx
    obtain ⟨htemp, hparam⟩ := List.getElem?_zip_eq_some.1 hx
    have hi := (List.getElem?_eq_some_iff.1 hparam).1
    have hv := List.getElem?_eq_getElem (l := vs) (i := i) (by omega)
    have hmv := List.getElem?_eq_getElem (l := mvs) (i := i) (by omega)
    rw [Routine.temps, List.getElem?_range' (by omega), ← hcount, Nat.one_mul] at htemp
    refine ⟨_, _, List.mem_iff_getElem?.2 ⟨i, List.getElem?_zip_eq_some.2 ⟨hparam, hv⟩⟩,
      hzip x.1 _ ?_, hargs.get hv ?_ hmv⟩
    · rw [← Option.some.inj htemp, List.getElem?_append_right (Nat.le_add_right ..),
        Nat.add_sub_cancel_left, hmv]
    · rw [List.getElem?_map, hparam, Option.map_some]

/-- The procedure of a routine can be entered. -/
theorem Routine.Coded.serves_zero (h : r.Coded p body s id)
    (hself : Receives p θ r.owner self mvs₀)
    (hargs : ShowAll p θ vs (r.decl.params.map VarDecl.plain) mvs) :
    Serves s.target.module p 0 id (mvs₀ ++ mvs) θ σ ((throw .timeout : Eval Datum) σ)
      r.decl.returnType.plain := by
  obtain ⟨s₁, s₂, hmade, _, _, _, hid⟩ := h
  obtain ⟨q, types, returnType, hq, hlength, hstart⟩ := hmade.start
  obtain ⟨xs, hfinishes⟩ := hmade.finishes
  have hmvs := hargs.length.2
  rw [List.length_map] at hmvs
  have hparams : s₂.builder.procedure.params = q.params := by
    rw [hfinishes.leads.procedure.params, hstart]
    rfl
  refine ⟨_, enter_eq hid ?_ (Array.getElem?_eq_getElem hfinishes.stage.builder.entry),
    fun memory output callers _ hout => Simulates.timeout hout⟩
  rw [hparams, hq.params, List.length_range, hlength, List.length_append, hself.length, hmvs]

end serving

section answering

variable {p : Program} {body : Body} {routines : List (Routine × Signature)} {T₀ : Target}
  {s : LowerState}

/-- All procedures of a compiled program serve, by induction on how deep calls may nest. -/
theorem Program.Progress.answers (hp : p.Prepared body)
    (h₀ : body.layouts.Built p body.analysis routines T₀)
    (h : p.Progress body routines [] [] s) : ∀ n, Answers s.target.module p body.analysis.arrays
      body.layouts s.allocators (p.invoke body.options.printFunction n) n := by
  have hw := hp.accepted.wellFormed
  have hcoded : ∀ x ∈ routines, x.1.Coded p body s x.2.procedure ∧ x.1.Proper p body := by
    intro x hx
    refine ⟨h.coded x hx List.not_mem_nil, hp.proper ?_⟩
    rw [← h₀.order]
    exact List.mem_map_of_mem hx
  have hfunction : ∀ (f : FunctionDecl) (sg : Signature), f ∈ p.functions →
      body.layouts.function? f.name.name = some sg → (⟨none, f⟩, sg) ∈ routines := by
    intro f sg hf hsg
    obtain ⟨sg', hx⟩ := h₀.mem_functions hf
    rwa [Option.some.inj (hsg.symm.trans (h₀.signatures _ hx))]
  have hmethod : ∀ (c : ClassRef) (layout : ClassLayout) (f : FunctionDecl) (sg : Signature),
      c.Faithful p → body.layouts.class? c.name = some layout → f ∈ (p.classDecl c).methods →
      layout.method? f.name.name = some sg → (⟨some c, f⟩, sg) ∈ routines := by
    intro c layout f sg hc hl hf hsg
    obtain ⟨sg', hx⟩ := h₀.mem_methods hp.accepted hc hf
    have hsignature := h₀.signatures _ hx
    rw [Layouts.signature?, Option.elim_some, hl, Option.bind_some, hsg] at hsignature
    rwa [Option.some.inj hsignature]
  have hconstructors : ∀ (n : Nat) (c : ClassRef) (layout : ClassLayout), c.Faithful p →
      body.layouts.class? c.name = some layout → ∀ θ σ, Serves s.target.module p n
        layout.constructor [] θ σ (p.create c.name σ) (.object c.name) := by
    intro n c layout hc hl θ σ
    obtain ⟨layout', hl', hfilled⟩ := h.classes c hc
    obtain rfl := Option.some.inj (hl.symm.trans hl')
    exact (h.layouts.layout hc hl).serves hw.hierarchy hw.fieldNames hfilled.constructor n θ σ
  have hallocators : ∀ (n : Nat) (V : ValueType) (id : Nat) (t : PlainType),
      (V, id) ∈ s.allocators → V.Denotes p body.analysis.arrays t → ∀ θ σ k,
        Serves s.target.module p n id [.int k] θ σ (createArray t k σ) (.array t) := by
    intro n V id t hV ht θ σ k
    obtain ⟨t', layout, name, ht', _, hr, hs, hproc⟩ := h.makes (V, id) hV List.not_mem_nil
    obtain rfl := ht.functional ht'
    exact serves_allocator hr hs hproc n θ σ k
  intro n
  induction n with
  | zero =>
      refine ⟨fun f sg hf hsg θ σ vs mvs hargs => ?_,
        fun c layout f sg hc hl hf hsg θ σ id mv vs mvs hself hargs => ?_, hconstructors 0,
        hallocators 0⟩
      · exact (hcoded _ (hfunction f sg hf hsg)).1.serves_zero .function hargs
      · exact (hcoded _ (hmethod c layout f sg hc hl hf hsg)).1.serves_zero (.method hself) hargs
  | succ n ih =>
      refine ⟨fun f sg hf hsg θ σ vs mvs hargs => ?_,
        fun c layout f sg hc hl hf hsg θ σ id mv vs mvs hself hargs => ?_, hconstructors (n + 1),
        hallocators (n + 1)⟩
      · obtain ⟨hc, hproper⟩ := hcoded _ (hfunction f sg hf hsg)
        exact hc.serves hproper ih .function hargs
      · obtain ⟨hcoded, hproper⟩ := hcoded _ (hmethod c layout f sg hc hl hf hsg)
        exact hcoded.serves hproper ih (.method hself) hargs

/-- The name of the function that a program starts with has no underscore. -/
theorem ne_mainName {name : String} (h : '_' ∈ name.toList) : name ≠ mainName := by
  rintro rfl
  exact absurd h (by decide)

theorem Routine.Coded.name {r : Routine} {id : Nat} {q : Procedure} (h : r.Coded p body s id)
    (hq : s.target.module.procedures[id]? = some q) : q.name = r.name := by
  obtain ⟨s₁, s₂, hmade, _, _, _, hid⟩ := h
  obtain ⟨q₁, types, returnType, hq₁, _, hstart⟩ := hmade.start
  obtain ⟨xs, hfinishes⟩ := hmade.finishes
  rw [← Option.some.inj (hid.symm.trans hq), hfinishes.leads.procedure.name, hstart]
  exact hq₁.name

/-- Only the main function has a procedure of its name. -/
theorem Program.Compiled.eq_main (h : p.Compiled body routines s) {f : FunctionDecl}
    {sg : Signature} (hf : f.name.name = mainName) (hx : (⟨none, f⟩, sg) ∈ routines) {id : Nat}
    {q : Procedure} (hq : s.target.module.procedures[id]? = some q) (hname : q.name = mainName) :
    id = sg.procedure := by
  obtain ⟨T₀, h₀⟩ := h.built
  cases h.hasProcedure hq with
  | @constructor c _ _ _ _ _ _ =>
      have hmem : '_' ∈ (c.name ++ "_Create_Default").toList := by simp
      exact absurd hname (ne_mainName hmem)
  | @routine x _ hx' hbelongs hcoded _ =>
      have hxname := hcoded.name hq
      obtain ⟨⟨owner, decl⟩, sg'⟩ := x
      cases owner with
      | some c => exact absurd (hxname.symm.trans hname) (ne_mainName (by simp [Routine.name]))
      | none =>
          have hmem : (Routine.mk none f).Belongs p :=
            h.prepared.accepted.belongs (h₀.order ▸ List.mem_map_of_mem (f := Prod.fst) hx)
          have hdecl : decl = f := List.inj_on_of_nodup_map
            h.prepared.accepted.wellFormed.functionNames hbelongs hmem
            ((hxname.symm.trans hname).trans hf.symm)
          rw [h₀.eq_of_routine h.prepared hx' hx (congrArg (Routine.mk none) hdecl)]
  | @allocator x _ _ _ _ _ _ =>
      rw [allocatorCode_eq] at hname
      have hmem : '_' ∈ (allocatorName x.1).toList := by simp [allocatorName]
      exact absurd hname (ne_mainName hmem)

/-- The only procedure of a name is found. -/
theorem findProcedure?_eq {m : Module} {id : Nat} {q : Procedure}
    (hq : m.procedures[id]? = some q)
    (hunique : ∀ (i : Nat) (q' : Procedure), m.procedures[i]? = some q' → q'.name = q.name →
      i = id) : m.findProcedure? q.name = some id := by
  have hfound : ∃ i, m.findProcedure? q.name = some i := by
    refine Option.isSome_iff_exists.1 (List.find?_isSome.2 ⟨id, ?_, ?_⟩)
    · rw [List.mem_reverse, List.mem_range]
      exact (Array.getElem?_eq_some_iff.1 hq).1
    · simp only [hq, Option.any_some, beq_self_eq_true]
  obtain ⟨i, hfind⟩ := hfound
  unfold Module.findProcedure? at hfind ⊢
  have hany := List.find?_some hfind
  obtain ⟨q', hq', hname⟩ := (Option.any_eq_true ..).1 hany
  rw [hfind, hunique i q' hq' (beq_iff_eq.1 hname)]

/-- The program starts with the procedure of its main function. -/
theorem Program.Compiled.findProcedure? (h : p.Compiled body routines s) {f : FunctionDecl}
    {sg : Signature} (hf : f.name.name = mainName) (hx : (⟨none, f⟩, sg) ∈ routines) :
    s.target.module.findProcedure? mainName = some sg.procedure := by
  have hcoded := h.done.coded _ hx List.not_mem_nil
  obtain ⟨_, s₂, _, _, _, _, hid⟩ := id hcoded
  have hname : s₂.builder.procedure.name = mainName := (hcoded.name hid).trans hf
  rw [← hname]
  exact findProcedure?_eq hid fun i q hq hqname => h.eq_main hf hx hq (hqname.trans hname)

/-- The procedure that a program starts with serves what the program means. -/
theorem Program.Compiled.serves (h : p.Compiled body routines s) (bound : Nat) :
    ∃ id, s.target.module.findProcedure? mainName = some id ∧ ∃ frame,
      enter s.target.module id [] = .ok frame ∧
        Simulates s.target.module bound ⟨{}, frame, []⟩
          (p.evaluate body.options.printFunction bound) fun v σ s' =>
            ∃ k, v = .int k ∧ step s.target.module s' =
              .stopped s'.world (.ok (.int k)) ∧ s'.world.output.toList = σ.output := by
  obtain ⟨T₀, h₀⟩ := h.built
  obtain ⟨f, hf, hname, htype, hparams⟩ := h.prepared.accepted.wellFormed.main
  obtain ⟨sg, hx⟩ := h₀.mem_functions hf
  have hfind : p.function? mainName = some f := by
    have hmem : f ∈ p.functions.filter (·.name.name == mainName) :=
      List.mem_filter.2 ⟨hf, beq_iff_eq.2 hname⟩
    rwa [filter_function h.prepared.accepted.wellFormed.functionNames, Option.mem_toList] at hmem
  obtain ⟨frame, henter, hsim⟩ := (h.done.answers h.prepared h₀ bound).functions f sg hf
    (h₀.signatures _ hx) [] {} [] [] (by rw [hparams]; exact .nil)
  refine ⟨_, h.findProcedure? hname hx, frame, henter, ?_⟩
  have hempty : HeapShown p [] [] {} := ⟨rfl, List.nodup_nil, nofun⟩
  rw [Program.evaluate, hfind]
  refine (hsim {} #[] [] hempty rfl).extend fun v σ s' hpost => ?_
  obtain ⟨θ', ⟨⟨mv, hleave, hshows⟩, hcallers, _, hout⟩, _⟩ := hpost
  rw [htype] at hshows
  cases hshows with
  | null h => cases h
  | int =>
      refine ⟨0, s', .refl _, _, rfl, ?_, hout⟩
      rw [hleave]
      obtain ⟨world, frame, callers⟩ := s'
      obtain rfl : callers = [] := hcallers
      rfl

end answering

section runs

variable {m : Module} {frame : Frame} {id : Nat}

/-- Every run with at most some budget is cut short. The run with all of this budget has printed
some output, and the others part of it. -/
def CutShort (m : Module) (budget : Nat) (output : List Int32) : Prop :=
  (execute m mainName budget).output = output ∧
    ∀ limit ≤ budget, (execute m mainName limit).result = .error (.stepLimit limit) ∧
      (execute m mainName limit).output <+: output

/-- Every run whose budget suffices ends in one way; all others are cut short. -/
def EndsIn (m : Module) (e : Execution) : Prop :=
  ∃ n, CutShort m n e.output ∧ ∀ limit, n < limit → execute m mainName limit = e

/-- Some steps of the program lead to a state. -/
def Reaches (m : Module) (n : Nat) (s : State) : Prop :=
  ∃ id frame, m.findProcedure? mainName = some id ∧ enter m id [] = .ok frame ∧
    Steps m n ⟨{}, frame, []⟩ s

theorem execute_eq (hid : m.findProcedure? mainName = some id) (hframe : enter m id [] = .ok frame)
    (limit : Nat) : execute m mainName limit =
      ⟨(State.run m limit limit ⟨{}, frame, []⟩).world.output.toList,
        exitCode mainName (State.run m limit limit ⟨{}, frame, []⟩).result⟩ := by
  rw [execute, hid]
  simp only [Session.call, Session.start, hframe]

theorem Reaches.trans {n k : Nat} {s t : State} (h : Reaches m n s) (hs : Steps m k s t) :
    Reaches m (n + k) t := by
  obtain ⟨id, frame, hid, hframe, hsteps⟩ := h
  exact ⟨id, frame, hid, hframe, hsteps.trans hs⟩

/-- A run that is cut short by the steps that lead to a state. -/
theorem Reaches.cutShort {n : Nat} {s : State} (h : Reaches m n s) :
    CutShort m n s.world.output.toList := by
  obtain ⟨id, frame, hid, hframe, hsteps⟩ := h
  refine ⟨?_, fun limit hlimit => ?_⟩
  · have hrun := hsteps.run n 0
    rw [Nat.add_zero, State.run] at hrun
    rw [execute_eq hid hframe, hrun]
  · obtain ⟨hresult, hout⟩ := hsteps.cutShort hlimit
    rw [execute_eq hid hframe, hresult]
    exact ⟨rfl, hout⟩

/-- A program that stops by itself ends in one way. -/
theorem Reaches.endsIn {n : Nat} {s : State} {result : Except Fault Value} (h : Reaches m n s)
    (hs : step m s = .stopped s.world result) :
    EndsIn m ⟨s.world.output.toList, exitCode mainName result⟩ := by
  refine ⟨n, h.cutShort, fun limit hlimit => ?_⟩
  obtain ⟨id, frame, hid, hframe, hsteps⟩ := h
  obtain ⟨hworld, hresult⟩ := hsteps.stopped hs hlimit
  rw [execute_eq hid hframe, hworld, hresult]

/-- The runs of a module show what an evaluation up to a bound gives: the same result or the same
halt after the same output, or no end within the bound, or a request for more memory than one object
or array may have, behind which memory is misused. -/
def ShowsMeaning (m : Module) (bound : Nat) : Except Stop Datum × Store → Prop
  | (.ok (.int k), σ) => EndsIn m ⟨σ.output, .ok k⟩
  | (.error (.halt message), σ) => EndsIn m ⟨σ.output, .error (.halt message)⟩
  | (.error .timeout, σ) => ∃ n, bound ≤ n ∧ CutShort m n σ.output
  | (.error (.tooLarge what), σ) =>
    ∃ n s, Reaches m n s ∧ Oversized m what s ∧ Misuses m s ∧ CutShort m n σ.output
  | _ => False

end runs

/-- An accepted program becomes a module whose runs show what the program means. -/
theorem Program.Compiled.showsMeaning {p : Program} {body : Body}
    {routines : List (Routine × Signature)} {s : LowerState} (h : p.Compiled body routines s)
    (bound : Nat) : ShowsMeaning s.target.module bound
      (p.evaluate body.options.printFunction bound) := by
  obtain ⟨id, hid, frame, hframe, hsim⟩ := h.serves bound
  generalize p.evaluate body.options.printFunction bound = r at hsim
  obtain ⟨a | a, σ⟩ := r
  · cases a with
    | halt message =>
        obtain ⟨n, s', hsteps, hstep, hout⟩ := hsim
        have hreaches : Reaches s.target.module n s' := ⟨id, frame, hid, hframe, hsteps⟩
        have hends := hreaches.endsIn hstep
        rw [hout] at hends
        exact hends
    | tooLarge what =>
        obtain ⟨n, s', hsteps, ⟨hlarge, hmisuses⟩, hout⟩ := hsim
        have hreaches : Reaches s.target.module n s' := ⟨id, frame, hid, hframe, hsteps⟩
        exact ⟨n, s', hreaches, hlarge, hmisuses, hout ▸ hreaches.cutShort⟩
    | timeout =>
        obtain ⟨n, s', hn, hsteps, hout⟩ := hsim
        exact ⟨n, hn, hout ▸ Reaches.cutShort ⟨id, frame, hid, hframe, hsteps⟩⟩
    | stuck => exact hsim
  · obtain ⟨n, s', hsteps, k, rfl, hstep, hout⟩ := hsim
    have hreaches : Reaches s.target.module n s' := ⟨id, frame, hid, hframe, hsteps⟩
    have hends := hreaches.endsIn hstep
    rw [hout] at hends
    exact hends

/-- A run with some limit reaches it, or ends as all longer runs do. -/
theorem EndsIn.result {m : Module} {e : Execution} (h : EndsIn m e) (limit : Nat) :
    (execute m mainName limit).result = .error (.stepLimit limit) ∨
      (execute m mainName limit).result = e.result := by
  obtain ⟨n, hshort, hends⟩ := h
  by_cases hn : limit ≤ n
  · exact .inl (hshort.2 limit hn).1
  · exact .inr (congrArg Execution.result (hends limit (Nat.lt_of_not_le hn)))

/-- The faults that a run of a compiled program can end with. -/
inductive Machine.Fault.Expected : Fault → Prop
  | limit (n : Nat) : Fault.Expected (.stepLimit n)
  | halt (message : String) : Fault.Expected (.halt message)
  | access (cause : AccessFault) : Fault.Expected (.access cause)

/-- A run of a compiled program that ends with a fault has reached its limit, was halted by the
program, or has misused memory. -/
theorem Program.Compiled.expected {p : Program} {body : Body}
    {routines : List (Routine × Signature)} {s : LowerState} (h : p.Compiled body routines s)
    (limit : Nat) {f : Fault} (hf : (execute s.target.module mainName limit).result = .error f) :
    f.Expected := by
  obtain ⟨id, hid, frame, hframe, hsim⟩ := h.serves limit
  have hends : ∀ {n s'} {result : Except Fault Value},
      Steps s.target.module n ⟨{}, frame, []⟩ s' →
      step s.target.module s' = .stopped s'.world result →
      (∀ f, exitCode mainName result = .error f → f.Expected) → f.Expected := by
    intro n s' result hsteps hstep hresult
    have hreaches : Reaches s.target.module n s' := ⟨id, frame, hid, hframe, hsteps⟩
    rcases (hreaches.endsIn hstep).result limit with heq | heq
    · obtain rfl := Except.error.inj (heq.symm.trans hf)
      exact .limit limit
    · exact hresult f (heq.symm.trans hf)
  generalize p.evaluate body.options.printFunction limit = r at hsim
  obtain ⟨a | a, σ⟩ := r
  · cases a with
    | halt message =>
        obtain ⟨n, s', hsteps, hstep, _⟩ := hsim
        exact hends hsteps hstep fun _ heq => Except.error.inj heq ▸ .halt message
    | tooLarge what =>
        obtain ⟨n, s', hsteps, ⟨_, k, t, cause, hsteps', hstep⟩, _⟩ := hsim
        exact hends (hsteps.trans hsteps') hstep fun _ heq => Except.error.inj heq ▸ .access cause
    | timeout =>
        obtain ⟨n, s', hn, hsteps, _⟩ := hsim
        have hreaches : Reaches s.target.module n s' := ⟨id, frame, hid, hframe, hsteps⟩
        obtain rfl := Except.error.inj ((hreaches.cutShort.2 limit hn).1.symm.trans hf)
        exact .limit limit
    | stuck => exact hsim.elim
  · obtain ⟨n, s', hsteps, k, rfl, hstep, _⟩ := hsim
    exact hends hsteps hstep nofun

end ObjectLang
