import Mathlib.Tactic
import ObjectLang.Proofs.Lowering.Statements
import ObjectLang.Proofs.Lowering.Variables
import ObjectLang.Proofs.Machine.Entry
import ObjectLang.Proofs.Parsing.Identities

/-!
# Code for functions

The code for a function fills the slots of its parameters and variables and then does what its body
does. Since the body ends with a `return`, no block is open behind it. So the procedure serves: when
it is entered, it takes its slots, and control never comes to the end of the code.
-/
namespace ObjectLang

open Machine IR

section locals

/-- The variables of a body have identities among those of the body. -/
theorem VarDecl.id_mem_ids (d : VarDecl) : [d.id].Sublist d.ids :=
  List.singleton_sublist.2 (List.mem_cons_self ..)

mutual

theorem Stmt.ids_locals : ∀ s : Stmt, (s.locals.map (·.id)).Sublist s.ids
  | .declare d => d.id_mem_ids
  | .eval _ => List.nil_sublist _
  | .assign _ _ _ => List.nil_sublist _
  | .branch _ _ s none => s.ids_locals.trans (List.sublist_append_right ..)
  | .branch _ _ s (some s') => by
      simp only [Stmt.locals, Stmt.ids, List.map_append]
      exact (s.ids_locals.append s'.ids_locals).trans (List.sublist_append_right ..)
  | .loop _ _ s => s.ids_locals.trans (List.sublist_append_right ..)
  | .return _ _ => List.nil_sublist _
  | .block _ body => ids_localsOf body
termination_by structural s => s

theorem ids_localsOf : ∀ body : List Stmt, ((localsOf body).map (·.id)).Sublist (idsOfBody body)
  | [] => List.nil_sublist _
  | s :: rest => by
      simp only [localsOf, idsOfBody, List.map_append]
      exact s.ids_locals.append (ids_localsOf rest)
termination_by structural body => body

end

theorem ids_params : ∀ ds : List VarDecl, (ds.map (·.id)).Sublist (ds.flatMap VarDecl.ids)
  | [] => List.nil_sublist _
  | d :: ds => by
      rw [List.map_cons, List.flatMap_cons]
      exact d.id_mem_ids.append (ids_params ds)

/-- Parameters and variables have different identities. -/
theorem FunctionDecl.nodup_variables {f : FunctionDecl} (h : f.ids.Nodup) :
    (f.params.map (·.id) ++ (localsOf f.body).map (·.id)).Nodup := by
  rw [FunctionDecl.ids] at h
  exact (((ids_params _).append (ids_localsOf _)).trans
    ((List.sublist_append_right ..).trans (List.sublist_cons_self ..))).nodup h

section recorded

variable {a : ArrayTypes} {n : Notes}

mutual

/-- The types of the variables of a body are noted. -/
theorem Stmt.Recorded.locals : ∀ {Γ : Context} {s : Stmt}, s.Recorded a n Γ →
    ∀ d ∈ s.locals, d.type.Recorded a n Γ.program
  | _, .declare _, h, d, hd => by
      obtain rfl := List.mem_singleton.1 hd
      exact h
  | _, .branch _ _ _ none, h, d, hd => h.2.locals d hd
  | _, .branch _ _ _ (some _), h, d, hd =>
      (List.mem_append.1 hd).elim (h.2.1.locals d) (h.2.2.locals d)
  | _, .loop _ _ _, h, d, hd => h.2.locals d hd
  | _, .block _ _, h, d, hd => BodyRecorded.locals h d hd
termination_by structural _ s => s

theorem BodyRecorded.locals : ∀ {Γ : Context} {body : List Stmt}, BodyRecorded a n Γ body →
    ∀ d ∈ localsOf body, d.type.Recorded a n Γ.program
  | Γ, s :: _, h, d, hd => by
      refine (List.mem_append.1 hd).elim (h.1.locals d) fun hd => ?_
      have hr := h.2.locals d hd
      rwa [s.after_program] at hr
termination_by structural _ body => body

end

end recorded

section initial

variable {f : FunctionDecl} {vs : List Datum} {d : VarDecl} {v : Datum}

/-- A parameter holds its argument. -/
theorem FunctionDecl.initial_param (h : (f.params.map (·.id)).Nodup)
    (hd : (d, v) ∈ f.params.zip vs) : f.initial vs d.id = v := by
  have hfind : ∀ {ds : List VarDecl} {vs : List Datum}, (ds.map (·.id)).Nodup →
      (d, v) ∈ ds.zip vs → (ds.zip vs).find? (·.1.id == d.id) = some (d, v) := by
    intro ds
    induction ds with
    | nil => exact fun _ hd => by cases hd
    | cons d' ds ih =>
        intro vs hnodup hd
        cases vs with
        | nil => cases hd
        | cons v' vs =>
            obtain ⟨hnot, hnodup⟩ := List.nodup_cons.1 hnodup
            rw [List.zip_cons_cons] at hd ⊢
            rcases List.mem_cons.1 hd with heq | hd
            · rw [← heq, List.find?_cons_of_pos (by simp)]
            · have hmem : d.id ∈ ds.map (·.id) := List.mem_map_of_mem (List.of_mem_zip hd).1
              have hne : d'.id ≠ d.id := fun heq => hnot (by rwa [← heq] at hmem)
              rw [List.find?_cons_of_neg (by simpa using hne)]
              exact ih hnodup hd
  rw [FunctionDecl.initial, hfind h hd]

/-- A variable holds the default of its type. -/
theorem FunctionDecl.initial_local
    (h : (f.params.map (·.id) ++ (localsOf f.body).map (·.id)).Nodup)
    (hd : d ∈ localsOf f.body) : f.initial vs d.id = d.plain.default := by
  obtain ⟨_, hnodup, hdisjoint⟩ := List.nodup_append'.1 h
  have hparams : (f.params.zip vs).find? (·.1.id == d.id) = none := by
    rw [List.find?_eq_none]
    intro x hx heq
    have hid : x.1.id = d.id := by simpa using heq
    refine hdisjoint (List.mem_map_of_mem (List.of_mem_zip hx).1) ?_
    rw [hid]
    exact List.mem_map_of_mem hd
  have hlocal : (localsOf f.body).find? (·.id == d.id) = some d := by
    cases hf : (localsOf f.body).find? (·.id == d.id) with
    | none => simpa using List.find?_eq_none.1 hf d hd
    | some x =>
        have hid : x.id = d.id := by simpa using List.find?_some hf
        rw [List.inj_on_of_nodup_map hnodup (List.mem_of_find?_eq_some hf) hd hid]
  rw [FunctionDecl.initial, hparams, hlocal]

end initial

end locals

section closing

/-- No block is open behind some code. -/
def Closes {α : Type} (x : Lower α) : Prop :=
  ∀ s a s', x s = .ok (a, s') → s'.builder.current = none

theorem Closes.bind {α β : Type} {x : Lower α} {f : α → Lower β} (h : ∀ a, Closes (f a)) :
    Closes (x >>= f) := by
  intro s b s' heq
  change (x s >>= fun r => f r.1 r.2) = _ at heq
  cases hx : x s with
  | error e =>
      rw [hx] at heq
      cases heq
  | ok r =>
      rw [hx] at heq
      exact h r.1 r.2 b s' heq

theorem closes_ret (x : Operand) : Closes (perform (·.ret x)) := by
  intro s a s' heq
  cases heq
  simp only [Builder.ret, Builder.terminate]
  cases hc : s.builder.current with
  | none => exact hc
  | some c => rfl

theorem lowerStmts_append (body : Body) (xs ys : List Stmt) :
    lowerStmts body (xs ++ ys) = (do
      lowerStmts body xs
      lowerStmts body ys) := by
  induction xs with
  | nil => rfl
  | cons x xs ih => rw [List.cons_append, lowerStmts_cons, lowerStmts_cons, ih, bind_assoc]

/-- No block is open behind statements that end with a `return`. -/
theorem closes_lowerStmts {body : Body} {init : List Stmt} {span : Span} {e : Expr} :
    Closes (lowerStmts body (init ++ [.return span e])) := by
  rw [lowerStmts_append, lowerStmts_singleton, lowerStmt_return]
  exact .bind fun _ => .bind fun _ => .bind fun _ => .bind fun _ => .bind fun y => closes_ret y

end closing

theorem lowerBody_eq (body : Body) (isMethod : Bool) (f : FunctionDecl) :
    lowerBody body isMethod f = (do
      let temps := (← get).builder.procedure.params
      let params ← ((if isMethod then temps.tail else temps).zip f.params).mapM
        fun (temp, decl) => lowerParameter temp decl
      let locals ← (localsOf f.body).mapM (lowerLocal body)
      lowerStmts
        { body with this := if isMethod then temps.head? else none, slots := params ++ locals }
        f.body) := by
  cases isMethod <;> rfl

variable {J : Job} {s s' : LowerState}

/-- The code for a function has made the variables `xs`, and runs as the body of the function does;
`temps` are the temporaries of its parameters. -/
structure Job.Finishes (J : Job) (Γ : Context) (f : FunctionDecl) (temps : List Nat)
    (xs : List (VarDecl × Nat)) (s s' : LowerState) : Prop where
  leads : s.Leads s'
  stage : (J.declare xs).Stage [] s'
  closed : s'.builder.current = none
  runs : ∀ A : Act, A.job = J.declare xs → s'.Before A → s.IsOpen → ∀ locals θ σ μ,
    (A.withJob J).Running locals θ σ μ →
    (∀ x ∈ temps.zip f.params, ∃ mv, μ.value? (.temp x.1) = some mv ∧
      Shows J.program θ (locals x.2.id) x.2.plain mv) →
    (∀ d ∈ localsOf f.body, locals d.id = d.plain.default) → ∀ invoke n, A.Answers invoke n →
      Simulates A.target.module (n + 1) (A.at s.builder μ)
        (execBody invoke (n + 1) A.self Γ locals f.body σ) (A.Flows s s' θ μ)

/-- Code for the parameters, the variables and the statements of a function. -/
theorem does_body {Γ : Context} {f : FunctionDecl} {temps : List Nat} (h : J.Stage [] s)
    (hvars : J.vars = []) (hΓ : J.Sees { Γ with locals := [] })
    (hparams : Γ.locals = f.params.reverse)
    (hlength : temps.length = f.params.length)
    (htyped : ∀ x ∈ temps.zip f.params, J.Typed s (.temp x.1) x.2.plain)
    (hids : f.ids.Nodup) (hbody : BodyWellTyped J.result Γ f.body)
    (hrecorded : BodyRecorded J.body.analysis.arrays J.body.analysis.notes Γ f.body)
    (hreturns : ∃ init span e, f.body = init ++ [.return span e]) :
    Does (do
      let params ← (temps.zip f.params).mapM fun (temp, decl) => lowerParameter temp decl
      let locals ← (localsOf f.body).mapM (lowerLocal J.body)
      lowerStmts { J.body with slots := params ++ locals } f.body) s fun _ s' =>
        ∃ xs, J.Finishes Γ f temps xs s s' := by
  have hslots : J.body.slots = [] := by
    rw [h.slots, hvars]
    rfl
  have hsnd : (temps.zip f.params).map Prod.snd = f.params := List.map_snd_zip hlength.ge
  have hnodup := FunctionDecl.nodup_variables hids
  have hsndIds : (temps.zip f.params).map (·.2.id) = f.params.map (·.id) :=
    (List.map_map (g := VarDecl.id) (f := Prod.snd)).symm.trans
    (congrArg (List.map VarDecl.id) hsnd)
  have hids₁ : (J.vars.map (·.1.id) ++ (temps.zip f.params).map (·.2.id)).Nodup := by
    rw [hvars, List.map_nil, List.nil_append, hsndIds]
    exact (List.nodup_append'.1 hnodup).1
  refine (declares_parameters h htyped hids₁).bind fun params s₁ hz => ?_
  obtain ⟨xs, hxs, hparams₁, hl₁, h₁, ho₁, hruns₁⟩ := hz
  rw [hsnd] at hxs
  have hids₂ : ((J.declare xs).vars.map (·.1.id) ++ (localsOf f.body).map (·.id)).Nodup := by
    have hxsIds : xs.map (·.1.id) = f.params.map (·.id) :=
      (List.map_map (g := VarDecl.id) (f := Prod.fst)).symm.trans
        (congrArg (List.map VarDecl.id) hxs)
    rw [Job.declare, hvars, List.nil_append, hxsIds]
    exact hnodup
  have hprogram : Γ.program = J.program := hΓ.program
  refine (declares_locals h₁ (l := localsOf f.body) (fun d hd => ?_) hids₂).bind
    fun locals s₂ hz => ?_
  · rw [← show Γ.program = (J.declare xs).program from hprogram]
    exact hrecorded.locals d hd
  obtain ⟨ys, hys, hlocals₂, hl₂, h₂, ho₂, hruns₂⟩ := hz
  rw [Job.declare_declare] at h₂ hruns₂
  have hbodyEq : ({ J.body with slots := params ++ locals } : Body) =
    (J.declare (xs ++ ys)).body := by
    simp only [id] at hparams₁ hlocals₂
    rw [hparams₁, hlocals₂, Job.declare, hslots, List.nil_append, List.map_append]
  have hall : (J.declare (xs ++ ys)).vars.map Prod.fst = f.params ++ localsOf f.body := by
    rw [Job.declare, hvars, List.nil_append, List.map_append, hxs, hys]
  have hhas : ∀ d ∈ f.params ++ localsOf f.body,
      ∃ slot, (d, slot) ∈ (J.declare (xs ++ ys)).vars := by
    intro d hd
    rw [← hall] at hd
    obtain ⟨x, hx, rfl⟩ := List.mem_map.1 hd
    exact ⟨x.2, hx⟩
  have hsees : (J.declare (xs ++ ys)).Sees Γ := by
    refine ⟨hΓ.program, hΓ.printName, hΓ.current, fun d hd => hhas d ?_⟩
    rw [hparams, List.mem_reverse] at hd
    exact List.mem_append_left _ hd
  have hlowers : (J.declare (xs ++ ys)).LowersBody Γ f.body :=
    lowers_stmts (J := J.declare (xs ++ ys)) h.wellFormed.hierarchy hsees hbody hrecorded
      fun d hd => hhas d (List.mem_append_right _ hd)
  obtain ⟨init, span, e, hf⟩ := hreturns
  have hcloses : Closes (lowerStmts (J.declare (xs ++ ys)).body f.body) := by
    rw [hf]
    exact closes_lowerStmts
  rw [hbodyEq]
  refine ((hlowers [] s₂ h₂).and fun a s' heq => hcloses s₂ a s' heq).mono fun _ s₃ hz => ?_
  obtain ⟨⟨hl₃, h₃, hruns₃⟩, hclosed⟩ := hz
  refine ⟨xs ++ ys, (hl₁.trans hl₂).trans hl₃, h₃, hclosed, ?_⟩
  intro A hA hB ho loc θ σ μ hrun hargs hdefaults invoke n hans
  have hB₂ := hl₃.before hB
  obtain ⟨k, μ₁, hsteps₁, hrun₁, hf₁⟩ := hruns₁ (A.withJob (J.declare xs)) rfl
    ((hl₂.before hB₂).withJob _) ho loc θ σ μ hrun hargs
  obtain ⟨k', μ₂, hsteps₂, hrun₂, hf₂⟩ := hruns₂ A hA hB₂ (ho₁ ho) loc θ σ μ₁ hrun₁ hdefaults
  have hsim := hruns₃ A hA hB (ho₂ (ho₁ ho)) loc θ σ μ₂ hrun₂ invoke n hans
  refine Simulates.after (hsteps₁.trans hsteps₂) ?_
  exact Act.simulates_flows (hf₁.ofJob.trans hf₂ hl₁.next_le) (hl₁.trans hl₂).next_le
    (fun ho => ⟨ho, fun _ => ⟨0, .refl _⟩⟩) hsim

section serving

variable {p : Procedure} {f : FunctionDecl} {temps : List Nat} {xs : List (VarDecl × Nat)}
  {T : Target} {allocators : List (ValueType × Nat)} {id n : Nat} {args : List Value} {θ : Census}
  {σ : Store} {self : Option Datum} {vs : List Datum} {invoke : Invoke}

/-- The builder of a procedure that has no blocks yet is at the start of its code. -/
theorem point_start (hp : p.blocks = #[]) (entry : String) (q : Procedure) :
    (Builder.start p entry).point q = (0, q.code 0) := by
  rw [Builder.point, Builder.current_start, Procedure.code, Builder.blocks_start _ hp, hp]
  exact congrArg (0, ·) List.drop_zero

theorem slots_start (hp : p.blocks = #[]) (entry : String) :
    (Builder.start p entry).procedure.slots = [] := by
  rw [Procedure.slots, Builder.blocks_start _ hp]
  rfl

/-- The slots of a stage have sizes. -/
theorem Job.Stage.slots_sized {pending : List Nat} (h : J.Stage pending s) (m : Module) :
    ∀ i ∈ s.builder.procedure.slots, ∃ dest type size, i = .alloca dest type ∧
      dest < s.builder.procedure.temps.size ∧
        m.measure Profile.overflow.word type = .ok size ∧ 0 < size := by
  intro i hi
  obtain ⟨dest, type, rfl⟩ : ∃ dest type, i = .alloca dest type := by
    have halloca : i.isAlloca = true := by
      rw [Procedure.slots] at hi
      cases hb : s.builder.procedure.blocks[0]? with
      | none =>
          rw [hb] at hi
          cases hi
      | some b =>
          rw [hb] at hi
          exact List.mem_takeWhile_imp hi
    cases i <;> first | exact ⟨_, _, rfl⟩ | cases halloca
  obtain ⟨hflat, hpos⟩ := h.slotTypes dest type hi
  exact ⟨dest, type, type.size, rfl, slot_lt h hi,
    measure_flat hflat (Overflow.word_of_lt (by decide)), hpos⟩

/-- The procedure of a function serves what the function evaluates to. -/
theorem Job.Finishes.serves
    (h : J.Finishes (f.context J.program J.printName J.current) f temps xs s s')
    (hvars : J.vars = []) {entry : String}
    (hstart : s.builder = Builder.start p entry) (hblocks : p.blocks = #[])
    (hparams : p.params.Nodup) (hlt : ∀ t ∈ p.params, t < p.temps.size) (hids : f.ids.Nodup)
    (hT : s'.target.Keeps T) (hallocators : s'.allocators <+: allocators)
    (hid : T.module.procedures[id]? = some s'.builder.procedure)
    (hargs : p.params.length = args.length)
    (hself : ∀ t, J.body.this = some t → ∃ r c mv, self = some (.ref r) ∧ J.current = some c ∧
      (t, mv) ∈ p.params.zip args ∧ Shows J.program θ (.ref r) (.object c) mv)
    (hvalues : ∀ x ∈ temps.zip f.params, ∃ v mv, (x.2, v) ∈ f.params.zip vs ∧
      (x.1, mv) ∈ p.params.zip args ∧ Shows J.program θ v x.2.plain mv)
    (hans : Answers T.module J.program J.body.analysis.arrays J.body.layouts allocators invoke n) :
    Serves T.module J.program (n + 1) id args θ σ
      (f.evaluate J.program J.printName invoke (n + 1) J.current self vs σ) J.result := by
  have hpoint : s.builder.point s'.builder.procedure = (0, s'.builder.procedure.code 0) := by
    rw [hstart]
    exact point_start hblocks entry _
  have hstartParams : s.builder.procedure.params = p.params := by
    rw [hstart]
    rfl
  have hstartTemps : s.builder.procedure.temps = p.temps := by
    rw [hstart]
    rfl
  have hqparams : s'.builder.procedure.params = p.params :=
    h.leads.procedure.params.trans hstartParams
  have hle := h.leads.next_le
  rw [LowerState.next, hstartTemps] at hle
  obtain ⟨entered, hentry⟩ : ∃ b, s'.builder.procedure.blocks[0]? = some b :=
    ⟨_, Array.getElem?_eq_getElem h.stage.builder.entry⟩
  have hcode : entered.instructions =
      s'.builder.procedure.slots ++ s'.builder.procedure.code 0 := by
    rw [Procedure.slots, Procedure.code, hentry]
    exact (Block.slots_append_code _).symm
  refine ⟨_, enter_eq hid (by rw [hqparams, hargs]) hentry,
    fun memory output callers hheap hout => ?_⟩
  let μ : Config := ⟨memory, output, assignAll
    (Array.replicate s'.builder.procedure.temps.size none) (s'.builder.procedure.params.zip args)⟩
  have hsize : μ.temps.size = s'.builder.procedure.temps.size := by
    simp only [μ, size_assignAll, Array.size_replicate]
  have harg : ∀ {t : Nat} {mv : Value}, (t, mv) ∈ p.params.zip args →
      μ.temps[t]? = some (some mv) := by
    intro t mv ht
    have hkeys : ((s'.builder.procedure.params.zip args).map Prod.fst).Nodup := by
      rw [hqparams, List.map_fst_zip hargs.le]
      exact hparams
    refine getElem?_assignAll hkeys ?_ (hqparams ▸ ht)
    rw [Array.size_replicate]
    exact Nat.lt_of_lt_of_le (hlt t (List.of_mem_zip ht).1) hle
  -- The slots come first; no parameter is one of them.
  obtain ⟨place, μ₁, hsteps, hreserved⟩ := exists_reserved (m := T.module)
    (p := s'.builder.procedure) (c := 0) s'.builder.procedure.slots μ
    (by simpa only [hsize] using h.stage.slots_sized T.module)
  have hkept : ∀ {t : Nat} {mv : Value}, (t, mv) ∈ p.params.zip args →
      μ₁.temps[t]? = some (some mv) := by
    intro t mv ht
    refine (hreserved.temps t fun type hm => ?_).trans (harg ht)
    rcases h.leads.procedure.fresh t type hm with hm | hle
    · rw [hstart, slots_start hblocks] at hm
      cases hm
    · rw [hstartTemps] at hle
      have := hlt t (List.of_mem_zip ht).1
      omega
  let A : Act := ⟨J.declare xs, T, allocators, s'.builder.procedure, self, place, callers⟩
  have hB : s'.Before A := ⟨.rfl, hT, hallocators⟩
  have hrun : (A.withJob J).Running (f.initial vs) θ σ μ₁ := by
    refine ⟨hreserved.size.trans hsize, hreserved.output ▸ hout,
      hheap.congr fun a ha => hreserved.memory a (hheap.lt_count ha), fun dest type hd => ?_,
      fun dest type dest' type' => hreserved.apart dest type dest' type', fun x hx => ?_,
      fun t ht => ?_⟩
    · obtain ⟨htemp, hcovers, hplace⟩ := hreserved.slots dest type hd
      exact ⟨htemp, hcovers, fun hm => Nat.not_lt.2 hplace (hheap.lt_count hm)⟩
    · rw [Act.withJob, hvars] at hx
      cases hx
    · obtain ⟨r, c, mv, hr, hc, hm, hshows⟩ := hself t ht
      exact ⟨r, c, mv, hr, hc, hkept hm, hshows⟩
  have hnodup := FunctionDecl.nodup_variables hids
  have hinitial : ∀ x ∈ temps.zip f.params, ∃ mv, μ₁.value? (.temp x.1) = some mv ∧
      Shows J.program θ (f.initial vs x.2.id) x.2.plain mv := by
    intro x hx
    obtain ⟨v, mv, hv, hmv, hshows⟩ := hvalues x hx
    refine ⟨mv, ?_, ?_⟩
    · rw [Config.value?, hkept hmv]
      rfl
    · rwa [FunctionDecl.initial_param (List.nodup_append'.1 hnodup).1 hv]
  have hsim := h.runs A rfl hB ⟨0, by rw [hstart, Builder.current_start, hblocks]; rfl⟩
    _ θ σ μ₁ hrun hinitial (fun d hd => FunctionDecl.initial_local hnodup hd) invoke n hans
  rw [Act.at, hpoint] at hsim
  have hstate : (⟨⟨memory, output⟩, ⟨s'.builder.procedure, 0,
      entered.instructions, μ.temps⟩, callers⟩ : State) =
        μ.state s'.builder.procedure callers
          (0, s'.builder.procedure.slots ++ s'.builder.procedure.code 0) := by
    rw [← hcode]
    rfl
  change Simulates T.module (n + 1) ⟨⟨memory, output⟩, ⟨s'.builder.procedure, 0,
    entered.instructions, μ.temps⟩, callers⟩ _ _
  rw [hstate]
  refine Simulates.after hsteps (hsim.bind fun flow σ' st hflow => ?_)
  cases flow with
  | next locals =>
      obtain ⟨⟨c, hc⟩, _⟩ := hflow
      rw [h.closed] at hc
      cases hc
  | returned v =>
      obtain ⟨θ', hleaves, hf⟩ := hflow
      refine ⟨0, st, .refl _, θ', hleaves, hf.census, fun a ha => ?_,
        hreserved.count.trans hf.count,
        fun a ha hθ => ?_⟩
      · exact (hf.fresh a ha).imp_right hreserved.count.trans
      · refine (hf.memory a (Nat.lt_of_lt_of_le ha hreserved.count) hθ ?_).trans
          (hreserved.memory a ha)
        rintro ⟨dest, type, hd, rfl⟩
        exact Nat.not_lt.2 (hreserved.slots dest type hd).2.2 ha

end serving

end ObjectLang
