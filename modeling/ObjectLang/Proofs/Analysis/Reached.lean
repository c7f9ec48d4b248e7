import ObjectLang.Proofs.Analysis.Settled

/-!
# The analysis comes to every node

The analysis of an accepted program comes to every expression and every location of every body, with
all that is known at the place. Nothing is skipped, because nothing is wrong.
-/
namespace ObjectLang

open Check

section

variable {Φ : Findings} {env : Surroundings} {Γ : Context} (hh : Γ.program.Hierarchy)
  (hp : Γ.program.ids.Nodup)
include hh hp

mutual

theorem comesTo_of_expr : ∀ {e : Expr} {scope : Scope} {f : Findings},
    ExprFine Φ Γ env scope f e → ∀ n ∈ e.nodes,
      ∃ g, Task.ComesTo env (.node scope (.expr e), f) (.node scope n, g)
  | .unary tag op operand, _, _, h, n, hn => by
      rcases List.mem_cons.1 hn with rfl | hn
      · exact ⟨_, .refl⟩
      · obtain ⟨g, hg⟩ := comesTo_of_expr (fine_operand h) n hn
        exact ⟨g, .head .operand hg⟩
  | .binary tag op l r, _, _, h, n, hn => by
      rcases List.mem_cons.1 hn with rfl | hn
      · exact ⟨_, .refl⟩
      rcases List.mem_append.1 hn with hl | hr
      · obtain ⟨g, hg⟩ := comesTo_of_expr (fine_left h) n hl
        exact ⟨g, .head .left hg⟩
      · by_cases hop : op = .equal
        · subst hop
          obtain ⟨g, hg⟩ := comesTo_of_expr (fine_rightOfEqual hh hp h) n hr
          exact ⟨g, .head .rightOfEqual hg⟩
        · obtain ⟨g, hg⟩ := comesTo_of_expr (fine_right hh hp hop h) n hr
          exact ⟨g, .head (.right hop) hg⟩
  | .number _ _, _, _, _, _, hn | .bool _ _, _, _, _, _, hn | .null _, _, _, _, _, hn
  | .this _, _, _, _, _, hn | .newObject _ _, _, _, _, _, hn => by
      rw [List.mem_singleton.1 hn]
      exact ⟨_, .refl⟩
  | .read tag l, _, _, h, n, hn => by
      rcases List.mem_cons.1 hn with rfl | hn
      · exact ⟨_, .refl⟩
      · obtain ⟨g, hg⟩ := comesTo_of_location (fine_read h) n hn
        exact ⟨g, .head .read hg⟩
  | .arrayLength tag array, _, _, h, n, hn => by
      rcases List.mem_cons.1 hn with rfl | hn
      · exact ⟨_, .refl⟩
      · obtain ⟨g, hg⟩ := comesTo_of_expr (fine_arrayLength h) n hn
        exact ⟨g, .head .arrayLength hg⟩
  | .newArray tag element size, _, _, h, n, hn => by
      rcases List.mem_cons.1 hn with rfl | hn
      · exact ⟨_, .refl⟩
      · obtain ⟨g, hg⟩ := comesTo_of_expr (fine_size h) n hn
        exact ⟨g, .head .size hg⟩
  | .call tag name args, _, _, h, n, hn => by
      rcases List.mem_cons.1 hn with rfl | hn
      · exact ⟨_, .refl⟩
      · obtain ⟨c, hc, hargs⟩ := fine_call hh hp h
        obtain ⟨g, hg⟩ := comesTo_of_arguments hargs n hn
        exact ⟨g, .head (.call hc hargs.length) hg⟩
  | .methodCall tag receiver name args, _, _, h, n, hn => by
      rcases List.mem_cons.1 hn with rfl | hn
      · exact ⟨_, .refl⟩
      rcases List.mem_append.1 hn with hn | hn
      · obtain ⟨g, hg⟩ := comesTo_of_expr (fine_receiver h) n hn
        exact ⟨g, .head .receiver hg⟩
      · obtain ⟨cls, c, hv, hc, hargs⟩ := fine_methodCall hh hp h
        obtain ⟨g, hg⟩ := comesTo_of_arguments hargs n hn
        exact ⟨g, .head (.methodCall hv hc hargs.length) hg⟩
termination_by structural e => e

theorem comesTo_of_location : ∀ {l : Location} {scope : Scope} {f : Findings},
    LocationFine Φ Γ env scope f l → ∀ n ∈ l.nodes,
      ∃ g, Task.ComesTo env (.node scope (.location l), f) (.node scope n, g)
  | .var _ _, _, _, _, _, hn => by
      rw [List.mem_singleton.1 hn]
      exact ⟨_, .refl⟩
  | .field tag receiver name, _, _, h, n, hn => by
      rcases List.mem_cons.1 hn with rfl | hn
      · exact ⟨_, .refl⟩
      · obtain ⟨g, hg⟩ := comesTo_of_expr (fine_object h) n hn
        exact ⟨g, .head .object hg⟩
  | .index tag array index, _, _, h, n, hn => by
      rcases List.mem_cons.1 hn with rfl | hn
      · exact ⟨_, .refl⟩
      rcases List.mem_append.1 hn with hn | hn
      · obtain ⟨g, hg⟩ := comesTo_of_expr (fine_array h) n hn
        exact ⟨g, .head .array hg⟩
      · obtain ⟨g, hg⟩ := comesTo_of_expr (fine_index hh hp h) n hn
        exact ⟨g, .head .index hg⟩
termination_by structural l => l

theorem comesTo_of_arguments : ∀ {es : List Expr} {Ts : List ValueType} {scope : Scope}
    {f : Findings}, ArgumentsFine Φ Γ env scope f es Ts → ∀ n ∈ nodesOfArguments es,
      ∃ g, Task.ComesTo env (.arguments scope es Ts, f) (.node scope n, g)
  | [], _, _, _, _, _, hn => (List.not_mem_nil hn).elim
  | e :: es, [], _, _, h, _, _ => by cases h.length
  | e :: es, T :: Ts, _, _, h, n, hn => by
      rcases List.mem_append.1 hn with hn | hn
      · obtain ⟨g, hg⟩ := comesTo_of_expr (fine_argument h) n hn
        exact ⟨g, .head .argument hg⟩
      · obtain ⟨g, hg⟩ := comesTo_of_arguments (fine_arguments hh hp h) n hn
        exact ⟨g, .head .arguments hg⟩
termination_by structural es => es

end

end

section

variable {Φ : Findings} {env : Surroundings}

/-- A part of the check comes to a node, in some scope. -/
def Task.Reaches (env : Surroundings) (t : Task × Findings) (n : Node) : Prop :=
  ∃ scope g, Task.ComesTo env t (.node scope n, g)

theorem Task.Calls.reaches {t u : Task × Findings} {n : Node} (h : Task.Calls env t u)
    (hu : Task.Reaches env u n) : Task.Reaches env t n := by
  obtain ⟨scope, g, hg⟩ := hu
  exact ⟨scope, g, .head h hg⟩

mutual

theorem reaches_of_stmt : ∀ {s : Stmt} {Γ : Context} {scope : Scope} {f : Findings},
    Γ.program.Hierarchy → Γ.program.ids.Nodup → StmtFine Φ Γ env scope f s →
      ∀ n ∈ s.nodes, Task.Reaches env (.stmt scope s, f) n
  | .declare _, _, _, _, _, _, _, _, hn => (List.not_mem_nil hn).elim
  | .eval e, _, _, _, hh, hp, h, n, hn =>
      Task.Calls.eval.reaches ⟨_, comesTo_of_expr hh hp (fine_eval h) n hn⟩
  | .assign _ l e, _, _, _, hh, hp, h, n, hn => by
      rcases List.mem_append.1 hn with hn | hn
      · exact Task.Calls.target.reaches ⟨_, comesTo_of_location hh hp (fine_target h) n hn⟩
      · exact Task.Calls.assigned.reaches
          ⟨_, comesTo_of_expr hh hp (fine_assigned hh hp h) n hn⟩
  | .branch _ c s none, _, _, _, hh, hp, h, n, hn => by
      rcases List.mem_append.1 hn with hn | hn
      · exact Task.Calls.condition.reaches
          ⟨_, comesTo_of_expr hh hp (fine_branchCondition h) n hn⟩
      · exact Task.Calls.onTrue.reaches (reaches_of_stmt hh hp (fine_onTrue hh hp h) n hn)
  | .branch _ c s (some s'), _, _, _, hh, hp, h, n, hn => by
      rcases List.mem_append.1 hn with hn | hn
      · exact Task.Calls.condition.reaches
          ⟨_, comesTo_of_expr hh hp (fine_branchCondition h) n hn⟩
      rcases List.mem_append.1 hn with hn | hn
      · exact Task.Calls.onTrue.reaches (reaches_of_stmt hh hp (fine_onTrue hh hp h) n hn)
      · exact Task.Calls.onFalse.reaches (reaches_of_stmt hh hp (fine_onFalse hh hp h) n hn)
  | .loop _ c s, _, _, _, hh, hp, h, n, hn => by
      rcases List.mem_append.1 hn with hn | hn
      · exact Task.Calls.loopCondition.reaches
          ⟨_, comesTo_of_expr hh hp (fine_loopCondition h) n hn⟩
      · exact Task.Calls.loop.reaches (reaches_of_stmt hh hp (fine_loop hh hp h) n hn)
  | .return _ e, _, _, _, hh, hp, h, n, hn =>
      Task.Calls.returned.reaches ⟨_, comesTo_of_expr hh hp (fine_returned h) n hn⟩
  | .block _ body, _, _, _, hh, hp, h, n, hn =>
      Task.Calls.block.reaches (reaches_of_body hh hp (fine_block h) n hn)
termination_by structural s => s

theorem reaches_of_body : ∀ {body : List Stmt} {Γ : Context} {scope : Scope} {f : Findings},
    Γ.program.Hierarchy → Γ.program.ids.Nodup → BodyFine Φ Γ env scope f body →
      ∀ n ∈ nodesOfBody body, Task.Reaches env (.body scope body, f) n
  | [], _, _, _, _, _, _, _, hn => (List.not_mem_nil hn).elim
  | s :: rest, Γ, _, _, hh, hp, h, n, hn => by
      rcases List.mem_append.1 hn with hn | hn
      · exact Task.Calls.first.reaches (reaches_of_stmt hh hp (fine_first h) n hn)
      · have hprogram := s.after_program Γ
        exact Task.Calls.rest.reaches (reaches_of_body (hprogram ▸ hh) (hprogram ▸ hp)
          (fine_rest hh hp h) n hn)
termination_by structural body => body

end

end

/-- What the analysis of a program has found out at its end. -/
def Program.known (p : Program) (printName : String) : Findings :=
  (checkBodies p (p.surroundings printName)).after (p.declared printName)

/-- What is known of an accepted program when its bodies are checked, and at the end. -/
structure Program.Ended (p : Program) (printName : String) : Prop where
  silent : Silent (checkBodies p (p.surroundings printName)) (p.declared printName)
  env : (p.surroundings printName).Stands (p.declared printName).arrays (p.place printName none)
  sound : (p.declared printName).Sound p
  arrays : (p.analyze printName).arrays = (p.known printName).arrays
  notes : (p.analyze printName).notes = (p.known printName).notes
  soundKnown : (p.known printName).Sound p
  recorded : p.Recorded printName (p.known printName).arrays (p.known printName).notes

section

variable {p : Program} {printName : String}

theorem Program.WellFormed.ended (hp : p.ids.Nodup) (h : p.WellFormed printName) :
    p.Ended printName := by
  have hh := h.hierarchy
  obtain ⟨hearly, hsilent⟩ := Program.isAccepted_iff_silent.1 ((Program.isAccepted_iff hp).2 h)
  have hnames :=
    FunctionTable.build_eq (FunctionTable.build_eq_nil.2 ⟨h.functionNames, h.printFree⟩)
  have hbegun : p.begun printName = {} := by
    rw [Program.begun, hearly]
  rw [Program.late, ← hbegun, silent_checkAll] at hsilent
  obtain ⟨hmembers, hover, hbodies⟩ := hsilent
  have hdeclared : p.declared printName =
      (declareAll p (ClassTable.build p.classes).1).after (p.begun printName) :=
    silent_reportsOf.2 hover
  have hrun : (p.late printName).after (p.begun printName) = p.known printName := by
    rw [Program.known, hdeclared]
    exact (run_checkAll _ (FunctionTable.build printName p.functions).1 _ hover).2
  have hsound : (p.begun printName).Sound p := hbegun ▸ sound_empty
  obtain ⟨_, hall, _, hgrows⟩ := (declareAll_spec hh rfl hp
    (fun cls => ClassTable.faithful_of_mem_build (c := cls) hh) hsound).1 hmembers
  have henv : (p.surroundings printName).Stands (p.declared printName).arrays
      (p.place printName none) := by
    rw [hdeclared]
    refine ⟨rfl, fun name => ?_, memberTable_stands hh hall, .none⟩
    simp only [Program.surroundings, bodySurroundings, hnames, FunctionTable.find?, beq_iff_eq]
    rfl
  have hbodies : Silent (checkBodies p (p.surroundings printName)) (p.declared printName) := by
    rw [hdeclared]
    exact hbodies
  have hstart : (p.declared printName).Sound p := hdeclared ▸ hgrows.sound hsound
  have hgrows := ((checkBodies_spec hh hp henv hstart).sound hbodies).2.2
  have harrays : (p.analyze printName).arrays = (p.known printName).arrays := by
    rw [← hrun]
    rfl
  have hnotes : (p.analyze printName).notes = (p.known printName).notes := by
    rw [← hrun]
    rfl
  refine ⟨hbodies, henv, hstart, harrays, hnotes, hgrows.sound hstart, ?_⟩
  rw [← harrays, ← hnotes]
  exact (h.analysed hp).2.2.2.2

end

namespace Check

variable {Φ f : Findings} {Γ : Context} {env : Surroundings}

instance (env : Surroundings) (d : FunctionDecl) : Adds (d.scope env) := by
  unfold FunctionDecl.scope
  infer_instance

instance (p : Program) (env : Surroundings) (cls : ClassRef) : Adds (p.checkMethods env cls) := by
  unfold Program.checkMethods
  infer_instance

instance (p : Program) (env : Surroundings) (cls : ClassRef) : Keeps (p.checkMethods env cls) := by
  unfold Program.checkMethods
  infer_instance

/-- The parts of what is done for each of some things. -/
theorem Quiet.forM {α : Type} {g : α → Check Unit} [∀ x, Adds (g x)] [∀ x, Keeps (g x)]
    {earlier later : List α} {x : α} (h : Quiet Φ ((earlier ++ x :: later).forM g) f) :
    Silent (earlier.forM g) f ∧ Quiet Φ (g x) (Check.after (earlier.forM g) f) := by
  have heq : (earlier ++ x :: later).forM g =
      (do earlier.forM g; (do g x; later.forM g)) :=
    List.forM_append
  rw [heq] at h
  exact ⟨h.first.silent, h.second.first⟩

/-- The scope of a body is that of its place, if nothing is wrong with the signature. -/
theorem ready_scope (hh : Γ.program.Hierarchy) (hp : Γ.program.ids.Nodup) (hf : ReadyFor Γ env f)
    {d : FunctionDecl} (hw : ∀ t ∈ d.written, t ∈ Γ.program.typeExprs)
    (h : Silent (d.scope env) f) :
    Ready { Γ with locals := d.params.reverse } env ((d.scope env).value f).enter
        ((d.scope env).after f) ∧
      ∃ r, ((d.scope env).value f).enter.returnType.Denotes Γ.program
        ((d.scope env).after f).arrays r := by
  rw [FunctionDecl.written, List.forall_mem_cons, List.forall_mem_append] at hw
  obtain ⟨hreturn, hparams, _⟩ := hw
  have hparams : ∀ x ∈ d.params, x.type ∈ Γ.program.typeExprs := fun x hx =>
    hparams _ (List.mem_map_of_mem hx)
  obtain ⟨h, h'⟩ := (silent_bind _ _ f).1 h
  have hr := (checkType_spec hh hf.env.classes hp hreturn hf.sound).1 h
  obtain ⟨_, _, ⟨_, hret, hstands⟩, _, hg⟩ := (declareParameters_spec hh hp (hf.grow hr.grows)
    hparams d.name.name ((checkType env.classes d.returnType).value f)).1 h'
  have hready := (hf.grow hr.grows).grow hg
  refine ⟨⟨hready.sound, ⟨hready.env.classes, hready.env.functions, hready.env.members,
    hready.env.current⟩, hstands⟩, d.returnType.plain, ?_⟩
  have hret : ((d.scope env).value f).enter.returnType =
      (checkType env.classes d.returnType).value f := hret
  rw [hret]
  exact hr.denotes.mono hg.arrays

/-- The body of a function that is silently checked is fine. -/
theorem fine_function (hh : Γ.program.Hierarchy) (hp : Γ.program.ids.Nodup)
    (hf : ReadyFor Γ env f) {d : FunctionDecl} (hids : d.ids.Nodup)
    (hw : ∀ t ∈ d.written, t ∈ Γ.program.typeExprs) (hrec : d.Recorded Φ.arrays Φ.notes Γ)
    (h : Quiet Φ (checkFunction env d) f) :
    BodyFine Φ { Γ with locals := d.params.reverse } env ((d.scope env).value f).enter
      ((d.scope env).after f) d.body := by
  rw [checkFunction_eq] at h
  obtain ⟨hready, hret⟩ := ready_scope hh hp hf hw h.first.silent
  refine ⟨⟨hready, h.second, ?_, fun t ht => hw t ?_, hrec.body⟩, hret⟩
  · rw [FunctionDecl.ids, List.nodup_cons, List.nodup_append', List.nodup_append'] at hids
    exact hids.2.2.1.2.1
  · exact List.mem_cons_of_mem _ (List.mem_append_right _ ht)

end Check

section

variable {p : Program} {printName : String} {env : Surroundings} {d : FunctionDecl}
  {start : Findings}

/-- What is ready stays so while some things are silently done. -/
theorem Check.ready_forM {α : Type} {g : α → Check Unit} [∀ x, Adds (g x)]
    {ready : Findings → Prop} {xs : List α}
    (hg : ∀ x ∈ xs, ∀ f, ready f → Silent (g x) f → ready ((g x).after f)) :
    ∀ {f : Findings}, ready f → Silent (xs.forM g) f → ready (Check.after (xs.forM g) f) := by
  induction xs with
  | nil => exact fun hf _ => hf
  | cons x xs ih =>
      intro f hf h
      rw [List.forall_mem_cons] at hg
      obtain ⟨h, h'⟩ := (silent_bind (g x) (fun _ => xs.forM g) f).1 h
      exact ih hg.2 (hg.1 f hf h) h'

theorem Program.nodup_ids_of_class (hp : p.ids.Nodup) {c : ClassDecl} (hc : c ∈ p.classes) :
    (c.methods.flatMap FunctionDecl.ids).Nodup := by
  have h := (List.nodup_flatMap.1 (List.nodup_append'.1 hp).1).1 c hc
  rw [ClassDecl.ids, List.nodup_cons, List.nodup_append'] at h
  exact h.2.2.1

/-- The methods of a class can be checked where the functions can. -/
theorem Check.ReadyFor.of_class {cls : ClassRef} (hcls : cls.Faithful p)
    (h : ReadyFor (p.place printName none) env start) :
    ReadyFor (p.place printName (some cls.name)) { env with current := some cls } start :=
  ⟨h.sound, h.env.classes, h.env.functions, h.env.members, .some ⟨hcls, rfl⟩⟩

/-- When the analysis of an accepted program begins to check a function, all is as it should be. -/
theorem Program.Begins.fine (hp : p.ids.Nodup) (hh : p.Hierarchy) (he : p.Ended printName)
    (h : p.Begins printName env d start) :
    ∃ current, BodyFine (p.known printName) ⟨p, printName, current, d.params.reverse⟩ env
      ((d.scope env).value start).enter ((d.scope env).after start) d.body := by
  have hq : Quiet (p.known printName) (do
      (ClassTable.build p.classes).1.classes.forM (p.checkMethods (p.surroundings printName))
      p.functions.forM (checkFunction (p.surroundings printName)))
      (p.declared printName) := ⟨he.silent, .rfl⟩
  have hready : ReadyFor (p.place printName none) (p.surroundings printName)
      (p.declared printName) := ⟨he.sound, he.env⟩
  have hmethods : ∀ cls ∈ (ClassTable.build p.classes).1.classes, ∀ f,
      ReadyFor (p.place printName none) (p.surroundings printName) f →
        Silent (p.checkMethods (p.surroundings printName) cls) f →
          ReadyFor (p.place printName none) (p.surroundings printName)
            ((p.checkMethods (p.surroundings printName) cls).after f) := by
    intro cls hcls f hf h
    have hc := ClassTable.faithful_of_mem_build hh hcls
    refine hf.grow ((checkFunctions_spec (Γ := p.place printName (some cls.name)) hh hp
      (p.nodup_ids_of_class hp hc.mem) (fun d hd t ht => ?_) (hf.of_class hc)).sound h).2.2
    exact Program.mem_typeExprs_of_class hc.mem
      (List.mem_append_right _ (List.mem_flatMap.2 ⟨d, hd, ht⟩))
  cases h with
  | @method cls before behind _ earlier later hcs hms =>
      have hmem : cls ∈ (ClassTable.build p.classes).1.classes := by simp [hcs]
      have hc := ClassTable.faithful_of_mem_build hh hmem
      have hd : ∀ x ∈ earlier ++ d :: later, x ∈ (p.classDecl cls).methods := fun x hx => hms ▸ hx
      have hw : ∀ x ∈ earlier ++ d :: later, ∀ t ∈ x.written, t ∈ p.typeExprs := fun x hx t ht =>
        Program.mem_typeExprs_of_class hc.mem
          (List.mem_append_right _ (List.mem_flatMap.2 ⟨x, hd x hx, ht⟩))
      have hids : ∀ x ∈ earlier ++ d :: later, x.ids.Nodup := fun x hx =>
        (List.nodup_flatMap.1 (p.nodup_ids_of_class hp hc.mem)).1 x (hd x hx)
      have hq := hq.first
      rw [hcs] at hq
      obtain ⟨hbefore, hq⟩ := hq.forM
      have hready := ready_forM (fun c hc => hmethods c (by simp [hcs, hc])) hready hbefore
      have hready := hready.of_class hc
      rw [Program.checkMethods, hms] at hq
      obtain ⟨hearlier, hq⟩ := hq.forM
      have hready := ready_forM (fun x hx f hf h => hf.grow
        ((checkFunction_spec (Γ := p.place printName (some cls.name)) hh hp
          (hids x (List.mem_append_left _ hx)) (hw x (List.mem_append_left _ hx)) hf).sound h).2.2)
        hready hearlier
      have hmid : d ∈ earlier ++ d :: later := by simp
      refine ⟨some cls.name, fine_function (Γ := p.place printName (some cls.name)) hh hp hready
        (hids d hmid) (hw d hmid) ?_ hq⟩
      have hrec := he.recorded.methods _ hc.mem d (hd d hmid)
      rwa [hc.classDecl_name] at hrec
  | @function _ earlier later hfs =>
      have hd : ∀ x ∈ earlier ++ d :: later, x ∈ p.functions := fun x hx => hfs ▸ hx
      have hw : ∀ x ∈ earlier ++ d :: later, ∀ t ∈ x.written, t ∈ p.typeExprs := fun x hx t ht =>
        Program.mem_typeExprs_of_function (hd x hx) ht
      have hids : ∀ x ∈ earlier ++ d :: later, x.ids.Nodup := fun x hx =>
        (List.nodup_flatMap.1 (List.nodup_append'.1 hp).2.1).1 x (hd x hx)
      have hready := ready_forM hmethods hready hq.first.silent
      have hq := hq.second
      rw [hfs] at hq
      obtain ⟨hearlier, hq⟩ := hq.forM
      have hready := ready_forM (fun x hx f hf h => hf.grow
        ((checkFunction_spec (Γ := p.place printName none) hh hp
          (hids x (List.mem_append_left _ hx)) (hw x (List.mem_append_left _ hx)) hf).sound h).2.2)
        hready hearlier
      have hmid : d ∈ earlier ++ d :: later := by simp
      exact ⟨none, fine_function (Γ := p.place printName none) hh hp hready (hids d hmid)
        (hw d hmid) (he.recorded.functions d (hd d hmid)) hq⟩

/-- The analysis begins to check each method of a class. -/
theorem Program.exists_begins_of_method (hh : p.Hierarchy) {c : ClassDecl} (hc : c ∈ p.classes)
    (hd : d ∈ c.methods) : ∃ env start, p.Begins printName env d start := by
  rw [← ClassTable.map_classDecl_build hh] at hc
  obtain ⟨cls, hcls, rfl⟩ := List.mem_map.1 hc
  obtain ⟨before, behind, hcs⟩ := List.append_of_mem hcls
  obtain ⟨earlier, later, hms⟩ := List.append_of_mem hd
  exact ⟨_, _, .method hcs hms⟩

theorem Program.exists_begins_of_function (hd : d ∈ p.functions) :
    ∃ env start, p.Begins printName env d start := by
  obtain ⟨earlier, later, hfs⟩ := List.append_of_mem hd
  exact ⟨_, _, .function hfs⟩

end

end ObjectLang
