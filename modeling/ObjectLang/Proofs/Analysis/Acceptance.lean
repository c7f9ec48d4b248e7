import ObjectLang.Parsing.Programs
import ObjectLang.Proofs.Analysis.Functions
import ObjectLang.Proofs.Analysis.Members
import ObjectLang.Proofs.Analysis.Returns
import ObjectLang.Proofs.Parsing.Identities

/-!
# Acceptance

A program is accepted exactly if it keeps the rules. The checks of the analysis are taken together
here; of an accepted program all nodes are noted as the rules say.
-/
namespace ObjectLang

open Check Findings

variable {p : Program} {printName : String}

/-- The place of the methods of a class, or of the global functions. -/
def Program.place (p : Program) (printName : String) (current : Option String) : Context :=
  ⟨p, printName, current, []⟩

theorem FunctionDecl.wellFormed_iff {current : Option String} {f : FunctionDecl} :
    f.WellFormed p printName current ↔
      FunctionTyped (p.place printName current) f ∧ f.Returns := by
  constructor
  · rintro ⟨hr, hp, hn, hb, hreturns, htidy⟩
    exact ⟨⟨⟨hp, hr⟩, hn, hb⟩, hreturns, htidy⟩
  · rintro ⟨⟨⟨hp, hr⟩, hn, hb⟩, hreturns, htidy⟩
    exact ⟨hr, hp, hn, hb, hreturns, htidy⟩

/-- All nodes of a program have notes that are true of them. -/
structure Program.Recorded (p : Program) (printName : String) (a : ArrayTypes) (n : Notes) :
    Prop where
  fields : ∀ c ∈ p.classes, ∀ x ∈ c.fields, x.type.Recorded a n p
  methods : ∀ c ∈ p.classes, ∀ m ∈ c.methods,
    m.Recorded a n (p.place printName (some c.name.name))
  functions : ∀ f ∈ p.functions, f.Recorded a n (p.place printName none)

/-- What the bodies of the methods and functions of a program have to keep. -/
structure Program.BodiesTyped (p : Program) (printName : String) : Prop where
  methods : ∀ c ∈ p.classes, ∀ m ∈ c.methods,
    FunctionTyped (p.place printName (some c.name.name)) m
  functions : ∀ f ∈ p.functions, FunctionTyped (p.place printName none) f

/-- The methods of all classes can stand in for those further up. -/
def Program.Overriding (p : Program) : Prop :=
  ∀ c ∈ p.classes, ∀ f ∈ c.methods, ∀ s, c.superclass = some s →
    ∀ owner g, p.method? s.name f.name.name = some (owner, g) → f.Overrides p g

/-- Reporting is silent exactly if there is nothing to report, and changes nothing then. -/
theorem Check.silent_reports (ds : List Diagnostic) (f : Findings) :
    (Silent (ds.forM report) f ↔ ds = []) ∧
      (ds = [] → (Check.after (ds.forM report) f) = f) := by
  cases ds with
  | nil => exact ⟨iff_of_true rfl rfl, fun _ => rfl⟩
  | cons d ds =>
      refine ⟨iff_of_false (fun h => ?_) (List.cons_ne_nil d ds), fun h => by cases h⟩
      exact not_silent_report d f ((silent_bind (report d) (fun _ => ds.forM report) f).1 h).1

theorem Check.silent_reportsOf {α : Type} {l : α → List Diagnostic} {xs : List α} {f : Findings} :
    (Silent (xs.forM fun x => (l x).forM report) f ↔ ∀ x ∈ xs, l x = []) ∧
      ((∀ x ∈ xs, l x = []) → Check.after (xs.forM fun x => (l x).forM report) f = f) := by
  induction xs with
  | nil => exact ⟨iff_of_true rfl (by simp), fun _ => rfl⟩
  | cons x xs ih =>
      have hhead := silent_reports (l x) f
      have hsilent := silent_bind ((l x).forM report)
        (fun _ => xs.forM fun x => (l x).forM report) f
      have hafter : Check.after ((x :: xs).forM fun x => (l x).forM report) f =
          Check.after (xs.forM fun x => (l x).forM report)
            (Check.after ((l x).forM report) f) := rfl
      rw [List.forall_mem_cons, hafter]
      constructor
      · refine Iff.trans hsilent ?_
        rw [hhead.1]
        refine and_congr_right fun h => ?_
        rw [hhead.2 h, ih.1]
      · rintro ⟨h, h'⟩
        rw [hhead.2 h, ih.2 h']

/-- Properties of all classes of a table are properties of all classes of the program. -/
theorem ClassTable.forall_classDecl {classes : ClassTable}
    (hmap : classes.classes.map p.classDecl = p.classes) {P : ClassDecl → Prop} :
    (∀ cls ∈ classes.classes, P (p.classDecl cls)) ↔ ∀ c ∈ p.classes, P c := by
  rw [← hmap, List.forall_mem_map]

theorem sublist_methods (cs : List ClassDecl) :
    (cs.flatMap fun c => c.methods.flatMap FunctionDecl.ids).Sublist
      (cs.flatMap ClassDecl.ids) := by
  induction cs with
  | nil => exact .slnil
  | cons c cs ih =>
      exact ((List.sublist_append_right _ _).cons _).append ih

section

variable {f : Findings} {t : MemberTable} (hh : p.Hierarchy)
include hh

/-- Nothing is reported of overriding exactly if all methods keep its rule. -/
theorem overrides_iff (ht : t.Stands p f.arrays) (hf : f.Sound p) :
    (∀ cls ∈ (ClassTable.build p.classes).1.classes, classOverrides t cls = []) ↔
      p.Overriding := by
  rw [Program.Overriding, ← ClassTable.forall_classDecl (ClassTable.map_classDecl_build hh)]
  exact forall₂_congr fun cls hcls =>
    classOverrides_eq_nil hh hf.arrays ht (ClassTable.faithful_of_mem_build hh hcls)

/-- The methods of all classes are silently checked exactly if all keep the rules. -/
theorem checkMethods_spec (hp : p.ids.Nodup) {env : Surroundings}
    (henv : env.Stands f.arrays (p.place printName none)) (hf : f.Sound p) :
    Checks p (∀ cls ∈ (ClassTable.build p.classes).1.classes, ∀ m ∈ (p.classDecl cls).methods,
        FunctionTyped (p.place printName (some cls.name)) m)
      (fun a n => ∀ cls ∈ (ClassTable.build p.classes).1.classes, ∀ m ∈ (p.classDecl cls).methods,
        m.Recorded a n (p.place printName (some cls.name)))
      ((ClassTable.build p.classes).1.classes.flatMap fun cls =>
        (p.classDecl cls).methods.flatMap FunctionDecl.ids)
      ((ClassTable.build p.classes).1.classes.forM fun cls =>
        (p.classDecl cls).methods.forM (checkFunction { env with current := some cls })) f := by
  have hready : ReadyFor (p.place printName none) env f := ⟨hf, henv⟩
  have hids : ((ClassTable.build p.classes).1.classes.flatMap fun cls =>
      (p.classDecl cls).methods.flatMap FunctionDecl.ids).Nodup := by
    have := ((List.nodup_append'.1 hp).1).sublist (sublist_methods p.classes)
    rw [← ClassTable.map_classDecl_build hh, List.flatMap_map] at this
    exact this
  refine forM_spec _ _ _ (fun cls f h is hg hd hrec m hm => ?_)
    (fun _ _ _ h hg => ReadyFor.grow h hg) (fun cls hcls g hg => ?_) hids hready
  · refine recordedFunction_grow (Γ := p.place printName (some cls.name)) hg ?_ (hrec m hm)
    exact fun id hid => hd (List.mem_flatMap.2 ⟨m, hm, hid⟩)
  · have hc := ClassTable.faithful_of_mem_build hh hcls
    have hnodup := (List.nodup_flatMap.1 hids).1 cls hcls
    refine checkFunctions_spec (Γ := p.place printName (some cls.name)) hh hp hnodup ?_
      ⟨hg.sound, ?_⟩
    · exact fun d hd t ht => Program.mem_typeExprs_of_class hc.mem
        (List.mem_append_right _ (List.mem_flatMap.2 ⟨d, hd, ht⟩))
    · exact ⟨hg.env.classes, hg.env.functions, hg.env.members, .some ⟨hc, rfl⟩⟩

end

/-- The rules on the members and bodies of a program. -/
structure Program.PartsRight (p : Program) (printName : String) : Prop where
  members : ∀ c ∈ p.classes, MembersRight p c
  overriding : p.Overriding
  methods : ∀ c ∈ p.classes, ∀ m ∈ c.methods,
    FunctionTyped (p.place printName (some c.name.name)) m
  functions : ∀ f ∈ p.functions, FunctionTyped (p.place printName none) f

/-- What a silent analysis leaves behind. -/
structure Program.Analysed (p : Program) (printName : String) (t : MemberTable) (f : Findings) :
    Prop where
  sound : f.Sound p
  members : t.Stands p f.arrays
  recorded : p.Recorded printName f.arrays f.notes

/-- The members of all classes, one after the other. -/
def declareAll (p : Program) (classes : ClassTable) : Check (List ClassMembers) :=
  classes.classes.mapM fun cls => declareMembers classes cls (p.classDecl cls)

/-- The methods of all classes, and then the functions. -/
def checkBodies (p : Program) (env : Surroundings) : Check Unit := do
  env.classes.classes.forM fun cls =>
    (p.classDecl cls).methods.forM (checkFunction { env with current := some cls })
  p.functions.forM (checkFunction env)

/-- What the bodies of a program are checked against. -/
def bodySurroundings (classes : ClassTable) (functions : FunctionTable)
    (members : List ClassMembers) : Surroundings :=
  { classes, functions, members := ⟨members⟩ }

/-- The complaints about overriding. -/
def reportOverrides (classes : ClassTable) (members : List ClassMembers) : Check Unit :=
  classes.classes.forM fun cls => (classOverrides ⟨members⟩ cls).forM report

instance (classes : ClassTable) : Adds (declareAll p classes) := by
  unfold declareAll
  infer_instance

instance (env : Surroundings) : Adds (checkBodies p env) := by
  unfold checkBodies
  infer_instance

instance (classes : ClassTable) (members : List ClassMembers) :
    Adds (reportOverrides classes members) := by
  unfold reportOverrides
  infer_instance

theorem checkAll_eq (classes : ClassTable) (functions : FunctionTable) :
    p.checkAll classes functions = (do
      let members ← declareAll p classes
      reportOverrides classes members
      checkBodies p (bodySurroundings classes functions members)
      return ⟨members⟩) := by
  simp only [Program.checkAll, declareAll, checkBodies, bind_assoc]
  rfl

theorem silent_checkAll (classes : ClassTable) (functions : FunctionTable) (f : Findings) :
    Silent (p.checkAll classes functions) f ↔ Silent (declareAll p classes) f ∧
      (∀ cls ∈ classes.classes, classOverrides ⟨(declareAll p classes).value f⟩ cls = []) ∧
      Silent (checkBodies p
          (bodySurroundings classes functions ((declareAll p classes).value f)))
        ((declareAll p classes).after f) := by
  simp only [checkAll_eq, silent_bind, silent_pure, and_true]
  refine and_congr_right fun _ => ?_
  rw [reportOverrides, silent_reportsOf.1]
  exact and_congr_right fun h => by rw [silent_reportsOf.2 h]

theorem run_checkAll (classes : ClassTable) (functions : FunctionTable) (f : Findings)
    (h : ∀ cls ∈ classes.classes, classOverrides ⟨(declareAll p classes).value f⟩ cls = []) :
    (p.checkAll classes functions).value f = ⟨(declareAll p classes).value f⟩ ∧
      (p.checkAll classes functions).after f =
        (checkBodies p (bodySurroundings classes functions ((declareAll p classes).value f))).after
          ((declareAll p classes).after f) := by
  simp only [checkAll_eq, value_bind, value_pure, after_bind, after_pure, true_and]
  rw [reportOverrides, silent_reportsOf.2 h]

/-- The bodies of a program are silently checked exactly if they keep the rules. -/
theorem checkBodies_spec (hh : p.Hierarchy) (hp : p.ids.Nodup) {env : Surroundings} {f : Findings}
    (henv : env.Stands f.arrays (p.place printName none)) (hf : f.Sound p) :
    Checks p ((∀ c ∈ p.classes, ∀ m ∈ c.methods,
        FunctionTyped (p.place printName (some c.name.name)) m) ∧
        ∀ d ∈ p.functions, FunctionTyped (p.place printName none) d)
      (fun a n => (∀ c ∈ p.classes, ∀ m ∈ c.methods,
        m.Recorded a n (p.place printName (some c.name.name))) ∧
        ∀ d ∈ p.functions, d.Recorded a n (p.place printName none))
      p.ids (checkBodies p env) f := by
  have hmap := ClassTable.map_classDecl_build hh
  have hname : ∀ cls ∈ (ClassTable.build p.classes).1.classes,
      (p.classDecl cls).name.name = cls.name := fun cls hcls =>
    (ClassTable.faithful_of_mem_build hh hcls).classDecl_name
  have hclasses : ∀ {P : String → FunctionDecl → Prop},
      (∀ cls ∈ (ClassTable.build p.classes).1.classes, ∀ m ∈ (p.classDecl cls).methods,
        P cls.name m) ↔ ∀ c ∈ p.classes, ∀ m ∈ c.methods, P c.name.name m := by
    intro P
    rw [← ClassTable.forall_classDecl (P := fun c => ∀ m ∈ c.methods, P c.name.name m) hmap]
    exact forall₂_congr fun cls hcls => by rw [hname cls hcls]
  obtain ⟨hids, hids', hdisjoint⟩ := List.nodup_append'.1 hp
  obtain ⟨hm, hm'⟩ := checkMethods_spec hh hp henv hf
  have hfs := fun h => checkFunctions_spec (Γ := p.place printName none) hh hp hids'
    (fun d hd t ht => Program.mem_typeExprs_of_function hd ht)
    (ReadyFor.grow ⟨hf, henv⟩ (hm h).2.2)
  have hsub : ((ClassTable.build p.classes).1.classes.flatMap fun cls =>
      (p.classDecl cls).methods.flatMap FunctionDecl.ids) ⊆ p.classes.flatMap ClassDecl.ids := by
    have h := (sublist_methods p.classes).subset
    nth_rewrite 1 [← hmap] at h
    rwa [List.flatMap_map] at h
  have hc : env.classes = (ClassTable.build p.classes).1 := henv.classes
  rw [checkBodies]
  nth_rewrite 1 [hc]
  constructor
  · intro h
    rw [silent_bind] at h
    obtain ⟨hmt, hmr, hmg⟩ := hm h.1
    obtain ⟨hft, hfr, hfg⟩ := (hfs h.1).sound h.2
    refine ⟨⟨(hclasses (P := fun name => FunctionTyped (p.place printName (some name)))).1 hmt,
      hft⟩,
      ⟨(hclasses (P := fun name m => m.Recorded _ _ (p.place printName (some name)))).1
        fun cls hcls m hmem => ?_, hfr⟩, ?_⟩
    · refine recordedFunction_grow (Γ := p.place printName (some cls.name)) hfg (fun id hid => ?_)
        (hmr cls hcls m hmem)
      exact hdisjoint (hsub (List.mem_flatMap.2 ⟨cls, hcls, List.mem_flatMap.2 ⟨m, hmem, hid⟩⟩))
    · exact (hmg.trans hfg).mono (List.append_subset.2
        ⟨List.subset_append_of_subset_left _ hsub, List.subset_append_right _ _⟩)
  · rintro hk ⟨hmt, hft⟩
    have h := hm' hk
      ((hclasses (P := fun name => FunctionTyped (p.place printName (some name)))).2 hmt)
    rw [silent_bind]
    exact ⟨h, (hfs h).complete hk hft⟩

/-- Members and bodies are silently checked exactly if they keep the rules. -/
theorem checkAll_spec (hh : p.Hierarchy) (hp : p.ids.Nodup) {f : Findings} (hf : f.Sound p) :
    (Silent (p.checkAll (ClassTable.build p.classes).1 ⟨printName, p.functions⟩) f →
      p.PartsRight printName ∧
      p.Analysed printName
        ((p.checkAll (ClassTable.build p.classes).1 ⟨printName, p.functions⟩).value f)
        ((p.checkAll (ClassTable.build p.classes).1 ⟨printName, p.functions⟩).after f)) ∧
    (p.PartsRight printName →
      Silent (p.checkAll (ClassTable.build p.classes).1 ⟨printName, p.functions⟩) f) := by
  have hmap := ClassTable.map_classDecl_build hh
  obtain ⟨hm, hm'⟩ := declareAll_spec hh rfl hp
    (fun cls => ClassTable.faithful_of_mem_build (c := cls) hh) hf
  have htable := fun h => memberTable_stands hh (hm h).2.1
  have henv : ∀ _ : Silent (declareAll p (ClassTable.build p.classes).1) f,
      (bodySurroundings (ClassTable.build p.classes).1 ⟨printName, p.functions⟩
          ((declareAll p (ClassTable.build p.classes).1).value f)).Stands
        ((declareAll p (ClassTable.build p.classes).1).after f).arrays
        (p.place printName none) := by
    refine fun h => ⟨rfl, fun name => ?_, htable h, .none⟩
    simp only [bodySurroundings, FunctionTable.find?, beq_iff_eq]
    rfl
  have hover := fun h => overrides_iff hh (htable h) ((hm h).2.2.2.sound hf)
  have hbodies := fun h => checkBodies_spec hh hp (henv h) ((hm h).2.2.2.sound hf)
  rw [silent_checkAll]
  constructor
  · rintro ⟨h, h', h''⟩
    obtain ⟨hright, _, hrec, hg⟩ := hm h
    obtain ⟨⟨hmt, hft⟩, ⟨hmr, hfr⟩, hg'⟩ := (hbodies h).sound h''
    obtain ⟨hvalue, hafter⟩ := run_checkAll _ ⟨printName, p.functions⟩ f h'
    refine ⟨⟨?_, (hover h).1 h', hmt, hft⟩, ?_⟩
    · exact (ClassTable.forall_classDecl hmap).1 hright
    · rw [hvalue, hafter]
      refine ⟨hg'.sound (hg.sound hf), (htable h).mono hg'.arrays, ?_, hmr, hfr⟩
      refine (ClassTable.forall_classDecl hmap).1 fun cls hcls x hx => ?_
      exact ((hrec cls hcls).fields x hx).mono hg'.arrays hg'.typeExprs
  · rintro ⟨hright, hoverriding, hmt, hft⟩
    have h := hm' ((ClassTable.forall_classDecl hmap).2 hright)
    refine ⟨h, (hover h).2 hoverriding, (hbodies h).complete ?_ ⟨hmt, hft⟩⟩
    exact fun d hd => (hft d hd).signature

/-- The rules on a program are those on its hierarchy, its members and bodies, its functions'
names, its start and its returns. -/
theorem Program.wellFormed_iff : p.WellFormed printName ↔ p.Hierarchy ∧ p.PartsRight printName ∧
    ((p.functions.map (·.name.name)).Nodup ∧ ∀ f ∈ p.functions, f.name.name ≠ printName) ∧
    (∃ f ∈ p.functions, f.name.name = mainName ∧ f.returnType.plain = .int ∧ f.params = []) ∧
      (∀ f ∈ p.functions, f.Returns) ∧ ∀ c ∈ p.classes, ∀ f ∈ c.methods, f.Returns := by
  constructor
  · intro h
    refine ⟨h.hierarchy, ⟨fun c hc => ?_, h.overriding, fun c hc m hm => ?_, fun f hf => ?_⟩,
      ⟨h.functionNames, h.printFree⟩, h.main, fun f hf => ?_, fun c hc m hm => ?_⟩
    · refine ⟨h.fieldNames c hc, h.methodNames c hc, h.fieldTypes c hc, fun m hm => ?_⟩
      exact (FunctionDecl.wellFormed_iff.1 (h.methods c hc m hm)).1.signature
    · exact (FunctionDecl.wellFormed_iff.1 (h.methods c hc m hm)).1
    · exact (FunctionDecl.wellFormed_iff.1 (h.functions f hf)).1
    · exact (FunctionDecl.wellFormed_iff.1 (h.functions f hf)).2
    · exact (FunctionDecl.wellFormed_iff.1 (h.methods c hc m hm)).2
  · rintro ⟨hh, ⟨hmembers, hover, hmt, hft⟩, ⟨hnames, hprint⟩, hmain, hfr, hmr⟩
    exact
      { hierarchy := hh
        fieldNames := fun c hc => (hmembers c hc).fieldNames
        methodNames := fun c hc => (hmembers c hc).methodNames
        fieldTypes := fun c hc => (hmembers c hc).fieldTypes
        overriding := hover
        methods := fun c hc m hm => FunctionDecl.wellFormed_iff.2 ⟨hmt c hc m hm, hmr c hc m hm⟩
        functionNames := hnames
        printFree := hprint
        functions := fun f hf => FunctionDecl.wellFormed_iff.2 ⟨hft f hf, hfr f hf⟩
        main := hmain }

/-- What is reported before members and bodies are checked. -/
def Program.early (p : Program) (printName : String) : List Diagnostic :=
  (ClassTable.build p.classes).2 ++ (FunctionTable.build printName p.functions).2
    ++ p.mainDiagnostics ++ p.returnDiagnostics (ClassTable.build p.classes).1

/-- The part of the analysis that checks members and bodies. -/
def Program.late (p : Program) (printName : String) : Check MemberTable :=
  p.checkAll (ClassTable.build p.classes).1 (FunctionTable.build printName p.functions).1

theorem Program.isAccepted_iff_silent : (p.analyze printName).isAccepted = true ↔
    p.early printName = [] ∧ Silent (p.late printName) {} := by
  have hsize : (p.analyze printName).isAccepted = true ↔
      ((p.late printName).after { diagnostics := (p.early printName).toArray }).diagnostics.size
        = 0 := by
    rw [Analysis.isAccepted, List.isEmpty_iff, ← List.length_eq_zero_iff]
    rfl
  have hle := (inferInstanceAs (Adds (p.checkAll _ _)) : Adds (p.late printName)).le
    { diagnostics := (p.early printName).toArray }
  rw [hsize]
  constructor
  · intro h
    have hearly : p.early printName = [] := by
      rw [← List.length_eq_zero_iff]
      simpa [h] using hle
    refine ⟨hearly, ?_⟩
    rw [hearly] at h
    exact h
  · rintro ⟨hearly, h⟩
    rw [hearly]
    exact h

theorem sound_empty : Findings.Sound p {} := by
  refine ⟨⟨?_, ?_⟩, ?_⟩
  · intro i c hc
    simp at hc
  · intro i j c d t hc
    simp at hc
  · intro t _ T hT
    simp [Notes.typeExpr?] at hT

/-- A program whose nodes have different identities is accepted exactly if it keeps the rules. -/
theorem Program.isAccepted_iff (hp : p.ids.Nodup) :
    (p.analyze printName).isAccepted = true ↔ p.WellFormed printName := by
  rw [Program.isAccepted_iff_silent, Program.wellFormed_iff]
  simp only [Program.early, List.append_assoc]
  rw [List.append_eq_nil_iff, List.append_eq_nil_iff, ClassTable.build_eq_nil,
    FunctionTable.build_eq_nil]
  constructor
  · rintro ⟨⟨hh, hnames, hreturns⟩, h⟩
    rw [Program.late, FunctionTable.build_eq (FunctionTable.build_eq_nil.2 hnames)] at h
    exact ⟨hh, ((checkAll_spec hh hp sound_empty).1 h).1, hnames,
      (Program.returns_iff hnames.1 (ClassTable.map_classDecl_build hh)).1 hreturns⟩
  · rintro ⟨hh, hparts, hnames, hrest⟩
    refine ⟨⟨hh, hnames,
      (Program.returns_iff hnames.1 (ClassTable.map_classDecl_build hh)).2 hrest⟩, ?_⟩
    rw [Program.late, FunctionTable.build_eq (FunctionTable.build_eq_nil.2 hnames)]
    exact (checkAll_spec hh hp sound_empty).2 hparts

/-- What the analysis of a program that keeps the rules has found out. -/
theorem Program.WellFormed.analysed (hp : p.ids.Nodup) (h : p.WellFormed printName) :
    (p.analyze printName).classes = (ClassTable.build p.classes).1 ∧
      (p.analyze printName).functions = ⟨printName, p.functions⟩ ∧
      (p.analyze printName).arrays.Canonical p ∧
      (p.analyze printName).members.Stands p (p.analyze printName).arrays ∧
      p.Recorded printName (p.analyze printName).arrays (p.analyze printName).notes := by
  obtain ⟨hearly, hsilent⟩ := Program.isAccepted_iff_silent.1 ((Program.isAccepted_iff hp).2 h)
  have hnames := FunctionTable.build_eq
    (FunctionTable.build_eq_nil.2 ⟨h.functionNames, h.printFree⟩)
  rw [Program.late, hnames] at hsilent
  obtain ⟨_, hsound, hmembers, hrecorded⟩ :=
    (checkAll_spec h.hierarchy hp sound_empty).1 hsilent
  have hrun : (p.analyze printName) = ⟨(ClassTable.build p.classes).1,
      (FunctionTable.build printName p.functions).1,
      (p.late printName).value { diagnostics := (p.early printName).toArray },
      ((p.late printName).after { diagnostics := (p.early printName).toArray }).arrays,
      ((p.late printName).after { diagnostics := (p.early printName).toArray }).notes,
      ((p.late printName).after
        { diagnostics := (p.early printName).toArray }).diagnostics.toList⟩ := rfl
  rw [hrun, hearly]
  refine ⟨rfl, hnames, ?_⟩
  rw [Program.late, hnames]
  exact ⟨hsound.arrays, hmembers, hrecorded⟩

/-- What is known of an accepted program and its analysis. -/
structure Program.Accepted (p : Program) (printName : String) (a : Analysis) : Prop where
  wellFormed : p.WellFormed printName
  ids : p.ids.Nodup
  classes : a.classes = (ClassTable.build p.classes).1
  functions : a.functions = ⟨printName, p.functions⟩
  arrays : a.arrays.Canonical p
  members : a.members.Stands p a.arrays
  recorded : p.Recorded printName a.arrays a.notes

/-- A program whose nodes have different identities is accepted. -/
theorem Program.accepted_of_ids (hp : p.ids.Nodup)
    (ha : (p.analyze printName).isAccepted = true) :
    p.Accepted printName (p.analyze printName) := by
  have hw := (Program.isAccepted_iff hp).1 ha
  obtain ⟨hclasses, hfunctions, harrays, hmembers, hrecorded⟩ := hw.analysed hp
  exact ⟨hw, hp, hclasses, hfunctions, harrays, hmembers, hrecorded⟩

theorem Program.accepted {source : String} (h : Program.ofText source = .ok p)
    (ha : (p.analyze printName).isAccepted = true) :
    p.Accepted printName (p.analyze printName) :=
  Program.accepted_of_ids (p.numbered_ofText h).nodup ha

/-- A source text is accepted exactly if it is the text of a program that keeps the rules. -/
theorem ofText_isAccepted_iff (source printName : String) :
    (∃ p, Program.ofText source = .ok p ∧ (p.analyze printName).isAccepted = true) ↔
      ∃ p, Program.ofText source = .ok p ∧ p.WellFormed printName := by
  refine exists_congr fun p => and_congr_right fun h => ?_
  exact Program.isAccepted_iff (p.numbered_ofText h).nodup

end ObjectLang
