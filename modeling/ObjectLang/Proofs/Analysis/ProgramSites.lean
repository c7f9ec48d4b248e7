import Mathlib.Tactic
import ObjectLang.Proofs.Analysis.ReorderingPrograms
import ObjectLang.Proofs.Analysis.VerdictSites

/-!
# The sites of members and bodies

What is reported of the members and bodies of a program stands at different sites of its nodes. An
undeclared class in a written type is reported when the analysis first comes to the type, so the
name in it is a site for one report, however many bodies, calls and overriding methods come to it.
-/
namespace ObjectLang

section functions

variable (S : Setting) (current : Option String) (x : Site)

/-- How often a site is one at which overriding methods report something of a method. -/
def FunctionDecl.overridingAt (f : FunctionDecl) : Nat :=
  Concern.arity.at f.name.span x + Concern.result.at f.returnType.span x +
    (f.params.map fun d => Concern.parameter.at d.span x).sum

theorem lateAt_parameters (ds : List VarDecl) :
    (ds.map fun d => Concern.reference.at d.name.span x).sum +
      (ds.map fun d => Concern.parameter.at d.span x).sum + namedAt x (ds.map VarDecl.type) ≤
        lateAt x (ds.flatMap fun d => .param d :: d.inside) := by
  rw [namedAt_map, lateAt_flatMap, ← List.sum_map_add, ← List.sum_map_add]
  refine List.sum_le_sum fun d _ => ?_
  have := d.namedAt_le x
  rw [lateAt_param]
  omega

theorem lateAt_fields (ds : List VarDecl) :
    (ds.map fun d => Concern.reference.at d.name.span x).sum + namedAt x (ds.map VarDecl.type) ≤
      lateAt x (ds.flatMap fun d => .decl d :: d.inside) := by
  rw [namedAt_map, lateAt_flatMap, ← List.sum_map_add]
  refine List.sum_le_sum fun d _ => ?_
  rw [lateAt_decl]
  exact d.namedAt_le x

/-- What a function reports leaves the sites free at which something is reported about it as a
member of a class. -/
theorem FunctionDecl.hits_verdict (f : FunctionDecl) :
    (S.function current f).hits x + namedAt x f.written + Concern.reference.at f.name.span x +
      f.overridingAt x ≤ lateAt x f.inside := by
  have := f.returnType.namedAt_le x
  have := lateAt_parameters x f.params
  have hparams := fun o : ScopeOutline => Verdict.hits_foldlM x (k := S.parameter)
    (n := fun d => Concern.reference.at d.name.span x) (fun o d => by
      rw [Setting.parameter, Verdict.hits_bind, Verdict.hits_bind, S.hits_resolve,
        Verdict.hits_pure]
      exact Verdict.hits_require ..) f.params o
  have := hparams ⟨f.name.name, (S.resolve f.returnType).value, []⟩
  have := hits_verdictOfBody S current x f.body (f.params.foldlM S.parameter
    ⟨f.name.name, (S.resolve f.returnType).value, []⟩).value
  rw [Setting.function, Verdict.hits_bind, Verdict.hits_bind, S.hits_resolve,
    FunctionDecl.written, FunctionDecl.inside, FunctionDecl.overridingAt, namedAt_cons,
    namedAt_append, lateAt_type, lateAt_append, lateAt_name, lateAt_append, lateAt_body]
  omega

theorem count_changed (ds : List VarDecl) (os : List Outline) (changed : VarDecl × Outline → Bool) :
    (((ds.zip os).filter changed).map fun pair => (Concern.parameter, some pair.1.span)).count x ≤
      (ds.map fun d => Concern.parameter.at d.span x).sum := by
  induction ds generalizing os with
  | nil => exact Nat.le_refl _
  | cons d ds ih =>
      cases os with
      | nil => exact Nat.zero_le _
      | cons o os =>
          rw [List.zip_cons_cons, List.filter_cons, List.map_cons, List.sum_cons]
          split_ifs
          · rw [List.map_cons, ← List.singleton_append, List.count_append]
            exact Nat.add_le_add_left (ih os) _
          · exact (ih os).trans (Nat.le_add_left ..)

/-- What is reported of an overriding method stands at different sites. -/
theorem count_overrides (f : FunctionDecl) (overridden : MethodOutline) :
    ((S.overrides f overridden).map Diagnostic.site).count x ≤ f.overridingAt x := by
  have hchanged := count_changed x f.params overridden.params fun pair =>
    !(S.isSubtype (S.outline pair.1.type) pair.2 && S.isSubtype pair.2 (S.outline pair.1.type))
  have hresult : ((if S.isSubtype (S.outline f.returnType) overridden.returnType then []
      else [Diagnostic.overrideReturnType f.name.name f.returnType.span]).map
        Diagnostic.site).count x ≤ Concern.result.at f.returnType.span x := count_unless x _ _
  unfold Setting.overrides FunctionDecl.overridingAt
  simp only
  split
  · rw [count_map_append, List.map_map]
    exact (Nat.add_le_add hchanged hresult).trans (by omega)
  · exact (Nat.le_add_right _ _).trans (Nat.le_add_right _ _)

end functions

section classes

variable (S : Setting) (x : Site)

theorem Setting.hits_addMember {α : Type} (name : α → String) (taken : α → Diagnostic)
    (members : List α) (a : α) :
    (addMember name taken members a).hits x ≤ [(taken a).site].count x := by
  rw [addMember]
  split_ifs
  · exact (Verdict.hits_reporting ..).le
  · exact Nat.zero_le _

theorem Setting.hits_members (c : ClassDecl) : (S.members c).hits x ≤
    (c.fields.map fun d => Concern.reference.at d.name.span x).sum +
      (c.methods.map fun f => Concern.reference.at f.name.span x).sum := by
  have := Verdict.hits_foldlM x (k := S.declareField c.name.name)
    (n := fun d => Concern.reference.at d.name.span x) (fun fields d => by
      rw [declareField, Verdict.hits_bind, S.hits_resolve, Nat.zero_add]
      exact hits_addMember ..) c.fields []
  have := Verdict.hits_foldlM x (k := S.declareMethod c.name.name)
    (n := fun f => Concern.reference.at f.name.span x) (fun methods f => by
      rw [declareMethod, Verdict.hits_bind, Verdict.hits_bind, S.hits_resolve, Verdict.hits_mapM]
      simp only [S.hits_resolve, List.map_const', List.sum_replicate, smul_zero, Nat.zero_add]
      exact hits_addMember ..) c.methods []
  rw [members, Verdict.hits_bind, Verdict.hits_bind, Verdict.hits_pure]
  omega

/-- What is reported of overriding methods of a class stands at different sites. -/
theorem Setting.count_classOverrides (c : ClassDecl) :
    ((S.classOverrides c).map Diagnostic.site).count x ≤
      (c.methods.map (FunctionDecl.overridingAt x)).sum := by
  rw [classOverrides]
  cases (S.ancestors? c.name.name).bind fun names => names[1]? with
  | none => exact Nat.zero_le _
  | some superclass =>
      have hle : ∀ f : FunctionDecl,
          (((S.method? superclass f.name.name).elim [] (S.overrides f)).map
            Diagnostic.site).count x ≤ f.overridingAt x := fun f => by
        cases S.method? superclass f.name.name with
        | none => exact Nat.zero_le _
        | some overridden => exact count_overrides S x f overridden
      refine (count_flatMap x _ _).trans_le ?_
      exact (List.sum_le_sum fun f _ => hle f).trans
        (((firsts_sublist ..).map _).sum_le_sum fun _ _ => Nat.zero_le _)

/-- All that happens in the members and methods of a class. -/
theorem ClassDecl.hits_verdict (c : ClassDecl) : (S.members c).hits x +
    ((S.classOverrides c).map Diagnostic.site).count x +
      (c.methods.map fun f => (S.function (some c.name.name) f).hits x).sum +
        namedAt x c.written ≤ lateAt x c.inside := by
  have := S.hits_members x c
  have := S.count_classOverrides x c
  have := lateAt_fields x c.fields
  have hmethods : (c.methods.map fun f => Concern.reference.at f.name.span x).sum +
      (c.methods.map (FunctionDecl.overridingAt x)).sum +
        (c.methods.map fun f => (S.function (some c.name.name) f).hits x).sum +
          namedAt x (c.methods.flatMap FunctionDecl.written) ≤
            lateAt x (c.methods.flatMap fun f => .function f :: f.inside) := by
    rw [namedAt_flatMap, lateAt_flatMap, ← List.sum_map_add, ← List.sum_map_add,
      ← List.sum_map_add]
    refine List.sum_le_sum fun f _ => ?_
    have := f.hits_verdict S (some c.name.name) x
    rw [lateAt_function]
    omega
  rw [ClassDecl.written, ClassDecl.inside, namedAt_append, lateAt_name, lateAt_append,
    lateAt_append]
  omega

/-- All that happens in a program. -/
theorem Setting.hits_program (classes : List ClassDecl) (functions : List FunctionDecl) :
    (S.program classes functions).hits x +
      namedAt x (classes.flatMap ClassDecl.written ++ functions.flatMap FunctionDecl.written) ≤
        lateAt x (classes.flatMap (fun c => Phrase.nodes (.cls c)) ++
          functions.flatMap fun f => Phrase.nodes (.function f)) := by
  have hclasses : (classes.forM S.members).hits x +
      (classes.forM fun c => (S.classOverrides c).forM Verdict.report).hits x +
        (classes.forM fun c => c.methods.forM (S.function (some c.name.name))).hits x +
          namedAt x (classes.flatMap ClassDecl.written) ≤
            lateAt x (classes.flatMap fun c => Phrase.nodes (.cls c)) := by
    simp only [Verdict.hits_forM, Verdict.hits_report, ← count_sites]
    rw [namedAt_flatMap, lateAt_flatMap, ← List.sum_map_add, ← List.sum_map_add,
      ← List.sum_map_add]
    refine List.sum_le_sum fun c _ => ?_
    rw [Phrase.nodes, lateAt_cls]
    exact c.hits_verdict S x
  have hfunctions : (functions.forM (S.function none)).hits x +
      namedAt x (functions.flatMap FunctionDecl.written) ≤
        lateAt x (functions.flatMap fun f => Phrase.nodes (.function f)) := by
    rw [Verdict.hits_forM, namedAt_flatMap, lateAt_flatMap, ← List.sum_map_add]
    refine List.sum_le_sum fun f _ => ?_
    have := f.hits_verdict S none x
    rw [Phrase.nodes, lateAt_function]
    change _ ≤ lateAt x f.inside
    omega
  rw [program, Verdict.hits_bind, Verdict.hits_bind, Verdict.hits_bind, namedAt_append,
    lateAt_append]
  omega

end classes

section reports

variable (S : Setting) (x : Site)

theorem namedAt_le_of_sublist {ts us : List TypeExpr} (h : ts.Sublist us) :
    namedAt x ts ≤ namedAt x us :=
  ((h.flatMap _).map _).count_le x

theorem Setting.count_undeclared (t : TypeExpr) :
    ((S.undeclared t).map Diagnostic.site).count x ≤ namedAt x [t] := by
  induction t with
  | int | bool => exact Nat.zero_le _
  | named _ name =>
      rw [undeclared]
      split_ifs
      · exact Nat.zero_le _
      · exact Nat.le_refl _
  | array _ component ih => exact ih

/-- A written type that is no longer new. -/
theorem namedAt_filter {ts : List TypeExpr} {t : TypeExpr} {p q : TypeExpr → Bool} (ht : t ∈ ts)
    (hp : p t = false) (hq : q t = true) (hpq : ∀ u, p u = true → q u = true) :
    namedAt x [t] + namedAt x (ts.filter p) ≤ namedAt x (ts.filter q) := by
  induction ts with
  | nil => cases ht
  | cons u ts ih =>
      rcases List.mem_cons.1 ht with rfl | ht
      · rw [List.filter_cons_of_neg (by simp [hp]), List.filter_cons_of_pos hq,
          namedAt_cons x (ts.filter q) t]
        exact Nat.add_le_add_left (namedAt_le_of_sublist x (List.monotone_filter_right ts hpq)) _
      · have := ih ht
        cases hu : p u with
        | true =>
            rw [List.filter_cons_of_pos hu, List.filter_cons_of_pos (hpq u hu), namedAt_cons x _ u,
              namedAt_cons x (ts.filter q) u]
            omega
        | false =>
            rw [List.filter_cons_of_neg (by simp [hu])]
            exact this.trans
              (namedAt_le_of_sublist x ((List.sublist_cons_self u ts).filter q))

/-- Whether no written type with the leaf of this one is known. -/
def TypeExpr.isNew (known : List TypeExpr) (t : TypeExpr) : Bool :=
  !known.any (·.leaf.id == t.leaf.id)

theorem TypeExpr.isNew_of_cons (known : List TypeExpr) (t u : TypeExpr)
    (h : u.isNew (t :: known) = true) : u.isNew known = true := by
  simp_all [isNew]

/-- What some events amount to, if they come to no written types but some: what they report, and
undeclared classes in the types that were not known. -/
theorem Setting.count_reports {ts : List TypeExpr} (events : List Event) (known : List TypeExpr)
    (h : ∀ t, .resolve t ∈ events → t ∈ ts) :
    ((S.reports known events).map Diagnostic.site).count x ≤
      (events.filterMap Event.site?).count x + namedAt x (ts.filter (TypeExpr.isNew known)) := by
  -- The induction is on the events, for any types that are known already, which only get more.
  induction events generalizing known with
  | nil => exact Nat.zero_le _
  | cons e events ih =>
      have hrest := fun known => ih known fun t ht => h t (List.mem_cons_of_mem _ ht)
      cases e with
      | report d =>
          have := hrest known
          change ([d.site] ++ (S.reports known events).map Diagnostic.site).count x ≤
            ([d.site] ++ events.filterMap Event.site?).count x + _
          rw [List.count_append, List.count_append]
          omega
      | resolve t =>
          have := hrest (t :: known)
          change (((if known.any (·.leaf.id == t.leaf.id) then [] else S.undeclared t)
            ++ S.reports (t :: known) events).map Diagnostic.site).count x ≤
              (events.filterMap Event.site?).count x + _
          rw [count_map_append]
          split_ifs with hknown
          · have := namedAt_le_of_sublist x
              (List.monotone_filter_right ts (TypeExpr.isNew_of_cons known t))
            simp only [List.map_nil, List.count_nil]
            omega
          · -- From here on the type is known, which makes up for what is reported of its name.
            have := S.count_undeclared x t
            have := namedAt_filter x (h t (List.mem_cons_self ..))
              (p := TypeExpr.isNew (t :: known)) (q := TypeExpr.isNew known)
              (by simp [TypeExpr.isNew]) (by simpa [TypeExpr.isNew] using hknown)
              (TypeExpr.isNew_of_cons known t)
            omega

end reports

namespace Program

variable {p : Program} {printName : String}

/-- What is reported of the members and bodies of a program stands at different sites. -/
theorem count_reports (x : Site) : (((p.setting printName).reports [] (p.events printName)).map
    Diagnostic.site).count x ≤ lateAt x p.nodes := by
  let ts := p.acceptedClasses.flatMap ClassDecl.written ++ p.functions.flatMap FunctionDecl.written
  have hfunctions : ∀ f ∈ p.functions, f.written ⊆ ts := fun f hf t ht =>
    List.mem_append_right _ (List.mem_flatMap.2 ⟨f, hf, ht⟩)
  have hmentions : ((p.setting printName).program p.acceptedClasses p.functions).Mentions ts :=
    mentions_program (fun _ d hd => hfunctions d (FunctionTable.mem_of_find?_build hd))
      (fun c hc t ht => List.mem_append_left _ (List.mem_flatMap.2 ⟨c, hc, ht⟩)) hfunctions
  have hreports := (p.setting printName).count_reports x (p.events printName) [] hmentions
  have hnew : ts.filter (TypeExpr.isNew []) = ts := List.filter_eq_self.2 fun _ _ => rfl
  have hnodes : (p.acceptedClasses.flatMap (fun c => Phrase.nodes (.cls c)) ++
      p.functions.flatMap fun f => Phrase.nodes (.function f)).Sublist p.nodes :=
    (p.acceptedClasses_sublist.flatMap _).append_right _
  rw [hnew] at hreports
  exact (hreports.trans ((p.setting printName).hits_program x _ _)).trans
    (Phrase.sitesAt_le_of_sublist hnodes)

end Program

end ObjectLang
