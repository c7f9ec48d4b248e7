import ObjectLang.Proofs.Analysis.Acceptance
import ObjectLang.Proofs.Analysis.Chains
import ObjectLang.Proofs.Analysis.Renaming

/-!
# Analysis of programs with other names

The tables of a program with other names are the tables of the program with other names, and the
whole analysis finds out the same. What is reported comes in the same order.
-/
namespace ObjectLang

variable {ρ : String → String}

/-- Two lists of diagnostics are the same apart from names. -/
def SameUnnamed (ds ds' : List Diagnostic) : Prop :=
  ds'.map (·.unnamed) = ds.map (·.unnamed)

namespace SameUnnamed

variable {ds ds' es es' : List Diagnostic}

theorem rfl : SameUnnamed ds ds :=
  Eq.refl _

theorem append (hd : SameUnnamed ds ds') (he : SameUnnamed es es') :
    SameUnnamed (ds ++ es) (ds' ++ es') := by
  rw [SameUnnamed, List.map_append, List.map_append, hd, he]

theorem flatMap {α β : Type} {r : α → β} {f : α → List Diagnostic} {g : β → List Diagnostic}
    {l : List α} (h : ∀ a ∈ l, SameUnnamed (f a) (g (r a))) :
    SameUnnamed (l.flatMap f) ((l.map r).flatMap g) := by
  induction l with
  | nil => exact rfl
  | cons a l ih =>
      rw [List.forall_mem_cons] at h
      exact h.1.append (ih h.2)

end SameUnnamed

namespace ClassTable

variable (hρ : ρ.Injective) (decls : List ClassDecl)

theorem zipIdx_relabel : (decls.map (·.relabel (.rename ρ))).zipIdx =
    decls.zipIdx.map (Prod.map (·.relabel (.rename ρ)) id) := by
  rw [List.zipIdx_map]

/-- Cycles are reported for the same places, with as many names. -/
theorem cycleDiagnostics_rename (members : List Nat) : SameUnnamed
    (cycleDiagnostics decls members)
    (cycleDiagnostics (decls.map (·.relabel (.rename ρ))) members) := by
  have hmembers : members.filterMap ((decls.map (·.relabel (.rename ρ)))[·]?) =
      (members.filterMap (decls[·]?)).map (·.relabel (.rename ρ)) := by
    simp only [List.getElem?_map, List.map_filterMap]
  rw [SameUnnamed, cycleDiagnostics, cycleDiagnostics, hmembers]
  simp only [List.map_map]
  refine List.map_congr_left fun d _ => ?_
  simp [Diagnostic.unnamed, ClassDecl.relabel, Function.comp_def]

theorem cutFrom_rename (starts : List (ClassDecl × Nat)) (e : Edges)
    {found found' : List Diagnostic} (hfound : SameUnnamed found found') :
    (cutFrom (decls.map (·.relabel (.rename ρ))) (e, found')
        (starts.map (Prod.map (·.relabel (.rename ρ)) id))).1 =
          (cutFrom decls (e, found) starts).1 ∧
      SameUnnamed (cutFrom decls (e, found) starts).2
        (cutFrom (decls.map (·.relabel (.rename ρ))) (e, found')
          (starts.map (Prod.map (·.relabel (.rename ρ)) id))).2 := by
  induction starts generalizing e found found' with
  | nil => exact ⟨rfl, hfound⟩
  | cons start starts ih =>
      have hlength : (decls.map (·.relabel (.rename ρ))).length = decls.length := List.length_map _
      simp only [cutFrom, List.map_cons, List.foldl_cons, hlength, Prod.map, id] at ih ⊢
      exact ih _ (hfound.append (cycleDiagnostics_rename decls _))

/-- The chain of a class is the same, up to the names. -/
theorem chain_rename {e : Edges} (he : ∀ i j, edge e i = some j → j < decls.length) (steps : Nat) :
    ∀ i < decls.length, chain (decls.map (·.relabel (.rename ρ))) e steps i =
      (chain decls e steps i).rename ρ := by
  have hname : ∀ i < decls.length, (decls.map (·.relabel (.rename ρ)))[i]?.elim "" (·.name.name) =
      ρ (decls[i]?.elim "" (·.name.name)) := by
    intro i hi
    rw [List.getElem?_map, List.getElem?_eq_getElem hi]
    rfl
  induction steps with
  | zero => exact fun i hi => congrArg (ClassRef.root · i) (hname i hi)
  | succ steps ih =>
      intro i hi
      rw [chain, chain, hname i hi]
      cases hedge : edge e i with
      | none => rfl
      | some j => exact congrArg (ClassRef.derived _ i) (ih j (he i j hedge))

include hρ

theorem firstOf?_rename (name : String) :
    firstOf? (decls.map (·.relabel (.rename ρ))) (ρ name) = firstOf? decls name := by
  rw [firstOf?, firstOf?, List.findIdx?_map]
  exact congrArg (List.findIdx? · decls) (funext fun d => hρ.beq_eq)

theorem isFirst_rename (x : ClassDecl × Nat) :
    isFirst (decls.map (·.relabel (.rename ρ))) (Prod.map (·.relabel (.rename ρ)) id x) =
      isFirst decls x := by
  rw [isFirst, isFirst]
  exact congrArg (· == some x.2) (firstOf?_rename hρ decls x.1.name.name)

theorem accepted_rename : accepted (decls.map (·.relabel (.rename ρ))) =
    (accepted decls).map (Prod.map (·.relabel (.rename ρ)) id) := by
  rw [accepted, accepted, zipIdx_relabel, List.filter_map]
  exact congrArg (List.map _) (congrArg (List.filter · decls.zipIdx)
    (funext fun x => isFirst_rename hρ decls x))

theorem duplicates_rename : SameUnnamed (duplicates decls)
    (duplicates (decls.map (·.relabel (.rename ρ)))) := by
  have hnot : (fun x => !isFirst (decls.map (·.relabel (.rename ρ))) x) ∘
      Prod.map (·.relabel (.rename ρ)) id = fun x => !isFirst decls x :=
    funext fun x => congrArg not (isFirst_rename hρ decls x)
  rw [SameUnnamed, duplicates, duplicates, zipIdx_relabel, List.filter_map, hnot]
  simp only [List.map_map]
  exact List.map_congr_left fun x _ => rfl

theorem edges_rename : edges (decls.map (·.relabel (.rename ρ))) = edges decls := by
  rw [edges, edges, zipIdx_relabel, List.map_map]
  refine congrArg List.toArray (List.map_congr_left fun x _ => ?_)
  rw [Function.comp_apply, edgeOf, edgeOf, isFirst_rename hρ, Prod.map_fst,
    ClassDecl.superclass_rename]
  cases x.1.superclass with
  | none => rfl
  | some s => simp [firstOf?_rename hρ]

theorem undeclared_rename : SameUnnamed (undeclared decls)
    (undeclared (decls.map (·.relabel (.rename ρ)))) := by
  rw [SameUnnamed, undeclared, undeclared, accepted_rename hρ, List.filterMap_map,
    List.map_filterMap, List.map_filterMap]
  refine congrArg (List.filterMap · (accepted decls)) (funext fun x => ?_)
  simp only [Function.comp_apply, Prod.map, ClassDecl.superclass_rename]
  cases x.1.superclass with
  | none => rfl
  | some s =>
      simp only [Option.map_some, Option.bind_some, Ident.name_rename, firstOf?_rename hρ]
      cases firstOf? decls s.name <;> rfl

/-- The class table of classes with other names. -/
theorem build_rename : (build (decls.map (·.relabel (.rename ρ)))).1 = (build decls).1.rename ρ ∧
    SameUnnamed (build decls).2 (build (decls.map (·.relabel (.rename ρ)))).2 := by
  obtain ⟨hleft, hcycles⟩ := cutFrom_rename (ρ := ρ) decls (accepted decls) (edges decls)
    (SameUnnamed.rfl : SameUnnamed [] [])
  have hcut : cutCycles (decls.map (·.relabel (.rename ρ)))
      (edges (decls.map (·.relabel (.rename ρ)))) =
        cutFrom (decls.map (·.relabel (.rename ρ))) (edges decls, [])
          ((accepted decls).map (Prod.map (·.relabel (.rename ρ)) id)) := by
    rw [edges_rename hρ, ← accepted_rename hρ]
    rfl
  have hbound : ∀ i j, edge (edgesLeft decls) i = some j → j < decls.length := fun i j hij => by
    obtain ⟨_, hd⟩ := (Up.of_left hij).mem_accepted
    exact lt_of_mem_accepted hd
  constructor
  · have hclasses : (build (decls.map (·.relabel (.rename ρ)))).1.classes =
        (build decls).1.classes.map (·.rename ρ) := by
      rw [classes_build, classes_build, accepted_rename hρ, edgesLeft, hcut, hleft, List.map_map,
        List.map_map, List.length_map]
      exact List.map_congr_left fun x hx =>
        chain_rename decls hbound decls.length x.2 (lt_of_mem_accepted hx)
    exact congrArg ClassTable.mk hclasses
  · refine ((duplicates_rename hρ decls).append (undeclared_rename hρ decls)).append ?_
    change SameUnnamed (cutCycles decls (edges decls)).2 (cutCycles _ _).2
    rw [hcut]
    exact hcycles

end ClassTable

section functions

variable (hρ : ρ.Injective)
include hρ

theorem FunctionTable.add_rename (t : FunctionTable) (hprint : ρ t.printName = t.printName)
    (d : FunctionDecl) : ((t.rename ρ).add (d.relabel (.rename ρ))).1 = (t.add d).1.rename ρ ∧
      SameUnnamed (t.add d).2 ((t.rename ρ).add (d.relabel (.rename ρ))).2 := by
  rw [add, add, FunctionDecl.name_rename, t.find?_rename hρ hprint, Option.isSome_map]
  split
  · exact ⟨rfl, rfl⟩
  · simp [rename, SameUnnamed]

theorem FunctionTable.addAll_rename (decls : List FunctionDecl) (t : FunctionTable)
    (hprint : ρ t.printName = t.printName) {found found' : List Diagnostic}
    (hfound : SameUnnamed found found') :
    (addAll (t.rename ρ, found') (decls.map (·.relabel (.rename ρ)))).1 =
        (addAll (t, found) decls).1.rename ρ ∧
      SameUnnamed (addAll (t, found) decls).2
        (addAll (t.rename ρ, found') (decls.map (·.relabel (.rename ρ)))).2 := by
  induction decls generalizing t found found' with
  | nil => exact ⟨rfl, hfound⟩
  | cons d decls ih =>
      obtain ⟨htable, hdiagnostics⟩ := t.add_rename hρ hprint d
      rw [List.map_cons, addAll_cons, addAll_cons, htable]
      refine ih _ ?_ (hfound.append hdiagnostics)
      rw [add]
      split <;> exact hprint

omit hρ in
theorem FunctionTable.printName_build (printName : String) (decls : List FunctionDecl) :
    (build printName decls).1.printName = printName := by
  have hall : ∀ (t : FunctionTable) (found : List Diagnostic),
      (addAll (t, found) decls).1.printName = t.printName := by
    induction decls with
    | nil => exact fun _ _ => rfl
    | cons d decls ih =>
        intro t found
        rw [addAll_cons, ih, add]
        split <;> rfl
  exact hall _ _

theorem FunctionTable.build_rename {printName : String} (hprint : ρ printName = printName)
    (decls : List FunctionDecl) : (build printName (decls.map (·.relabel (.rename ρ)))).1 =
        (build printName decls).1.rename ρ ∧
      SameUnnamed (build printName decls).2
        (build printName (decls.map (·.relabel (.rename ρ)))).2 :=
  addAll_rename hρ decls ⟨printName, []⟩ hprint SameUnnamed.rfl

end functions

section returns

@[simp]
theorem Stmt.isReturn_rename (s : Stmt) : (s.relabel (.rename ρ)).isReturn = s.isReturn := by
  cases s with
  | branch span condition onTrue onFalse => cases onFalse <;> rfl
  | _ => rfl

@[simp]
theorem endsWithReturn_rename (body : List Stmt) :
    endsWithReturn (relabelBody (.rename ρ) body) = endsWithReturn body := by
  rw [endsWithReturn, endsWithReturn, relabelBody_eq, List.getLast?_map]
  cases body.getLast? with
  | none => rfl
  | some s => exact s.isReturn_rename

mutual

theorem Stmt.unreachable_rename : ∀ s : Stmt,
    (s.relabel (.rename ρ)).unreachable = s.unreachable
  | .declare _ | .eval _ | .assign _ _ _ | .return _ _ | .loop _ _ _ => rfl
  | .branch _ _ onTrue none => onTrue.unreachable_rename
  | .branch _ _ onTrue (some onFalse) =>
      congrArg₂ (· ++ ·) onTrue.unreachable_rename onFalse.unreachable_rename
  | .block _ body => unreachableIn_rename false body
termination_by structural s => s

/-- What cannot be reached has no names. -/
theorem unreachableIn_rename (returned : Bool) : ∀ body : List Stmt,
    unreachableIn returned (relabelBody (.rename ρ) body) = unreachableIn returned body
  | [] => rfl
  | s :: rest => by
      rw [relabelBody, unreachableIn, unreachableIn, s.unreachable_rename, s.isReturn_rename,
        s.span_rename, unreachableIn_rename _ rest]
termination_by structural body => body

end

theorem FunctionDecl.returnDiagnostics_rename (f : FunctionDecl) (isMain : Bool) : SameUnnamed
    (f.returnDiagnostics isMain) ((f.relabel (.rename ρ)).returnDiagnostics isMain) := by
  rw [returnDiagnostics, returnDiagnostics]
  simp only [FunctionDecl.relabel, unreachableIn_rename, endsWithReturn_rename]
  refine SameUnnamed.rfl.append ?_
  split <;> rfl

theorem FunctionDecl.mainDiagnostics_rename (f : FunctionDecl) :
    (f.relabel (.rename ρ)).mainDiagnostics = f.mainDiagnostics := by
  have hreturns : (f.relabel (.rename ρ)).returnsInt = f.returnsInt := by
    rw [returnsInt, returnsInt, FunctionDecl.relabel]
    cases f.returnType <;> rfl
  rw [mainDiagnostics, mainDiagnostics, hreturns]
  simp only [FunctionDecl.relabel, endsWithReturn_rename, TypeExpr.span_rename, List.head?_map,
    Ident.span_rename]
  cases f.params.head? <;> rfl

end returns

section members

variable (hρ : ρ.Injective)

theorem ClassTable.lt_of_mem_build {decls : List ClassDecl} {c : ClassRef}
    (hc : c ∈ (build decls).1.classes) : c.decl < decls.length := by
  obtain ⟨d, i, hd, hchain⟩ := mem_build.1 hc
  rw [hchain.decl]
  exact lt_of_mem_accepted hd

/-- A class has its declaration, with other names. -/
theorem Program.classDecl_rename (p : Program) {c : ClassRef} (hc : c.decl < p.classes.length) :
    (p.relabel (.rename ρ)).classDecl (c.rename ρ) = (p.classDecl c).relabel (.rename ρ) := by
  rw [classDecl, classDecl, c.decl_rename, Program.relabel, List.getElem?_map,
    List.getElem?_eq_getElem hc]
  rfl

include hρ

theorem ClassMembers.addField?_rename (m : ClassMembers) (v : TypedVar) :
    (m.rename ρ).addField? (v.rename ρ) = (m.addField? v).map (·.rename ρ) := by
  rw [addField?, addField?]
  simp only [TypedVar.rename, VarDecl.name_rename, m.field?_rename hρ, Option.isSome_map]
  split
  · rfl
  · simp [rename, TypedVar.rename]

theorem ClassMembers.addMethod?_rename (m : ClassMembers) (v : TypedMethod) :
    (m.rename ρ).addMethod? (v.rename ρ) = (m.addMethod? v).map (·.rename ρ) := by
  rw [addMethod?, addMethod?]
  simp only [TypedMethod.rename, FunctionDecl.name_rename, m.method?_rename hρ, Option.isSome_map]
  split
  · rfl
  · simp [rename, TypedMethod.rename]

open Check

theorem renames_declareField (classes : ClassTable) (m : ClassMembers) (d : VarDecl) :
    Renames ρ (·.rename ρ) (declareField classes m d)
      (declareField (classes.rename ρ) (m.rename ρ) (d.relabel (.rename ρ))) := by
  refine (renames_checkType hρ classes d.type).bind fun T => ?_
  rw [show (⟨d.relabel (.rename ρ), T.rename ρ⟩ : TypedVar) = TypedVar.rename ρ ⟨d, T⟩ from rfl,
    m.addField?_rename hρ]
  cases m.addField? ⟨d, T⟩ with
  | some m => exact .pure rfl
  | none => exact Renames.reporting rfl rfl

theorem renames_declareMethod (classes : ClassTable) (m : ClassMembers) (d : FunctionDecl) :
    Renames ρ (·.rename ρ) (declareMethod classes m d)
      (declareMethod (classes.rename ρ) (m.rename ρ) (d.relabel (.rename ρ))) := by
  refine (Tandem.mapM (r := VarDecl.relabel (.rename ρ)) fun d _ =>
    renames_checkType hρ classes d.type).bind fun Ts =>
      (renames_checkType hρ classes d.returnType).bind fun T => ?_
  rw [show (⟨d.relabel (.rename ρ), Ts.map (·.rename ρ), T.rename ρ⟩ : TypedMethod) =
    TypedMethod.rename ρ ⟨d, Ts, T⟩ from rfl, m.addMethod?_rename hρ]
  cases m.addMethod? ⟨d, Ts, T⟩ with
  | some m => exact .pure rfl
  | none => exact Renames.reporting rfl rfl

theorem renames_declareMembers (classes : ClassTable) (c : ClassRef) (d : ClassDecl) :
    Renames ρ (·.rename ρ) (declareMembers classes c d)
      (declareMembers (classes.rename ρ) (c.rename ρ) (d.relabel (.rename ρ))) :=
  (Tandem.foldlM (renames_declareField hρ classes) d.fields { cls := c }).bind
    (Tandem.foldlM (renames_declareMethod hρ classes) d.methods)

theorem overrideDiagnostics_rename (m o : TypedMethod) : SameUnnamed (overrideDiagnostics m o)
    (overrideDiagnostics (m.rename ρ) (o.rename ρ)) := by
  have hlength : ∀ m : TypedMethod, (m.rename ρ).params.length = m.params.length := fun m =>
    List.length_map _
  have hpairs : (m.rename ρ).decl.params.zip ((m.rename ρ).params.zip (o.rename ρ).params) =
      (m.decl.params.zip (m.params.zip o.params)).map
        (Prod.map (VarDecl.relabel (.rename ρ))
          (Prod.map (ValueType.rename ρ) (ValueType.rename ρ))) := by
    simp only [TypedMethod.rename, FunctionDecl.relabel, List.zip_map]
  have hreturn : (m.rename ρ).returnType.isSubtype (o.rename ρ).returnType =
      m.returnType.isSubtype o.returnType := m.returnType.isSubtype_rename o.returnType hρ
  have hchanged : (fun x : VarDecl × ValueType × ValueType => !x.2.1.isEquivalent x.2.2) ∘
      Prod.map (VarDecl.relabel (.rename ρ)) (Prod.map (ValueType.rename ρ) (ValueType.rename ρ)) =
        fun x => !x.2.1.isEquivalent x.2.2 :=
    funext fun x => congrArg not (x.2.1.isEquivalent_rename x.2.2 hρ)
  rw [overrideDiagnostics, overrideDiagnostics]
  simp only [hlength, hpairs, hreturn, List.filter_map, hchanged]
  split
  · refine SameUnnamed.append ?_ ?_
    · simp only [SameUnnamed, List.map_map]
      exact List.map_congr_left fun x _ => rfl
    · split
      · rfl
      · simp [SameUnnamed, Diagnostic.unnamed, TypedMethod.rename, FunctionDecl.relabel]
  · rfl

theorem classOverrides_rename (t : MemberTable) (c : ClassRef) : SameUnnamed (classOverrides t c)
    (classOverrides (t.rename ρ) (c.rename ρ)) := by
  rw [classOverrides, classOverrides, c.superclass?_rename, t.of?_rename hρ]
  cases c.superclass? with
  | none => rfl
  | some s =>
      cases t.of? c with
      | none => rfl
      | some own =>
          refine SameUnnamed.flatMap (r := TypedMethod.rename ρ) fun m _ => ?_
          have hmethod := t.method?_rename hρ s m.decl.name.name
          rw [show (m.rename ρ).decl.name.name = ρ m.decl.name.name from rfl, hmethod]
          cases t.method? s m.decl.name.name with
          | none => rfl
          | some x => exact overrideDiagnostics_rename hρ m x.2

end members

section programs

variable (hρ : ρ.Injective)

open Check

theorem renames_reports {ds ds' : List Diagnostic} (h : SameUnnamed ds ds') :
    Renames ρ id (ds.forM report) (ds'.forM report) := by
  induction ds generalizing ds' with
  | nil =>
      cases List.map_eq_nil_iff.1 h
      exact .pure rfl
  | cons d ds ih =>
      obtain ⟨d', ds', rfl, hd, hds⟩ := List.map_eq_cons_iff.1 h
      exact (Renames.report hd).andThen (ih hds)

/-- The same is known of a program and of the program with other names, up to the names. -/
structure Analysis.Renamed (ρ : String → String) (a a' : Analysis) : Prop where
  classes : a'.classes = a.classes.rename ρ
  functions : a'.functions = a.functions.rename ρ
  members : a'.members = a.members.rename ρ
  arrays : a'.arrays = a.arrays.rename ρ
  notes : a.notes.Renamed ρ a'.notes
  diagnostics : SameUnnamed a.diagnostics a'.diagnostics

include hρ

theorem Program.function?_rename (p : Program) (name : String) :
    (p.relabel (.rename ρ)).function? (ρ name) = (p.function? name).map (·.relabel (.rename ρ)) :=
  @find?_rename ρ FunctionDecl FunctionDecl hρ (·.name.name) (·.name.name)
    (·.relabel (.rename ρ)) (fun _ => rfl) p.functions name

variable {printName : String} (hmain : ρ mainName = mainName) (hprint : ρ printName = printName)

theorem renames_checkAll (p : Program) {classes : ClassTable} {functions : FunctionTable}
    (hclasses : ∀ c ∈ classes.classes, c.decl < p.classes.length)
    (hprint : ρ functions.printName = functions.printName) :
    Renames ρ (·.rename ρ) (p.checkAll classes functions)
      ((p.relabel (.rename ρ)).checkAll (classes.rename ρ) (functions.rename ρ)) := by
  rw [checkAll_eq, checkAll_eq]
  refine Tandem.bind (g := List.map (·.rename ρ)) ?_ fun members => Tandem.andThen ?_
    (Tandem.andThen ?_ (.pure rfl))
  · refine .mapM fun c hc => ?_
    rw [p.classDecl_rename (hclasses c hc)]
    exact renames_declareMembers hρ classes c (p.classDecl c)
  · exact .forM fun c _ => renames_reports (classOverrides_rename hρ ⟨members⟩ c)
  · refine Tandem.andThen (.forM fun c hc => ?_) (.forM fun f _ => ?_)
    · rw [p.classDecl_rename (hclasses c hc)]
      let env := { bodySurroundings classes functions members with current := some c }
      exact .forM fun f _ => @renames_checkFunction ρ hρ env hprint f
    · exact @renames_checkFunction ρ hρ (bodySurroundings classes functions members) hprint f

include hmain hprint

/-- Before bodies are checked, the same is reported. -/
theorem early_rename (p : Program) :
    SameUnnamed (p.early printName) ((p.relabel (.rename ρ)).early printName) := by
  obtain ⟨hclasses, hhierarchy⟩ := ClassTable.build_rename hρ p.classes
  obtain ⟨_, hfunctions⟩ := FunctionTable.build_rename hρ hprint p.functions
  have hname : ∀ f : FunctionDecl, (ρ f.name.name == mainName) = (f.name.name == mainName) := by
    intro f
    conv_lhs => rw [← hmain]
    exact hρ.beq_eq
  refine ((hhierarchy.append hfunctions).append ?_).append ?_
  · rw [Program.mainDiagnostics, Program.mainDiagnostics]
    nth_rewrite 2 [← hmain]
    rw [p.function?_rename hρ]
    cases p.function? mainName with
    | none => rfl
    | some f =>
        rw [Option.map_some]
        simp only [f.mainDiagnostics_rename]
        exact SameUnnamed.rfl
  · refine SameUnnamed.append (.flatMap fun f _ => ?_) ?_
    · rw [FunctionDecl.name_rename, hname]
      exact f.returnDiagnostics_rename _
    · rw [show (p.relabel (.rename ρ)).classes = p.classes.map (·.relabel (.rename ρ)) from rfl,
        hclasses]
      refine .flatMap fun c hc => ?_
      rw [p.classDecl_rename (ClassTable.lt_of_mem_build hc)]
      exact .flatMap fun f _ => f.returnDiagnostics_rename _

/-- The analysis of a program with other names. -/
theorem Program.analyze_rename (p : Program) :
    (p.analyze printName).Renamed ρ ((p.relabel (.rename ρ)).analyze printName) := by
  obtain ⟨hclasses, _⟩ := ClassTable.build_rename hρ p.classes
  obtain ⟨hfunctions, _⟩ := FunctionTable.build_rename hρ hprint p.functions
  have hlate : Renames ρ (·.rename ρ) (p.late printName)
      ((p.relabel (.rename ρ)).late printName) := by
    rw [Program.late, Program.late, Program.relabel, hclasses, hfunctions]
    refine renames_checkAll hρ p (fun c hc => ClassTable.lt_of_mem_build hc) ?_
    rw [FunctionTable.printName_build]
    exact hprint
  obtain ⟨hmembers, hfindings⟩ := hlate _ _
    (Findings.renamed_start (early_rename hρ hmain hprint p))
  refine ⟨hclasses, hfunctions, hmembers, hfindings.arrays, hfindings.notes, ?_⟩
  have hdiagnostics := congrArg Array.toList hfindings.diagnostics
  rw [Array.toList_map, Array.toList_map] at hdiagnostics
  exact hdiagnostics

end programs
end ObjectLang
