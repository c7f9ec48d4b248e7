import Mathlib.Tactic
import ObjectLang.Proofs.Analysis.Cycles
import ObjectLang.Proofs.Analysis.FollowPrograms
import ObjectLang.Proofs.Analysis.Sites

/-!
# The sites of early diagnostics

What is reported before members and bodies are checked is about the hierarchy, the names of
functions, the start and the returns. The same function can be reported for its name, as the start
of the program and for its returns, and the name of a class for its place in the hierarchy; these
are concerns of their own, so that each site is still met at most once.
-/
namespace ObjectLang

open Phrase (sitesAt earlyConcerns sitesAt_append sitesAt_cons sitesAt_le_of_sublist)

/-- How often a site is one of what a node can have wrong before bodies are looked at. -/
def Phrase.ownEarlyAt (n : Phrase) (x : Site) : Nat :=
  (n.earlyConcerns.map fun c => c.at n.span x).sum

/-- How often a site is one of what nodes can have wrong before bodies are looked at. -/
def earlyAt (x : Site) (ns : List Phrase) : Nat :=
  sitesAt earlyConcerns x ns

section nodes

variable (x : Site) (ns ms : List Phrase)

theorem earlyAt_append : earlyAt x (ns ++ ms) = earlyAt x ns + earlyAt x ms :=
  sitesAt_append

theorem earlyAt_cons (n : Phrase) : earlyAt x (n :: ns) = n.ownEarlyAt x + earlyAt x ns :=
  sitesAt_cons

theorem ownEarlyAt_name (name : Ident) : (Phrase.name name).ownEarlyAt x =
    Concern.hierarchy.at name.span x + Concern.superclass.at name.span x +
      Concern.function.at name.span x + Concern.startEnding.at name.span x +
        Concern.ending.at name.span x := by
  simp only [Phrase.ownEarlyAt, earlyConcerns, List.map_cons, List.sum_cons, List.map_nil,
    List.sum_nil, Phrase.span]
  omega

theorem ownEarlyAt_type (t : TypeExpr) :
    (Phrase.type t).ownEarlyAt x = Concern.startResult.at t.span x :=
  rfl

theorem ownEarlyAt_param (d : VarDecl) :
    (Phrase.param d).ownEarlyAt x = Concern.startParameters.at d.span x :=
  rfl

theorem ownEarlyAt_stmt (s : Stmt) : (Phrase.stmt s).ownEarlyAt x = Concern.reached.at s.span x :=
  rfl

theorem earlyAt_flatMap {α : Type} (k : α → List Phrase) (l : List α) :
    earlyAt x (l.flatMap k) = (l.map fun a => earlyAt x (k a)).sum :=
  Phrase.sitesAt_flatMap

end nodes

section returns

variable (x : Site)

mutual

/-- Each statement inside of a statement is reported as unreachable at most once. -/
theorem Stmt.count_unreachable : ∀ s : Stmt,
    (s.unreachable.map Diagnostic.site).count x ≤ earlyAt x s.inside
  | .declare _ | .eval _ | .assign _ _ _ | .loop _ _ _ | .return _ _ => Nat.zero_le _
  | .branch _ _ onTrue none => by
      have := Stmt.count_unreachable onTrue
      rw [Stmt.unreachable, Stmt.inside, earlyAt_cons, earlyAt_append, earlyAt_cons]
      omega
  | .branch _ _ onTrue (some onFalse) => by
      have := Stmt.count_unreachable onTrue
      have := Stmt.count_unreachable onFalse
      rw [Stmt.unreachable, count_map_append, Stmt.inside, earlyAt_cons, earlyAt_append,
        earlyAt_cons, earlyAt_append, earlyAt_cons]
      omega
  | .block _ body => by
      have := count_unreachableIn false body
      rw [Stmt.unreachable, Stmt.inside, earlyAt_cons]
      omega
termination_by structural s => s

theorem count_unreachableIn (returned : Bool) : ∀ body : List Stmt,
    ((unreachableIn returned body).map Diagnostic.site).count x ≤ earlyAt x (insideBody body)
  | [] => Nat.zero_le _
  | s :: rest => by
      have := Stmt.count_unreachable s
      have := count_unreachableIn (returned || s.isReturn) rest
      have hhead : ((if returned then [Diagnostic.unreachableStatement s.span] else []).map
          Diagnostic.site).count x ≤ (Phrase.stmt s).ownEarlyAt x := by
        rw [ownEarlyAt_stmt]
        cases returned with
        | true => exact Nat.le_refl _
        | false => exact Nat.zero_le _
      rw [unreachableIn, count_map_append, count_map_append, insideBody, earlyAt_cons,
        earlyAt_append]
      omega
termination_by structural body => body

end

namespace FunctionDecl

/-- The returns of a function, its name, and the function as the start of the program have
different sites. -/
theorem count_early (f : FunctionDecl) (isMain : Bool) :
    ((f.returnDiagnostics isMain).map Diagnostic.site).count x +
      (f.mainDiagnostics.map Diagnostic.site).count x + Concern.function.at f.name.span x ≤
        earlyAt x f.inside := by
  have := count_unreachableIn x false f.body
  have hending : ((if isMain || endsWithReturn f.body then []
      else [Diagnostic.missingReturn f.name.name f.name.span]).map Diagnostic.site).count x ≤
        Concern.ending.at f.name.span x := count_unless x _ _
  have hstartEnding : ((if endsWithReturn f.body then []
      else [Diagnostic.mainMissingReturn f.name.span]).map Diagnostic.site).count x ≤
        Concern.startEnding.at f.name.span x := count_unless x _ _
  have hresult : ((if f.returnsInt then []
      else [Diagnostic.mainReturnType f.returnType.span]).map Diagnostic.site).count x ≤
        Concern.startResult.at f.returnType.span x := count_unless x _ _
  have hparams : ((f.params.head?.toList.map fun d => Diagnostic.mainParameters d.span).map
      Diagnostic.site).count x ≤ earlyAt x (f.params.flatMap fun d => .param d :: d.inside) := by
    cases f.params with
    | nil => exact Nat.zero_le _
    | cons d ds =>
        rw [List.flatMap_cons, List.cons_append, earlyAt_cons, ownEarlyAt_param]
        exact Nat.le_add_right _ _
  rw [returnDiagnostics, mainDiagnostics, count_map_append, count_map_append, count_map_append,
    inside, earlyAt_cons, ownEarlyAt_type, earlyAt_append, earlyAt_cons, ownEarlyAt_name,
    earlyAt_append, earlyAt_cons]
  omega

end FunctionDecl

/-- The name of a function is reported as taken at most once. -/
theorem FunctionTable.count_build (printName : String) (fs : List FunctionDecl) :
    ((build printName fs).2.map Diagnostic.site).count x ≤
      (fs.map fun f => Concern.function.at f.name.span x).sum := by
  have hadd : ∀ (t : FunctionTable) (found : List Diagnostic),
      ((addAll (t, found) fs).2.map Diagnostic.site).count x ≤
        (found.map Diagnostic.site).count x +
          (fs.map fun f => Concern.function.at f.name.span x).sum := by
    induction fs with
    | nil => exact fun _ _ => Nat.le_refl _
    | cons f fs ih =>
        intro t found
        have := ih (t.add f).1 (found ++ (t.add f).2)
        have hhead : ((t.add f).2.map Diagnostic.site).count x ≤
            Concern.function.at f.name.span x := by
          rw [add]
          split_ifs
          · exact Nat.le_refl _
          · exact Nat.zero_le _
        rw [count_map_append] at this
        rw [addAll_cons, List.map_cons, List.sum_cons]
        omega
  exact (hadd ⟨printName, []⟩ []).trans (Nat.zero_add _).le

end returns

section classes

variable {decls : List ClassDecl} (x : Site)

/-- How often a site is one of a class for its place in the hierarchy. -/
def ClassDecl.hierarchyAt (c : ClassDecl) : Nat :=
  Concern.hierarchy.at c.name.span x +
    (c.superclass.toList.map fun s => Concern.superclass.at s.span x).sum

/-- Different positions in a list count no more than the whole list. -/
theorem sum_positions_le {α : Type} {about : List Nat} (l : List α) (count : α → Nat)
    (hnodup : about.Nodup) (hlt : ∀ i ∈ about, i < l.length) :
    (about.map fun i => l[i]?.elim 0 count).sum ≤ (l.map count).sum := by
  have hsubset : about ⊆ List.range l.length := fun i hi => List.mem_range.2 (hlt i hi)
  obtain ⟨sorted, hperm, hsublist⟩ := hnodup.subperm hsubset
  have hrange : (List.range l.length).map (fun i => l[i]?.elim 0 count) = l.map count := by
    refine List.ext_getElem (by simp) fun i _ hi => ?_
    rw [List.length_map] at hi
    simp [hi]
  rw [← hrange, ← (hperm.map _).sum_eq]
  exact (hsublist.map _).sum_le_sum fun _ _ => Nat.zero_le _

namespace ClassTable

theorem Complaint.count_le {i : Nat} {d : Diagnostic} (h : Complaint decls i d) :
    i < decls.length ∧ [d.site].count x ≤ decls[i]?.elim 0 (ClassDecl.hierarchyAt x) := by
  cases h with
  | duplicate hd _ =>
      rw [hd]
      exact ⟨(List.getElem?_eq_some_iff.1 hd).1, Nat.le_add_right _ _⟩
  | undeclared hd _ hs _ =>
      rw [hd]
      refine ⟨(List.getElem?_eq_some_iff.1 hd).1, ?_⟩
      rw [Option.elim_some, ClassDecl.hierarchyAt, hs]
      exact Nat.le_add_left _ _
  | cyclic hd _ _ =>
      rw [hd]
      exact ⟨(List.getElem?_eq_some_iff.1 hd).1, Nat.le_add_right _ _⟩

theorem count_complaints {about : List Nat} {found : List Diagnostic}
    (h : List.Forall₂ (Complaint decls) about found) : (∀ i ∈ about, i < decls.length) ∧
      (found.map Diagnostic.site).count x ≤
        (about.map fun i => decls[i]?.elim 0 (ClassDecl.hierarchyAt x)).sum := by
  induction h with
  | nil => exact ⟨List.forall_mem_nil _, Nat.le_refl _⟩
  | cons hd _ ih =>
      obtain ⟨hlt, hle⟩ := hd.count_le x
      refine ⟨List.forall_mem_cons.2 ⟨hlt, ih.1⟩, ?_⟩
      rw [List.map_cons, ← List.singleton_append, List.count_append]
      exact Nat.add_le_add hle ih.2

/-- The hierarchy is reported at most once for each class. -/
theorem count_build (decls : List ClassDecl) : ((build decls).2.map Diagnostic.site).count x ≤
    (decls.map (ClassDecl.hierarchyAt x)).sum := by
  obtain ⟨about, hnodup, hfound, _⟩ := found_build decls
  obtain ⟨hlt, hle⟩ := count_complaints x hfound
  exact hle.trans (sum_positions_le decls (ClassDecl.hierarchyAt x) hnodup hlt)

end ClassTable

/-- The hierarchy and the returns of methods have different sites. -/
theorem ClassDecl.count_early (c : ClassDecl) : c.hierarchyAt x +
    ((c.methods.flatMap fun f => f.returnDiagnostics false).map Diagnostic.site).count x ≤
      earlyAt x c.inside := by
  have hsuperclass : (c.superclass.toList.map fun s => Concern.superclass.at s.span x).sum ≤
      earlyAt x (c.superclass.toList.map Phrase.name) := by
    cases c.superclass with
    | none => exact Nat.zero_le _
    | some s =>
        simp only [Option.toList_some, List.map_cons, List.map_nil, List.sum_cons, List.sum_nil]
        rw [earlyAt_cons, ownEarlyAt_name]
        omega
  have hmethods :
      ((c.methods.flatMap fun f => f.returnDiagnostics false).map Diagnostic.site).count x ≤
        earlyAt x (c.methods.flatMap fun f => .function f :: f.inside) := by
    rw [count_flatMap, earlyAt_flatMap]
    refine List.sum_le_sum fun f _ => ?_
    have := f.count_early x false
    rw [earlyAt_cons]
    omega
  rw [hierarchyAt, inside, earlyAt_cons, ownEarlyAt_name, earlyAt_append, earlyAt_append]
  omega

end classes

namespace Program

variable (p : Program) (x : Site)

/-- The start of a program is reported at one function, or nowhere. -/
theorem count_mainDiagnostics : (p.mainDiagnostics.map Diagnostic.site).count x ≤
    [(Concern.start, none)].count x +
      (p.functions.map fun f => (f.mainDiagnostics.map Diagnostic.site).count x).sum := by
  unfold mainDiagnostics
  split
  · next f hf =>
    have hmem : f ∈ p.functions := List.mem_of_find?_eq_some hf
    have hle : (f.mainDiagnostics.map Diagnostic.site).count x ≤
        (p.functions.map fun f => (f.mainDiagnostics.map Diagnostic.site).count x).sum :=
      List.single_le_sum (fun _ _ => Nat.zero_le _) _ (List.mem_map.2 ⟨f, hmem, rfl⟩)
    exact hle.trans (Nat.le_add_left ..)
  · exact Nat.le_add_right _ _

/-- What is reported before members and bodies are checked stands at different sites. -/
theorem count_early (printName : String) : ((p.early printName).map Diagnostic.site).count x ≤
    [(Concern.start, none)].count x + earlyAt x p.nodes := by
  have hclasses : (p.classes.map (ClassDecl.hierarchyAt x)).sum +
      ((p.acceptedClasses.flatMap fun c => c.methods.flatMap fun f =>
        f.returnDiagnostics false).map Diagnostic.site).count x ≤
          earlyAt x (p.classes.flatMap fun c => Phrase.nodes (.cls c)) := by
    have hall := (p.acceptedClasses_sublist.flatMap fun c => (c.methods.flatMap fun f =>
      f.returnDiagnostics false)).map Diagnostic.site |>.count_le x
    refine (Nat.add_le_add_left hall _).trans ?_
    rw [count_flatMap, earlyAt_flatMap, ← List.sum_map_add]
    refine List.sum_le_sum fun c _ => (c.count_early x).trans ?_
    rw [Phrase.nodes, earlyAt_cons]
    exact Nat.le_add_left ..
  have hfunctions : ((p.functions.flatMap fun f => f.returnDiagnostics
      (f.name.name == mainName)).map Diagnostic.site).count x +
        (p.functions.map fun f => (f.mainDiagnostics.map Diagnostic.site).count x).sum +
          (p.functions.map fun f => Concern.function.at f.name.span x).sum ≤
            earlyAt x (p.functions.flatMap fun f => Phrase.nodes (.function f)) := by
    rw [count_flatMap, earlyAt_flatMap, ← List.sum_map_add, ← List.sum_map_add]
    refine List.sum_le_sum fun f _ => (f.count_early x _).trans ?_
    rw [Phrase.nodes, earlyAt_cons]
    exact Nat.le_add_left ..
  have := ClassTable.count_build x p.classes
  have := FunctionTable.count_build x printName p.functions
  have := p.count_mainDiagnostics x
  have hreturns : p.returnDiagnostics (ClassTable.build p.classes).1 =
      (p.functions.flatMap fun f => f.returnDiagnostics (f.name.name == mainName)) ++
        p.acceptedClasses.flatMap fun c => c.methods.flatMap fun f =>
          f.returnDiagnostics false := by
    rw [returnDiagnostics, acceptedClasses, List.flatMap_map]
    rfl
  rw [early, count_map_append, count_map_append, count_map_append, hreturns, count_map_append,
    nodes, earlyAt_append]
  omega

end Program

end ObjectLang
