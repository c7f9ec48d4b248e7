import Mathlib.Tactic
import ObjectLang.Proofs.Analysis.Mentions
import ObjectLang.Proofs.Analysis.Reordering
import ObjectLang.Proofs.Tree.Renaming

/-!
# The order of declarations has no part in the analysis of programs

If the classes and functions of a program have different names, all that analysis says about them is
found by name. Its verdict on a class or a function is therefore the one that it was, and what is
reported in all does not depend on which of them comes first: of an undeclared class in a written
type it does not matter which part of the program comes to it first.
-/
namespace ObjectLang

namespace Setting

variable {S : Setting} {events events' : List Event}

/-- It does not matter which of two written types is come to first. -/
theorem reports_resolve_swap (t u : TypeExpr)
    (h : t.leaf.id = u.leaf.id → S.undeclared t = S.undeclared u) (known : List TypeExpr) :
    (S.reports known (.resolve t :: .resolve u :: events)).Perm
      (S.reports known (.resolve u :: .resolve t :: events)) := by
  have hrest : S.reports (u :: t :: known) events = S.reports (t :: u :: known) events := by
    refine reports_congr fun w => ?_
    rw [knows_cons, knows_cons, knows_cons, knows_cons, Bool.or_left_comm]
  simp only [reports_resolve, hrest, knows_cons]
  by_cases htu : t.leaf.id = u.leaf.id
  · -- Only the first one of the two is reported, and the same is said about both.
    have hknows : knows known t = knows known u := by rw [knows, knows, htu]
    simp only [h htu, hknows, htu, beq_self_eq_true, Bool.true_or, if_true, List.nil_append,
      List.Perm.refl]
  · rw [beq_false_of_ne htu, beq_false_of_ne (Ne.symm htu), Bool.false_or, Bool.false_or]
    exact List.perm_append_comm_assoc ..

/-- What is reported in all does not depend on the order of what happens. -/
theorem reports_perm (h : events.Perm events') (hc : S.Coherent (resolved events))
    (known : List TypeExpr) : (S.reports known events).Perm (S.reports known events') := by
  induction h generalizing known with
  | nil => exact .refl _
  | @cons e _ _ _ ih =>
      have ih := ih fun t ht u hu => hc t (mem_resolved_cons e ht) u (mem_resolved_cons e hu)
      cases e with
      | report d => exact (ih known).cons d
      | resolve t => exact (ih (t :: known)).append_left _
  | swap e e' l =>
      cases e with
      | report d =>
          cases e' with
          | report d' => exact .swap ..
          | resolve u => exact List.perm_middle
      | resolve t =>
          cases e' with
          | report d' => exact List.perm_middle.symm
          | resolve u =>
              refine reports_resolve_swap u t (hc u ?_ t ?_) known <;> simp [mem_resolved]
  | trans h _ ih ih' =>
      refine (ih hc known).trans (ih' (fun t ht u hu => hc t ?_ u ?_) known)
      · exact mem_resolved.2 (h.mem_iff.2 (mem_resolved.1 ht))
      · exact mem_resolved.2 (h.mem_iff.2 (mem_resolved.1 hu))

end Setting

section mentions

open Verdict

variable {S : Setting} {ts : List TypeExpr} {α β : Type}

theorem Verdict.Mentions.forM {k : α → Verdict PUnit} {l : List α}
    (h : ∀ x ∈ l, (k x).Mentions ts) : Mentions ts (l.forM k) := by
  intro t ht
  rw [events_forM] at ht
  obtain ⟨x, hx, ht⟩ := List.mem_flatMap.1 ht
  exact h x hx t ht

theorem Verdict.Mentions.foldlM {k : β → α → Verdict β} {l : List α}
    (h : ∀ x ∈ l, ∀ b, (k b x).Mentions ts) (b : β) : Mentions ts (l.foldlM k b) := by
  induction l generalizing b with
  | nil => exact .pure b
  | cons x l ih =>
      rw [List.forall_mem_cons] at h
      rw [List.foldlM_cons]
      exact (h.1 b).bind fun c => ih h.2 c

theorem mentions_addMember (name : α → String) (taken : α → Diagnostic) (members : List α) (x : α) :
    Mentions ts (Setting.addMember name taken members x) := by
  rw [Setting.addMember]
  split_ifs
  · exact .reporting _ _
  · exact .pure _

/-- The members of a class come to the types of its fields and of the signatures of its methods. -/
theorem mentions_members {c : ClassDecl} (hw : c.written ⊆ ts) : (S.members c).Mentions ts := by
  obtain ⟨hfields, hmethods⟩ := List.append_subset.1 hw
  refine Mentions.bind (.foldlM (fun d hd fields => ?_) []) fun _ =>
    Mentions.bind (.foldlM (fun f hf methods => ?_) []) fun _ => .pure _
  · exact (Mentions.resolve S (hfields (List.mem_map_of_mem hd))).bind fun _ =>
      mentions_addMember _ _ _ _
  · have hf : f.written ⊆ ts := fun t ht => hmethods (List.mem_flatMap.2 ⟨f, hf, ht⟩)
    rw [FunctionDecl.written, List.cons_subset, List.append_subset] at hf
    refine Mentions.bind (.mapM fun d hd => .resolve S (hf.2.1 (List.mem_map_of_mem hd)))
      fun _ => ?_
    exact (Mentions.resolve S hf.1).bind fun _ => mentions_addMember _ _ _ _

theorem mentions_function (hS : S.CallsWithin ts) {current : Option String} {f : FunctionDecl}
    (hw : f.written ⊆ ts) : (S.function current f).Mentions ts := by
  rw [FunctionDecl.written, List.cons_subset, List.append_subset] at hw
  refine (Mentions.resolve S hw.1).bind fun _ => Mentions.bind (.foldlM (fun d hd scope => ?_) _)
    fun _ => mentions_body hS f.body hw.2.2
  exact (Mentions.require _ _).bind fun _ =>
    (Mentions.resolve S (hw.2.1 (List.mem_map_of_mem hd))).bind fun _ => .pure _

theorem mentions_program (hS : S.CallsWithin ts) {classes : List ClassDecl}
    {functions : List FunctionDecl} (hc : ∀ c ∈ classes, c.written ⊆ ts)
    (hf : ∀ f ∈ functions, f.written ⊆ ts) : (S.program classes functions).Mentions ts := by
  refine Mentions.bind (.forM fun c hmem => mentions_members (hc c hmem)) fun _ =>
    Mentions.bind (.forM fun c _ => .forM fun d _ => .report d) fun _ =>
      Mentions.bind (.forM fun c hmem => .forM fun f hmem' => ?_) fun _ =>
        .forM fun f hmem => mentions_function hS (hf f hmem)
  exact mentions_function hS fun t ht =>
    hc c hmem (List.mem_append_right _ (List.mem_flatMap.2 ⟨f, hmem', ht⟩))

end mentions

/-- What happens in the classes and functions of a program happens in any order of them. -/
theorem Setting.events_program_perm (S : Setting) {classes classes' : List ClassDecl}
    {functions functions' : List FunctionDecl} (hc : classes.Perm classes')
    (hf : functions.Perm functions') :
    (S.program classes functions).events.Perm (S.program classes' functions').events := by
  simp only [Setting.program, Verdict.events_bind, Verdict.events_forM]
  exact (hc.flatMap_right _).append ((hc.flatMap_right _).append
    ((hc.flatMap_right _).append (hf.flatMap_right _)))

namespace FunctionTable

/-- Of functions of different names all are registered but one of the built-in name. -/
theorem addAll_of_nodup (decls : List FunctionDecl) (t : FunctionTable) (found : List Diagnostic)
    (hn : ((t.functions ++ decls).map (·.name.name)).Nodup) :
    addAll (t, found) decls =
      ({ t with functions := t.functions ++ decls.filter (·.name.name != t.printName) },
        found ++ (decls.filter (·.name.name == t.printName)).map fun d =>
          .duplicateFunction d.name.name d.name.span) := by
  induction decls generalizing t found with
  | nil => simp [addAll]
  | cons d decls ih =>
      rw [addAll_cons, List.filter_cons, List.filter_cons]
      by_cases hprint : d.name.name = t.printName
      · have hadd : t.add d = (t, [.duplicateFunction d.name.name d.name.span]) := by
          simp [add, find?, hprint]
        have hsub : (t.functions ++ decls).Sublist (t.functions ++ d :: decls) :=
          (List.sublist_cons_self d decls).append_left _
        rw [hadd, ih t _ (hn.sublist (hsub.map _))]
        simp [hprint]
      · have hfree : t.find? d.name.name = none := by
          refine find?_eq_none.2 ⟨hprint, fun f hf hname => ?_⟩
          rw [List.map_append, List.nodup_append'] at hn
          exact hn.2.2 (List.mem_map_of_mem hf) (by simp [hname])
        rw [add_of_free hfree, ih _ _ (by simpa using hn)]
        simp [hprint]

variable {printName : String} {decls decls' : List FunctionDecl}

theorem build_of_nodup (hn : (decls.map (·.name.name)).Nodup) :
    build printName decls = (⟨printName, decls.filter (·.name.name != printName)⟩,
      (decls.filter (·.name.name == printName)).map fun d =>
        .duplicateFunction d.name.name d.name.span) :=
  addAll_of_nodup decls ⟨printName, []⟩ [] hn

/-- What a name calls does not depend on the order of the functions. -/
theorem find?_build_perm (h : decls.Perm decls') (hn : (decls.map (·.name.name)).Nodup) :
    (build printName decls').1.find? = (build printName decls).1.find? := by
  have hn' : (decls'.map (·.name.name)).Nodup := (h.map _).nodup_iff.1 hn
  funext name
  rw [build_of_nodup hn, build_of_nodup hn', find?, find?, declared?, declared?]
  have hfind := find?_perm (h.filter (·.name.name != printName))
    (hn.sublist (List.filter_sublist.map _)) name
  rw [hfind]

theorem build_perm (h : decls.Perm decls') (hn : (decls.map (·.name.name)).Nodup) :
    (build printName decls).2.Perm (build printName decls').2 := by
  have hn' : (decls'.map (·.name.name)).Nodup := (h.map _).nodup_iff.1 hn
  rw [build_of_nodup hn, build_of_nodup hn']
  exact (h.filter _).map _

end FunctionTable

namespace Program

/-- Two programs have the same classes and functions in some order, all of different names. -/
structure Reordered (p p' : Program) : Prop where
  classes : p.classes.Perm p'.classes
  functions : p.functions.Perm p'.functions
  classNames : (p.classes.map (·.name.name)).Nodup
  functionNames : (p.functions.map (·.name.name)).Nodup

/-- All classes of different names are accepted. -/
theorem acceptedClasses_eq {p : Program} (hn : (p.classes.map (·.name.name)).Nodup) :
    p.acceptedClasses = p.classes := by
  rw [acceptedClasses_eq_accepted, ClassTable.accepted_eq hn, List.zipIdx_map_fst]

namespace Reordered

variable {p p' : Program} {printName : String} (h : p.Reordered p')
include h

theorem symm : p'.Reordered p where
  classes := h.classes.symm
  functions := h.functions.symm
  classNames := (h.classes.map _).nodup_iff.1 h.classNames
  functionNames := (h.functions.map _).nodup_iff.1 h.functionNames

theorem class?_eq (name : String) : p'.class? name = p.class? name :=
  (find?_perm h.classes h.classNames name).symm

theorem function?_eq (name : String) : p'.function? name = p.function? name :=
  (find?_perm h.functions h.functionNames name).symm

theorem ancestors?_eq : p'.ancestors? = p.ancestors? := by
  obtain ⟨σ, hσ⟩ := ClassTable.exists_moved h.classNames h.classes
  funext name
  exact Option.ext fun _ => ⟨hσ.symm.find?_build, hσ.find?_build⟩

theorem upwards?_eq {α : Type} (cls : String) (own? : ClassDecl → Option α) :
    p'.upwards? cls own? = p.upwards? cls own? := by
  simp only [upwards?, h.ancestors?_eq, h.class?_eq]

theorem setting_eq : p'.setting printName = p.setting printName := by
  simp only [setting, h.ancestors?_eq, h.upwards?_eq,
    FunctionTable.find?_build_perm h.functions h.functionNames]

theorem returnDiagnostics_perm :
    (p.returnDiagnostics p.classTable).Perm (p'.returnDiagnostics p'.classTable) := by
  have hmethods : ∀ q : Program, q.returnDiagnostics q.classTable =
      q.functions.flatMap (fun f => f.returnDiagnostics (f.name.name == mainName)) ++
        q.acceptedClasses.flatMap fun c => c.methods.flatMap (·.returnDiagnostics false) := by
    intro q
    rw [acceptedClasses, List.flatMap_map]
    rfl
  rw [hmethods, hmethods, acceptedClasses_eq h.classNames, acceptedClasses_eq h.symm.classNames]
  exact (h.functions.flatMap_right _).append (h.classes.flatMap_right _)

theorem sameReports_early : SameReports (p.early printName) (p'.early printName) := by
  obtain ⟨σ, hσ⟩ := ClassTable.exists_moved h.classNames h.classes
  have hmain : p'.mainDiagnostics = p.mainDiagnostics := by
    rw [mainDiagnostics, mainDiagnostics, h.function?_eq]
  rw [early, early, hmain]
  refine ((hσ.sameReports.append (.of_perm ?_)).append (.of_perm (.refl _))).append (.of_perm ?_)
  · exact FunctionTable.build_perm h.functions h.functionNames
  · exact h.returnDiagnostics_perm

theorem ids_perm : p.ids.Perm p'.ids :=
  (h.classes.flatMap_right _).append (h.functions.flatMap_right _)

/-- Analysis says the same about both programs. -/
theorem sameReports (hp : p.ids.Nodup) : SameReports (p.analyze printName).diagnostics
    (p'.analyze printName).diagnostics := by
  rw [(p.judged hp printName).diagnostics,
    (p'.judged (h.ids_perm.nodup_iff.1 hp) printName).diagnostics, h.setting_eq]
  refine h.sameReports_early.append (.of_perm (Setting.reports_perm ?_ ?_ _))
  · rw [events, events, h.setting_eq, acceptedClasses_eq h.classNames,
      acceptedClasses_eq h.symm.classNames]
    exact Setting.events_program_perm _ h.classes h.functions
  · refine coherent_of_mentions hp
      (mentions_program callsWithin_setting (fun c hc => ?_) fun f hf =>
      fun t ht => mem_typeExprs_of_function hf ht)
    rw [acceptedClasses_eq h.classNames] at hc
    exact fun t ht => mem_typeExprs_of_class hc ht

end Reordered

end Program
end ObjectLang
