import Mathlib.Tactic
import ObjectLang.Analysis.Basic
import ObjectLang.Proofs.Typing.Rules

/-!
# The early rules

What is reported before any body is checked: functions of one name, a missing or unusual start, and
returns that are missing or in the wrong place. Nothing is reported exactly if the rules are kept.
-/
namespace ObjectLang

namespace FunctionTable

/-- Adding one function after the other, as the table is built. -/
def addAll (t : FunctionTable × List Diagnostic) (decls : List FunctionDecl) :
    FunctionTable × List Diagnostic :=
  decls.foldl
    (fun (t, found) decl =>
      let (t, more) := t.add decl
      (t, found ++ more))
    t

theorem addAll_cons (t : FunctionTable) (found : List Diagnostic) (d : FunctionDecl)
    (decls : List FunctionDecl) : addAll (t, found) (d :: decls) =
      addAll ((t.add d).1, found ++ (t.add d).2) decls :=
  rfl

/-- A name is free if it is not the built-in one and no function has it. -/
theorem find?_eq_none {t : FunctionTable} {name : String} : t.find? name = none ↔
    name ≠ t.printName ∧ ∀ f ∈ t.functions, f.name.name ≠ name := by
  unfold find? declared?
  split_ifs with h
  · simp_all
  · simp_all

theorem add_eq {t : FunctionTable} {d : FunctionDecl} (h : (t.add d).2 = []) :
    t.find? d.name.name = none ∧ (t.add d).1 = { t with functions := t.functions ++ [d] } := by
  unfold add at h ⊢
  split_ifs at h ⊢ with hd
  exact ⟨by simpa using hd, rfl⟩

theorem add_of_free {t : FunctionTable} {d : FunctionDecl} (h : t.find? d.name.name = none) :
    t.add d = ({ t with functions := t.functions ++ [d] }, []) := by
  simp [add, h]

theorem mem_addAll {t : FunctionTable} {found : List Diagnostic} {decls : List FunctionDecl}
    {d : Diagnostic} (h : d ∈ found) : d ∈ (addAll (t, found) decls).2 := by
  induction decls generalizing t found with
  | nil => exact h
  | cons f decls ih => exact ih (List.mem_append_left _ h)

/-- All functions are registered, in order, exactly if their names are free. -/
theorem addAll_eq_nil (t : FunctionTable) (decls : List FunctionDecl)
    (ht : (t.functions.map (·.name.name)).Nodup ∧ ∀ f ∈ t.functions, f.name.name ≠ t.printName) :
    (addAll (t, []) decls).2 = [] ↔
      ((t.functions ++ decls).map (·.name.name)).Nodup ∧
        ∀ f ∈ t.functions ++ decls, f.name.name ≠ t.printName := by
  induction decls generalizing t with
  | nil =>
      rw [List.append_nil]
      exact iff_of_true rfl ht
  | cons d decls ih =>
      have happend : t.functions ++ d :: decls = (t.functions ++ [d]) ++ decls := by simp
      by_cases hd : t.find? d.name.name = none
      · have hfree := find?_eq_none.1 hd
        rw [addAll_cons, add_of_free hd, List.append_nil, happend]
        refine ih { t with functions := t.functions ++ [d] } ⟨?_, ?_⟩
        · rw [List.map_append, List.nodup_append']
          refine ⟨ht.1, List.nodup_singleton _, ?_⟩
          intro name hname hd'
          obtain ⟨f, hf, rfl⟩ := List.mem_map.1 hname
          exact hfree.2 f hf (by simpa using hd')
        · intro f hf
          rcases List.mem_append.1 hf with hf | hf
          · exact ht.2 f hf
          · rw [List.mem_singleton.1 hf]
            exact hfree.1
      · constructor
        · intro h
          have hmem : Diagnostic.duplicateFunction d.name.name d.name.span ∈
              (addAll (t, []) (d :: decls)).2 := by
            rw [addAll_cons]
            apply mem_addAll
            simp [add, Option.isSome_iff_ne_none.2 hd]
          rw [h] at hmem
          cases hmem
        · rintro ⟨hnames, hprint⟩
          refine (hd (find?_eq_none.2 ⟨?_, ?_⟩)).elim
          · exact hprint d (by simp)
          · intro f hf heq
            rw [List.map_append, List.nodup_append'] at hnames
            exact hnames.2.2 (List.mem_map_of_mem hf) (by simp [heq])

theorem addAll_functions (t : FunctionTable) (decls : List FunctionDecl)
    (h : (addAll (t, []) decls).2 = []) :
    (addAll (t, []) decls).1 = { t with functions := t.functions ++ decls } := by
  induction decls generalizing t with
  | nil => simp [addAll]
  | cons d decls ih =>
      have hd : (t.add d).2 = [] := by
        by_contra hne
        obtain ⟨x, hx⟩ := List.exists_mem_of_ne_nil _ hne
        have hmem : x ∈ (addAll (t, []) (d :: decls)).2 := by
          rw [addAll_cons]
          exact mem_addAll (List.mem_append_right _ hx)
        rw [h] at hmem
        cases hmem
      rw [addAll_cons, hd] at h ⊢
      rw [List.append_nil, (add_eq hd).2] at h ⊢
      rw [ih _ h]
      simp

theorem build_eq_nil {printName : String} {decls : List FunctionDecl} :
    (build printName decls).2 = [] ↔
      (decls.map (·.name.name)).Nodup ∧ ∀ f ∈ decls, f.name.name ≠ printName :=
  addAll_eq_nil ⟨printName, []⟩ decls (by simp)

theorem build_eq {printName : String} {decls : List FunctionDecl}
    (h : (build printName decls).2 = []) : (build printName decls).1 = ⟨printName, decls⟩ :=
  addAll_functions ⟨printName, []⟩ decls h

end FunctionTable

theorem unreachableIn_true {body : List Stmt} : unreachableIn true body = [] ↔ body = [] := by
  cases body <;> simp [unreachableIn]

mutual

theorem Stmt.unreachable_eq_nil : ∀ {s : Stmt}, s.unreachable = [] ↔ s.Tidy
  | .declare _ => ⟨fun _ => .declare, fun _ => rfl⟩
  | .eval _ => ⟨fun _ => .eval, fun _ => rfl⟩
  | .assign _ _ _ => ⟨fun _ => .assign, fun _ => rfl⟩
  | .loop _ _ _ => ⟨fun _ => .loop, fun _ => rfl⟩
  | .return _ _ => ⟨fun _ => .return, fun _ => rfl⟩
  | .branch _ _ s none => by
      rw [Stmt.unreachable, Stmt.unreachable_eq_nil]
      exact ⟨.branch, fun h => by cases h; assumption⟩
  | .branch _ _ s (some s') => by
      rw [Stmt.unreachable, List.append_eq_nil_iff, Stmt.unreachable_eq_nil,
        Stmt.unreachable_eq_nil]
      exact ⟨fun h => .branchElse h.1 h.2, fun h => by cases h; exact ⟨‹_›, ‹_›⟩⟩
  | .block _ body => by
      rw [Stmt.unreachable, unreachableIn_eq_nil]
      exact ⟨.block, fun h => by cases h; assumption⟩
termination_by structural s => s

/-- Nothing is reported as unreachable exactly if no statement stands behind a `return`. -/
theorem unreachableIn_eq_nil : ∀ {body : List Stmt}, unreachableIn false body = [] ↔ BodyTidy body
  | [] => ⟨fun _ => .nil, fun _ => rfl⟩
  | s :: rest => by
      simp only [unreachableIn, Bool.false_eq_true, if_false, List.nil_append, Bool.false_or,
        List.append_eq_nil_iff]
      rw [Stmt.unreachable_eq_nil]
      cases hs : s.isReturn with
      | false =>
          rw [unreachableIn_eq_nil]
          constructor
          · rintro ⟨h, h'⟩
            exact .cons (by simp [hs]) h h'
          · intro h
            cases h with
            | last h => exact ⟨h, .nil⟩
            | cons _ h h' => exact ⟨h, h'⟩
      | true =>
          rw [unreachableIn_true]
          constructor
          · rintro ⟨h, rfl⟩
            exact .last h
          · intro h
            cases h with
            | last h => exact ⟨h, rfl⟩
            | cons hr _ _ => exact (hr hs).elim
termination_by structural body => body

end

theorem Stmt.isReturn_iff {s : Stmt} : s.isReturn = true ↔ ∃ span e, s = .return span e := by
  cases s <;> simp [isReturn]

theorem endsWithReturn_iff {body : List Stmt} :
    endsWithReturn body = true ↔ ∃ init span e, body = init ++ [.return span e] := by
  rw [endsWithReturn, Option.any_eq_true]
  constructor
  · rintro ⟨s, hs, hr⟩
    obtain ⟨span, e, rfl⟩ := Stmt.isReturn_iff.1 hr
    obtain ⟨init, rfl⟩ := List.getLast?_eq_some_iff.1 hs
    exact ⟨init, span, e, rfl⟩
  · rintro ⟨init, span, e, rfl⟩
    exact ⟨_, List.getLast?_concat, rfl⟩

namespace FunctionDecl

/-- The rules on returning that a function keeps. -/
def Returns (f : FunctionDecl) : Prop :=
  (∃ init span e, f.body = init ++ [.return span e]) ∧ BodyTidy f.body

theorem returnDiagnostics_eq_nil {f : FunctionDecl} {isMain : Bool} :
    f.returnDiagnostics isMain = [] ↔ BodyTidy f.body ∧
      (isMain = false → ∃ init span e, f.body = init ++ [.return span e]) := by
  rw [returnDiagnostics, List.append_eq_nil_iff, unreachableIn_eq_nil, ← endsWithReturn_iff]
  cases isMain <;> simp

theorem mainDiagnostics_eq_nil {f : FunctionDecl} : f.mainDiagnostics = [] ↔
    f.returnType.plain = .int ∧ f.params = [] ∧
      ∃ init span e, f.body = init ++ [.return span e] := by
  rw [mainDiagnostics, List.append_eq_nil_iff, List.append_eq_nil_iff, ← endsWithReturn_iff,
    and_assoc]
  have hint : f.returnsInt = true ↔ f.returnType.plain = .int := by
    cases h : f.returnType <;> simp [returnsInt, TypeExpr.plain, h]
  have hparams : (f.params.head?.toList.map fun p => Diagnostic.mainParameters p.span) = [] ↔
      f.params = [] := by
    cases f.params <;> simp
  rw [hparams]
  by_cases h : f.returnsInt <;> simp [h, hint.symm]

end FunctionDecl

/-- The rules on returning and on the start of a program are kept exactly if nothing is reported
of them. -/
theorem Program.returns_iff {p : Program} (hnames : (p.functions.map (·.name.name)).Nodup)
    {classes : ClassTable} (hclasses : classes.classes.map p.classDecl = p.classes) :
    p.mainDiagnostics ++ p.returnDiagnostics classes = [] ↔
      (∃ f ∈ p.functions, f.name.name = mainName ∧ f.returnType.plain = .int ∧ f.params = []) ∧
        (∀ f ∈ p.functions, f.Returns) ∧ ∀ c ∈ p.classes, ∀ f ∈ c.methods, f.Returns := by
  have hmain : p.mainDiagnostics = [] ↔ ∃ f ∈ p.functions, f.name.name = mainName ∧
      f.returnType.plain = .int ∧ f.params = [] ∧
        ∃ init span e, f.body = init ++ [.return span e] := by
    unfold Program.mainDiagnostics Program.function?
    cases hf : p.functions.find? (·.name.name == mainName) with
    | none =>
        simp only [List.find?_eq_none, beq_iff_eq] at hf
        simp only [List.cons_ne_nil, false_iff]
        rintro ⟨f, hmem, hname, _⟩
        exact hf f hmem hname
    | some f =>
        have hmem := List.mem_of_find?_eq_some hf
        have hname : f.name.name = mainName := by simpa using List.find?_some hf
        rw [FunctionDecl.mainDiagnostics_eq_nil]
        constructor
        · exact fun h => ⟨f, hmem, hname, h⟩
        · rintro ⟨g, hg, hname', h⟩
          rwa [← List.inj_on_of_nodup_map hnames hg hmem (hname'.trans hname.symm)]
  have hfunctions : p.returnDiagnostics classes = [] ↔
      (∀ f ∈ p.functions, BodyTidy f.body ∧ ((f.name.name == mainName) = false →
        ∃ init span e, f.body = init ++ [.return span e])) ∧
      ∀ c ∈ p.classes, ∀ f ∈ c.methods, f.Returns := by
    rw [Program.returnDiagnostics, List.append_eq_nil_iff, List.flatMap_eq_nil_iff,
      List.flatMap_eq_nil_iff, ← hclasses]
    simp only [List.flatMap_eq_nil_iff, FunctionDecl.returnDiagnostics_eq_nil, List.forall_mem_map,
      FunctionDecl.Returns, forall_const, and_comm]
  rw [List.append_eq_nil_iff, hmain, hfunctions]
  constructor
  · rintro ⟨⟨f, hf, hname, ht, hp, hr⟩, htidy, hmethods⟩
    refine ⟨⟨f, hf, hname, ht, hp⟩, fun g hg => ⟨?_, (htidy g hg).1⟩, hmethods⟩
    by_cases hgm : g.name.name = mainName
    · rwa [List.inj_on_of_nodup_map hnames hg hf (hgm.trans hname.symm)]
    · exact (htidy g hg).2 (by simpa using hgm)
  · rintro ⟨⟨f, hf, hname, ht, hp⟩, hr, hmethods⟩
    exact ⟨⟨f, hf, hname, ht, hp, (hr f hf).1⟩, fun g hg => ⟨(hr g hg).2, fun _ => (hr g hg).1⟩,
      hmethods⟩

end ObjectLang
