import Mathlib.Tactic
import ObjectLang.Proofs.Analysis.FollowPrograms
import ObjectLang.Proofs.Analysis.Visits

/-!
# The states of an analysis

What an analysis may know at any time behind the declaration of all members: it reports and notes,
and comes to array types and to written types of its program. All that is known is as it should be,
and each check of a body begins and ends with what may be known.
-/
namespace ObjectLang

open Check

namespace Program

/-- The methods of all classes of a program, and its functions. -/
def bodies (p : Program) : List FunctionDecl :=
  p.classes.flatMap ClassDecl.methods ++ p.functions

theorem written_of_mem_bodies {p : Program} {d : FunctionDecl} (h : d ∈ p.bodies) :
    d.written ⊆ p.typeExprs := by
  intro t ht
  rcases List.mem_append.1 h with h | h
  · obtain ⟨c, hc, hd⟩ := List.mem_flatMap.1 h
    exact mem_typeExprs_of_class hc (List.mem_append_right _ (List.mem_flatMap.2 ⟨d, hd, ht⟩))
  · exact mem_typeExprs_of_function h ht

/-- What the analysis of a program may know when all members are declared: more and more is
reported and noted, and the analysis comes to array types and to the types that are written in the
program, in whatever order. -/
inductive MayKnow (p : Program) (printName : String) : Findings → Prop
  | declared : MayKnow p printName ((declareAll p p.classTable).after (p.begun printName))
  | report {f : Findings} (d : Diagnostic) : MayKnow p printName f →
      MayKnow p printName ((Check.report d).after f)
  | noteType {f : Findings} (id : Nat) (type : ValueType) : MayKnow p printName f →
      MayKnow p printName ((Check.noteType id type).after f)
  | noteBinding {f : Findings} (id : Nat) (binding : Binding) : MayKnow p printName f →
      MayKnow p printName ((Check.noteBinding id binding).after f)
  | noteCall {f : Findings} (id : Nat) (target : CallTarget) : MayKnow p printName f →
      MayKnow p printName ((Check.noteCall id target).after f)
  | checkType {f : Findings} {t : TypeExpr} : t ∈ p.typeExprs → MayKnow p printName f →
      MayKnow p printName ((ObjectLang.checkType p.classTable t).after f)
  | arrayOf {f : Findings} {component : ValueType} : component.Belongs p.classTable f.arrays →
      MayKnow p printName f → MayKnow p printName ((Check.arrayOf component).after f)

variable {p : Program} {printName : String} {f : Findings}

theorem knows_declared (hp : p.ids.Nodup) :
    (∃ known, ((declareAll p p.classTable).after (p.begun printName)).Knows p
        (p.setting printName) known) ∧
      List.Forall₂ (fun c m => m.Fits p (p.setting printName)
        ((declareAll p p.classTable).after (p.begun printName)).arrays c) p.classTable.classes
        ((declareAll p p.classTable).value (p.begun printName)) := by
  have hbegun : (p.begun printName).Knows p (p.setting printName) [] := knows_empty _
  obtain ⟨hg, hmembers⟩ := follows_declareAll (a := (p.begun printName).arrays) hp rfl [] _ hbegun
    .rfl
  exact ⟨⟨_, hg.knows⟩, hmembers⟩

/-- What may be known at any time is as it should be. -/
theorem MayKnow.knows (hp : p.ids.Nodup) (h : p.MayKnow printName f) :
    (∃ known, f.Knows p (p.setting printName) known) ∧
      ((declareAll p p.classTable).after (p.begun printName)).arrays.Within f.arrays := by
  have hstep : ∀ {α β : Type} {R : ArrayTypes → α → β → Prop} {m : Check α} {v : Verdict β}
      {f : Findings}, Follows p (p.setting printName) f.arrays m v R →
      ((∃ known, f.Knows p (p.setting printName) known) ∧
        ((declareAll p p.classTable).after (p.begun printName)).arrays.Within f.arrays) →
      (∃ known, (m.after f).Knows p (p.setting printName) known) ∧
        ((declareAll p p.classTable).after (p.begun printName)).arrays.Within
          (m.after f).arrays := by
    intro α β R m v f hm hf
    obtain ⟨known, hknown⟩ := hf.1
    have hg := (hm known f hknown .rfl).1
    exact ⟨⟨_, hg.knows⟩, hf.2.trans hg.arrays⟩
  induction h with
  | declared => exact ⟨(knows_declared hp).1, .rfl⟩
  | report d _ ih => exact hstep (follows_report d) ih
  | noteType id type _ ih => exact hstep (follows_noteType id type) ih
  | noteBinding id binding _ ih => exact hstep (follows_noteBinding id binding) ih
  | noteCall id target _ ih => exact hstep (follows_noteCall id target) ih
  | checkType ht _ ih => exact hstep (follows_checkType rfl hp ht) ih
  | arrayOf hbelongs _ ih => exact hstep (follows_arrayOf ⟨hbelongs, rfl⟩) ih

end Program

/-- A part of the analysis begins and ends with what may be known. -/
def Check.Admitted {α : Type} (p : Program) (printName : String) (m : Check α) : Prop :=
  ∀ f, p.MayKnow printName f → p.MayKnow printName (m.after f)

namespace Check.Admitted

variable {α β : Type} {p : Program} {printName : String}

theorem pure (x : α) : Admitted p printName (Pure.pure x : Check α) :=
  fun _ hf => hf

theorem report (d : Diagnostic) : Admitted p printName (Check.report d) :=
  fun _ hf => .report d hf

theorem noteCall (id : Nat) (target : CallTarget) :
    Admitted p printName (Check.noteCall id target) :=
  fun _ hf => .noteCall id target hf

theorem bind {m : Check α} {k : α → Check β} (hm : Admitted p printName m)
    (hk : ∀ x, Admitted p printName (k x)) : Admitted p printName (m >>= k) :=
  fun f hf => hk (m.value f) _ (hm f hf)

theorem require (condition : Bool) (d : Diagnostic) :
    Admitted p printName (Check.require condition d) := by
  cases condition with
  | true => exact pure ()
  | false => exact report d

/-- Something is reported, and there is a result all the same. -/
theorem reporting (d : Diagnostic) (x : α) :
    Admitted p printName (do Check.report d; return x : Check α) :=
  (report d).bind fun _ => pure x

theorem binding (id : Nat) (b : Binding) (x : α) :
    Admitted p printName (do Check.noteBinding id b; return x : Check α) :=
  fun _ hf => .noteBinding id b hf

theorem noting {m : Check ValueType} (hm : Admitted p printName m) (id : Nat) :
    Admitted p printName (Check.noting id m) :=
  hm.bind fun V _ hf => .noteType id V hf

theorem elim {o : Option α} {m : Check β} {k : α → Check β} (hm : Admitted p printName m)
    (hk : ∀ x, Admitted p printName (k x)) : Admitted p printName (o.elim m k) := by
  cases o with
  | none => exact hm
  | some x => exact hk x

section lists

variable {ι : Type}

theorem mapM {k : ι → Check α} {l : List ι} (h : ∀ i ∈ l, Admitted p printName (k i)) :
    Admitted p printName (l.mapM k) := by
  induction l with
  | nil => exact pure _
  | cons i l ih =>
      rw [List.forall_mem_cons] at h
      rw [List.mapM_cons]
      exact h.1.bind fun _ => (ih h.2).bind fun _ => pure _

theorem forM {k : ι → Check PUnit} {l : List ι} (h : ∀ i ∈ l, Admitted p printName (k i)) :
    Admitted p printName (l.forM k) := by
  induction l with
  | nil => exact pure _
  | cons i l ih =>
      rw [List.forall_mem_cons] at h
      exact h.1.bind fun _ => ih h.2

theorem foldlM {k : α → ι → Check α} {l : List ι}
    (h : ∀ i ∈ l, ∀ x, Admitted p printName (k x i)) (x : α) :
    Admitted p printName (l.foldlM k x) := by
  induction l generalizing x with
  | nil => exact pure _
  | cons i l ih =>
      rw [List.forall_mem_cons] at h
      rw [List.foldlM_cons]
      exact (h.1 x).bind fun y => ih h.2 y

end lists

end Check.Admitted

/-- Bodies are checked against the classes and the functions of a program. -/
structure Surroundings.Of (p : Program) (printName : String) (env : Surroundings) : Prop where
  ids : p.ids.Nodup
  classes : env.classes = p.classTable
  functions : env.functions = (FunctionTable.build printName p.functions).1

namespace Check

variable {p : Program} {printName : String} {env : Surroundings} {scope : Scope}

theorem admitted_requireArray (found : ValueType) (span : Span) :
    Admitted p printName (requireArray found span) := by
  unfold requireArray
  split
  · exact .pure _
  · exact .pure _
  · exact .reporting _ _

theorem admitted_requireObject (found : ValueType) (span : Span) :
    Admitted p printName (requireObject found span) := by
  unfold requireObject
  split
  · exact .pure _
  · exact .pure _
  · exact .reporting _ _

theorem admitted_bindField (id : Nat) (cls : ClassRef) (name : String) (unknown : Diagnostic) :
    Admitted p printName (bindField env id cls name unknown) := by
  unfold bindField
  split
  · exact .binding _ _ _
  · exact .reporting _ _

theorem admitted_bindVariable (id : Nat) (name : Ident) :
    Admitted p printName (bindVariable env scope id name) := by
  unfold bindVariable
  simp only
  split
  · exact .binding _ _ _
  · split
    · exact admitted_bindField _ _ _ _
    · exact .reporting _ _

theorem admitted_operandOf {e : Expr} (h : Admitted p printName (checkExpr env scope e))
    (T : ValueType) (complaint : ValueType → Diagnostic) :
    Admitted p printName (operandOf env scope T e complaint) :=
  h.bind fun _ => .require _ _

theorem admitted_applied {args : List Expr}
    (h : ∀ params, Admitted p printName (checkArguments env scope args params)) (tag : Tag)
    (callee : Callee) : Admitted p printName (applied env scope tag args callee) := by
  refine Admitted.bind ?_ fun fits => Admitted.bind ?_ fun _ => (Admitted.noteCall _ _).bind
    fun _ => .pure _
  · unfold checkArity
    split_ifs
    · exact .reporting _ _
    · exact .reporting _ _
    · exact .pure _
  · cases fits with
    | true => exact h _
    | false => exact .pure _

variable (henv : env.Of p printName)
include henv

theorem admitted_checkType {t : TypeExpr} (ht : t ∈ p.typeExprs) :
    Admitted p printName (checkType env.classes t) := by
  intro f hf
  rw [henv.classes]
  exact .checkType ht hf

/-- The elements of a new array have a type that there is. -/
theorem admitted_elements {t : TypeExpr} (ht : t ∈ p.typeExprs) :
    Admitted p printName (do arrayOf (← checkType env.classes t)) := by
  intro f hf
  obtain ⟨known, hknown⟩ := (hf.knows henv.ids).1
  have hmeaning := (follows_checkType (S := p.setting printName) (a := f.arrays) rfl henv.ids ht
    known f hknown .rfl).2
  have hchecked : p.MayKnow printName ((checkType p.classTable t).after f) := .checkType ht hf
  rw [henv.classes]
  exact .arrayOf hmeaning.belongs hchecked

theorem admitted_callee? (name : Ident) : Admitted p printName (callee? env name) := by
  rw [callee?_eq]
  refine .elim ?_ fun _ => .pure _
  split
  · exact .pure _
  · next decl hdecl =>
      rw [henv.functions] at hdecl
      have hw : decl.written ⊆ p.typeExprs := fun t ht =>
        Program.mem_typeExprs_of_function (FunctionTable.mem_of_find?_build hdecl) ht
      rw [FunctionDecl.written, List.cons_subset, List.append_subset] at hw
      refine Admitted.bind ?_ fun _ => .pure _
      exact (Admitted.mapM fun d hd =>
        admitted_checkType henv (hw.2.1 (List.mem_map_of_mem hd))).bind fun _ =>
          (admitted_checkType henv hw.1).bind fun _ => .pure _
  · exact .reporting _ _

omit henv in
mutual

theorem admitted_checkExpr (henv : env.Of p printName) : ∀ e : Expr, e.written ⊆ p.typeExprs →
    Admitted p printName (checkExpr env scope e)
  | .unary _ op operand, hw => by
      rw [checkExpr_unary]
      exact ((admitted_operandOf (admitted_checkExpr henv operand hw) _ _).bind
        fun _ => .pure _).noting _
  | .binary tag op left right, hw => by
      obtain ⟨hl, hr⟩ := List.append_subset.1 hw
      by_cases hop : op = .equal
      · rw [hop, checkExpr_equal]
        exact ((admitted_checkExpr henv left hl).bind fun _ =>
          (admitted_checkExpr henv right hr).bind
          fun _ => (Admitted.require _ _).bind fun _ => .pure _).noting _
      · rw [checkExpr_binary hop]
        exact ((admitted_operandOf (admitted_checkExpr henv left hl) _ _).bind fun _ =>
          (admitted_operandOf (admitted_checkExpr henv right hr) _ _).bind fun _ =>
            .pure _).noting _
  | .number _ _, _ => by
      rw [checkExpr_number]
      exact (Admitted.pure _).noting _
  | .bool _ _, _ => by
      rw [checkExpr_bool]
      exact (Admitted.pure _).noting _
  | .null _, _ => by
      rw [checkExpr_null]
      exact (Admitted.pure _).noting _
  | .this tag, _ => by
      rw [checkExpr_this]
      cases env.current with
      | some cls => exact (Admitted.pure _).noting _
      | none => exact (Admitted.reporting _ _).noting _
  | .read _ location, hw => by
      rw [checkExpr_read]
      exact (admitted_checkLocation henv location hw).noting _
  | .arrayLength _ array, hw => by
      rw [checkExpr_arrayLength]
      exact ((admitted_checkExpr henv array hw).bind fun _ => (admitted_requireArray _ _).bind
        fun _ => .pure _).noting _
  | .newObject _ cls, _ => by
      rw [checkExpr_newObject, checkNewObject]
      refine Admitted.noting ?_ _
      split
      · exact .pure _
      · exact .reporting _ _
  | .newArray _ element size, hw => by
      obtain ⟨helement, hsize⟩ := List.cons_subset.1 hw
      rw [checkExpr_newArray]
      exact ((admitted_operandOf (admitted_checkExpr henv size hsize) _ _).bind
        fun _ => admitted_elements henv helement).noting _
  | .call tag name args, hw => by
      rw [checkExpr_call]
      refine ((admitted_callee? henv name).bind fun _ => .elim (.pure _) fun _ => ?_).noting _
      exact admitted_applied (fun params => admitted_checkArguments henv args params hw) _ _
  | .methodCall tag receiver name args, hw => by
      obtain ⟨hreceiver, hargs⟩ := List.append_subset.1 hw
      rw [checkExpr_methodCall]
      refine (Admitted.bind ((admitted_checkExpr henv receiver hreceiver).bind
        fun _ => admitted_requireObject _ _) fun _ => .elim (.pure _) fun _ => ?_).noting _
      refine .elim (.reporting _ _) fun _ => ?_
      exact admitted_applied (fun params => admitted_checkArguments henv args params hargs) _ _
termination_by structural e => e

theorem admitted_checkLocation (henv : env.Of p printName) :
    ∀ l : Location, l.written ⊆ p.typeExprs →
    Admitted p printName (checkLocation env scope l)
  | .var tag name, _ => by
      rw [checkLocation_var]
      exact (admitted_bindVariable _ _).noting _
  | .field tag receiver name, hw => by
      rw [checkLocation_field]
      exact (Admitted.bind ((admitted_checkExpr henv receiver hw).bind
        fun _ => admitted_requireObject _ _) fun _ => .elim (.pure _)
          fun _ => admitted_bindField _ _ _ _).noting _
  | .index tag array index, hw => by
      obtain ⟨harray, hindex⟩ := List.append_subset.1 hw
      rw [checkLocation_index]
      exact ((admitted_checkExpr henv array harray).bind fun _ => (admitted_requireArray _ _).bind
        fun _ => (admitted_operandOf (admitted_checkExpr henv index hindex) _ _).bind
          fun _ => .pure _).noting _
termination_by structural l => l

theorem admitted_checkArguments (henv : env.Of p printName) :
    ∀ (args : List Expr) (params : List ValueType),
    writtenInArguments args ⊆ p.typeExprs →
    Admitted p printName (checkArguments env scope args params)
  | [], _, _ => by
      unfold checkArguments
      exact .pure _
  | _ :: _, [], _ => by
      unfold checkArguments
      exact .pure _
  | arg :: args, _ :: params, hw => by
      obtain ⟨harg, hargs⟩ := List.append_subset.1 hw
      rw [checkArguments_cons]
      exact (admitted_operandOf (admitted_checkExpr henv arg harg) _ _).bind fun _ =>
        admitted_checkArguments henv args params hargs
termination_by structural args => args

end

theorem admitted_checkCondition (construct : Conditional) {e : Expr}
    (he : e.written ⊆ p.typeExprs) :
    Admitted p printName (checkCondition env scope construct e) :=
  (admitted_checkExpr henv e he).bind fun _ => .require _ _

omit henv in
mutual

theorem admitted_checkStmt (henv : env.Of p printName) :
    ∀ (s : Stmt) {scope : Scope}, s.written ⊆ p.typeExprs →
    Admitted p printName (checkStmt env scope s)
  | .declare decl, _, hw =>
      (Admitted.require _ _).bind fun _ =>
        (admitted_checkType henv (hw (List.mem_singleton_self _))).bind fun _ => .pure _
  | .eval value, _, hw => (admitted_checkExpr henv value hw).bind fun _ => .pure _
  | .assign _ target value, _, hw => by
      obtain ⟨htarget, hvalue⟩ := List.append_subset.1 hw
      exact Admitted.bind ((admitted_checkLocation henv target htarget).bind fun _ =>
        (admitted_checkExpr henv value hvalue).bind fun _ => .require _ _) fun _ => .pure _
  | .branch _ condition onTrue none, _, hw => by
      obtain ⟨hc, ht⟩ := List.append_subset.1 hw
      exact (admitted_checkCondition henv .branch hc).bind fun _ =>
        (admitted_checkStmt henv onTrue ht).bind fun _ => .pure _
  | .branch _ condition onTrue (some onFalse), _, hw => by
      obtain ⟨hc, hw⟩ := List.append_subset.1 hw
      obtain ⟨ht, hf⟩ := List.append_subset.1 hw
      exact (admitted_checkCondition henv .branch hc).bind fun _ =>
        (admitted_checkStmt henv onTrue ht).bind fun _ =>
          (admitted_checkStmt henv onFalse hf).bind fun _ => .pure _
  | .loop _ condition body, _, hw => by
      obtain ⟨hc, hbody⟩ := List.append_subset.1 hw
      exact (admitted_checkCondition henv .loop hc).bind fun _ =>
        (admitted_checkStmt henv body hbody).bind fun _ => .pure _
  | .return _ value, _, hw =>
      Admitted.bind ((admitted_checkExpr henv value hw).bind fun _ => .require _ _)
        fun _ => .pure _
  | .block _ body, _, hw => (admitted_checkBlock henv body hw).bind fun _ => .pure _
termination_by structural s => s

theorem admitted_checkBlock (henv : env.Of p printName) : ∀ (body : List Stmt) {scope : Scope},
    writtenInBody body ⊆ p.typeExprs → Admitted p printName (checkBlock env scope body)
  | [], _, _ => .pure _
  | s :: rest, _, hw => by
      obtain ⟨hs, hrest⟩ := List.append_subset.1 hw
      exact (admitted_checkStmt henv s hs).bind fun _ => admitted_checkBlock henv rest hrest
termination_by structural body => body

end

/-- The check of a function begins and ends with what may be known. -/
theorem admitted_checkFunction {d : FunctionDecl} (hw : d.written ⊆ p.typeExprs) :
    Admitted p printName (checkFunction env d) := by
  rw [FunctionDecl.written, List.cons_subset, List.append_subset] at hw
  obtain ⟨hreturn, hparams, hbody⟩ := hw
  refine (admitted_checkType henv hreturn).bind fun _ => Admitted.bind (.foldlM ?_ _)
    fun _ => admitted_checkBlock henv d.body hbody
  exact fun x hx _ => (Admitted.require _ _).bind fun _ =>
    (admitted_checkType henv (hparams (List.mem_map_of_mem hx))).bind fun _ => .pure _

end Check

end ObjectLang
