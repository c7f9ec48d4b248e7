import Mathlib.Tactic
import ObjectLang.Proofs.Analysis.Absorption
import ObjectLang.Proofs.Analysis.FollowPrograms

/-!
# The written types that a verdict comes to

A part of a program comes to the types that are written in it and to those in the signatures of the
functions that it calls, all of them types of the program. Written types that share a leaf are
therefore undeclared together.
-/
namespace ObjectLang

/-- A verdict comes to no written types but some. -/
def Verdict.Mentions {α : Type} (ts : List TypeExpr) (v : Verdict α) : Prop :=
  ∀ t, .resolve t ∈ v.events → t ∈ ts

namespace Verdict.Mentions

variable {α β : Type} {ts : List TypeExpr}

theorem pure (x : α) : Mentions ts (Pure.pure x : Verdict α) := by
  intro t ht
  cases ht

theorem report (d : Diagnostic) : Mentions ts (Verdict.report d) := by
  intro t ht
  cases List.mem_singleton.1 ht

theorem bind {v : Verdict α} {k : α → Verdict β} (h : v.Mentions ts)
    (hk : ∀ x, (k x).Mentions ts) : (v >>= k).Mentions ts := by
  intro t ht
  rw [events_bind, List.mem_append] at ht
  exact ht.elim (h t) (hk _ t)

theorem require (condition : Bool) (d : Diagnostic) :
    Mentions ts (Verdict.require condition d) := by
  cases condition with
  | true => exact pure ()
  | false => exact report d

/-- Something is reported, and there is a result all the same. -/
theorem reporting (d : Diagnostic) (x : α) :
    Mentions ts (do Verdict.report d; return x : Verdict α) :=
  (report d).bind fun _ => pure x

theorem elim {o : Option α} {v : Verdict β} {k : α → Verdict β} (hv : v.Mentions ts)
    (hk : ∀ x, (k x).Mentions ts) : (o.elim v k).Mentions ts := by
  cases o with
  | none => exact hv
  | some x => exact hk x

theorem mapM {k : α → Verdict β} {l : List α} (h : ∀ x ∈ l, (k x).Mentions ts) :
    (l.mapM k).Mentions ts := by
  induction l with
  | nil => exact pure _
  | cons x l ih =>
      rw [List.forall_mem_cons] at h
      rw [List.mapM_cons]
      exact h.1.bind fun _ => (ih h.2).bind fun _ => pure _

theorem resolve (S : Setting) {t : TypeExpr} (ht : t ∈ ts) : (S.resolve t).Mentions ts := by
  intro u hu
  cases List.mem_singleton.1 hu
  exact ht

end Verdict.Mentions

section

open Verdict

variable {S : Setting} {current : Option String} {o : ScopeOutline} {ts : List TypeExpr}

theorem mentions_requireArray (found : Outline) (span : Span) :
    Mentions ts (Setting.requireArray found span) := by
  unfold Setting.requireArray
  split
  · exact .pure _
  · exact .pure _
  · exact .reporting _ _

theorem mentions_requireObject (found : Outline) (span : Span) :
    Mentions ts (Setting.requireObject found span) := by
  unfold Setting.requireObject
  split
  · exact .pure _
  · exact .pure _
  · exact .reporting _ _

theorem mentions_field (cls name : String) (unknown : Diagnostic) :
    Mentions ts (S.field cls name unknown) := by
  unfold Setting.field
  split
  · exact .pure _
  · exact .reporting _ _

theorem mentions_typeOfVariable (name : Ident) :
    Mentions ts (S.typeOfVariable current o name) := by
  unfold Setting.typeOfVariable
  simp only
  split
  · exact .pure _
  · split
    · exact mentions_field _ _ _
    · exact .reporting _ _

theorem mentions_operand (expected : Outline) {v : Verdict Outline} (h : v.Mentions ts)
    (span : Span) : Mentions ts (S.operand expected v span) :=
  h.bind fun _ => .require _ _

theorem mentions_applied {args : List Outline → Verdict Unit}
    (h : ∀ params, Mentions ts (args params))
    (count : Nat) (span : Span) (callee : MethodOutline) :
    Mentions ts (Setting.applied args count span callee) := by
  refine Mentions.bind ?_ fun fits => Mentions.bind ?_ fun _ => .pure _
  · unfold Setting.arity
    split_ifs
    · exact .reporting _ _
    · exact .reporting _ _
    · exact .pure _
  · cases fits with
    | true => exact h _
    | false => exact .pure _

/-- The functions that can be called have signatures of some written types. -/
def Setting.CallsWithin (S : Setting) (ts : List TypeExpr) : Prop :=
  ∀ name d, S.function? name = some (.declared d) → d.written ⊆ ts

variable (hS : S.CallsWithin ts)
include hS

theorem mentions_callee? (name : Ident) : Mentions ts (S.callee? current name) := by
  unfold Setting.callee?
  split
  · exact .pure _
  · split
    · exact .pure _
    · next decl hdecl =>
        have hw := hS _ decl hdecl
        rw [FunctionDecl.written, List.cons_subset, List.append_subset] at hw
        refine Mentions.bind (.mapM fun d hd => .resolve S (hw.2.1 (List.mem_map_of_mem hd)))
          fun _ => (Mentions.resolve S hw.1).bind fun _ => .pure _
    · exact .reporting _ _

omit hS in
mutual

/-- An expression comes to the types that are written in it, and to those of functions. -/
theorem mentions_expr (hS : S.CallsWithin ts) : ∀ e : Expr, e.written ⊆ ts →
    (e.verdict S current o).Mentions ts
  | .unary _ op operand, hw =>
      (mentions_operand _ (mentions_expr hS operand hw) _).bind fun _ => .pure _
  | .binary tag op left right, hw => by
      obtain ⟨hl, hr⟩ := List.append_subset.1 hw
      rw [Expr.verdict]
      split_ifs
      · exact Mentions.bind ((mentions_expr hS left hl).bind fun _ =>
          (mentions_expr hS right hr).bind fun _ => .require _ _) fun _ => .pure _
      · exact (mentions_operand _ (mentions_expr hS left hl) _).bind fun _ =>
          (mentions_operand _ (mentions_expr hS right hr) _).bind fun _ => .pure _
  | .number _ _, _ | .bool _ _, _ | .null _, _ => .pure _
  | .this _, _ => by
      cases current with
      | some cls => exact .pure _
      | none => exact .reporting _ _
  | .read _ location, hw => mentions_location hS location hw
  | .arrayLength _ array, hw =>
      (mentions_expr hS array hw).bind fun _ => (mentions_requireArray _ _).bind fun _ => .pure _
  | .newObject _ cls, _ => by
      rw [Expr.verdict, Setting.newObject]
      split_ifs
      · exact .pure _
      · exact .reporting _ _
  | .newArray _ element size, hw => by
      obtain ⟨helement, hsize⟩ := List.cons_subset.1 hw
      exact (mentions_operand _ (mentions_expr hS size hsize) _).bind fun _ =>
        (Mentions.resolve S helement).bind fun _ => .pure _
  | .call _ name args, hw => by
      rw [Expr.verdict]
      refine (mentions_callee? hS name).bind fun _ => .elim (.pure _) fun _ => ?_
      exact mentions_applied (fun params => mentions_arguments hS args params hw) _ _ _
  | .methodCall _ receiver name args, hw => by
      obtain ⟨hreceiver, hargs⟩ := List.append_subset.1 hw
      rw [Expr.verdict]
      refine (mentions_expr hS receiver hreceiver).bind fun _ =>
        (mentions_requireObject _ _).bind fun _ => .elim (.pure _) fun _ => ?_
      refine .elim (.reporting _ _) fun _ => ?_
      exact mentions_applied (fun params => mentions_arguments hS args params hargs) _ _ _
termination_by structural e => e

theorem mentions_location (hS : S.CallsWithin ts) : ∀ l : Location, l.written ⊆ ts →
    (l.verdict S current o).Mentions ts
  | .var _ name, _ => mentions_typeOfVariable name
  | .field _ receiver name, hw =>
      (mentions_expr hS receiver hw).bind fun _ =>
        (mentions_requireObject _ _).bind fun _ => .elim (.pure _) fun _ => mentions_field _ _ _
  | .index _ array index, hw => by
      obtain ⟨harray, hindex⟩ := List.append_subset.1 hw
      exact (mentions_expr hS array harray).bind fun _ => (mentions_requireArray _ _).bind fun _ =>
        (mentions_operand _ (mentions_expr hS index hindex) _).bind fun _ => .pure _
termination_by structural l => l

theorem mentions_arguments (hS : S.CallsWithin ts) : ∀ (args : List Expr) (params : List Outline),
    writtenInArguments args ⊆ ts → (verdictOfArguments S current o args params).Mentions ts
  | [], _, _ => .pure _
  | _ :: _, [], _ => .pure _
  | arg :: args, _ :: params, hw => by
      obtain ⟨harg, hargs⟩ := List.append_subset.1 hw
      exact (mentions_operand _ (mentions_expr hS arg harg) _).bind fun _ =>
        mentions_arguments hS args params hargs
termination_by structural args => args

end

theorem mentions_condition (construct : Conditional) {e : Expr} (he : e.written ⊆ ts) :
    (S.condition current o construct e).Mentions ts :=
  (mentions_expr hS e he).bind fun _ => .require _ _

omit hS in
mutual

theorem mentions_stmt (hS : S.CallsWithin ts) : ∀ (s : Stmt) {o : ScopeOutline}, s.written ⊆ ts →
    (s.verdict S current o).Mentions ts
  | .declare decl, _, hw =>
      (Mentions.require _ _).bind fun _ =>
        (Mentions.resolve S (hw (List.mem_singleton_self _))).bind fun _ => .pure _
  | .eval value, _, hw => (mentions_expr hS value hw).bind fun _ => .pure _
  | .assign _ target value, _, hw => by
      obtain ⟨htarget, hvalue⟩ := List.append_subset.1 hw
      exact Mentions.bind ((mentions_location hS target htarget).bind fun _ =>
        (mentions_expr hS value hvalue).bind fun _ => .require _ _) fun _ => .pure _
  | .branch _ condition onTrue none, _, hw => by
      obtain ⟨hc, ht⟩ := List.append_subset.1 hw
      exact (mentions_condition hS .branch hc).bind fun _ =>
        (mentions_stmt hS onTrue ht).bind fun _ => .pure _
  | .branch _ condition onTrue (some onFalse), _, hw => by
      obtain ⟨hc, hw⟩ := List.append_subset.1 hw
      obtain ⟨ht, hf⟩ := List.append_subset.1 hw
      exact (mentions_condition hS .branch hc).bind fun _ =>
        (mentions_stmt hS onTrue ht).bind fun _ =>
          (mentions_stmt hS onFalse hf).bind fun _ => .pure _
  | .loop _ condition body, _, hw => by
      obtain ⟨hc, hbody⟩ := List.append_subset.1 hw
      exact (mentions_condition hS .loop hc).bind fun _ =>
        (mentions_stmt hS body hbody).bind fun _ => .pure _
  | .return _ value, _, hw =>
      Mentions.bind ((mentions_expr hS value hw).bind fun _ => .require _ _) fun _ => .pure _
  | .block _ body, _, hw => (mentions_body hS body hw).bind fun _ => .pure _
termination_by structural s => s

theorem mentions_body (hS : S.CallsWithin ts) : ∀ (body : List Stmt) {o : ScopeOutline},
    writtenInBody body ⊆ ts →
    (verdictOfBody S current o body).Mentions ts
  | [], _, _ => .pure _
  | s :: rest, _, hw => by
      obtain ⟨hs, hrest⟩ := List.append_subset.1 hw
      exact (mentions_stmt hS s hs).bind fun _ => mentions_body hS rest hrest
termination_by structural body => body

end

end

theorem Setting.undeclared_leaf (S : Setting) (t : TypeExpr) :
    S.undeclared t.leaf = S.undeclared t := by
  induction t with
  | array tag c ih => exact ih
  | _ => rfl

namespace Program

variable {p : Program} {printName : String}

theorem callsWithin_setting : (p.setting printName).CallsWithin p.typeExprs := by
  intro name d hd t ht
  exact mem_typeExprs_of_function (FunctionTable.mem_of_find?_build hd) ht

/-- Types that are written in a program are undeclared together if they share a leaf. -/
theorem coherent_of_mentions (hp : p.ids.Nodup) {S : Setting} {α : Type} {v : Verdict α}
    (h : v.Mentions p.typeExprs) : S.Coherent (Setting.resolved v.events) := by
  intro t ht u hu hid
  have htp := leaf_mem_typeExprs (h t (Setting.mem_resolved.1 ht))
  have hup := leaf_mem_typeExprs (h u (Setting.mem_resolved.1 hu))
  rw [← S.undeclared_leaf t, ← S.undeclared_leaf u, p.typeExpr_unique hp htp hup hid]

end Program
end ObjectLang
