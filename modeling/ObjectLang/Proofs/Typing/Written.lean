import Mathlib.Data.List.Nodup
import Mathlib.Tactic
import ObjectLang.Proofs.Parsing.Identities
import ObjectLang.Proofs.Typing.Rules

/-!
# The types that are written in a program

All written types of a program, with their components. Their identities are among those of the
program, so if these differ, a written type is known from its identity.
-/
namespace ObjectLang

/-- A written type and its components. -/
def TypeExpr.parts : TypeExpr → List TypeExpr
  | .int tag => [.int tag]
  | .bool tag => [.bool tag]
  | .named tag name => [.named tag name]
  | .array tag component => .array tag component :: component.parts

theorem TypeExpr.mem_parts (t : TypeExpr) : t ∈ t.parts := by
  cases t <;> simp [parts]

theorem TypeExpr.mem_parts_of_array {tag : Tag} {c : TypeExpr} :
    ∀ {t : TypeExpr}, TypeExpr.array tag c ∈ t.parts → c ∈ t.parts
  | .int _, h => by simp [parts] at h
  | .bool _, h => by simp [parts] at h
  | .named _ _, h => by simp [parts] at h
  | .array _ component, h => by
      rcases List.mem_cons.1 h with h | h
      · cases h
        exact List.mem_cons_of_mem _ c.mem_parts
      · exact List.mem_cons_of_mem _ (mem_parts_of_array h)

theorem TypeExpr.map_id_parts (t : TypeExpr) : t.parts.map TypeExpr.id = t.ids := by
  induction t with
  | array tag component ih => simp [parts, ids, ih, TypeExpr.id, TypeExpr.tag]
  | _ => rfl

mutual

/-- The types that are written in an expression. -/
def Expr.written : Expr → List TypeExpr
  | .unary _ _ operand => operand.written
  | .binary _ _ left right => left.written ++ right.written
  | .number _ _ | .bool _ _ | .null _ | .this _ | .newObject _ _ => []
  | .read _ location => location.written
  | .arrayLength _ array => array.written
  | .newArray _ element size => element :: size.written
  | .call _ _ args => writtenInArguments args
  | .methodCall _ receiver _ args => receiver.written ++ writtenInArguments args
termination_by structural e => e

def Location.written : Location → List TypeExpr
  | .var _ _ => []
  | .field _ receiver _ => receiver.written
  | .index _ array index => array.written ++ index.written
termination_by structural l => l

def writtenInArguments : List Expr → List TypeExpr
  | [] => []
  | e :: es => e.written ++ writtenInArguments es
termination_by structural es => es

end

mutual

def Stmt.written : Stmt → List TypeExpr
  | .declare decl => [decl.type]
  | .eval value => value.written
  | .assign _ target value => target.written ++ value.written
  | .branch _ condition onTrue none => condition.written ++ onTrue.written
  | .branch _ condition onTrue (some onFalse) =>
    condition.written ++ (onTrue.written ++ onFalse.written)
  | .loop _ condition body => condition.written ++ body.written
  | .return _ value => value.written
  | .block _ body => writtenInBody body
termination_by structural s => s

def writtenInBody : List Stmt → List TypeExpr
  | [] => []
  | s :: rest => s.written ++ writtenInBody rest
termination_by structural body => body

end

def FunctionDecl.written (f : FunctionDecl) : List TypeExpr :=
  f.returnType :: (f.params.map VarDecl.type ++ writtenInBody f.body)

def ClassDecl.written (c : ClassDecl) : List TypeExpr :=
  c.fields.map VarDecl.type ++ c.methods.flatMap FunctionDecl.written

/-- All types that are written in a program, with their components. -/
def Program.typeExprs (p : Program) : List TypeExpr :=
  (p.classes.flatMap ClassDecl.written ++ p.functions.flatMap FunctionDecl.written).flatMap
    TypeExpr.parts

/-- The identities of some written types and their components. -/
def idsOfWritten (ts : List TypeExpr) : List Nat :=
  ts.flatMap TypeExpr.ids

@[simp]
theorem idsOfWritten_nil : idsOfWritten [] = [] :=
  rfl

@[simp]
theorem idsOfWritten_cons (t : TypeExpr) (ts : List TypeExpr) :
    idsOfWritten (t :: ts) = t.ids ++ idsOfWritten ts :=
  rfl

@[simp]
theorem idsOfWritten_append (ts us : List TypeExpr) :
    idsOfWritten (ts ++ us) = idsOfWritten ts ++ idsOfWritten us :=
  List.flatMap_append

mutual

theorem Expr.sublist_written : ∀ e : Expr, (idsOfWritten e.written).Sublist e.ids
  | .unary _ _ operand => (Expr.sublist_written operand).cons _
  | .binary _ _ left right => by
      simp only [Expr.written, idsOfWritten_append, Expr.ids]
      exact ((Expr.sublist_written left).append (Expr.sublist_written right)).cons _
  | .number _ _ | .bool _ _ | .null _ | .this _ | .newObject _ _ => List.nil_sublist _
  | .read _ location => (Location.sublist_written location).cons _
  | .arrayLength _ array => (Expr.sublist_written array).cons _
  | .newArray _ element size => by
      simp only [Expr.written, idsOfWritten_cons, Expr.ids]
      exact ((List.Sublist.refl _).append (Expr.sublist_written size)).cons _
  | .call _ _ args => (sublist_writtenInArguments args).cons _
  | .methodCall _ receiver _ args => by
      simp only [Expr.written, idsOfWritten_append, Expr.ids]
      exact ((Expr.sublist_written receiver).append (sublist_writtenInArguments args)).cons _
termination_by structural e => e

theorem Location.sublist_written : ∀ l : Location, (idsOfWritten l.written).Sublist l.ids
  | .var _ _ => List.nil_sublist _
  | .field _ receiver _ => (Expr.sublist_written receiver).cons _
  | .index _ array index => by
      simp only [Location.written, idsOfWritten_append, Location.ids]
      exact ((Expr.sublist_written array).append (Expr.sublist_written index)).cons _
termination_by structural l => l

theorem sublist_writtenInArguments :
    ∀ es : List Expr, (idsOfWritten (writtenInArguments es)).Sublist (idsOfArguments es)
  | [] => .slnil
  | e :: es => by
      simp only [writtenInArguments, idsOfWritten_append, idsOfArguments]
      exact (Expr.sublist_written e).append (sublist_writtenInArguments es)
termination_by structural es => es

end

mutual

theorem Stmt.sublist_written : ∀ s : Stmt, (idsOfWritten s.written).Sublist s.ids
  | .declare decl => by
      simp only [Stmt.written, idsOfWritten_cons, idsOfWritten_nil, List.append_nil,
        Stmt.ids, VarDecl.ids]
      exact List.sublist_cons_self _ _
  | .eval value => value.sublist_written
  | .assign _ target value => by
      simp only [Stmt.written, idsOfWritten_append, Stmt.ids]
      exact target.sublist_written.append value.sublist_written
  | .branch _ condition onTrue none => by
      simp only [Stmt.written, idsOfWritten_append, Stmt.ids]
      exact condition.sublist_written.append (Stmt.sublist_written onTrue)
  | .branch _ condition onTrue (some onFalse) => by
      simp only [Stmt.written, idsOfWritten_append, Stmt.ids]
      exact condition.sublist_written.append
        ((Stmt.sublist_written onTrue).append (Stmt.sublist_written onFalse))
  | .loop _ condition body => by
      simp only [Stmt.written, idsOfWritten_append, Stmt.ids]
      exact condition.sublist_written.append (Stmt.sublist_written body)
  | .return _ value => value.sublist_written
  | .block _ body => sublist_writtenInBody body
termination_by structural s => s

theorem sublist_writtenInBody :
    ∀ body : List Stmt, (idsOfWritten (writtenInBody body)).Sublist (idsOfBody body)
  | [] => .slnil
  | s :: rest => by
      simp only [writtenInBody, idsOfWritten_append, idsOfBody]
      exact (Stmt.sublist_written s).append (sublist_writtenInBody rest)
termination_by structural body => body

end

theorem sublist_writtenInDecls (ds : List VarDecl) :
    (idsOfWritten (ds.map VarDecl.type)).Sublist (ds.flatMap VarDecl.ids) := by
  induction ds with
  | nil => exact .slnil
  | cons d ds ih => exact (List.sublist_cons_self _ _).append ih

theorem FunctionDecl.sublist_written (f : FunctionDecl) :
    (idsOfWritten f.written).Sublist f.ids := by
  simp only [written, idsOfWritten_cons, idsOfWritten_append, ids]
  exact ((List.Sublist.refl _).append
    ((sublist_writtenInDecls _).append (sublist_writtenInBody _))).cons _

theorem sublist_writtenInFunctions (fs : List FunctionDecl) :
    (idsOfWritten (fs.flatMap FunctionDecl.written)).Sublist (fs.flatMap FunctionDecl.ids) := by
  induction fs with
  | nil => exact .slnil
  | cons f fs ih =>
      simp only [List.flatMap_cons, idsOfWritten_append]
      exact f.sublist_written.append ih

theorem sublist_writtenInClasses (cs : List ClassDecl) :
    (idsOfWritten (cs.flatMap ClassDecl.written)).Sublist (cs.flatMap ClassDecl.ids) := by
  induction cs with
  | nil => exact .slnil
  | cons c cs ih =>
      simp only [List.flatMap_cons, idsOfWritten_append, ClassDecl.written, ClassDecl.ids]
      exact (((sublist_writtenInDecls _).append (sublist_writtenInFunctions _)).cons _).append ih

namespace Program

variable {p : Program}

theorem mem_typeExprs_of_array {tag : Tag} {c : TypeExpr} (h : .array tag c ∈ p.typeExprs) :
    c ∈ p.typeExprs := by
  obtain ⟨t, ht, hc⟩ := List.mem_flatMap.1 h
  exact List.mem_flatMap.2 ⟨t, ht, TypeExpr.mem_parts_of_array hc⟩

theorem mem_typeExprs_of_function {f : FunctionDecl} (hf : f ∈ p.functions) {t : TypeExpr}
    (ht : t ∈ f.written) : t ∈ p.typeExprs :=
  List.mem_flatMap.2 ⟨t, List.mem_append_right _ (List.mem_flatMap.2 ⟨f, hf, ht⟩), t.mem_parts⟩

theorem mem_typeExprs_of_class {c : ClassDecl} (hc : c ∈ p.classes) {t : TypeExpr}
    (ht : t ∈ c.written) : t ∈ p.typeExprs :=
  List.mem_flatMap.2 ⟨t, List.mem_append_left _ (List.mem_flatMap.2 ⟨c, hc, ht⟩), t.mem_parts⟩

/-- Written types with one identity are one. -/
theorem typeExpr_unique (hp : p.ids.Nodup) {t u : TypeExpr} (ht : t ∈ p.typeExprs)
    (hu : u ∈ p.typeExprs) (h : t.id = u.id) : t = u := by
  refine List.inj_on_of_nodup_map (f := TypeExpr.id) ?_ ht hu h
  have hmap : p.typeExprs.map TypeExpr.id =
      idsOfWritten (p.classes.flatMap ClassDecl.written ++
        p.functions.flatMap FunctionDecl.written) := by
    simp only [typeExprs, List.map_flatMap, TypeExpr.map_id_parts, idsOfWritten]
  rw [hmap, idsOfWritten_append]
  exact hp.sublist ((sublist_writtenInClasses _).append (sublist_writtenInFunctions _))

end Program
end ObjectLang
