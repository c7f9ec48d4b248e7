import Mathlib.Tactic
import ObjectLang.Lowering.Statements
import ObjectLang.Proofs.Parsing.Identities
import ObjectLang.Proofs.Tree.Relabel

/-!
# Trees with other names

A tree whose names have been changed has the identities and the places that it had. If different
names stay different, what is found under the new name of something is what was found under the old
one.
-/
namespace ObjectLang

variable {ρ : String → String}

namespace Relabel

@[simp]
theorem rename_tag (tag : Tag) : (rename ρ).tag tag = tag :=
  rfl

@[simp]
theorem rename_span (span : Span) : (rename ρ).span span = span :=
  rfl

@[simp]
theorem rename_name (name : String) : (rename ρ).name name = ρ name :=
  rfl

end Relabel

section places

@[simp]
theorem Ident.name_rename (x : Ident) : (x.relabel (.rename ρ)).name = ρ x.name :=
  rfl

@[simp]
theorem Ident.span_rename (x : Ident) : (x.relabel (.rename ρ)).span = x.span :=
  rfl

@[simp]
theorem TypeExpr.tag_rename (t : TypeExpr) : (t.relabel (.rename ρ)).tag = t.tag := by
  cases t <;> rfl

@[simp]
theorem TypeExpr.id_rename (t : TypeExpr) : (t.relabel (.rename ρ)).id = t.id :=
  congrArg Tag.id t.tag_rename

@[simp]
theorem TypeExpr.span_rename (t : TypeExpr) : (t.relabel (.rename ρ)).span = t.span :=
  congrArg Tag.span t.tag_rename

@[simp]
theorem Expr.tag_rename (e : Expr) : (e.relabel (.rename ρ)).tag = e.tag := by
  cases e <;> rfl

@[simp]
theorem Expr.id_rename (e : Expr) : (e.relabel (.rename ρ)).id = e.id :=
  congrArg Tag.id e.tag_rename

@[simp]
theorem Expr.span_rename (e : Expr) : (e.relabel (.rename ρ)).span = e.span :=
  congrArg Tag.span e.tag_rename

@[simp]
theorem Location.tag_rename (l : Location) : (l.relabel (.rename ρ)).tag = l.tag := by
  cases l <;> rfl

@[simp]
theorem Location.id_rename (l : Location) : (l.relabel (.rename ρ)).id = l.id :=
  congrArg Tag.id l.tag_rename

@[simp]
theorem VarDecl.id_rename (d : VarDecl) : (d.relabel (.rename ρ)).id = d.id :=
  rfl

@[simp]
theorem VarDecl.name_rename (d : VarDecl) : (d.relabel (.rename ρ)).name.name = ρ d.name.name :=
  rfl

@[simp]
theorem FunctionDecl.name_rename (f : FunctionDecl) :
    (f.relabel (.rename ρ)).name.name = ρ f.name.name :=
  rfl

@[simp]
theorem ClassDecl.name_rename (c : ClassDecl) : (c.relabel (.rename ρ)).name.name = ρ c.name.name :=
  rfl

@[simp]
theorem ClassDecl.superclass_rename (c : ClassDecl) :
    (c.relabel (.rename ρ)).superclass = c.superclass.map (·.relabel (.rename ρ)) :=
  rfl

@[simp]
theorem Stmt.span_rename (s : Stmt) : (s.relabel (.rename ρ)).span = s.span := by
  cases s with
  | eval value => exact value.span_rename
  | branch span condition onTrue onFalse => cases onFalse <;> rfl
  | _ => rfl

end places

section lists

theorem relabelArguments_eq (r : Relabel) (es : List Expr) :
    relabelArguments r es = es.map (·.relabel r) := by
  induction es with
  | nil => rfl
  | cons e es ih => exact congrArg _ ih

theorem relabelBody_eq (r : Relabel) (body : List Stmt) :
    relabelBody r body = body.map (·.relabel r) := by
  induction body with
  | nil => rfl
  | cons s body ih => exact congrArg _ ih

@[simp]
theorem length_relabelArguments (r : Relabel) (es : List Expr) :
    (relabelArguments r es).length = es.length := by
  rw [relabelArguments_eq, List.length_map]

end lists

section identities

@[simp]
theorem TypeExpr.ids_rename (t : TypeExpr) : (t.relabel (.rename ρ)).ids = t.ids := by
  induction t with
  | array tag component ih => exact congrArg (tag.id :: ·) ih
  | _ => rfl

mutual

@[simp]
theorem Expr.ids_rename : ∀ e : Expr, (e.relabel (.rename ρ)).ids = e.ids
  | .unary _ _ operand | .arrayLength _ operand => by
      simp [Expr.relabel, Expr.ids, operand.ids_rename]
  | .binary _ _ left right => by simp [Expr.relabel, Expr.ids, left.ids_rename, right.ids_rename]
  | .number _ _ | .bool _ _ | .null _ | .this _ | .newObject _ _ => rfl
  | .read _ location => by simp [Expr.relabel, Expr.ids, location.ids_rename]
  | .newArray _ element size => by simp [Expr.relabel, Expr.ids, size.ids_rename]
  | .call _ _ args => by simp [Expr.relabel, Expr.ids, idsOfArguments_rename args]
  | .methodCall _ receiver _ args => by
      simp [Expr.relabel, Expr.ids, receiver.ids_rename, idsOfArguments_rename args]
termination_by structural e => e

@[simp]
theorem Location.ids_rename : ∀ l : Location, (l.relabel (.rename ρ)).ids = l.ids
  | .var _ _ => rfl
  | .field _ receiver _ => by simp [Location.relabel, Location.ids, receiver.ids_rename]
  | .index _ array index => by
      simp [Location.relabel, Location.ids, array.ids_rename, index.ids_rename]
termination_by structural l => l

@[simp]
theorem idsOfArguments_rename : ∀ es : List Expr,
    idsOfArguments (relabelArguments (.rename ρ) es) = idsOfArguments es
  | [] => rfl
  | e :: es => by
      simp [relabelArguments, idsOfArguments, e.ids_rename, idsOfArguments_rename es]
termination_by structural es => es

end

@[simp]
theorem VarDecl.ids_rename (d : VarDecl) : (d.relabel (.rename ρ)).ids = d.ids := by
  simp [VarDecl.relabel, VarDecl.ids, VarDecl.id]

mutual

@[simp]
theorem Stmt.ids_rename : ∀ s : Stmt, (s.relabel (.rename ρ)).ids = s.ids
  | .declare decl => decl.ids_rename
  | .eval value => value.ids_rename
  | .assign _ target value => by simp [Stmt.relabel, Stmt.ids]
  | .branch _ condition onTrue none => by
      simp [Stmt.relabel, Stmt.ids, onTrue.ids_rename]
  | .branch _ condition onTrue (some onFalse) => by
      simp [Stmt.relabel, Stmt.ids, onTrue.ids_rename, onFalse.ids_rename]
  | .loop _ condition body => by simp [Stmt.relabel, Stmt.ids, body.ids_rename]
  | .return _ value => value.ids_rename
  | .block _ body => idsOfBody_rename body
termination_by structural s => s

@[simp]
theorem idsOfBody_rename : ∀ body : List Stmt,
    idsOfBody (relabelBody (.rename ρ) body) = idsOfBody body
  | [] => rfl
  | s :: body => by simp [relabelBody, idsOfBody, s.ids_rename, idsOfBody_rename body]
termination_by structural body => body

end

@[simp]
theorem FunctionDecl.ids_rename (f : FunctionDecl) : (f.relabel (.rename ρ)).ids = f.ids := by
  simp [FunctionDecl.relabel, FunctionDecl.ids, FunctionDecl.id, List.flatMap_map]

@[simp]
theorem ClassDecl.ids_rename (c : ClassDecl) : (c.relabel (.rename ρ)).ids = c.ids := by
  simp [ClassDecl.relabel, ClassDecl.ids, ClassDecl.id, List.flatMap_map]

end identities

section locals

mutual

/-- The variables of a renamed statement are those that it had, renamed. -/
theorem Stmt.locals_relabel (r : Relabel) : ∀ s : Stmt,
    (s.relabel r).locals = s.locals.map (·.relabel r)
  | .declare _ | .eval _ | .assign _ _ _ | .return _ _ => rfl
  | .branch _ _ onTrue none => onTrue.locals_relabel r
  | .branch _ _ onTrue (some onFalse) => by
      simp [Stmt.relabel, Stmt.locals, onTrue.locals_relabel r, onFalse.locals_relabel r]
  | .loop _ _ body => body.locals_relabel r
  | .block _ body => localsOf_relabel r body
termination_by structural s => s

theorem localsOf_relabel (r : Relabel) : ∀ body : List Stmt,
    localsOf (relabelBody r body) = (localsOf body).map (·.relabel r)
  | [] => rfl
  | s :: body => by
      simp [relabelBody, localsOf, s.locals_relabel r, localsOf_relabel r body]
termination_by structural body => body

end

end locals

section identity

/-- Where nothing becomes anything else, trees stay the same. -/
theorem Ident.relabel_same (x : Ident) : x.relabel {} = x :=
  rfl

@[simp]
theorem TypeExpr.relabel_same (t : TypeExpr) : t.relabel {} = t := by
  induction t with
  | array tag component ih => exact congrArg (TypeExpr.array tag) ih
  | _ => rfl

mutual

@[simp]
theorem Expr.relabel_same : ∀ e : Expr, e.relabel {} = e
  | .unary tag op operand => congrArg (Expr.unary tag op) operand.relabel_same
  | .arrayLength tag array => congrArg (Expr.arrayLength tag) array.relabel_same
  | .binary tag op left right => congrArg₂ (Expr.binary tag op) left.relabel_same right.relabel_same
  | .number _ _ | .bool _ _ | .null _ | .this _ | .newObject _ _ => rfl
  | .read tag location => congrArg (Expr.read tag) location.relabel_same
  | .newArray tag element size =>
      congrArg₂ (Expr.newArray tag) element.relabel_same size.relabel_same
  | .call tag name args => congrArg (Expr.call tag name) (relabelArguments_relabel_same args)
  | .methodCall tag receiver name args =>
      congrArg₂ (Expr.methodCall tag · name) receiver.relabel_same
        (relabelArguments_relabel_same args)
termination_by structural e => e

@[simp]
theorem Location.relabel_same : ∀ l : Location, l.relabel {} = l
  | .var _ _ => rfl
  | .field tag receiver name => congrArg (Location.field tag · name) receiver.relabel_same
  | .index tag array index => congrArg₂ (Location.index tag) array.relabel_same index.relabel_same
termination_by structural l => l

@[simp]
theorem relabelArguments_relabel_same : ∀ es : List Expr, relabelArguments {} es = es
  | [] => rfl
  | e :: es => congrArg₂ List.cons e.relabel_same (relabelArguments_relabel_same es)
termination_by structural es => es

end

@[simp]
theorem VarDecl.relabel_same (d : VarDecl) : d.relabel {} = d := by
  rw [VarDecl.relabel, TypeExpr.relabel_same, Ident.relabel_same]
  rfl

mutual

@[simp]
theorem Stmt.relabel_same : ∀ s : Stmt, s.relabel {} = s
  | .declare decl => congrArg Stmt.declare decl.relabel_same
  | .eval value => congrArg Stmt.eval value.relabel_same
  | .assign span target value => congrArg₂ (Stmt.assign span) target.relabel_same value.relabel_same
  | .branch span condition onTrue none => by simp [Stmt.relabel, onTrue.relabel_same]
  | .branch span condition onTrue (some onFalse) => by
      simp [Stmt.relabel, onTrue.relabel_same, onFalse.relabel_same]
  | .loop span condition body => congrArg₂ (Stmt.loop span) condition.relabel_same body.relabel_same
  | .return span value => congrArg (Stmt.return span) value.relabel_same
  | .block span body => congrArg (Stmt.block span) (relabelBody_relabel_same body)
termination_by structural s => s

@[simp]
theorem relabelBody_relabel_same : ∀ body : List Stmt, relabelBody {} body = body
  | [] => rfl
  | s :: body => congrArg₂ List.cons s.relabel_same (relabelBody_relabel_same body)
termination_by structural body => body

end

@[simp]
theorem FunctionDecl.relabel_same (f : FunctionDecl) : f.relabel {} = f := by
  simp [FunctionDecl.relabel, Ident.relabel_same]

@[simp]
theorem ClassDecl.relabel_same (c : ClassDecl) : c.relabel {} = c := by
  simp [ClassDecl.relabel, Ident.relabel_same]

@[simp]
theorem Program.relabel_same (p : Program) : p.relabel {} = p := by
  simp [Program.relabel]

end identity

section searches

variable {α β : Type}

/-- What is found under a new name is what was found under the old one. -/
theorem find?_rename (hρ : ρ.Injective) {nameOf : α → String} {nameOf' : β → String} {f : α → β}
    (hf : ∀ x, nameOf' (f x) = ρ (nameOf x)) (l : List α) (name : String) :
    (l.map f).find? (nameOf' · == ρ name) = (l.find? (nameOf · == name)).map f := by
  have hname : (fun x => nameOf' (f x) == ρ name) = fun x => nameOf x == name := by
    funext x
    rw [hf, hρ.beq_eq]
  rw [List.find?_map]
  exact congrArg _ (congrArg (List.find? · l) hname)

/-- Among things of different names the order has no part in what is found. -/
theorem find?_perm {nameOf : α → String} {l l' : List α} (h : l.Perm l')
    (hnodup : (l.map nameOf).Nodup) (name : String) :
    l.find? (nameOf · == name) = l'.find? (nameOf · == name) := by
  have hone : ∀ {x y : α}, x ∈ l → y ∈ l' → nameOf x = nameOf y → x = y := fun hx hy hxy =>
    List.inj_on_of_nodup_map hnodup hx (h.mem_iff.2 hy) hxy
  cases hx : l.find? (nameOf · == name) with
  | none =>
      refine (List.find?_eq_none.2 fun y hy => ?_).symm
      exact List.find?_eq_none.1 hx y (h.mem_iff.2 hy)
  | some x =>
      have hxname : nameOf x = name := by simpa using List.find?_some hx
      have hsome : (l'.find? (nameOf · == name)).isSome :=
        List.find?_isSome.2 ⟨x, h.mem_iff.1 (List.mem_of_find?_eq_some hx), by simp [hxname]⟩
      obtain ⟨y, hy⟩ := Option.isSome_iff_exists.1 hsome
      have hyname : nameOf y = name := by simpa using List.find?_some hy
      rw [hy, hone (List.mem_of_find?_eq_some hx) (List.mem_of_find?_eq_some hy)
        (hxname.trans hyname.symm)]

end searches

end ObjectLang
