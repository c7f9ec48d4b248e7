import Mathlib.Tactic
import ObjectLang.Proofs.Tree.Renaming
import ObjectLang.Proofs.Typing.StaticType

/-!
# Programs with other names, in another order

A program is a counterpart of another one if it has the same classes and functions under other
names, in any order. As long as different names stay different, a name means in the one program what
its new name means in the other: the same fields and methods are found from the same classes
upwards, and every expression has the same type, up to the names.
-/
namespace ObjectLang

variable {ρ : String → String}

namespace PlainType

def rename (ρ : String → String) : PlainType → PlainType
  | .int => .int
  | .bool => .bool
  | .null => .null
  | .array component => .array (component.rename ρ)
  | .object cls => .object (ρ cls)

variable (t : PlainType)

@[simp]
theorem class?_rename : (t.rename ρ).class? = t.class?.map ρ := by
  cases t <;> rfl

@[simp]
theorem component?_rename : (t.rename ρ).component? = t.component?.map (rename ρ) := by
  cases t <;> rfl

/-- Different types stay different if names do. -/
theorem rename_injective (hρ : ρ.Injective) : (rename ρ).Injective := by
  intro t
  induction t with
  | array component ih =>
      intro u h
      cases u with
      | array component' => rw [ih (PlainType.array.inj h)]
      | _ => cases h
  | object cls =>
      intro u h
      cases u with
      | object cls' => rw [hρ (PlainType.object.inj h)]
      | _ => cases h
  | _ =>
      intro u h
      cases u <;> first | rfl | cases h

end PlainType

@[simp]
theorem TypeExpr.plain_rename (t : TypeExpr) :
    (t.relabel (.rename ρ)).plain = t.plain.rename ρ := by
  induction t with
  | array tag component ih => exact congrArg PlainType.array ih
  | _ => rfl

@[simp]
theorem VarDecl.plain_rename (d : VarDecl) : (d.relabel (.rename ρ)).plain = d.plain.rename ρ :=
  d.type.plain_rename

theorem ClassDecl.field?_rename (hρ : ρ.Injective) (c : ClassDecl) (name : String) :
    (c.relabel (.rename ρ)).field? (ρ name) = (c.field? name).map (·.relabel (.rename ρ)) :=
  @find?_rename ρ VarDecl VarDecl hρ (·.name.name) (·.name.name) (·.relabel (.rename ρ))
    (fun _ => rfl) c.fields name

theorem ClassDecl.method?_rename (hρ : ρ.Injective) (c : ClassDecl) (name : String) :
    (c.relabel (.rename ρ)).method? (ρ name) = (c.method? name).map (·.relabel (.rename ρ)) :=
  @find?_rename ρ FunctionDecl FunctionDecl hρ (·.name.name) (·.name.name) (·.relabel (.rename ρ))
    (fun _ => rfl) c.methods name

/-- A program has the classes and functions of another one under other names, in any order, and
both have different names for all of them. -/
structure Program.Counterpart (ρ : String → String) (p p' : Program) : Prop where
  injective : ρ.Injective
  classes : (p.classes.map (·.relabel (.rename ρ))).Perm p'.classes
  functions : (p.functions.map (·.relabel (.rename ρ))).Perm p'.functions
  classNames : (p.classes.map (·.name.name)).Nodup
  functionNames : (p.functions.map (·.name.name)).Nodup

namespace Program.Counterpart

variable {p p' : Program} (h : p.Counterpart ρ p')
include h

theorem class? (name : String) :
    p'.class? (ρ name) = (p.class? name).map (·.relabel (.rename ρ)) := by
  have hnodup : ((p.classes.map (·.relabel (.rename ρ))).map (·.name.name)).Nodup := by
    have hnames : (p.classes.map (·.relabel (.rename ρ))).map (·.name.name) =
        (p.classes.map (·.name.name)).map ρ := by simp
    exact hnames ▸ h.classNames.map h.injective
  exact (find?_perm h.classes hnodup _).symm.trans
    (@find?_rename ρ ClassDecl ClassDecl h.injective (·.name.name) (·.name.name)
    (·.relabel (.rename ρ))
    (fun _ => rfl) p.classes name)

theorem function? (name : String) :
    p'.function? (ρ name) = (p.function? name).map (·.relabel (.rename ρ)) := by
  have hnodup : ((p.functions.map (·.relabel (.rename ρ))).map (·.name.name)).Nodup := by
    have hnames : (p.functions.map (·.relabel (.rename ρ))).map (·.name.name) =
        (p.functions.map (·.name.name)).map ρ := by simp
    exact hnames ▸ h.functionNames.map h.injective
  exact (find?_perm h.functions hnodup _).symm.trans
    (@find?_rename ρ FunctionDecl FunctionDecl h.injective (·.name.name) (·.name.name)
    (·.relabel (.rename ρ))
    (fun _ => rfl) p.functions name)

/-- A class and the classes above it are the same ones in both programs. -/
theorem lineage (name : String) :
    p'.lineage (ρ name) = (p.lineage name).map (·.relabel (.rename ρ)) := by
  have hlength : p'.classes.length = p.classes.length := by
    rw [← h.classes.length_eq, List.length_map]
  rw [Program.lineage, Program.lineage, hlength]
  generalize p.classes.length = steps
  induction steps generalizing name with
  | zero => rfl
  | succ steps ih =>
      rw [lineageWithin, lineageWithin, h.class? name]
      cases hc : p.class? name with
      | none => rfl
      | some c =>
          cases hs : c.superclass with
          | none => simp [hs]
          | some s => simp [hs, ih]

/-- What the nearest class upwards has that has it. -/
theorem findSome?_lineage {α : Type} {own? own'? : ClassDecl → Option α} {f : α → α}
    (hown : ∀ c, own'? (c.relabel (.rename ρ)) = (own? c).map f) (cls : String) :
    (p'.lineage (ρ cls)).findSome? own'? = ((p.lineage cls).findSome? own?).map f := by
  rw [h.lineage, List.findSome?_map]
  induction p.lineage cls with
  | nil => rfl
  | cons c l ih =>
      rw [List.findSome?_cons, List.findSome?_cons, Function.comp_apply, hown]
      cases own? c with
      | none => exact ih
      | some a => rfl

theorem field? (cls name : String) : p'.field? (ρ cls) (ρ name) =
    (p.field? cls name).map fun x => (x.1.relabel (.rename ρ), x.2.relabel (.rename ρ)) := by
  refine h.findSome?_lineage (fun c => ?_) cls
  rw [c.field?_rename h.injective, Option.map_map, Option.map_map]
  rfl

theorem method? (cls name : String) : p'.method? (ρ cls) (ρ name) =
    (p.method? cls name).map fun x => (x.1.relabel (.rename ρ), x.2.relabel (.rename ρ)) := by
  refine h.findSome?_lineage (fun c => ?_) cls
  rw [c.method?_rename h.injective, Option.map_map, Option.map_map]
  rfl

end Program.Counterpart

namespace Variable

def rename (ρ : String → String) : Variable → Variable
  | .slot decl => .slot (decl.relabel (.rename ρ))
  | .field owner decl => .field (ρ owner) (decl.relabel (.rename ρ))

@[simp]
theorem type_rename (v : Variable) : (v.rename ρ).type = v.type.rename ρ := by
  cases v <;> exact VarDecl.plain_rename _

end Variable

namespace Callable

def rename (ρ : String → String) : Callable → Callable
  | .print => .print
  | .function decl => .function (decl.relabel (.rename ρ))
  | .method owner decl => .method (ρ owner) (decl.relabel (.rename ρ))

@[simp]
theorem returnType_rename (c : Callable) :
    (c.rename ρ).returnType = c.returnType.rename ρ := by
  cases c with
  | print => rfl
  | function decl | method _ decl => exact decl.returnType.plain_rename

end Callable

/-- A place in a program, and the same place in a counterpart of the program. -/
structure Context.Counterpart (ρ : String → String) (Γ Γ' : Context) : Prop where
  program : Γ.program.Counterpart ρ Γ'.program
  printName : Γ'.printName = ρ Γ.printName
  current : Γ'.current = Γ.current.map ρ
  locals : Γ'.locals = Γ.locals.map (·.relabel (.rename ρ))

namespace Context.Counterpart

variable {Γ Γ' : Context} (h : Γ.Counterpart ρ Γ')
include h

theorem declare (d : VarDecl) : (Γ.declare d).Counterpart ρ (Γ'.declare (d.relabel (.rename ρ))) :=
  ⟨h.program, h.printName, h.current, congrArg _ h.locals⟩

theorem after (s : Stmt) : (s.after Γ).Counterpart ρ ((s.relabel (.rename ρ)).after Γ') := by
  cases s with
  | declare d => exact h.declare d
  | branch span condition onTrue onFalse => cases onFalse <;> exact h
  | _ => exact h

theorem local? (name : String) :
    Γ'.local? (ρ name) = (Γ.local? name).map (·.relabel (.rename ρ)) := by
  rw [Context.local?, h.locals]
  exact @find?_rename ρ VarDecl VarDecl h.program.injective (·.name.name) (·.name.name)
    (·.relabel (.rename ρ))
    (fun _ => rfl) Γ.locals name

theorem field? (cls name : String) :
    Γ'.field? (ρ cls) (ρ name) = (Γ.field? cls name).map (Variable.rename ρ) := by
  rw [Context.field?, Context.field?, h.program.field?, Option.map_map, Option.map_map]
  rfl

theorem resolve? (name : String) :
    Γ'.resolve? (ρ name) = (Γ.resolve? name).map (Variable.rename ρ) := by
  rw [Context.resolve?, Context.resolve?, h.local?, h.current]
  cases Γ.local? name with
  | some d => rfl
  | none =>
      cases Γ.current with
      | none => rfl
      | some cls => exact h.field? cls name

theorem method? (cls name : String) :
    Γ'.method? (ρ cls) (ρ name) = (Γ.method? cls name).map (Callable.rename ρ) := by
  rw [Context.method?, Context.method?, h.program.method?, Option.map_map, Option.map_map]
  rfl

theorem callable? (name : String) :
    Γ'.callable? (ρ name) = (Γ.callable? name).map (Callable.rename ρ) := by
  have hmethod : (Γ'.current.bind fun cls => Γ'.method? cls (ρ name)) =
      (Γ.current.bind fun cls => Γ.method? cls name).map (Callable.rename ρ) := by
    rw [h.current]
    cases Γ.current with
    | none => rfl
    | some cls => exact h.method? cls name
  have hprint : ρ name = Γ'.printName ↔ name = Γ.printName := by
    rw [h.printName]
    exact h.program.injective.eq_iff
  rw [Context.callable?, Context.callable?, hmethod]
  cases Γ.current.bind fun cls => Γ.method? cls name with
  | some c => rfl
  | none =>
      simp only [Option.map_none, hprint]
      split_ifs
      · rfl
      · rw [h.program.function?, Option.map_map, Option.map_map]
        rfl

mutual

/-- An expression has the same type in both programs. -/
theorem typeOf? : ∀ e : Expr,
    Γ'.typeOf? (e.relabel (.rename ρ)) = (Γ.typeOf? e).map (PlainType.rename ρ)
  | .unary _ .neg _ | .unary _ .not _ | .number _ _ | .arrayLength _ _ | .bool _ _ | .null _
  | .newObject _ _ => rfl
  | .binary _ op _ _ => by cases op <;> rfl
  | .this _ => by
      simp only [Expr.relabel, Context.typeOf?, h.current, Option.map_map]
      rfl
  | .read _ location => typeOfLocation? location
  | .newArray _ element _ => by
      simp only [Expr.relabel, Context.typeOf?, TypeExpr.plain_rename]
      rfl
  | .call _ f _ => by
      simp only [Expr.relabel, Context.typeOf?, Ident.name_rename, h.callable?, Option.map_map]
      exact congrArg (Option.map · _) (funext Callable.returnType_rename)
  | .methodCall _ receiver f _ => by
      simp only [Expr.relabel, Context.typeOf?, Ident.name_rename, typeOf? receiver]
      cases Γ.typeOf? receiver with
      | none => rfl
      | some t =>
          simp only [Option.map_some, Option.bind_some, PlainType.class?_rename]
          cases t.class? with
          | none => rfl
          | some c =>
              simp only [Option.map_some, Option.bind_some, h.method?, Option.map_map]
              exact congrArg (Option.map · _) (funext Callable.returnType_rename)
termination_by structural e => e

theorem typeOfLocation? : ∀ l : Location,
    Γ'.typeOfLocation? (l.relabel (.rename ρ)) = (Γ.typeOfLocation? l).map (PlainType.rename ρ)
  | .var _ x => by
      simp only [Location.relabel, Context.typeOfLocation?, Ident.name_rename, h.resolve?,
        Option.map_map]
      exact congrArg (Option.map · _) (funext Variable.type_rename)
  | .field _ receiver x => by
      simp only [Location.relabel, Context.typeOfLocation?, Ident.name_rename, typeOf? receiver]
      cases Γ.typeOf? receiver with
      | none => rfl
      | some t =>
          simp only [Option.map_some, Option.bind_some, PlainType.class?_rename]
          cases t.class? with
          | none => rfl
          | some c =>
              simp only [Option.map_some, Option.bind_some, h.field?, Option.map_map]
              exact congrArg (Option.map · _) (funext Variable.type_rename)
  | .index _ array _ => by
      simp only [Location.relabel, Context.typeOfLocation?, typeOf? array]
      cases Γ.typeOf? array with
      | none => rfl
      | some t => exact t.component?_rename
termination_by structural l => l

end

end Context.Counterpart

end ObjectLang
