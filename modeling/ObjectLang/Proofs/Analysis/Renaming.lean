import ObjectLang.Analysis.Basic
import ObjectLang.Proofs.Analysis.Keeping
import ObjectLang.Proofs.Typing.Renaming

/-!
# Analysis of trees with other names

The analysis of a tree and of the tree with other names go step by step together. What they know is
the same up to the names, and they report the same things of the same places. Names have a part only
in the text of what is reported. So there are two computations in tandem: they keep their states
related, and what the second gives is found from what the first gives.
-/
namespace ObjectLang

/-- Two computations keep states related, and the second gives the image of what the first gives. -/
def Tandem {σ α α' : Type} (R : σ → σ → Prop) (g : α → α') (m : StateM σ α) (m' : StateM σ α') :
    Prop :=
  ∀ s s', R s s' → (m'.run s').1 = g (m.run s).1 ∧ R (m.run s).2 (m'.run s').2

namespace Tandem

variable {σ α α' β β' ι κ : Type} {R : σ → σ → Prop} {g : α → α'} {h : β → β'} {m : StateM σ α}
  {m' : StateM σ α'}

theorem pure {a : α} {a' : α'} (ha : a' = g a) : Tandem R g (Pure.pure a) (Pure.pure a') :=
  fun _ _ hs => ⟨ha, hs⟩

theorem bind {k : α → StateM σ β} {k' : α' → StateM σ β'} (hm : Tandem R g m m')
    (hk : ∀ a, Tandem R h (k a) (k' (g a))) : Tandem R h (m >>= k) (m' >>= k') := by
  intro s s' hs
  obtain ⟨hvalue, hafter⟩ := hm s s' hs
  have hnext := hk (m.run s).1 _ _ hafter
  rw [← hvalue] at hnext
  exact hnext

/-- The first of two parts gives nothing. -/
theorem andThen {k k' : StateM σ PUnit} {m : StateM σ β} {m' : StateM σ β'} (hk : Tandem R id k k')
    (hm : Tandem R h m m') : Tandem R h (do k; m) (do k'; m') :=
  hk.bind fun _ => hm

theorem option {o : Option α} {o' : Option α'} {k : α → StateM σ β} {k' : α' → StateM σ β'}
    {m : StateM σ β} {m' : StateM σ β'} (ho : o' = o.map g) (hm : Tandem R h m m')
    (hk : ∀ a, Tandem R h (k a) (k' (g a))) : Tandem R h (o.elim m k) (o'.elim m' k') := by
  subst ho
  cases o with
  | none => exact hm
  | some a => exact hk a

theorem mapM {r : ι → κ} {k : ι → StateM σ α} {k' : κ → StateM σ α'} {l : List ι}
    (hk : ∀ i ∈ l, Tandem R g (k i) (k' (r i))) :
    Tandem R (List.map g) (l.mapM k) ((l.map r).mapM k') := by
  induction l with
  | nil => exact pure rfl
  | cons i l ih =>
      rw [List.forall_mem_cons] at hk
      rw [List.map_cons, List.mapM_cons, List.mapM_cons]
      exact hk.1.bind fun a => (ih hk.2).bind fun as => pure rfl

theorem forM {r : ι → κ} {k : ι → StateM σ PUnit} {k' : κ → StateM σ PUnit} {l : List ι}
    (hk : ∀ i ∈ l, Tandem R id (k i) (k' (r i))) :
    Tandem R id (l.forM k) ((l.map r).forM k') := by
  induction l with
  | nil => exact pure rfl
  | cons i l ih =>
      rw [List.forall_mem_cons] at hk
      exact hk.1.andThen (ih hk.2)

theorem foldlM {r : ι → ι} {k : α → ι → StateM σ α} {k' : α' → ι → StateM σ α'}
    (hk : ∀ a i, Tandem R g (k a i) (k' (g a) (r i))) (l : List ι) (a : α) :
    Tandem R g (l.foldlM k a) ((l.map r).foldlM k' (g a)) := by
  induction l generalizing a with
  | nil => exact pure rfl
  | cons i l ih =>
      rw [List.map_cons, List.foldlM_cons, List.foldlM_cons]
      exact (hk a i).bind fun a => ih a

end Tandem

variable {ρ : String → String}

namespace Diagnostic

/-- A diagnostic without the names that are in its text. -/
def unnamed : Diagnostic → Diagnostic
  | .duplicateClass _ span => .duplicateClass "" span
  | .undeclaredSuperclass _ _ span => .undeclaredSuperclass "" "" span
  | .cyclicInheritance _ cycle span => .cyclicInheritance "" (cycle.map fun _ => "") span
  | .duplicateField _ _ span => .duplicateField "" "" span
  | .duplicateMethod _ _ span => .duplicateMethod "" "" span
  | .duplicateFunction _ span => .duplicateFunction "" span
  | .duplicateParameter _ span => .duplicateParameter "" span
  | .duplicateVariable _ _ span => .duplicateVariable "" "" span
  | .undeclaredClass _ span => .undeclaredClass "" span
  | .unknownVariable _ span => .unknownVariable "" span
  | .unknownField _ _ span => .unknownField "" "" span
  | .unknownMethod _ _ span => .unknownMethod "" "" span
  | .unknownFunction _ span => .unknownFunction "" span
  | .tooManyArguments expected found span => .tooManyArguments expected found span
  | .notEnoughArguments expected found span => .notEnoughArguments expected found span
  | .typeMismatch _ _ span => .typeMismatch "" "" span
  | .invalidAssignment _ _ span => .invalidAssignment "" "" span
  | .invalidCondition construct _ span => .invalidCondition construct "" span
  | .invalidReturn _ _ span => .invalidReturn "" "" span
  | .incomparableTypes _ _ span => .incomparableTypes "" "" span
  | .notAnArray _ span => .notAnArray "" span
  | .notAClass _ span => .notAClass "" span
  | .thisOutsideMethod span => .thisOutsideMethod span
  | .overrideParameterCount _ span => .overrideParameterCount "" span
  | .overrideParameterType _ span => .overrideParameterType "" span
  | .overrideReturnType _ span => .overrideReturnType "" span
  | .missingReturn _ span => .missingReturn "" span
  | .unreachableStatement span => .unreachableStatement span
  | .missingMain => .missingMain
  | .mainReturnType span => .mainReturnType span
  | .mainParameters span => .mainParameters span
  | .mainMissingReturn span => .mainMissingReturn span

/-- Without its names, a diagnostic still points to its place. -/
@[simp]
theorem span?_unnamed (d : Diagnostic) : d.unnamed.span? = d.span? := by
  cases d <;> rfl

end Diagnostic

section members

def TypedVar.rename (ρ : String → String) (v : TypedVar) : TypedVar :=
  ⟨v.decl.relabel (.rename ρ), v.type.rename ρ⟩

def Scope.rename (ρ : String → String) (s : Scope) : Scope :=
  ⟨ρ s.function, s.returnType.rename ρ, s.vars.map (·.rename ρ)⟩

def TypedMethod.rename (ρ : String → String) (m : TypedMethod) : TypedMethod :=
  ⟨m.decl.relabel (.rename ρ), m.params.map (·.rename ρ), m.returnType.rename ρ⟩

def ClassMembers.rename (ρ : String → String) (m : ClassMembers) : ClassMembers :=
  ⟨m.cls.rename ρ, m.fields.map (·.rename ρ), m.methods.map (·.rename ρ)⟩

def MemberTable.rename (ρ : String → String) (t : MemberTable) : MemberTable :=
  ⟨t.members.map (·.rename ρ)⟩

def ClassTable.rename (ρ : String → String) (t : ClassTable) : ClassTable :=
  ⟨t.classes.map (·.rename ρ)⟩

/-- The built-in function keeps its name. -/
def FunctionTable.rename (ρ : String → String) (t : FunctionTable) : FunctionTable :=
  ⟨t.printName, t.functions.map (·.relabel (.rename ρ))⟩

def GlobalFunction.rename (ρ : String → String) : GlobalFunction → GlobalFunction
  | .print => .print
  | .declared decl => .declared (decl.relabel (.rename ρ))

def Surroundings.rename (ρ : String → String) (env : Surroundings) : Surroundings :=
  ⟨env.classes.rename ρ, env.functions.rename ρ, env.members.rename ρ,
    env.current.map (·.rename ρ)⟩

/-- A declaration with its owner. -/
abbrev renameOwned {α : Type} (ρ : String → String) (f : α → α) (x : ClassRef × α) : ClassRef × α :=
  (x.1.rename ρ, f x.2)

variable (hρ : ρ.Injective)
include hρ

theorem Scope.find?_rename (s : Scope) (name : String) :
    (s.rename ρ).find? (ρ name) = (s.find? name).map (·.rename ρ) :=
  @ObjectLang.find?_rename ρ TypedVar TypedVar hρ (·.decl.name.name) (·.decl.name.name) (·.rename ρ)
    (fun _ => rfl) s.vars name

theorem ClassMembers.field?_rename (m : ClassMembers) (name : String) :
    (m.rename ρ).field? (ρ name) = (m.field? name).map (·.rename ρ) :=
  @find?_rename ρ TypedVar TypedVar hρ (·.decl.name.name) (·.decl.name.name) (·.rename ρ)
    (fun _ => rfl) m.fields name

theorem ClassMembers.method?_rename (m : ClassMembers) (name : String) :
    (m.rename ρ).method? (ρ name) = (m.method? name).map (·.rename ρ) :=
  @find?_rename ρ TypedMethod TypedMethod hρ (·.decl.name.name) (·.decl.name.name) (·.rename ρ)
    (fun _ => rfl) m.methods name

theorem ClassTable.find?_rename (t : ClassTable) (name : String) :
    (t.rename ρ).find? (ρ name) = (t.find? name).map (·.rename ρ) :=
  ObjectLang.find?_rename hρ (fun c => c.name_rename) t.classes name

theorem MemberTable.of?_rename (t : MemberTable) (c : ClassRef) :
    (t.rename ρ).of? (c.rename ρ) = (t.of? c).map (·.rename ρ) := by
  rw [of?, of?, rename, List.find?_map]
  exact congrArg _ (congrArg (List.find? · t.members)
    (funext fun m => m.cls.same_rename c hρ))

theorem MemberTable.field?_rename (t : MemberTable) (c : ClassRef) (name : String) :
    (t.rename ρ).field? (c.rename ρ) (ρ name) =
      (t.field? c name).map (renameOwned ρ (·.rename ρ)) := by
  rw [field?, field?, ClassRef.ancestors_rename, List.findSome?_map, List.map_findSome?]
  congr 1
  funext owner
  rw [Function.comp_apply, t.of?_rename hρ, Function.comp_apply]
  cases t.of? owner with
  | none => rfl
  | some m =>
      simp only [Option.map_some, Option.bind_some, m.field?_rename hρ, Option.map_map]
      rfl

theorem MemberTable.method?_rename (t : MemberTable) (c : ClassRef) (name : String) :
    (t.rename ρ).method? (c.rename ρ) (ρ name) =
      (t.method? c name).map (renameOwned ρ (·.rename ρ)) := by
  rw [method?, method?, ClassRef.ancestors_rename, List.findSome?_map, List.map_findSome?]
  congr 1
  funext owner
  rw [Function.comp_apply, t.of?_rename hρ, Function.comp_apply]
  cases t.of? owner with
  | none => rfl
  | some m =>
      simp only [Option.map_some, Option.bind_some, m.method?_rename hρ, Option.map_map]
      rfl

theorem FunctionTable.declared?_rename (t : FunctionTable) (name : String) :
    (t.rename ρ).declared? (ρ name) = (t.declared? name).map (·.relabel (.rename ρ)) :=
  @ObjectLang.find?_rename ρ FunctionDecl FunctionDecl hρ (·.name.name) (·.name.name)
    (·.relabel (.rename ρ)) (fun _ => rfl) t.functions name

theorem FunctionTable.find?_rename (t : FunctionTable) (hprint : ρ t.printName = t.printName)
    (name : String) : (t.rename ρ).find? (ρ name) = (t.find? name).map (·.rename ρ) := by
  have hname : (ρ name == t.printName) = (name == t.printName) := by
    conv_lhs => rw [← hprint]
    exact hρ.beq_eq
  rw [find?, find?, t.declared?_rename hρ]
  simp only [rename, hname]
  split
  · rfl
  · rw [Option.map_map, Option.map_map]
    rfl

end members

section findings

def Binding.rename (ρ : String → String) : Binding → Binding
  | .variable decl => .variable (decl.relabel (.rename ρ))
  | .field owner decl => .field (owner.rename ρ) (decl.relabel (.rename ρ))

def CallTarget.rename (ρ : String → String) : CallTarget → CallTarget
  | .print => .print
  | .function decl => .function (decl.relabel (.rename ρ))
  | .method owner decl => .method (owner.rename ρ) (decl.relabel (.rename ρ))

def Callee.rename (ρ : String → String) (c : Callee) : Callee :=
  ⟨c.params.map (·.rename ρ), c.target.rename ρ, c.returnType.rename ρ⟩

/-- The same is known, up to the names. -/
structure Notes.Renamed (ρ : String → String) (n n' : Notes) : Prop where
  type : ∀ id, n'.type? id = (n.type? id).map (·.rename ρ)
  typeExpr : ∀ id, n'.typeExpr? id = (n.typeExpr? id).map (·.rename ρ)
  binding : ∀ id, n'.binding? id = (n.binding? id).map (·.rename ρ)
  call : ∀ id, n'.call? id = (n.call? id).map (·.rename ρ)

/-- The same has been found out and reported, up to the names. -/
structure Findings.Renamed (ρ : String → String) (f f' : Findings) : Prop where
  arrays : f'.arrays = f.arrays.rename ρ
  notes : f.notes.Renamed ρ f'.notes
  diagnostics : f'.diagnostics.map (·.unnamed) = f.diagnostics.map (·.unnamed)

theorem Findings.renamed_start {ds ds' : List Diagnostic}
    (h : ds'.map (·.unnamed) = ds.map (·.unnamed)) : Findings.Renamed ρ
      { diagnostics := ds.toArray } { diagnostics := ds'.toArray } :=
  ⟨by simp [ArrayTypes.rename], ⟨fun _ => rfl, fun _ => rfl, fun _ => rfl, fun _ => rfl⟩,
    by simp [h]⟩

end findings

namespace Check

variable {α α' β β' : Type}

/-- Two parts of the analysis find out the same up to the names, and the second gives what the first
gives with other names. -/
abbrev Renames (ρ : String → String) (g : α → α') (m : Check α) (m' : Check α') : Prop :=
  Tandem (Findings.Renamed ρ) g m m'

namespace Renames

variable {g : α → α'}

theorem report {d d' : Diagnostic} (hd : d'.unnamed = d.unnamed) :
    Renames ρ id (Check.report d) (Check.report d') := by
  intro f f' hf
  refine ⟨rfl, hf.arrays, hf.notes, ?_⟩
  change (f'.diagnostics.push d').map _ = (f.diagnostics.push d).map _
  rw [Array.map_push, Array.map_push, hf.diagnostics, hd]

/-- What cannot be found out is reported. -/
theorem reporting {d d' : Diagnostic} {a : α} {a' : α'} (hd : d'.unnamed = d.unnamed)
    (ha : a' = g a) : Renames ρ g (do Check.report d; Pure.pure a)
      (do Check.report d'; Pure.pure a') :=
  (report hd).andThen (.pure ha)

theorem require {c c' : Bool} {d d' : Diagnostic} (hc : c' = c) (hd : d'.unnamed = d.unnamed) :
    Renames ρ id (Check.require c d) (Check.require c' d') := by
  rw [Check.require, Check.require, hc]
  split
  · exact .pure rfl
  · exact report hd

end Renames

section notes

/-- One more node is noted on both sides. -/
theorem option_insert {α β : Type} {r : α → β} {i j : Nat} {a : α} {o : Option α} {o' : Option β}
    (h : o' = o.map r) :
    (if i = j then some (r a) else o') = (if i = j then some a else o).map r := by
  split
  · rfl
  · exact h

theorem renames_noteType (i : Nat) (t : ValueType) :
    Renames ρ id (noteType i t) (noteType i (t.rename ρ)) := by
  refine fun f f' hf => ⟨rfl, hf.arrays, ⟨fun j => ?_, hf.notes.typeExpr, hf.notes.binding,
    hf.notes.call⟩, hf.diagnostics⟩
  change ((noteType i _).after f').notes.type? j = (((noteType i _).after f).notes.type? j).map _
  rw [type?_insert, type?_insert]
  exact option_insert (hf.notes.type j)

theorem renames_noteTypeExpr (i : Nat) (t : ValueType) :
    Renames ρ id (noteTypeExpr i t) (noteTypeExpr i (t.rename ρ)) := by
  refine fun f f' hf => ⟨rfl, hf.arrays, ⟨hf.notes.type, fun j => ?_, hf.notes.binding,
    hf.notes.call⟩, hf.diagnostics⟩
  change ((noteTypeExpr i _).after f').notes.typeExpr? j =
    (((noteTypeExpr i _).after f).notes.typeExpr? j).map _
  rw [typeExpr?_insert, typeExpr?_insert]
  exact option_insert (hf.notes.typeExpr j)

theorem renames_noteBinding (i : Nat) (b : Binding) :
    Renames ρ id (noteBinding i b) (noteBinding i (b.rename ρ)) := by
  refine fun f f' hf => ⟨rfl, hf.arrays, ⟨hf.notes.type, hf.notes.typeExpr, fun j => ?_,
    hf.notes.call⟩, hf.diagnostics⟩
  change ((noteBinding i _).after f').notes.binding? j =
    (((noteBinding i _).after f).notes.binding? j).map _
  rw [binding?_insert, binding?_insert]
  exact option_insert (hf.notes.binding j)

theorem renames_noteCall (i : Nat) (c : CallTarget) :
    Renames ρ id (noteCall i c) (noteCall i (c.rename ρ)) := by
  refine fun f f' hf => ⟨rfl, hf.arrays, ⟨hf.notes.type, hf.notes.typeExpr, hf.notes.binding,
    fun j => ?_⟩, hf.diagnostics⟩
  change ((noteCall i _).after f').notes.call? j = (((noteCall i _).after f).notes.call? j).map _
  rw [call?_insert, call?_insert]
  exact option_insert (hf.notes.call j)

theorem renames_noting (i : Nat) {m m' : Check ValueType} (h : Renames ρ (·.rename ρ) m m') :
    Renames ρ (·.rename ρ) (noting i m) (noting i m') :=
  h.bind fun t => (renames_noteType i t).andThen (.pure rfl)

end notes

section types

variable (hρ : ρ.Injective)
include hρ

theorem renames_arrayOf (c : ValueType) :
    Renames ρ (·.rename ρ) (arrayOf c) (arrayOf (c.rename ρ)) := by
  intro f f' hf
  have h := f.arrays.arrayOf_rename hρ c
  rw [← hf.arrays] at h
  exact ⟨congrArg Prod.fst h, congrArg Prod.snd h, hf.notes, hf.diagnostics⟩

theorem renames_checkType (classes : ClassTable) : ∀ t : TypeExpr, Renames ρ (·.rename ρ)
    (checkType classes t) (checkType (classes.rename ρ) (t.relabel (.rename ρ))) := by
  -- A type that has a meaning already has the renamed one in the other tree.
  have hnoted : ∀ t : TypeExpr, Renames ρ (·.rename ρ) (newMeaning classes t)
      (newMeaning (classes.rename ρ) (t.relabel (.rename ρ))) → Renames ρ (·.rename ρ)
        (checkType classes t) (checkType (classes.rename ρ) (t.relabel (.rename ρ))) := by
    intro t hnew f f' hf
    have hid := hf.notes.typeExpr t.id
    cases hT : f.notes.typeExpr? t.id with
    | some T =>
        rw [hT, Option.map_some, ← t.id_rename (ρ := ρ)] at hid
        have hrun := checkType_of_noted classes hT
        have hrun' := checkType_of_noted (classes.rename ρ) hid
        rw [hrun, hrun']
        exact ⟨rfl, hf⟩
    | none =>
        rw [hT, Option.map_none, ← t.id_rename (ρ := ρ)] at hid
        have hrun := checkType_of_new classes hT
        have hrun' := checkType_of_new (classes.rename ρ) hid
        rw [hrun, hrun', t.id_rename]
        exact (hnew.bind fun T => (renames_noteTypeExpr t.id T).andThen (.pure rfl)) f f' hf
  intro t
  induction t with
  | int | bool => exact hnoted _ (.pure rfl)
  | named tag name =>
      refine hnoted _ ?_
      simp only [TypeExpr.relabel, newMeaning, Ident.name_rename, classes.find?_rename hρ]
      cases classes.find? name.name with
      | none => exact Renames.reporting rfl rfl
      | some cls => exact .pure rfl
  | array tag component ih => exact hnoted _ (ih.bind fun c => renames_arrayOf hρ c)

end types

section parts

variable (hρ : ρ.Injective) {env : Surroundings} {scope : Scope}

theorem renames_requireArray (found : ValueType) (span : Span) : Renames ρ (·.rename ρ)
    (requireArray found span) (requireArray (found.rename ρ) span) := by
  cases found with
  | array | any => exact .pure rfl
  | _ => exact Renames.reporting rfl rfl

theorem renames_requireObject (found : ValueType) (span : Span) :
    Renames ρ (Option.map (·.rename ρ)) (requireObject found span)
      (requireObject (found.rename ρ) span) := by
  cases found with
  | object | any => exact .pure rfl
  | _ => exact Renames.reporting rfl rfl

theorem renames_checkArity (expected found : Nat) (span : Span) :
    Renames ρ id (checkArity expected found span) (checkArity expected found span) := by
  rw [checkArity]
  split_ifs
  · exact Renames.reporting rfl rfl
  · exact Renames.reporting rfl rfl
  · exact .pure rfl

include hρ

theorem renames_bindField (i : Nat) (cls : ClassRef) (name : String) {unknown unknown' : Diagnostic}
    (hunknown : unknown'.unnamed = unknown.unnamed) : Renames ρ (·.rename ρ)
      (bindField env i cls name unknown)
      (bindField (env.rename ρ) i (cls.rename ρ) (ρ name) unknown') := by
  rw [bindField, bindField]
  simp only [Surroundings.rename, env.members.field?_rename hρ]
  cases env.members.field? cls name with
  | none => exact Renames.reporting hunknown rfl
  | some x => exact (renames_noteBinding i (.field x.1 x.2.decl)).andThen (.pure rfl)

theorem renames_bindVariable (i : Nat) (name : Ident) : Renames ρ (·.rename ρ)
    (bindVariable env scope i name)
    (bindVariable (env.rename ρ) (scope.rename ρ) i (name.relabel (.rename ρ))) := by
  rw [bindVariable, bindVariable]
  simp only [Ident.name_rename, scope.find?_rename hρ]
  cases scope.find? name.name with
  | some v => exact (renames_noteBinding i (.variable v.decl)).andThen (.pure rfl)
  | none =>
      simp only [Surroundings.rename, Option.map_none]
      cases env.current with
      | none => exact Renames.reporting rfl rfl
      | some cls => exact renames_bindField hρ i cls name.name rfl

theorem renames_checkNewObject (name : Ident) : Renames ρ (·.rename ρ)
    (checkNewObject env name) (checkNewObject (env.rename ρ) (name.relabel (.rename ρ))) := by
  rw [checkNewObject, checkNewObject]
  simp only [Surroundings.rename, Ident.name_rename, env.classes.find?_rename hρ]
  cases env.classes.find? name.name with
  | none => exact Renames.reporting rfl rfl
  | some cls => exact .pure rfl

theorem methodCallee?_rename (cls : ClassRef) (name : String) :
    methodCallee? (env.rename ρ) (cls.rename ρ) (ρ name) =
      (methodCallee? env cls name).map (·.rename ρ) := by
  rw [methodCallee?, methodCallee?]
  simp only [Surroundings.rename, env.members.method?_rename hρ, Option.map_map]
  rfl

theorem renames_signatureOf (decl : FunctionDecl) :
    Renames ρ (fun x => (x.1.map (·.rename ρ), x.2.rename ρ)) (signatureOf env.classes decl)
      (signatureOf (env.rename ρ).classes (decl.relabel (.rename ρ))) :=
  (Tandem.mapM (r := VarDecl.relabel (.rename ρ)) fun d _ =>
    renames_checkType hρ env.classes d.type).bind
    fun _ => (renames_checkType hρ env.classes decl.returnType).bind fun _ => .pure rfl

theorem renames_callee? (hprint : ρ env.functions.printName = env.functions.printName)
    (name : Ident) : Renames ρ (Option.map (·.rename ρ)) (callee? env name)
      (callee? (env.rename ρ) (name.relabel (.rename ρ))) := by
  rw [callee?_eq, callee?_eq]
  refine .option (g := Callee.rename ρ) ?_ ?_ fun c => .pure rfl
  · simp only [Surroundings.rename, Ident.name_rename]
    cases env.current with
    | none => rfl
    | some cls => exact methodCallee?_rename hρ cls name.name
  · simp only [Surroundings.rename, Ident.name_rename, env.functions.find?_rename hρ hprint]
    cases env.functions.find? name.name with
    | none => exact Renames.reporting rfl rfl
    | some callee =>
        cases callee with
        | print => exact .pure rfl
        | declared decl => exact (renames_signatureOf hρ decl).bind fun _ => .pure rfl

end parts

section expressions

theorem unaryType_rename (op : UnaryOp) : unaryType op = (unaryType op).rename ρ := by
  cases op <;> rfl

theorem operandType_rename (op : BinaryOp) : operandType op = (operandType op).rename ρ := by
  cases op <;> rfl

theorem resultType_rename (op : BinaryOp) : resultType op = (resultType op).rename ρ := by
  cases op <;> rfl

variable (hρ : ρ.Injective) {env : Surroundings}
  (hprint : ρ env.functions.printName = env.functions.printName)
include hρ

theorem renames_operandOf {scope : Scope} {T T' : ValueType} (hT : T' = T.rename ρ) {e : Expr}
    (he : Renames ρ (·.rename ρ) (checkExpr env scope e)
      (checkExpr (env.rename ρ) (scope.rename ρ) (e.relabel (.rename ρ)))) :
    Renames ρ id (operandOf env scope T e (mismatch T e))
      (operandOf (env.rename ρ) (scope.rename ρ) T' (e.relabel (.rename ρ))
        (mismatch T' (e.relabel (.rename ρ)))) := by
  subst hT
  refine he.bind fun found => Renames.require (found.isSubtype_rename T hρ) ?_
  simp only [mismatch, Diagnostic.unnamed, e.span_rename]

omit hρ in
theorem renames_applied {scope : Scope} (tag : Tag) {args : List Expr}
    (hargs : ∀ params : List ValueType, Renames ρ id (checkArguments env scope args params)
      (checkArguments (env.rename ρ) (scope.rename ρ) (relabelArguments (.rename ρ) args)
        (params.map (·.rename ρ)))) (c : Callee) :
    Renames ρ (·.rename ρ) (applied env scope tag args c)
      (applied (env.rename ρ) (scope.rename ρ) tag (relabelArguments (.rename ρ) args)
        (c.rename ρ)) := by
  rw [applied, applied, length_relabelArguments]
  simp only [Callee.rename, List.length_map]
  refine (renames_checkArity _ _ _).bind fun fits => ?_
  refine Tandem.andThen ?_ ((renames_noteCall tag.id c.target).andThen (.pure rfl))
  cases fits with
  | true => exact hargs c.params
  | false => exact .pure rfl

include hprint

omit hprint in
mutual

theorem renames_checkExpr
    (hprint : ρ env.functions.printName = env.functions.printName) (scope : Scope) : ∀ e : Expr,
    Renames ρ (·.rename ρ)
    (checkExpr env scope e)
    (checkExpr (env.rename ρ) (scope.rename ρ) (e.relabel (.rename ρ)))
  | .unary tag op operand => by
      have ih := renames_checkExpr hprint scope operand
      rw [Expr.relabel, checkExpr_unary, checkExpr_unary]
      exact renames_noting _ ((renames_operandOf hρ (unaryType_rename op) ih).andThen
        (.pure (unaryType_rename op)))
  | .binary tag op left right => by
      have hl := renames_checkExpr hprint scope left
      have hr := renames_checkExpr hprint scope right
      rw [Expr.relabel]
      by_cases hop : op = .equal
      · subst hop
        rw [checkExpr_equal, checkExpr_equal]
        refine renames_noting _ (hl.bind fun t => hr.bind fun u => ?_)
        rw [t.isSubtype_rename u hρ, u.isSubtype_rename t hρ]
        exact Tandem.andThen (Renames.require rfl rfl) (.pure rfl)
      · rw [checkExpr_binary hop, checkExpr_binary hop]
        exact renames_noting _ ((renames_operandOf hρ (operandType_rename op) hl).andThen
          ((renames_operandOf hρ (operandType_rename op) hr).andThen
            (.pure (resultType_rename op))))
  | .number tag value => by
      rw [Expr.relabel, checkExpr_number, checkExpr_number]
      exact renames_noting _ (.pure rfl)
  | .bool tag value => by
      rw [Expr.relabel, checkExpr_bool, checkExpr_bool]
      exact renames_noting _ (.pure rfl)
  | .null tag => by
      rw [Expr.relabel, checkExpr_null, checkExpr_null]
      exact renames_noting _ (.pure rfl)
  | .this tag => by
      rw [Expr.relabel, checkExpr_this, checkExpr_this]
      refine renames_noting _ ?_
      simp only [Surroundings.rename]
      cases env.current with
      | none => exact Renames.reporting rfl rfl
      | some cls => exact .pure rfl
  | .read tag location => by
      have ih := renames_checkLocation hprint scope location
      rw [Expr.relabel, checkExpr_read, checkExpr_read]
      exact renames_noting _ ih
  | .arrayLength tag array => by
      have ih := renames_checkExpr hprint scope array
      rw [Expr.relabel, checkExpr_arrayLength, checkExpr_arrayLength, array.span_rename]
      exact renames_noting _ (ih.bind fun found =>
        (renames_requireArray found _).bind fun _ => .pure rfl)
  | .newObject tag cls => by
      rw [Expr.relabel, checkExpr_newObject, checkExpr_newObject]
      exact renames_noting _ (renames_checkNewObject hρ cls)
  | .newArray tag element size => by
      have ih := renames_checkExpr hprint scope size
      rw [Expr.relabel, checkExpr_newArray, checkExpr_newArray]
      exact renames_noting _ ((renames_operandOf hρ rfl ih).andThen
        ((renames_checkType hρ env.classes element).bind fun c => renames_arrayOf hρ c))
  | .call tag name args => by
      have ih := renames_checkArguments hprint scope args
      rw [Expr.relabel, checkExpr_call, checkExpr_call]
      exact renames_noting _ ((renames_callee? hρ hprint name).bind fun callee =>
        .option rfl (.pure rfl) (renames_applied tag ih))
  | .methodCall tag receiver name args => by
      have hreceiver := renames_checkExpr hprint scope receiver
      have ih := renames_checkArguments hprint scope args
      rw [Expr.relabel, checkExpr_methodCall, checkExpr_methodCall]
      refine renames_noting _ (Tandem.bind (g := Option.map (·.rename ρ)) ?_ fun found =>
        .option rfl (.pure rfl) fun cls => ?_)
      · rw [objectOf, objectOf, receiver.span_rename]
        exact hreceiver.bind fun found => renames_requireObject found _
      · exact .option (methodCallee?_rename hρ cls name.name) (Renames.reporting rfl rfl)
          (renames_applied tag ih)
termination_by structural e => e

theorem renames_checkLocation
    (hprint : ρ env.functions.printName = env.functions.printName) (scope : Scope) : ∀ l : Location,
    Renames ρ (·.rename ρ)
    (checkLocation env scope l)
    (checkLocation (env.rename ρ) (scope.rename ρ) (l.relabel (.rename ρ)))
  | .var tag name => by
      rw [Location.relabel, checkLocation_var, checkLocation_var]
      exact renames_noting _ (renames_bindVariable hρ _ name)
  | .field tag receiver name => by
      have ih := renames_checkExpr hprint scope receiver
      rw [Location.relabel, checkLocation_field, checkLocation_field]
      refine renames_noting _ (Tandem.bind (g := Option.map (·.rename ρ)) ?_ fun found =>
        .option rfl (.pure rfl) fun cls => ?_)
      · rw [objectOf, objectOf, receiver.span_rename]
        exact ih.bind fun found => renames_requireObject found _
      · exact renames_bindField hρ _ cls name.name rfl
  | .index tag array index => by
      have harray := renames_checkExpr hprint scope array
      have hindex := renames_checkExpr hprint scope index
      rw [Location.relabel, checkLocation_index, checkLocation_index, array.span_rename]
      refine renames_noting _ (harray.bind fun found => (renames_requireArray found _).bind fun t =>
        (renames_operandOf hρ rfl hindex).andThen (.pure ?_))
      rw [t.component?_rename]
      cases t.component? <;> rfl
termination_by structural l => l

theorem renames_checkArguments
    (hprint : ρ env.functions.printName = env.functions.printName) (scope : Scope) :
    ∀ (args : List Expr) (params : List ValueType),
    Renames ρ id (checkArguments env scope args params)
      (checkArguments (env.rename ρ) (scope.rename ρ) (relabelArguments (.rename ρ) args)
        (params.map (·.rename ρ)))
  | [], _ => by
      unfold checkArguments
      exact .pure rfl
  | e :: es, [] => by
      unfold checkArguments
      exact .pure rfl
  | e :: es, T :: Ts => by
      have he := renames_checkExpr hprint scope e
      have ih := renames_checkArguments hprint scope es Ts
      rw [relabelArguments, List.map_cons, checkArguments_cons, checkArguments_cons]
      exact (renames_operandOf hρ rfl he).andThen ih
termination_by structural args => args

end

end expressions

section statements

variable (hρ : ρ.Injective) {env : Surroundings}
  (hprint : ρ env.functions.printName = env.functions.printName)
include hρ

theorem renames_checkDeclaration (scope : Scope) (decl : VarDecl) : Renames ρ (·.rename ρ)
    (checkDeclaration env scope decl)
    (checkDeclaration (env.rename ρ) (scope.rename ρ) (decl.relabel (.rename ρ))) := by
  rw [checkDeclaration, checkDeclaration, VarDecl.name_rename, scope.find?_rename hρ,
    Option.isNone_map]
  exact Tandem.andThen (Renames.require rfl rfl)
    ((renames_checkType hρ env.classes decl.type).bind fun T => .pure rfl)

theorem renames_declareParameters (scope : Scope) (params : List VarDecl) :
    Renames ρ (·.rename ρ) (declareParameters env scope params)
      (declareParameters (env.rename ρ) (scope.rename ρ)
        (params.map (·.relabel (.rename ρ)))) := by
  refine .foldlM (fun scope d => ?_) params scope
  simp only [VarDecl.name_rename, scope.find?_rename hρ, Option.isNone_map]
  exact Tandem.andThen (Renames.require rfl rfl)
    ((renames_checkType hρ env.classes d.type).bind fun T => .pure rfl)

include hprint

theorem renames_checkAssignment (scope : Scope) (target : Location) (value : Expr) :
    Renames ρ id (checkAssignment env scope target value)
      (checkAssignment (env.rename ρ) (scope.rename ρ) (target.relabel (.rename ρ))
        (value.relabel (.rename ρ))) := by
  refine (renames_checkLocation hρ hprint scope target).bind fun expected =>
    (renames_checkExpr hρ hprint scope value).bind fun found =>
      Renames.require (found.isSubtype_rename expected hρ) ?_
  simp only [Diagnostic.unnamed, value.span_rename]

theorem renames_checkCondition (scope : Scope) (construct : Conditional) (condition : Expr) :
    Renames ρ id (checkCondition env scope construct condition)
      (checkCondition (env.rename ρ) (scope.rename ρ) construct
        (condition.relabel (.rename ρ))) := by
  refine (renames_checkExpr hρ hprint scope condition).bind fun found =>
    Renames.require (found.isSubtype_rename .bool hρ) ?_
  simp only [Diagnostic.unnamed, condition.span_rename]

theorem renames_checkReturn (scope : Scope) (span : Span) (value : Expr) :
    Renames ρ id (checkReturn env scope span value)
      (checkReturn (env.rename ρ) (scope.rename ρ) span (value.relabel (.rename ρ))) :=
  (renames_checkExpr hρ hprint scope value).bind fun found =>
    Renames.require (found.isSubtype_rename scope.returnType hρ) rfl

omit hρ hprint in
mutual

theorem renames_checkStmt (hρ : ρ.Injective)
    (hprint : ρ env.functions.printName = env.functions.printName) : ∀ (scope : Scope) (s : Stmt),
    Renames ρ (·.rename ρ)
    (checkStmt env scope s)
    (checkStmt (env.rename ρ) (scope.rename ρ) (s.relabel (.rename ρ)))
  | scope, .declare decl => renames_checkDeclaration hρ scope decl
  | scope, .eval value => (renames_checkExpr hρ hprint scope value).bind fun _ => .pure rfl
  | scope, .assign _ target value =>
      (renames_checkAssignment hρ hprint scope target value).andThen (.pure rfl)
  | scope, .branch _ condition onTrue none =>
      (renames_checkCondition hρ hprint scope .branch condition).andThen
        ((renames_checkStmt hρ hprint scope.enter onTrue).bind fun _ => .pure rfl)
  | scope, .branch _ condition onTrue (some onFalse) =>
      (renames_checkCondition hρ hprint scope .branch condition).andThen
        ((renames_checkStmt hρ hprint scope.enter onTrue).bind fun _ =>
          (renames_checkStmt hρ hprint scope.enter onFalse).bind fun _ => .pure rfl)
  | scope, .loop _ condition body =>
      (renames_checkCondition hρ hprint scope .loop condition).andThen
        ((renames_checkStmt hρ hprint scope.enter body).bind fun _ => .pure rfl)
  | scope, .return span value =>
      (renames_checkReturn hρ hprint scope span value).andThen (.pure rfl)
  | scope, .block _ body => (renames_checkBlock hρ hprint scope.enter body).andThen (.pure rfl)
termination_by structural _ s => s

theorem renames_checkBlock (hρ : ρ.Injective)
    (hprint : ρ env.functions.printName = env.functions.printName) :
    ∀ (scope : Scope) (body : List Stmt), Renames ρ id
    (checkBlock env scope body)
    (checkBlock (env.rename ρ) (scope.rename ρ) (relabelBody (.rename ρ) body))
  | _, [] => .pure rfl
  | scope, s :: rest => (renames_checkStmt hρ hprint scope s).bind fun scope =>
    renames_checkBlock hρ hprint scope rest
termination_by structural _ body => body

end

theorem renames_checkFunction (f : FunctionDecl) : Renames ρ id (checkFunction env f)
    (checkFunction (env.rename ρ) (f.relabel (.rename ρ))) :=
  (renames_checkType hρ env.classes f.returnType).bind fun T =>
    (renames_declareParameters hρ ⟨f.name.name, T, []⟩ f.params).bind fun scope =>
      renames_checkBlock hρ hprint scope.enter f.body

end statements

end Check
end ObjectLang
