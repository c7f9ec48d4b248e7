import Mathlib.Tactic
import ObjectLang.Proofs.Analysis.Frames
import ObjectLang.Proofs.Analysis.States
import ObjectLang.Proofs.Analysis.Visibility

/-!
# Variables are scoped lexically

When analysis comes to a variable, it notes the meaning that the declarations around the variable
give to its name, or reports that there is none. What is noted of other nodes is noted elsewhere, as
nodes have different identities, and so it stays until the end of the analysis, whatever else is
wrong with the program.
-/
namespace ObjectLang

variable {p : Program} {f : Findings}

/-- What is noted of a variable is what its name stands for, and if that is nothing, it is
reported. -/
structure Findings.Resolves (f : Findings) (meaning : Option Binding) (tag : Tag) (name : Ident) :
    Prop where
  binding : f.notes.binding? tag.id = meaning
  unknown : meaning = none → .unknownVariable name.name name.span ∈ f.diagnostics

/-- The meaning of a name at the place of a node. -/
def Occurrence.meaning? (o : Occurrence) (p : Program) (name : String) : Option Binding :=
  p.meaning? o.current [o.vars] name

/-- Notes are of nodes that analysis may come to. A variable that has a type has its meaning, and no
variable ever has another one. -/
structure Findings.Scoped (p : Program) (f : Findings) : Prop where
  types : ∀ id, (f.notes.type? id).isSome → ∃ o ∈ p.occurrences, o.id = id
  bindings : ∀ o ∈ p.occurrences, ∀ tag name, o.node = .location (.var tag name) →
    ∀ b, f.notes.binding? tag.id = some b → o.meaning? p name.name = some b
  resolved : ∀ o ∈ p.occurrences, ∀ tag name, o.node = .location (.var tag name) →
    (f.notes.type? tag.id).isSome → f.Resolves (o.meaning? p name.name) tag name

theorem Findings.Scoped.of_eq {g : Findings} (h : f.Scoped p)
    (htypes : g.notes.types = f.notes.types) (hbindings : g.notes.bindings = f.notes.bindings)
    (hdiagnostics : ∀ d ∈ f.diagnostics, d ∈ g.diagnostics) : g.Scoped p := by
  have htype : ∀ id, g.notes.type? id = f.notes.type? id := fun id => by
    rw [Notes.type?, Notes.type?, htypes]
  have hbinding : ∀ id, g.notes.binding? id = f.notes.binding? id := fun id => by
    rw [Notes.binding?, Notes.binding?, hbindings]
  refine ⟨fun id hid => h.types id (htype id ▸ hid), fun o ho tag name hn b hb =>
    h.bindings o ho tag name hn b (hbinding tag.id ▸ hb), fun o ho tag name hn hid => ?_⟩
  obtain ⟨hb, hunknown⟩ := h.resolved o ho tag name hn (htype tag.id ▸ hid)
  exact ⟨(hbinding tag.id).trans hb, fun hnone => hdiagnostics _ (hunknown hnone)⟩

/-- Something is noted of a node and of no other. -/
theorem Findings.Scoped.noted {g : Findings} (h : f.Scoped p) (hp : p.ids.Nodup) {o : Occurrence}
    (ho : o ∈ p.occurrences) (htype : ∀ i ≠ o.id, g.notes.type? i = f.notes.type? i)
    (hbinding : ∀ i ≠ o.id, g.notes.binding? i = f.notes.binding? i)
    (hdiagnostics : ∀ d ∈ f.diagnostics, d ∈ g.diagnostics)
    (hresolves : ∀ tag name, o.node = .location (.var tag name) →
      g.Resolves (o.meaning? p name.name) tag name) : g.Scoped p := by
  have heq : ∀ o' ∈ p.occurrences, ∀ tag name, o'.node = .location (.var tag name) →
      tag.id = o.id → o' = o := by
    intro o' ho' tag name hn hid
    refine p.occurrence_unique hp ho' ho ?_
    rw [Occurrence.id, hn]
    exact hid
  refine ⟨fun id hid => ?_, fun o' ho' tag name hn b hb => ?_, fun o' ho' tag name hn hid => ?_⟩
  · by_cases hne : id = o.id
    · exact ⟨o, ho, hne.symm⟩
    · exact h.types id (htype id hne ▸ hid)
  · by_cases hne : tag.id = o.id
    · obtain rfl := heq o' ho' tag name hn hne
      exact (hresolves tag name hn).binding.symm.trans hb
    · exact h.bindings o' ho' tag name hn b (hbinding tag.id hne ▸ hb)
  · by_cases hne : tag.id = o.id
    · obtain rfl := heq o' ho' tag name hn hne
      exact hresolves tag name hn
    · obtain ⟨hb, hunknown⟩ := h.resolved o' ho' tag name hn (htype tag.id hne ▸ hid)
      exact ⟨(hbinding tag.id hne).trans hb, fun hnone => hdiagnostics _ (hunknown hnone)⟩

/-- A part of the analysis keeps to the scopes of variables. -/
class Check.Scopes {α : Type} (p : Program) (m : Check α) : Prop where
  keeps : ∀ f : Findings, f.Scoped p → (m.after f).Scoped p

namespace Check

variable {α β : Type}

section

instance (a : α) : Scopes p (pure a : Check α) :=
  ⟨fun _ h => h⟩

instance scopes_bind {m : Check α} {k : α → Check β} [hm : Scopes p m] [hk : ∀ a, Scopes p (k a)] :
    Scopes p (m >>= k) :=
  ⟨fun f h => (hk _).keeps _ (hm.keeps f h)⟩

instance : Scopes p (get : Check Findings) :=
  ⟨fun _ h => h⟩

instance (d : Diagnostic) : Scopes p (report d) :=
  ⟨fun _ h => h.of_eq rfl rfl fun _ => Array.mem_push_of_mem d⟩

instance {c : Prop} [Decidable c] {m n : Check α} [hm : Scopes p m] [hn : Scopes p n] :
    Scopes p (if c then m else n) := by
  split
  · exact hm
  · exact hn

instance {o : Option β} {m : Check α} {k : β → Check α} [hm : Scopes p m]
    [hk : ∀ b, Scopes p (k b)] : Scopes p (o.elim m k) := by
  cases o
  · exact hm
  · exact hk _

instance (condition : Bool) (d : Diagnostic) : Scopes p (require condition d) :=
  inferInstanceAs (Scopes p (if condition then pure () else report d))

instance (c : ValueType) : Scopes p (arrayOf c) :=
  ⟨fun _ h => h.of_eq rfl rfl fun _ hd => hd⟩

instance (id : Nat) (t : ValueType) : Scopes p (noteTypeExpr id t) :=
  ⟨fun _ h => h.of_eq rfl rfl fun _ hd => hd⟩

instance (id : Nat) (c : CallTarget) : Scopes p (noteCall id c) :=
  ⟨fun _ h => h.of_eq rfl rfl fun _ hd => hd⟩

instance scopes_checkType (classes : ClassTable) : (t : TypeExpr) → Scopes p (checkType classes t)
  | .int _ | .bool _ => by
      unfold checkType
      refine @scopes_bind _ _ _ _ _ _ fun f => ?_
      split <;> infer_instance
  | .named _ name => by
      unfold checkType
      refine @scopes_bind _ _ _ _ _ _ fun f => ?_
      split
      · infer_instance
      · simp only
        split <;> infer_instance
  | .array _ component => by
      have := scopes_checkType classes component
      unfold checkType
      refine @scopes_bind _ _ _ _ _ _ fun f => ?_
      split <;> infer_instance

instance scopes_mapM (g : α → Check β) [h : ∀ a, Scopes p (g a)] :
    (l : List α) → Scopes p (l.mapM g)
  | [] => by
      rw [List.mapM_nil]
      infer_instance
  | a :: l => by
      have := scopes_mapM g l
      rw [List.mapM_cons]
      infer_instance

instance scopes_foldlM (g : β → α → Check β) [h : ∀ b a, Scopes p (g b a)] :
    (l : List α) → (b : β) → Scopes p (l.foldlM g b)
  | [], b => by
      rw [List.foldlM_nil]
      infer_instance
  | a :: l, b => by
      have := scopes_foldlM g l
      rw [List.foldlM_cons]
      infer_instance

theorem scopes_forM {g : α → Check PUnit} {l : List α} (h : ∀ a ∈ l, Scopes p (g a)) :
    Scopes p (l.forM g) := by
  induction l with
  | nil => exact inferInstanceAs (Scopes p (pure PUnit.unit))
  | cons a l ih =>
      rw [List.forall_mem_cons] at h
      have := h.1
      have := ih h.2
      exact inferInstanceAs (Scopes p (g a >>= fun _ => l.forM g))

instance (found : ValueType) (span : Span) : Scopes p (requireArray found span) := by
  unfold requireArray
  split <;> infer_instance

instance (found : ValueType) (span : Span) : Scopes p (requireObject found span) := by
  unfold requireObject
  split <;> infer_instance

variable (env : Surroundings)

instance (name : Ident) : Scopes p (checkNewObject env name) := by
  unfold checkNewObject
  split <;> infer_instance

instance (decl : FunctionDecl) : Scopes p (functionCallee env decl) := by
  unfold functionCallee signatureOf
  infer_instance

instance (name : Ident) : Scopes p (callee? env name) := by
  rw [callee?_eq]
  split <;> infer_instance

instance (expected found : Nat) (span : Span) : Scopes p (checkArity expected found span) := by
  unfold checkArity
  infer_instance

instance (scope : Scope) (decl : VarDecl) : Scopes p (checkDeclaration env scope decl) := by
  unfold checkDeclaration
  infer_instance

instance (classes : ClassTable) : Scopes p (declareAll p classes) := by
  have hfield : ∀ m d, Scopes p (declareField classes m d) := fun m d => by
    unfold declareField
    refine @scopes_bind _ _ _ _ _ _ fun T => ?_
    split <;> infer_instance
  have hmethod : ∀ m d, Scopes p (declareMethod classes m d) := fun m d => by
    unfold declareMethod
    refine @scopes_bind _ _ _ _ _ _ fun params => @scopes_bind _ _ _ _ _ _ fun T => ?_
    split <;> infer_instance
  unfold declareAll declareMembers
  infer_instance

instance (classes : ClassTable) (members : List ClassMembers) :
    Scopes p (reportOverrides classes members) :=
  scopes_forM fun _ _ => scopes_forM fun _ _ => inferInstance

end

section nodes

variable (hp : p.ids.Nodup) {o : Occurrence} (ho : o ∈ p.occurrences)
include hp ho

theorem scopes_noteType (hnode : ∀ tag name, o.node ≠ .location (.var tag name)) (T : ValueType) :
    Scopes p (noteType o.id T) := by
  refine ⟨fun f h => h.noted hp ho (fun i hi => ?_) (fun _ _ => rfl) (fun _ hd => hd)
    fun tag name hn => (hnode tag name hn).elim⟩
  rw [type?_insert, if_neg hi]

theorem scopes_noteBinding (hnode : ∀ tag name, o.node ≠ .location (.var tag name))
    (b : Binding) : Scopes p (noteBinding o.id b) := by
  refine ⟨fun f h => h.noted hp ho (fun _ _ => rfl) (fun i hi => ?_) (fun _ hd => hd)
    fun tag name hn => (hnode tag name hn).elim⟩
  rw [binding?_insert, if_neg hi]

end nodes

end Check

/-- Fields are looked for in the classes of a program whose nodes have different identities. -/
structure Surroundings.Reads (p : Program) (env : Surroundings) : Prop where
  ids : p.ids.Nodup
  fields : ∀ cls ∈ env.current, ∀ name,
    (env.members.field? cls name).map (fun field => Binding.field field.1 field.2.decl) =
      cls.ancestors.findSome? fun owner => ((p.classDecl owner).field? name).map (.field owner)

namespace Check

variable {env : Surroundings} {scope : Scope}

/-- A variable gets the meaning of its name, or it is reported. -/
theorem after_bindVariable (henv : env.Reads p) (scope : Scope) (id : Nat) (name : Ident)
    (f : Findings) :
    (bindVariable env scope id name).after f =
      match p.meaning? env.current [scope.vars.map (·.decl)] name.name with
      | some b => (noteBinding id b).after f
      | none => (report (.unknownVariable name.name name.span)).after f := by
  have hlocal : [scope.vars.map (·.decl)].findSome?
      (fun block => block.find? (·.name.name == name.name)) =
        (scope.find? name.name).map (·.decl) := by
    rw [Scope.find?, List.findSome?_singleton, List.find?_map]
    rfl
  rw [Program.meaning?, hlocal, bindVariable]
  cases scope.find? name.name with
  | some var => rfl
  | none =>
      cases hcurrent : env.current with
      | none => rfl
      | some cls =>
          rw [Option.map_none, Option.bind_some, ← henv.fields cls hcurrent name.name]
          simp only [bindField]
          cases env.members.field? cls name.name <;> rfl

/-- The nodes of an expression that is checked in a scope are where its variables are visible. -/
def Seen (p : Program) (env : Surroundings) (scope : Scope) (nodes : List Node) : Prop :=
  ∀ n ∈ nodes, ⟨env.current, scope.vars.map (·.decl), n⟩ ∈ p.occurrences

theorem Seen.append_iff {nodes nodes' : List Node} :
    Seen p env scope (nodes ++ nodes') ↔ Seen p env scope nodes ∧ Seen p env scope nodes' :=
  List.forall_mem_append

theorem scopes_noting (henv : env.Reads p) {n : Node} {m : Check ValueType}
    (hn : ⟨env.current, scope.vars.map (·.decl), n⟩ ∈ p.occurrences)
    (hnode : ∀ tag name, n ≠ .location (.var tag name)) [Scopes p m] :
    Scopes p (noting n.id m) := by
  have : ∀ T, Scopes p (noteType n.id T) := scopes_noteType henv.ids hn hnode
  unfold noting
  infer_instance

theorem scopes_variable (henv : env.Reads p) {tag : Tag} {name : Ident}
    (hn : ⟨env.current, scope.vars.map (·.decl), .location (.var tag name)⟩ ∈ p.occurrences) :
    Scopes p (noting tag.id (bindVariable env scope tag.id name)) := by
  refine ⟨fun f h => ?_⟩
  have hafter := after_bindVariable henv scope tag.id name f
  have hnone := h.bindings _ hn tag name rfl
  rw [noting, after_bind, after_bind, after_pure, hafter]
  cases hmeaning : p.meaning? env.current [scope.vars.map (·.decl)] name.name with
  | some b =>
      refine h.noted henv.ids hn (fun i hi => ?_) (fun i hi => ?_) (fun _ hd => hd) ?_
      · exact (type?_insert _ _ _ _).trans (if_neg hi)
      · exact (binding?_insert f tag.id b i).trans (if_neg hi)
      · rintro _ _ ⟨⟩
        exact ⟨(binding?_insert f tag.id b tag.id).trans ((if_pos rfl).trans hmeaning.symm),
          fun h => absurd (hmeaning.symm.trans h) (Option.some_ne_none b)⟩
  | none =>
      refine h.noted henv.ids hn (fun i hi => ?_) (fun _ _ => rfl)
        (fun _ => Array.mem_push_of_mem _) ?_
      · exact (type?_insert _ _ _ _).trans (if_neg hi)
      · rintro _ _ ⟨⟩
        refine ⟨?_, fun _ => Array.mem_push_self⟩
        refine (Option.eq_none_iff_forall_ne_some.2 fun b hb => ?_).trans hmeaning.symm
        exact absurd (hmeaning.symm.trans (hnone b hb)).symm (Option.some_ne_none b)

mutual

theorem scopes_checkExpr (henv : env.Reads p) : ∀ e : Expr, Seen p env scope e.nodes →
    Scopes p (checkExpr env scope e)
  | .unary tag op operand, h => by
      obtain ⟨hn, h⟩ := List.forall_mem_cons.1 h
      have := scopes_checkExpr henv operand h
      rw [checkExpr_unary]
      unfold operandOf
      exact scopes_noting henv hn nofun
  | .binary tag op left right, h => by
      obtain ⟨hn, h⟩ := List.forall_mem_cons.1 h
      obtain ⟨hl, hr⟩ := Seen.append_iff.1 h
      have := scopes_checkExpr henv left hl
      have := scopes_checkExpr henv right hr
      by_cases hop : op = .equal
      · subst hop
        rw [checkExpr_equal]
        exact scopes_noting henv hn nofun
      · rw [checkExpr_binary hop]
        unfold operandOf
        exact scopes_noting henv hn nofun
  | .number tag value, h => by
      rw [checkExpr_number]
      exact scopes_noting henv (h _ (List.mem_singleton_self _)) nofun
  | .bool tag value, h => by
      rw [checkExpr_bool]
      exact scopes_noting henv (h _ (List.mem_singleton_self _)) nofun
  | .null tag, h => by
      rw [checkExpr_null]
      exact scopes_noting henv (h _ (List.mem_singleton_self _)) nofun
  | .this tag, h => by
      rw [checkExpr_this]
      cases env.current with
      | some cls => exact scopes_noting henv (h _ (List.mem_singleton_self _)) nofun
      | none => exact scopes_noting henv (h _ (List.mem_singleton_self _)) nofun
  | .read tag location, h => by
      obtain ⟨hn, h⟩ := List.forall_mem_cons.1 h
      have := scopes_checkLocation henv location h
      rw [checkExpr_read]
      exact scopes_noting henv hn nofun
  | .arrayLength tag array, h => by
      obtain ⟨hn, h⟩ := List.forall_mem_cons.1 h
      have := scopes_checkExpr henv array h
      rw [checkExpr_arrayLength]
      exact scopes_noting henv hn nofun
  | .newObject tag cls, h => by
      rw [checkExpr_newObject]
      exact scopes_noting henv (h _ (List.mem_singleton_self _)) nofun
  | .newArray tag element size, h => by
      obtain ⟨hn, h⟩ := List.forall_mem_cons.1 h
      have := scopes_checkExpr henv size h
      rw [checkExpr_newArray]
      unfold operandOf
      exact scopes_noting henv hn nofun
  | .call tag name args, h => by
      obtain ⟨hn, h⟩ := List.forall_mem_cons.1 h
      have := fun params => scopes_checkArguments henv args params h
      rw [checkExpr_call]
      unfold applied
      exact scopes_noting henv hn nofun
  | .methodCall tag receiver name args, h => by
      obtain ⟨hn, h⟩ := List.forall_mem_cons.1 h
      obtain ⟨hreceiver, hargs⟩ := Seen.append_iff.1 h
      have := scopes_checkExpr henv receiver hreceiver
      have := fun params => scopes_checkArguments henv args params hargs
      rw [checkExpr_methodCall]
      unfold objectOf methodApplied applied
      exact scopes_noting henv hn nofun
termination_by structural e => e

theorem scopes_checkLocation (henv : env.Reads p) : ∀ l : Location, Seen p env scope l.nodes →
    Scopes p (checkLocation env scope l)
  | .var tag name, h => by
      rw [checkLocation_var]
      exact scopes_variable henv (h _ (List.mem_singleton_self _))
  | .field tag receiver name, h => by
      obtain ⟨hn, h⟩ := List.forall_mem_cons.1 h
      have := scopes_checkExpr henv receiver h
      have hbind : ∀ cls unknown, Scopes p (bindField env tag.id cls name.name unknown) := by
        intro cls unknown
        have : ∀ b, Scopes p (noteBinding tag.id b) := scopes_noteBinding henv.ids hn nofun
        unfold bindField
        split <;> infer_instance
      rw [checkLocation_field]
      unfold objectOf
      exact scopes_noting henv hn nofun
  | .index tag array index, h => by
      obtain ⟨hn, h⟩ := List.forall_mem_cons.1 h
      obtain ⟨harray, hindex⟩ := Seen.append_iff.1 h
      have := scopes_checkExpr henv array harray
      have := scopes_checkExpr henv index hindex
      rw [checkLocation_index]
      unfold operandOf
      exact scopes_noting henv hn nofun
termination_by structural l => l

theorem scopes_checkArguments (henv : env.Reads p) : ∀ (args : List Expr)
    (params : List ValueType), Seen p env scope (nodesOfArguments args) →
      Scopes p (checkArguments env scope args params)
  | [], _, _ => by
      unfold checkArguments
      infer_instance
  | _ :: _, [], _ => by
      unfold checkArguments
      infer_instance
  | arg :: args, param :: params, h => by
      obtain ⟨harg, hargs⟩ := Seen.append_iff.1 h
      have := scopes_checkExpr henv arg harg
      have := scopes_checkArguments henv args params hargs
      rw [checkArguments_cons]
      unfold operandOf
      infer_instance
termination_by structural args => args

end

theorem scopes_ofExpr (henv : env.Reads p) {e : Expr}
    (h : ∀ o ∈ occurrencesOf env.current (scope.vars.map (·.decl)) e.nodes, o ∈ p.occurrences) :
    Scopes p (checkExpr env scope e) :=
  scopes_checkExpr henv e (List.forall_mem_map.1 h)

theorem scopes_checkCondition (henv : env.Reads p) {e : Expr}
    (h : ∀ o ∈ occurrencesOf env.current (scope.vars.map (·.decl)) e.nodes, o ∈ p.occurrences)
    (construct : Conditional) : Scopes p (checkCondition env scope construct e) := by
  have := scopes_ofExpr henv h
  unfold checkCondition
  infer_instance

/-- What is visible behind a statement is what it declares and what was visible before. -/
theorem vars_checkStmt (s : Stmt) (f : Findings) :
    ((checkStmt env scope s).value f).vars.map (·.decl) =
      s.declared?.toList ++ scope.vars.map (·.decl) := by
  cases s with
  | branch _ _ _ onFalse? => cases onFalse? <;> rfl
  | _ => rfl

mutual

theorem scopes_checkStmt (henv : env.Reads p) : ∀ (s : Stmt) (scope : Scope),
    (∀ o ∈ s.occurrences env.current (scope.vars.map (·.decl)), o ∈ p.occurrences) →
      Scopes p (checkStmt env scope s)
  | .declare decl, scope, _ => by
      unfold checkStmt
      infer_instance
  | .eval value, scope, h => by
      have := scopes_ofExpr henv h
      unfold checkStmt
      infer_instance
  | .assign _ target value, scope, h => by
      obtain ⟨htarget, hvalue⟩ := Seen.append_iff.1 (List.forall_mem_map.1 h)
      have := scopes_checkLocation henv target htarget
      have := scopes_checkExpr henv value hvalue
      unfold checkStmt checkAssignment
      infer_instance
  | .branch _ condition onTrue none, scope, h => by
      obtain ⟨hcondition, honTrue⟩ := List.forall_mem_append.1 h
      have := scopes_checkCondition henv hcondition .branch
      have := scopes_checkStmt henv onTrue scope.enter honTrue
      unfold checkStmt
      infer_instance
  | .branch _ condition onTrue (some onFalse), scope, h => by
      obtain ⟨hcondition, h⟩ := List.forall_mem_append.1 h
      obtain ⟨honTrue, honFalse⟩ := List.forall_mem_append.1 h
      have := scopes_checkCondition henv hcondition .branch
      have := scopes_checkStmt henv onTrue scope.enter honTrue
      have := scopes_checkStmt henv onFalse scope.enter honFalse
      unfold checkStmt
      infer_instance
  | .loop _ condition body, scope, h => by
      obtain ⟨hcondition, hbody⟩ := List.forall_mem_append.1 h
      have := scopes_checkCondition henv hcondition .loop
      have := scopes_checkStmt henv body scope.enter hbody
      unfold checkStmt
      infer_instance
  | .return span value, scope, h => by
      have := scopes_ofExpr henv h
      unfold checkStmt checkReturn
      infer_instance
  | .block _ body, scope, h => by
      have := scopes_checkBlock henv body scope.enter h
      unfold checkStmt
      infer_instance
termination_by structural s => s

theorem scopes_checkBlock (henv : env.Reads p) : ∀ (body : List Stmt) (scope : Scope),
    (∀ o ∈ occurrencesInBody env.current (scope.vars.map (·.decl)) body, o ∈ p.occurrences) →
      Scopes p (checkBlock env scope body)
  | [], scope, _ => by
      unfold checkBlock
      infer_instance
  | s :: rest, scope, h => by
      obtain ⟨hs, hrest⟩ := List.forall_mem_append.1 h
      have hfirst := scopes_checkStmt henv s scope hs
      unfold checkBlock
      refine ⟨fun f hf => ?_⟩
      rw [← vars_checkStmt s f] at hrest
      exact (scopes_checkBlock henv rest _ hrest).keeps _ (hfirst.keeps f hf)
termination_by structural body => body

end

theorem vars_declareParameters (params : List VarDecl) (scope : Scope) (f : Findings) :
    ((declareParameters env scope params).value f).vars.map (·.decl) =
      params.reverse ++ scope.vars.map (·.decl) := by
  induction params generalizing scope f with
  | nil => rfl
  | cons d params ih =>
      rw [declareParameters, List.foldlM_cons, value_bind, List.reverse_cons, List.append_assoc]
      exact ih _ _

theorem scopes_checkFunction (henv : env.Reads p) {d : FunctionDecl}
    (h : ∀ o ∈ d.occurrences env.current, o ∈ p.occurrences) : Scopes p (checkFunction env d) := by
  have hscope : Scopes p (d.scope env) := by
    unfold FunctionDecl.scope declareParameters
    infer_instance
  rw [checkFunction_eq]
  refine ⟨fun f hf => ?_⟩
  have hvars : ((d.scope env).value f).enter.vars.map (·.decl) = d.params.reverse :=
    (vars_declareParameters d.params _ _).trans (List.append_nil _)
  rw [FunctionDecl.occurrences, ← hvars] at h
  exact (scopes_checkBlock henv d.body _ h).keeps _ (hscope.keeps f hf)

end Check
theorem Option.Fits.map_eq {α β : Type} {f : α → β} {x : Option α} {y : Option β}
    (h : Option.Fits (fun x y => f x = y) x y) : x.map f = y := by
  cases x with
  | none =>
      cases y with
      | none => rfl
      | some _ => exact h.elim
  | some _ =>
      cases y with
      | none => exact h.elim
      | some _ => exact congrArg some h

/-- A field is found in the members where the declarations of the classes have it. -/
theorem MemberTable.field?_decl {S : Setting} {a : ArrayTypes} {members : List ClassMembers}
    (h : List.Forall₂ (fun c m => m.Fits p S a c) p.classTable.classes members) {c : ClassRef}
    (hc : c ∈ p.classTable.classes) (name : String) :
    (MemberTable.field? ⟨members⟩ c name).map
        (fun field => Binding.field field.1 field.2.decl) =
      c.ancestors.findSome? fun owner => ((p.classDecl owner).field? name).map (.field owner) := by
  refine Option.Fits.map_eq (Option.Fits.findSome? fun owner howner => ?_)
  obtain ⟨m, hm, hfits⟩ := of?_fits h (p.mem_classTable_of_mem_ancestors hc howner)
  have hfind := find?_firsts (fun d : VarDecl => d.name.name) name (p.classDecl owner).fields
  rw [hm, Option.bind_some, ClassDecl.field?, ← hfind]
  have hfield : Option.Fits (fun (x : TypedVar) d => x.decl = d) (m.field? name)
      ((firsts (·.name.name) (p.classDecl owner).fields).find? (·.name.name == name)) :=
    Option.Fits.find? (hfits.fields.imp fun x d hx => ⟨by rw [hx.1], hx.1⟩)
  refine Option.Fits.map_left (Option.Fits.map_right (hfield.mono fun x d hx => ?_))
  exact congrArg (Binding.field owner) hx

namespace Program

open Check

/-- What is known when the bodies of a program are checked, whatever is wrong with it. -/
theorem scoped_analyze (hp : p.ids.Nodup) (printName : String) :
    Findings.Scoped p ((p.late printName).after (p.begun printName)) := by
  have hmembers := (@knows_declared p printName hp).2
  have hreads : ∀ current : Option ClassRef, (∀ cls ∈ current, cls ∈ p.classTable.classes) →
      Surroundings.Reads p { p.surroundings printName with current } := fun current hcurrent =>
    ⟨hp, fun cls hcls name => MemberTable.field?_decl hmembers (hcurrent cls hcls) name⟩
  have hbodies : Scopes p (checkBodies p (p.surroundings printName)) := by
    have hclasses : Scopes p (p.classTable.classes.forM fun cls =>
        (p.classDecl cls).methods.forM
          (checkFunction { p.surroundings printName with current := some cls })) := by
      refine scopes_forM fun cls hcls => scopes_forM fun d hd => ?_
      refine scopes_checkFunction (hreads (some cls) ?_) (mem_occurrences_of_method hcls hd)
      rintro _ ⟨⟩
      exact hcls
    have hfunctions : Scopes p (p.functions.forM (checkFunction (p.surroundings printName))) :=
      scopes_forM fun d hd =>
        scopes_checkFunction (hreads none nofun) (mem_occurrences_of_function hd)
    exact ⟨fun f hf => hfunctions.keeps _ (hclasses.keeps f hf)⟩
  have hbegun : Findings.Scoped p (p.begun printName) := by
    refine ⟨fun id hid => ?_, fun o ho tag name hn b hb => ?_, fun o ho tag name hn hid => ?_⟩
    · simp [begun, Notes.type?] at hid
    · simp [begun, Notes.binding?] at hb
    · simp [begun, Notes.type?] at hid
  have hdeclared : Findings.Scoped p (p.declared printName) :=
    Scopes.keeps _ (Scopes.keeps (m := declareAll p p.classTable) _ hbegun)
  rw [late, checkAll_eq]
  exact hbodies.keeps _ hdeclared

/-- Every variable in a function that has a type stands in its body, and it has the meaning that the
blocks around it, and around them the parameters, give to its name. If that is none, it is
reported. -/
def Resolves (p : Program) (a : Analysis) (current : Option ClassRef) (d : FunctionDecl) : Prop :=
  ∀ tag name, .location (.var tag name) ∈ nodesOfBody d.body → (a.notes.type? tag.id).isSome →
    (∃ blocks, Within (.location (.var tag name)) d.body blocks) ∧
      ∀ blocks, Within (.location (.var tag name)) d.body blocks →
        a.notes.binding? tag.id = p.meaning? current (blocks ++ [d.params.reverse]) name.name ∧
        (p.meaning? current (blocks ++ [d.params.reverse]) name.name = none →
          .unknownVariable name.name name.span ∈ a.diagnostics)

/-- The variables of a program are scoped lexically: in methods, where fields are looked for from
their class upwards, and in functions. Classes that are not accepted are not looked at. -/
structure ScopedLexically (p : Program) (a : Analysis) : Prop where
  methods : ∀ cls ∈ a.classes.classes, ∀ d ∈ (p.classDecl cls).methods, p.Resolves a (some cls) d
  functions : ∀ d ∈ p.functions, p.Resolves a none d
  refused : ∀ c ∈ p.classes, (∀ cls ∈ a.classes.classes, p.classDecl cls ≠ c) →
    ∀ d ∈ c.methods, ∀ n ∈ nodesOfBody d.body, a.notes.type? n.id = none

theorem resolves_of_scoped {a : Analysis} {f : Findings} (hf : f.Scoped p)
    (hnotes : a.notes = f.notes) (hdiagnostics : a.diagnostics = f.diagnostics.toList)
    {current : Option ClassRef} {d : FunctionDecl}
    (hd : d.occurrences current ⊆ p.occurrences) : p.Resolves a current d := by
  intro tag name hn htype
  refine ⟨exists_within_body d.body hn [], fun blocks hwithin => ?_⟩
  rw [hnotes] at htype ⊢
  obtain ⟨hbinding, hunknown⟩ :=
    hf.resolved _ (hd (hwithin.mem_occurrences current d.params.reverse)) tag name rfl htype
  rw [Occurrence.meaning?, p.meaning?_flatten] at hbinding hunknown
  exact ⟨hbinding, fun hnone => hdiagnostics ▸ (hunknown hnone).val⟩

end Program

/-- A scope finds what a stack of frames has after any declarations, entries and exits, and so each
variable of a program that was read from a text, whatever else is wrong with it, stands for the
latest declaration before it in the innermost block that has one, for a parameter, for a field of
the nearest class upwards, or for nothing, which is then reported. -/
theorem lexicalScoping :
    (∀ (scope : Scope) (steps : List ScopeStep) (name : String),
      (steps.foldlM Scope.step [scope]).map (fun scopes => scopes.head?.bind (·.find? name)) =
        (steps.foldlM Frames.step [scope.vars]).map (·.find? name)) ∧
    ∀ (source printName : String) (p : Program), Program.ofText source = .ok p →
      p.ScopedLexically (p.analyze printName) := by
  refine ⟨Scope.find?_run, fun source printName p hparse => ?_⟩
  have hp := (p.numbered_ofText hparse).nodup
  have hf := p.scoped_analyze hp printName
  refine ⟨fun cls hcls d hd => ?_, fun d hd => ?_, fun c hc hrefused d hd n hn => ?_⟩
  · exact Program.resolves_of_scoped hf rfl rfl (Program.mem_occurrences_of_method hcls hd)
  · exact Program.resolves_of_scoped hf rfl rfl (Program.mem_occurrences_of_function hd)
  · rw [← Option.not_isSome_iff_eq_none]
    intro htype
    obtain ⟨o, ho, hid⟩ := hf.types n.id htype
    obtain ⟨blocks, hwithin⟩ := exists_within_body d.body hn []
    have hn := hwithin.mem_occurrences none d.params.reverse
    have hmem : o.id ∈ c.ids := hid ▸ List.mem_cons_of_mem _ (List.mem_append_right _
      (List.mem_flatMap.2 ⟨d, hd, Occurrence.id_mem hn⟩))
    obtain ⟨cls, hcls, heq⟩ := Program.class_of_mem_occurrences hp hc ho hmem
    exact hrefused cls hcls heq

/-- A method with a parameter, a variable that hides it in a nested block, a field and a name that
nothing declares. -/
def hidingText : String :=
  "int main() { return 0; } "
    ++ "class C { int y; int m(int x) { x = 1; { int x; x = 2; } y = z; return x; } }"

theorem lexicalScoping_hiding :
    (([.enter, .declare default .bool, .leave] : List ScopeStep).foldlM Scope.step
        [⟨"m", .int, [⟨default, .int⟩]⟩]).map (fun scopes => scopes.head?.bind (·.find? "")) =
      some (some ⟨default, .int⟩) ∧
    ∃ p, Program.ofText hidingText = .ok p ∧ p.ScopedLexically (p.analyze "printInt") ∧
      (p.analyze "printInt").diagnostics.map Diagnostic.message =
        ["variable with name x already exists in function m",
          "there is no variable with name z"] ∧
      ∀ c ∈ p.classes, ∀ d ∈ c.methods, ∀ n ∈ nodesOfBody d.body,
        ((p.analyze "printInt").notes.type? n.id).isSome = true := by
  constructor
  · rw [lexicalScoping.1]
    rfl
  · obtain ⟨p, hp, hread⟩ := exists_ok_of_any (r := Program.ofText hidingText) (f := fun p =>
      ((p.analyze "printInt").diagnostics.map Diagnostic.message ==
        ["variable with name x already exists in function m",
          "there is no variable with name z"]) &&
        p.classes.all fun c => c.methods.all fun d => (nodesOfBody d.body).all fun n =>
          ((p.analyze "printInt").notes.type? n.id).isSome) (by decide +kernel)
    obtain ⟨hmessages, htypes⟩ := Bool.and_eq_true_iff.1 hread
    simp only [List.all_eq_true] at htypes
    exact ⟨p, hp, lexicalScoping.2 _ _ p hp, eq_of_beq hmessages, htypes⟩

end ObjectLang
