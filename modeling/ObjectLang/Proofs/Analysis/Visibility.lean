import Mathlib.Tactic
import ObjectLang.Proofs.Analysis.FollowPrograms
import ObjectLang.Proofs.Analysis.Visits
import ObjectLang.Proofs.Parsing.Identities

/-!
# What a variable stands for

The blocks around a node and what they declare before it, and what a name stands for behind these
declarations. The bodies that analysis checks are read through once, each node together with the
variables that are visible at it. Nodes have different identities, so that each has one such place.
-/
namespace ObjectLang

/-- The variable that a statement declares in its block. -/
def Stmt.declared? : Stmt → Option VarDecl
  | .declare decl => some decl
  | _ => none

/-- The variables that some statements declare in their block, the latest first. -/
def declaredIn (stmts : List Stmt) : List VarDecl :=
  (stmts.filterMap Stmt.declared?).reverse

/-- The expressions and locations of a statement that stand in no statement inside of it. -/
def Stmt.ownNodes : Stmt → List Node
  | .declare _ | .block _ _ => []
  | .eval value | .return _ value => value.nodes
  | .assign _ target value => target.nodes ++ value.nodes
  | .branch _ condition _ _ | .loop _ condition _ => condition.nodes

/-- The blocks directly inside of a statement. What is done on a condition, or repeated, is a block
of its own. -/
def Stmt.inner : Stmt → List (List Stmt)
  | .declare _ | .eval _ | .assign _ _ _ | .return _ _ => []
  | .branch _ _ onTrue none => [[onTrue]]
  | .branch _ _ onTrue (some onFalse) => [[onTrue], [onFalse]]
  | .loop _ _ body => [[body]]
  | .block _ body => [body]

/-- A node stands in a block. For each block around it, the innermost first, `blocks` has what the
block declares before it. -/
inductive Within (n : Node) : List Stmt → List (List VarDecl) → Prop
  | own {before behind : List Stmt} {s : Stmt} : n ∈ s.ownNodes →
      Within n (before ++ s :: behind) [declaredIn before]
  | inner {before behind body : List Stmt} {s : Stmt} {blocks : List (List VarDecl)} :
      body ∈ s.inner → Within n body blocks →
      Within n (before ++ s :: behind) (blocks ++ [declaredIn before])

mutual

theorem Stmt.exists_within {n : Node} : ∀ s : Stmt, n ∈ s.nodes → ∀ before behind : List Stmt,
    ∃ blocks, Within n (before ++ s :: behind) blocks
  | .declare _, h, _, _ => (List.not_mem_nil h).elim
  | .eval _, h, _, _ | .return _ _, h, _, _ | .assign _ _ _, h, _, _ => ⟨_, .own h⟩
  | .branch _ condition onTrue none, h, _, _ => by
      rcases List.mem_append.1 h with h | h
      · exact ⟨_, .own h⟩
      · obtain ⟨blocks, hblocks⟩ := onTrue.exists_within h [] []
        exact ⟨_, .inner (List.mem_singleton_self _) hblocks⟩
  | .branch _ condition onTrue (some onFalse), h, _, _ => by
      rcases List.mem_append.1 h with h | h
      · exact ⟨_, .own h⟩
      rcases List.mem_append.1 h with h | h
      · obtain ⟨blocks, hblocks⟩ := onTrue.exists_within h [] []
        exact ⟨_, .inner List.mem_cons_self hblocks⟩
      · obtain ⟨blocks, hblocks⟩ := onFalse.exists_within h [] []
        exact ⟨_, .inner (List.mem_cons_of_mem _ (List.mem_singleton_self _)) hblocks⟩
  | .loop _ condition body, h, _, _ => by
      rcases List.mem_append.1 h with h | h
      · exact ⟨_, .own h⟩
      · obtain ⟨blocks, hblocks⟩ := body.exists_within h [] []
        exact ⟨_, .inner (List.mem_singleton_self _) hblocks⟩
  | .block _ body, h, _, _ => by
      obtain ⟨blocks, hblocks⟩ := exists_within_body body h []
      exact ⟨_, .inner (List.mem_singleton_self _) hblocks⟩
termination_by structural s => s

/-- Every node of a body stands in it. -/
theorem exists_within_body {n : Node} : ∀ body : List Stmt, n ∈ nodesOfBody body →
    ∀ before : List Stmt, ∃ blocks, Within n (before ++ body) blocks
  | [], h, _ => (List.not_mem_nil h).elim
  | s :: rest, h, before => by
      rcases List.mem_append.1 h with h | h
      · exact s.exists_within h before rest
      · rw [← List.concat_append]
        exact exists_within_body rest h _
termination_by structural body => body

end

/-- What a name stands for: the latest declaration in the innermost block that has one, or else the
field of the nearest class from the current one upwards that declares it. -/
def Program.meaning? (p : Program) (current : Option ClassRef) (blocks : List (List VarDecl))
    (name : String) : Option Binding :=
  match blocks.findSome? fun block => block.find? (·.name.name == name) with
  | some decl => some (.variable decl)
  | none => current.bind fun cls => cls.ancestors.findSome? fun owner =>
      ((p.classDecl owner).field? name).map (.field owner)

/-- A name stands for the same if all blocks are written as one. -/
theorem Program.meaning?_flatten (p : Program) (current : Option ClassRef)
    (blocks : List (List VarDecl)) (name : String) :
    p.meaning? current [blocks.flatten] name = p.meaning? current blocks name := by
  simp only [meaning?, ← List.find?_flatten, List.flatten_singleton]

/-- A node of a body: the class whose method it is in, the variables that are visible at it, the
latest first, and the node. -/
structure Occurrence where
  current : Option ClassRef
  vars : List VarDecl
  node : Node

def Occurrence.id (o : Occurrence) : Nat :=
  o.node.id

/-- Some nodes where the same variables are visible. -/
def occurrencesOf (current : Option ClassRef) (vars : List VarDecl) (nodes : List Node) :
    List Occurrence :=
  nodes.map (Occurrence.mk current vars)

mutual

/-- All nodes of a statement where some variables are visible already. -/
def Stmt.occurrences (current : Option ClassRef) (vars : List VarDecl) : Stmt → List Occurrence
  | .declare _ => []
  | .eval value => occurrencesOf current vars value.nodes
  | .assign _ target value => occurrencesOf current vars (target.nodes ++ value.nodes)
  | .branch _ condition onTrue none =>
    occurrencesOf current vars condition.nodes ++ onTrue.occurrences current vars
  | .branch _ condition onTrue (some onFalse) =>
    occurrencesOf current vars condition.nodes
      ++ (onTrue.occurrences current vars ++ onFalse.occurrences current vars)
  | .loop _ condition body =>
    occurrencesOf current vars condition.nodes ++ body.occurrences current vars
  | .return _ value => occurrencesOf current vars value.nodes
  | .block _ body => occurrencesInBody current vars body
termination_by structural s => s

def occurrencesInBody (current : Option ClassRef) (vars : List VarDecl) :
    List Stmt → List Occurrence
  | [] => []
  | s :: rest =>
    s.occurrences current vars ++ occurrencesInBody current (s.declared?.toList ++ vars) rest
termination_by structural body => body

end

section

variable (current : Option ClassRef) (vars : List VarDecl)

theorem occurrencesInBody_singleton (s : Stmt) :
    occurrencesInBody current vars [s] = s.occurrences current vars :=
  List.append_nil _

theorem occurrencesInBody_append (before rest : List Stmt) :
    occurrencesInBody current vars (before ++ rest) = occurrencesInBody current vars before ++
      occurrencesInBody current (declaredIn before ++ vars) rest := by
  induction before generalizing vars with
  | nil => rfl
  | cons s before ih =>
      have hdeclared : declaredIn (s :: before) = declaredIn before ++ s.declared?.toList := by
        rw [declaredIn, List.filterMap_cons]
        cases s.declared? with
        | none => exact (List.append_nil _).symm
        | some decl => exact List.reverse_cons
      rw [List.cons_append, occurrencesInBody, occurrencesInBody, ih, hdeclared,
        List.append_assoc, List.append_assoc]

theorem Stmt.mem_occurrences_of_own {s : Stmt} {n : Node} (h : n ∈ s.ownNodes) :
    ⟨current, vars, n⟩ ∈ s.occurrences current vars := by
  have hmem : ∀ nodes : List Node, n ∈ nodes →
      Occurrence.mk current vars n ∈ occurrencesOf current vars nodes :=
    fun _ hn => List.mem_map_of_mem hn
  cases s with
  | declare _ | block _ _ => exact absurd h List.not_mem_nil
  | eval _ | «return» _ _ | assign _ _ _ => exact hmem _ h
  | branch _ c onTrue onFalse? =>
      cases onFalse? with
      | none => exact List.mem_append_left _ (hmem _ h)
      | some _ => exact List.mem_append_left _ (hmem _ h)
  | loop _ _ _ => exact List.mem_append_left _ (hmem _ h)

theorem Stmt.occurrencesInBody_subset {s : Stmt} {body : List Stmt} (h : body ∈ s.inner) :
    occurrencesInBody current vars body ⊆ s.occurrences current vars := by
  cases s with
  | declare _ | eval _ | assign _ _ _ | «return» _ _ => exact absurd h List.not_mem_nil
  | branch _ c onTrue onFalse? =>
      cases onFalse? with
      | none =>
          rw [List.mem_singleton.1 h, occurrencesInBody_singleton]
          exact List.subset_append_right _ _
      | some onFalse =>
          refine List.Subset.trans ?_ (List.subset_append_right _ _)
          rcases List.mem_cons.1 h with rfl | h
          · rw [occurrencesInBody_singleton]
            exact List.subset_append_left _ _
          · rw [List.mem_singleton.1 h, occurrencesInBody_singleton]
            exact List.subset_append_right _ _
  | loop _ c repeated =>
      rw [List.mem_singleton.1 h, occurrencesInBody_singleton]
      exact List.subset_append_right _ _
  | block _ _ =>
      rw [List.mem_singleton.1 h]
      exact List.Subset.refl _

end

/-- The variables that are visible at a node are those that the blocks around it declare before
it. -/
theorem Within.mem_occurrences {n : Node} {body : List Stmt} {blocks : List (List VarDecl)}
    (h : Within n body blocks) (current : Option ClassRef) (vars : List VarDecl) :
    ⟨current, (blocks ++ [vars]).flatten, n⟩ ∈ occurrencesInBody current vars body := by
  induction h generalizing vars with
  | @own before behind s hn =>
      rw [occurrencesInBody_append, occurrencesInBody]
      refine List.mem_append_right _ (List.mem_append_left _ ?_)
      simpa using s.mem_occurrences_of_own current (declaredIn before ++ vars) hn
  | @inner before behind body s blocks hbody _ ih =>
      rw [occurrencesInBody_append, occurrencesInBody]
      refine List.mem_append_right _ (List.mem_append_left _ ?_)
      exact Stmt.occurrencesInBody_subset current _ hbody
        (by simpa using ih (declaredIn before ++ vars))

mutual

theorem Expr.ids_nodes : ∀ e : Expr, (e.nodes.map Node.id).Sublist e.ids
  | .unary _ _ operand => operand.ids_nodes.cons_cons _
  | .binary _ _ left right => by
      rw [Expr.nodes, List.map_cons, List.map_append]
      exact (left.ids_nodes.append right.ids_nodes).cons_cons _
  | .number _ _ | .bool _ _ | .null _ | .this _ | .newObject _ _ => List.Sublist.refl _
  | .read _ location => location.ids_nodes.cons_cons _
  | .arrayLength _ array => array.ids_nodes.cons_cons _
  | .newArray _ element size =>
      (size.ids_nodes.trans (List.sublist_append_right element.ids size.ids)).cons_cons _
  | .call _ _ args => (ids_nodesOfArguments args).cons_cons _
  | .methodCall _ receiver _ args => by
      rw [Expr.nodes, List.map_cons, List.map_append]
      exact (receiver.ids_nodes.append (ids_nodesOfArguments args)).cons_cons _
termination_by structural e => e

theorem Location.ids_nodes : ∀ l : Location, (l.nodes.map Node.id).Sublist l.ids
  | .var _ _ => List.Sublist.refl _
  | .field _ receiver _ => receiver.ids_nodes.cons_cons _
  | .index _ array index => by
      rw [Location.nodes, List.map_cons, List.map_append]
      exact (array.ids_nodes.append index.ids_nodes).cons_cons _
termination_by structural l => l

theorem ids_nodesOfArguments : ∀ args : List Expr,
    ((nodesOfArguments args).map Node.id).Sublist (idsOfArguments args)
  | [] => List.Sublist.refl _
  | arg :: args => by
      rw [nodesOfArguments, List.map_append]
      exact arg.ids_nodes.append (ids_nodesOfArguments args)
termination_by structural args => args

end

section

variable (current : Option ClassRef)

theorem ids_occurrencesOf (vars : List VarDecl) (nodes : List Node) :
    (occurrencesOf current vars nodes).map Occurrence.id = nodes.map Node.id := by
  rw [occurrencesOf, List.map_map]
  rfl

mutual

theorem Stmt.ids_occurrences : ∀ (s : Stmt) (vars : List VarDecl),
    ((s.occurrences current vars).map Occurrence.id).Sublist s.ids
  | .declare _, _ => List.nil_sublist _
  | .eval value, vars | .return _ value, vars =>
      (ids_occurrencesOf current vars value.nodes).symm ▸ value.ids_nodes
  | .assign _ target value, vars => by
      rw [Stmt.occurrences, ids_occurrencesOf, List.map_append]
      exact target.ids_nodes.append value.ids_nodes
  | .branch _ condition onTrue none, vars => by
      rw [Stmt.occurrences, List.map_append, ids_occurrencesOf]
      exact condition.ids_nodes.append (onTrue.ids_occurrences vars)
  | .branch _ condition onTrue (some onFalse), vars => by
      rw [Stmt.occurrences, List.map_append, List.map_append, ids_occurrencesOf]
      exact condition.ids_nodes.append
        ((onTrue.ids_occurrences vars).append (onFalse.ids_occurrences vars))
  | .loop _ condition body, vars => by
      rw [Stmt.occurrences, List.map_append, ids_occurrencesOf]
      exact condition.ids_nodes.append (body.ids_occurrences vars)
  | .block _ body, vars => ids_occurrencesInBody body vars
termination_by structural s => s

theorem ids_occurrencesInBody : ∀ (body : List Stmt) (vars : List VarDecl),
    ((occurrencesInBody current vars body).map Occurrence.id).Sublist (idsOfBody body)
  | [], _ => List.Sublist.refl _
  | s :: rest, vars => by
      rw [occurrencesInBody, List.map_append]
      exact (s.ids_occurrences vars).append (ids_occurrencesInBody rest _)
termination_by structural body => body

end

end

/-- All nodes of the body of a function. -/
def FunctionDecl.occurrences (current : Option ClassRef) (d : FunctionDecl) : List Occurrence :=
  occurrencesInBody current d.params.reverse d.body

theorem FunctionDecl.ids_occurrences (current : Option ClassRef) (d : FunctionDecl) :
    ((d.occurrences current).map Occurrence.id).Sublist d.ids :=
  (ids_occurrencesInBody current d.body _).trans <|
    ((List.sublist_append_right _ _).trans (List.sublist_append_right _ _)).cons _

theorem Occurrence.id_mem {o : Occurrence} {current : Option ClassRef} {d : FunctionDecl}
    (h : o ∈ d.occurrences current) : o.id ∈ d.ids :=
  (d.ids_occurrences current).subset (List.mem_map_of_mem h)

namespace Program

variable {p : Program}

/-- All nodes that analysis may come to: those in the methods of accepted classes and in
functions. -/
def occurrences (p : Program) : List Occurrence :=
  p.classTable.classes.flatMap
      (fun cls => (p.classDecl cls).methods.flatMap (·.occurrences (some cls)))
    ++ p.functions.flatMap (·.occurrences none)

theorem mem_occurrences_of_method {cls : ClassRef} (hcls : cls ∈ p.classTable.classes)
    {d : FunctionDecl} (hd : d ∈ (p.classDecl cls).methods) :
    d.occurrences (some cls) ⊆ p.occurrences := fun _ ho =>
  List.mem_append_left _ <|
    List.mem_flatMap.2 ⟨cls, hcls, List.mem_flatMap.2 ⟨d, hd, ho⟩⟩

theorem mem_occurrences_of_function {d : FunctionDecl} (hd : d ∈ p.functions) :
    d.occurrences none ⊆ p.occurrences := fun _ ho =>
  List.mem_append_right _ (List.mem_flatMap.2 ⟨d, hd, ho⟩)

theorem ids_occurrences (p : Program) : (p.occurrences.map Occurrence.id).Sublist p.ids := by
  have hfunctions : ∀ (current : Option ClassRef) (ds : List FunctionDecl),
      ((ds.flatMap (·.occurrences current)).map Occurrence.id).Sublist
        (ds.flatMap FunctionDecl.ids) := by
    intro current ds
    rw [List.map_flatMap]
    exact List.Sublist.flatMap_right _ fun d _ => d.ids_occurrences current
  have hclasses : ((p.classTable.classes.flatMap fun cls =>
      (p.classDecl cls).methods.flatMap (·.occurrences (some cls))).map Occurrence.id).Sublist
        (p.acceptedClasses.flatMap ClassDecl.ids) := by
    rw [List.map_flatMap, acceptedClasses, List.flatMap_map]
    exact List.Sublist.flatMap_right _ fun cls _ =>
      (hfunctions (some cls) _).trans ((List.sublist_append_right _ _).cons _)
  rw [occurrences, List.map_append, ids]
  exact (hclasses.trans (acceptedClasses_sublist.flatMap _)).append (hfunctions none _)

/-- A node that analysis may come to has one place. -/
theorem occurrence_unique (hp : p.ids.Nodup) {o o' : Occurrence} (ho : o ∈ p.occurrences)
    (ho' : o' ∈ p.occurrences) (h : o.id = o'.id) : o = o' :=
  List.inj_on_of_nodup_map (hp.sublist p.ids_occurrences) ho ho' h

instance : Std.Symm (Function.onFun List.Disjoint ClassDecl.ids) :=
  ⟨fun _ _ h => h.symm⟩

/-- Analysis comes to no node of a class that is not accepted. -/
theorem class_of_mem_occurrences (hp : p.ids.Nodup) {c : ClassDecl} (hc : c ∈ p.classes)
    {o : Occurrence} (ho : o ∈ p.occurrences) (hid : o.id ∈ c.ids) :
    ∃ cls ∈ p.classTable.classes, p.classDecl cls = c := by
  obtain ⟨hclasses, _, hdisjoint⟩ := List.nodup_append'.1 hp
  rcases List.mem_append.1 ho with ho | ho
  · obtain ⟨cls, hcls, ho⟩ := List.mem_flatMap.1 ho
    obtain ⟨d, hd, ho⟩ := List.mem_flatMap.1 ho
    refine ⟨cls, hcls, by_contra fun hne => ?_⟩
    have hdecl : p.classDecl cls ∈ p.classes :=
      List.mem_of_getElem? (ClassTable.classDecl_build hcls).1
    have hapart : (p.classDecl cls).ids.Disjoint c.ids :=
      (List.nodup_flatMap.1 hclasses).2.forall hdecl hc hne
    exact hapart (List.mem_cons_of_mem _ (List.mem_append_right _
      (List.mem_flatMap.2 ⟨d, hd, Occurrence.id_mem ho⟩))) hid
  · obtain ⟨d, hd, ho⟩ := List.mem_flatMap.1 ho
    exact (hdisjoint (List.mem_flatMap.2 ⟨c, hc, hid⟩)
      (List.mem_flatMap.2 ⟨d, hd, Occurrence.id_mem ho⟩)).elim

end Program
end ObjectLang
