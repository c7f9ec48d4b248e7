import ObjectLang.Proofs.Analysis.Blurring
import ObjectLang.Proofs.Analysis.States
import ObjectLang.Proofs.Parsing.Identities

/-!
# No complaint downstream of something open

Any part of any body, checked at any time of the analysis behind the declaration of all members: if
some variables of the scope have type `any`, each expression that is checked has the type that it
would have otherwise, or `any`, and nothing is reported that would not be reported otherwise.
-/
namespace ObjectLang

open Check

/-- A block, a statement, or an expression or a location of a body. -/
inductive Part where
  | node (n : Node)
  | stmt (s : Stmt)
  | block (body : List Stmt)

mutual

/-- A statement and all blocks, statements, expressions and locations in it. -/
def Stmt.parts : Stmt → List Part
  | .declare decl => [.stmt (.declare decl)]
  | .eval value => .stmt (.eval value) :: value.nodes.map .node
  | .assign span target value =>
    .stmt (.assign span target value) :: (target.nodes ++ value.nodes).map .node
  | .branch span condition onTrue none =>
    .stmt (.branch span condition onTrue none) :: (condition.nodes.map .node ++ onTrue.parts)
  | .branch span condition onTrue (some onFalse) =>
    .stmt (.branch span condition onTrue (some onFalse)) ::
      (condition.nodes.map .node ++ (onTrue.parts ++ onFalse.parts))
  | .loop span condition body =>
    .stmt (.loop span condition body) :: (condition.nodes.map .node ++ body.parts)
  | .return span value => .stmt (.return span value) :: value.nodes.map .node
  | .block span body => .stmt (.block span body) :: .block body :: partsOfBody body
termination_by structural s => s

def partsOfBody : List Stmt → List Part
  | [] => []
  | s :: rest => s.parts ++ partsOfBody rest
termination_by structural body => body

end

/-- The body of a function as a whole and all that is in it. -/
def FunctionDecl.parts (d : FunctionDecl) : List Part :=
  .block d.body :: partsOfBody d.body

namespace Part

/-- The check of a part in a scope. -/
def task (scope : Scope) : Part → Task
  | .node n => .node scope n
  | .stmt s => .stmt scope s
  | .block body => .body scope body

/-- What is done to check a part in a scope. -/
def check (env : Surroundings) (scope : Scope) : Part → Check Unit
  | .node n => do
    let _ ← n.check env scope
    return ()
  | .stmt s => do
    let _ ← checkStmt env scope s
    return ()
  | .block body => checkBlock env scope body

/-- The types that are written in a part. -/
def written : Part → List TypeExpr
  | .node n => n.written
  | .stmt s => s.written
  | .block body => writtenInBody body

/-- What a part amounts to. -/
def verdict (S : Setting) (current : Option String) (o : ScopeOutline) : Part → Verdict Unit
  | .node n => do
    let _ ← n.verdict S current o
    return ()
  | .stmt s => do
    let _ ← s.verdict S current o
    return ()
  | .block body => verdictOfBody S current o body

end Part

section written

mutual

theorem Expr.written_of_mem_nodes : ∀ e : Expr, ∀ n ∈ e.nodes, n.written ⊆ e.written
  | .unary _ _ operand, n, hn => by
      rcases List.mem_cons.1 hn with rfl | hn
      · exact List.Subset.refl _
      · exact operand.written_of_mem_nodes n hn
  | .binary _ _ left right, n, hn => by
      rcases List.mem_cons.1 hn with rfl | hn
      · exact List.Subset.refl _
      rcases List.mem_append.1 hn with hn | hn
      · exact List.subset_append_of_subset_left _ (left.written_of_mem_nodes n hn)
      · exact List.subset_append_of_subset_right _ (right.written_of_mem_nodes n hn)
  | .number _ _, n, hn | .bool _ _, n, hn | .null _, n, hn | .this _, n, hn
  | .newObject _ _, n, hn => by
      rw [List.mem_singleton.1 hn]
      exact List.Subset.refl _
  | .read _ location, n, hn => by
      rcases List.mem_cons.1 hn with rfl | hn
      · exact List.Subset.refl _
      · exact location.written_of_mem_nodes n hn
  | .arrayLength _ array, n, hn => by
      rcases List.mem_cons.1 hn with rfl | hn
      · exact List.Subset.refl _
      · exact array.written_of_mem_nodes n hn
  | .newArray _ element size, n, hn => by
      rcases List.mem_cons.1 hn with rfl | hn
      · exact List.Subset.refl _
      · exact List.subset_cons_of_subset element (size.written_of_mem_nodes n hn)
  | .call _ _ args, n, hn => by
      rcases List.mem_cons.1 hn with rfl | hn
      · exact List.Subset.refl _
      · exact writtenInArguments_of_mem_nodes args n hn
  | .methodCall _ receiver _ args, n, hn => by
      rcases List.mem_cons.1 hn with rfl | hn
      · exact List.Subset.refl _
      rcases List.mem_append.1 hn with hn | hn
      · exact List.subset_append_of_subset_left _ (receiver.written_of_mem_nodes n hn)
      · exact List.subset_append_of_subset_right _ (writtenInArguments_of_mem_nodes args n hn)
termination_by structural e => e

theorem Location.written_of_mem_nodes : ∀ l : Location, ∀ n ∈ l.nodes, n.written ⊆ l.written
  | .var _ _, n, hn => by
      rw [List.mem_singleton.1 hn]
      exact List.Subset.refl _
  | .field _ receiver _, n, hn => by
      rcases List.mem_cons.1 hn with rfl | hn
      · exact List.Subset.refl _
      · exact receiver.written_of_mem_nodes n hn
  | .index _ array index, n, hn => by
      rcases List.mem_cons.1 hn with rfl | hn
      · exact List.Subset.refl _
      rcases List.mem_append.1 hn with hn | hn
      · exact List.subset_append_of_subset_left _ (array.written_of_mem_nodes n hn)
      · exact List.subset_append_of_subset_right _ (index.written_of_mem_nodes n hn)
termination_by structural l => l

theorem writtenInArguments_of_mem_nodes : ∀ es : List Expr, ∀ n ∈ nodesOfArguments es,
    n.written ⊆ writtenInArguments es
  | [], _, hn => (List.not_mem_nil hn).elim
  | e :: es, n, hn => by
      rcases List.mem_append.1 hn with hn | hn
      · exact List.subset_append_of_subset_left _ (e.written_of_mem_nodes n hn)
      · exact List.subset_append_of_subset_right _ (writtenInArguments_of_mem_nodes es n hn)
termination_by structural es => es

end

theorem Expr.written_of_mem_parts (e : Expr) {part : Part} (h : part ∈ e.nodes.map .node) :
    part.written ⊆ e.written := by
  obtain ⟨n, hn, rfl⟩ := List.mem_map.1 h
  exact e.written_of_mem_nodes n hn

mutual

theorem Stmt.written_of_mem_parts : ∀ s : Stmt, ∀ part ∈ s.parts, part.written ⊆ s.written
  | .declare _, part, h => by
      rw [List.mem_singleton.1 h]
      exact List.Subset.refl _
  | .eval value, part, h => by
      rcases List.mem_cons.1 h with rfl | h
      · exact List.Subset.refl _
      · exact value.written_of_mem_parts h
  | .assign _ target value, part, h => by
      rcases List.mem_cons.1 h with rfl | h
      · exact List.Subset.refl _
      obtain ⟨n, hn, rfl⟩ := List.mem_map.1 h
      rcases List.mem_append.1 hn with hn | hn
      · exact List.subset_append_of_subset_left _ (target.written_of_mem_nodes n hn)
      · exact List.subset_append_of_subset_right _ (value.written_of_mem_nodes n hn)
  | .branch _ condition onTrue none, part, h => by
      rcases List.mem_cons.1 h with rfl | h
      · exact List.Subset.refl _
      rcases List.mem_append.1 h with h | h
      · exact List.subset_append_of_subset_left _ (condition.written_of_mem_parts h)
      · exact List.subset_append_of_subset_right _ (onTrue.written_of_mem_parts part h)
  | .branch _ condition onTrue (some onFalse), part, h => by
      rcases List.mem_cons.1 h with rfl | h
      · exact List.Subset.refl _
      rcases List.mem_append.1 h with h | h
      · exact List.subset_append_of_subset_left _ (condition.written_of_mem_parts h)
      refine List.subset_append_of_subset_right _ ?_
      rcases List.mem_append.1 h with h | h
      · exact List.subset_append_of_subset_left _ (onTrue.written_of_mem_parts part h)
      · exact List.subset_append_of_subset_right _ (onFalse.written_of_mem_parts part h)
  | .loop _ condition body, part, h => by
      rcases List.mem_cons.1 h with rfl | h
      · exact List.Subset.refl _
      rcases List.mem_append.1 h with h | h
      · exact List.subset_append_of_subset_left _ (condition.written_of_mem_parts h)
      · exact List.subset_append_of_subset_right _ (body.written_of_mem_parts part h)
  | .return _ value, part, h => by
      rcases List.mem_cons.1 h with rfl | h
      · exact List.Subset.refl _
      · exact value.written_of_mem_parts h
  | .block _ body, part, h => by
      rcases List.mem_cons.1 h with rfl | h
      · exact List.Subset.refl _
      rcases List.mem_cons.1 h with rfl | h
      · exact List.Subset.refl _
      · exact writtenInBody_of_mem_parts body part h
termination_by structural s => s

theorem writtenInBody_of_mem_parts : ∀ body : List Stmt, ∀ part ∈ partsOfBody body,
    part.written ⊆ writtenInBody body
  | [], _, h => (List.not_mem_nil h).elim
  | s :: rest, part, h => by
      rcases List.mem_append.1 h with h | h
      · exact List.subset_append_of_subset_left _ (s.written_of_mem_parts part h)
      · exact List.subset_append_of_subset_right _ (writtenInBody_of_mem_parts rest part h)
termination_by structural body => body

end

theorem FunctionDecl.written_of_mem_parts {d : FunctionDecl} {part : Part} (h : part ∈ d.parts) :
    part.written ⊆ d.written := by
  refine List.subset_cons_of_subset _ (List.subset_append_of_subset_right _ ?_)
  rcases List.mem_cons.1 h with rfl | h
  · exact List.Subset.refl _
  · exact writtenInBody_of_mem_parts d.body part h

end written

/-- What is reported in the check of a part when the second scope is used, and the types of its
expressions, compared with what the first scope gives. -/
structure Part.Absorbed (env : Surroundings) (f : Findings) (scope scope' : Scope) (part : Part) :
    Prop where
  types : ∀ scope₂ n f₂, Task.ComesTo env (part.task scope', f) (.node scope₂ n, f₂) →
    ∃ scope₁ f₁, Task.ComesTo env (part.task scope, f) (.node scope₁ n, f₁) ∧
      (((n.check env scope₂).value f₂).outline = ((n.check env scope₁).value f₁).outline ∨
        (n.check env scope₂).value f₂ = .any)
  diagnostics : ∃ added added' : List Diagnostic,
    ((part.check env scope).after f).diagnostics.toList = f.diagnostics.toList ++ added ∧
      ((part.check env scope').after f).diagnostics.toList = f.diagnostics.toList ++ added' ∧
      (added' : Multiset Diagnostic) ≤ added

section

variable {p : Program} {S : Setting} {current : Option String} {env : Surroundings}
  {scope scope' : Scope} {o o' : ScopeOutline} {f : Findings} {part : Part}

theorem Placed.follows (h : Placed p S current env o scope f) (hw : part.written ⊆ p.typeExprs) :
    FollowsEvents p S f.arrays (part.check env scope) (part.verdict S current o) := by
  cases part with
  | node n => exact (h.node hw).bind fun _ _ _ _ _ _ => follows_pure fun _ _ _ => trivial
  | stmt s =>
      exact (follows_checkStmt s hw h.env h.scope).bind fun _ _ _ _ _ _ =>
        follows_pure fun _ _ _ => trivial
  | block body => exact follows_checkBlock body hw h.env h.scope

theorem absorbs_part (S : Setting) (current : Option String) (h : o.Blurs o') (part : Part) :
    Verdict.Absorbs (fun _ _ => True) (part.verdict S current o) (part.verdict S current o') := by
  cases part with
  | node n => exact (absorbs_node S current h n).bind fun _ _ _ => .pure trivial
  | stmt s => exact (absorbs_stmt S current s h).bind fun _ _ _ => .pure trivial
  | block body => exact absorbs_body S current body h

theorem mentions_part {ts : List TypeExpr} (hS : S.CallsWithin ts) (hw : part.written ⊆ ts) :
    (part.verdict S current o).Mentions ts := by
  cases part with
  | node n =>
      refine Verdict.Mentions.bind ?_ fun _ => .pure _
      cases n with
      | expr e => exact mentions_expr hS e hw
      | location l => exact mentions_location hS l hw
  | stmt s => exact (mentions_stmt hS s hw).bind fun _ => .pure _
  | block body => exact mentions_body hS body hw

/-- The check of a part, begun in two places whose scopes have related outlines. -/
theorem Task.Beside.of_part (hw : part.written ⊆ p.typeExprs)
    (h : Placed p S current env o scope f) (h' : Placed p S current env o' scope' f)
    (ho : o.Blurs o') :
    Task.Beside p S current env (part.task scope, f) (part.task scope', f) := by
  cases part with
  | node n => exact .node hw h h' ho
  | stmt s => exact .stmt hw h h' ho
  | block body => exact .body hw h h' ho

/-- What is open absorbs what follows, in every part of a body. -/
theorem Part.absorbed (hS : S.CallsWithin p.typeExprs) (hw : part.written ⊆ p.typeExprs)
    (h : Placed p S current env o scope f) (h' : Placed p S current env o' scope' f)
    (ho : o.Blurs o') : part.Absorbed env f scope scope' := by
  constructor
  · intro scope₂ n f₂ hcomes
    obtain ⟨x, hx, hbeside⟩ := (Task.Beside.of_part hw h h' ho).comesTo hcomes
    obtain ⟨scope₁, f₁, rfl, htype⟩ := hbeside.type
    exact ⟨scope₁, f₁, hx, htype⟩
  · obtain ⟨known, hknown⟩ := h.knows
    have hadded := (h.follows hw known f hknown .rfl).1.diagnostics
    have hadded' := (h'.follows hw known f hknown .rfl).1.diagnostics
    refine ⟨_, _, hadded, hadded', ?_⟩
    have hmentions : (part.verdict S current o).Mentions p.typeExprs := mentions_part hS hw
    exact Setting.reports_le_of_sublist (absorbs_part S current ho part).events
      (Program.coherent_of_mentions h.env.ids hmentions) known

/-- It is enough that the first scope has types that there are. -/
theorem Placed.absorbed (hS : S.CallsWithin p.typeExprs) (hw : part.written ⊆ p.typeExprs)
    (h : Placed p S current env o scope f) (hblurs : scope.Blurs scope') :
    part.Absorbed env f scope scope' := by
  have hbelongs := h.scope.belongs
  exact Part.absorbed hS hw ⟨h.knows, h.env, hbelongs.fits⟩
    ⟨h.knows, h.env, (hblurs.belongs hbelongs).fits⟩ hblurs.outline

/-- Wherever the check of a body comes to, it finds a scope of types that there are. -/
theorem Placed.comesTo {body : List Stmt} {scope₁ : Scope} {f₁ : Findings}
    (h : Placed p S current env o scope f) (hw : writtenInBody body ⊆ p.typeExprs)
    (hcomes : Task.ComesTo env (.body scope body, f) (part.task scope₁, f₁)) :
    part.written ⊆ p.typeExprs ∧ ∃ o₁, Placed p S current env o₁ scope₁ f₁ := by
  obtain ⟨_, -, hbeside⟩ := (Task.Beside.body hw h h (.refl o)).comesTo hcomes
  cases part with
  | node n =>
      cases hbeside with
      | node hn _ hplaced _ => exact ⟨hn, _, hplaced⟩
  | stmt s =>
      cases hbeside with
      | stmt hs _ hplaced _ => exact ⟨hs, _, hplaced⟩
  | block body =>
      cases hbeside with
      | body hbody _ hplaced _ => exact ⟨hbody, _, hplaced⟩

/-- When the parameters of a function are declared, its body has a scope of types that there are. -/
theorem exists_placed_body {d : FunctionDecl} (hd : d.written ⊆ p.typeExprs)
    (hknows : ∃ known, f.Knows p S known) (henv : env.Fits p S current f.arrays) :
    ∃ o, Placed p S current env o ((d.scope env).value f).enter ((d.scope env).after f) := by
  rw [FunctionDecl.written, List.cons_subset, List.append_subset] at hd
  obtain ⟨hreturn, hparams, -⟩ := hd
  obtain ⟨known, hknown⟩ := hknows
  have hfollows : ∃ v, Follows p S f.arrays (d.scope env) v fun b => Scope.Fits p.classTable b := by
    rw [FunctionDecl.scope, henv.classes]
    exact ⟨_, (follows_checkType henv.ancestors henv.ids hreturn).bind fun b V type hb _ hV =>
      follows_declareParameters (o := ⟨d.name.name, type, []⟩) (henv.mono hb) ⟨rfl, hV, .nil⟩
        fun x hx => hparams (List.mem_map_of_mem hx)⟩
  obtain ⟨v, hv⟩ := hfollows
  obtain ⟨hg, hscope⟩ := hv known f hknown .rfl
  exact ⟨v.value, ⟨_, hg.knows⟩, henv.mono hg.arrays, hscope⟩

end

namespace Program

variable {p : Program} {printName : String} {env : Surroundings} {d : FunctionDecl}
  {start f : Findings}

/-- The surroundings of a body are as they should be when all members are declared. -/
theorem fits_surroundings (hp : p.ids.Nodup) {cls : Option ClassRef}
    (hcls : ∀ c ∈ cls, c ∈ p.classTable.classes) :
    Surroundings.Fits p (p.setting printName) (cls.map ClassRef.name)
      ((declareAll p p.classTable).after (p.begun printName)).arrays
      { p.surroundings printName with current := cls } := by
  have hcurrent : Option.Fits (IsClass p) cls (cls.map ClassRef.name) := by
    cases cls with
    | none => trivial
    | some c => exact ⟨hcls c rfl, rfl⟩
  exact fits_bodySurroundings (knows_declared hp).2 hp hcurrent

/-- A body is checked when something is known, in a scope of types that there are. -/
theorem MayKnow.placed (hp : p.ids.Nodup) (h : p.MayKnow printName f) {cls : Option ClassRef}
    (hcls : ∀ c ∈ cls, c ∈ p.classTable.classes) {scope : Scope}
    (hscope : scope.Belongs p.classTable f.arrays) :
    Placed p (p.setting printName) (cls.map ClassRef.name)
      { p.surroundings printName with current := cls } scope.outline scope f := by
  obtain ⟨hknows, harrays⟩ := h.knows hp
  exact ⟨hknows, (fits_surroundings hp hcls).mono harrays, hscope.fits⟩

/-- In a program that was read from a text, whatever is open absorbs what follows: in all parts of
all bodies, at any time, and whichever class they belong to. -/
theorem ofText_absorbs {source : String} (hparse : ofText source = .ok p)
    (hf : p.MayKnow printName f) {cls : Option ClassRef}
    (hcls : ∀ c ∈ cls, c ∈ p.classTable.classes) {d : FunctionDecl} (hd : d ∈ p.bodies)
    {part : Part} (hpart : part ∈ d.parts) {scope scope' : Scope}
    (hscope : scope.Belongs p.classTable f.arrays) (h : scope.Blurs scope') :
    part.Absorbed { p.surroundings printName with current := cls } f scope scope' := by
  have hp := (p.numbered_ofText hparse).nodup
  have hw : part.written ⊆ p.typeExprs :=
    List.Subset.trans (FunctionDecl.written_of_mem_parts hpart) (written_of_mem_bodies hd)
  exact (hf.placed hp hcls hscope).absorbed callsWithin_setting hw h

/-- A function that adds to a truth value. -/
def additionText : String :=
  "int main() { return 0; } int next(boolean b) { return b + 1; }"

theorem ofText_absorbs_addition : ∃ p d x, Program.ofText additionText = .ok p ∧ d ∈ p.bodies ∧
    x ∈ d.params ∧ Part.Absorbed { p.surroundings "printInt" with current := none }
      ((declareAll p p.classTable).after (p.begun "printInt"))
      ⟨d.name.name, .int, [⟨x, .bool⟩]⟩ ⟨d.name.name, .int, [⟨x, .any⟩]⟩ (.block d.body) := by
  obtain ⟨p, hp, hread⟩ := exists_ok_of_any (r := Program.ofText additionText)
    (f := fun p => p.functions.any fun d => d.params.any fun _ => true) (by decide +kernel)
  obtain ⟨d, hd, hparams⟩ := List.any_eq_true.1 hread
  obtain ⟨x, hx, -⟩ := List.any_eq_true.1 hparams
  have hbodies : d ∈ p.bodies := List.mem_append_right _ hd
  refine ⟨p, d, x, hp, hbodies, hx, ofText_absorbs hp .declared ?_ hbodies
    (List.mem_cons_self ..) ?_ ?_⟩
  · intro c hc
    cases hc
  · exact ⟨.int, List.forall_mem_singleton.2 .bool⟩
  · exact ⟨rfl, rfl, .cons ⟨rfl, .inr rfl⟩ .nil⟩

/-- A method is checked in its class, and a function outside of all classes. -/
theorem Begins.surroundings (h : p.Begins printName env d start) : ∃ cls : Option ClassRef,
    (∀ c ∈ cls, c ∈ p.classTable.classes) ∧
      env = { p.surroundings printName with current := cls } ∧ d.written ⊆ p.typeExprs := by
  cases h with
  | @method cls _ _ _ _ _ hcs hms =>
      have hcls : cls ∈ p.classTable.classes :=
        hcs ▸ List.mem_append_right _ (List.mem_cons_self ..)
      have hd : d ∈ (p.classDecl cls).methods :=
        hms ▸ List.mem_append_right _ (List.mem_cons_self ..)
      refine ⟨some cls, fun c hc => Option.mem_some.1 hc ▸ hcls, rfl, fun t ht => ?_⟩
      exact written_classDecl hcls (List.mem_append_right _ (List.mem_flatMap.2 ⟨d, hd, ht⟩))
  | @function _ _ _ hfs =>
      refine ⟨none, nofun, rfl, fun t ht => ?_⟩
      exact mem_typeExprs_of_function (hfs ▸ List.mem_append_right _ (List.mem_cons_self ..)) ht

/-- Whenever the check of a method or a function begins, what is known may be known. -/
theorem Begins.mayKnow (hp : p.ids.Nodup) (h : p.Begins printName env d start) :
    p.MayKnow printName start := by
  have hdeclared : p.MayKnow printName (p.declared printName) :=
    Admitted.forM (fun _ _ => .forM fun d _ => .report d) _ .declared
  have hfunctions : ∀ cls, Surroundings.Of p printName
      { p.surroundings printName with current := cls } := fun _ => ⟨hp, rfl, rfl⟩
  have hmethods : ∀ cls ∈ p.classTable.classes, ∀ d ∈ (p.classDecl cls).methods,
      d.written ⊆ p.typeExprs := fun cls hcls d hd t ht => written_classDecl hcls
    (List.mem_append_right _ (List.mem_flatMap.2 ⟨d, hd, ht⟩))
  have hclasses : ∀ classes : List ClassRef, classes ⊆ p.classTable.classes →
      Admitted p printName (classes.forM (p.checkMethods (p.surroundings printName))) :=
    fun classes hclasses => .forM fun cls hcls => .forM fun d hd =>
      admitted_checkFunction (hfunctions (some cls)) (hmethods cls (hclasses hcls) d hd)
  cases h with
  | @method cls before behind _ earlier later hcs hms =>
      have hcs : p.classTable.classes = before ++ cls :: behind := hcs
      have hbefore : before ⊆ p.classTable.classes := hcs ▸ List.subset_append_left _ _
      have hcls : cls ∈ p.classTable.classes :=
        hcs ▸ List.mem_append_right _ (List.mem_cons_self ..)
      refine Admitted.forM (fun e he => ?_) _ (hclasses before hbefore _ hdeclared)
      exact admitted_checkFunction (hfunctions (some cls))
        (hmethods cls hcls e (hms ▸ List.mem_append_left _ he))
  | @function _ earlier later hfs =>
      refine Admitted.forM (fun e he => ?_) _ (hclasses _ (List.Subset.refl _) _ hdeclared)
      exact admitted_checkFunction (hfunctions none) fun t ht =>
        mem_typeExprs_of_function (hfs ▸ List.mem_append_left _ he) ht

/-- So it is whenever the analysis comes to a part of a body: what is open there absorbs what
follows. -/
theorem Begins.absorbs {source : String} (hparse : ofText source = .ok p)
    (h : p.Begins printName env d start) {part : Part} {scope scope' : Scope}
    (hcomes : Task.ComesTo env (.body ((d.scope env).value start).enter d.body,
      (d.scope env).after start) (part.task scope, f)) (hblurs : scope.Blurs scope') :
    part.Absorbed env f scope scope' := by
  have hp := (p.numbered_ofText hparse).nodup
  obtain ⟨hknows, harrays⟩ := (h.mayKnow hp).knows hp
  obtain ⟨cls, hcls, rfl, hd⟩ := h.surroundings
  have hbody : (Part.block d.body).written ⊆ d.written :=
    FunctionDecl.written_of_mem_parts (List.mem_cons_self ..)
  obtain ⟨o, hplaced⟩ := exists_placed_body hd hknows ((fits_surroundings hp hcls).mono harrays)
  obtain ⟨hw, o₁, hplaced₁⟩ := hplaced.comesTo (List.Subset.trans hbody hd) hcomes
  exact hplaced₁.absorbed callsWithin_setting hw hblurs

end Program
end ObjectLang
