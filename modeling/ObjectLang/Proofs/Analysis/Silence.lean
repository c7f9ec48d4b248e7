import Mathlib.Tactic
import ObjectLang.Analysis.Basic

/-!
# Silent parts of the analysis

A part of the analysis is silent if it reports nothing. Diagnostics are never taken back, so two
parts one behind the other are silent exactly if both are, and whatever is skipped or absorbed after
a mistake needs no account: in a silent run there was no mistake before.
-/
namespace ObjectLang.Check

variable {α β : Type}

/-- What a part of the analysis gives. -/
def value (m : Check α) (f : Findings) : α :=
  (m.run f).1

/-- What is known behind a part of the analysis. -/
def after (m : Check α) (f : Findings) : Findings :=
  (m.run f).2

@[simp]
theorem value_pure (a : α) (f : Findings) : value (pure a) f = a :=
  rfl

@[simp]
theorem after_pure (a : α) (f : Findings) : after (pure a) f = f :=
  rfl

@[simp]
theorem value_bind (m : Check α) (k : α → Check β) (f : Findings) :
    value (m >>= k) f = (k (m.value f)).value (m.after f) :=
  rfl

@[simp]
theorem after_bind (m : Check α) (k : α → Check β) (f : Findings) :
    after (m >>= k) f = (k (m.value f)).after (m.after f) :=
  rfl

@[simp]
theorem value_map (g : α → β) (m : Check α) (f : Findings) : value (g <$> m) f = g (m.value f) :=
  rfl

@[simp]
theorem after_map (g : α → β) (m : Check α) (f : Findings) : after (g <$> m) f = m.after f :=
  rfl

@[simp]
theorem value_get (f : Findings) : value get f = f :=
  rfl

@[simp]
theorem after_get (f : Findings) : after get f = f :=
  rfl

@[simp]
theorem after_require (condition : Bool) (d : Diagnostic) (f : Findings) :
    (require condition d).after f = if condition then f else (report d).after f := by
  unfold require
  split <;> rfl

@[simp]
theorem value_arrayOf (c : ValueType) (f : Findings) :
    (arrayOf c).value f = (f.arrays.arrayOf c).1 :=
  rfl

@[simp]
theorem after_arrayOf (c : ValueType) (f : Findings) :
    (arrayOf c).after f = { f with arrays := (f.arrays.arrayOf c).2 } :=
  rfl

/-- Nothing is reported. -/
def Silent (m : Check α) (f : Findings) : Prop :=
  (m.after f).diagnostics.size = f.diagnostics.size

/-- Diagnostics are added and none is taken back. -/
class Adds (m : Check α) : Prop where
  le : ∀ f, f.diagnostics.size ≤ (m.after f).diagnostics.size

instance (a : α) : Adds (pure a : Check α) :=
  ⟨fun _ => le_rfl⟩

instance adds_bind {m : Check α} {k : α → Check β} [hm : Adds m] [hk : ∀ a, Adds (k a)] :
    Adds (m >>= k) :=
  ⟨fun f => (hm.le f).trans ((hk _).le _)⟩

instance {m : Check α} (g : α → β) [hm : Adds m] : Adds (g <$> m) :=
  ⟨hm.le⟩

instance : Adds (get : Check Findings) :=
  ⟨fun _ => le_rfl⟩

instance (d : Diagnostic) : Adds (report d) :=
  ⟨fun f => by simp [after, report, modify, modifyGet, MonadStateOf.modifyGet, StateT.modifyGet,
    StateT.run, pure]⟩

instance {c : Prop} [Decidable c] {m n : Check α} [hm : Adds m] [hn : Adds n] :
    Adds (if c then m else n) := by
  split
  · exact hm
  · exact hn

instance {o : Option β} {m : Check α} {k : β → Check α} [hm : Adds m] [hk : ∀ b, Adds (k b)] :
    Adds (o.elim m k) := by
  cases o
  · exact hm
  · exact hk _

instance (condition : Bool) (d : Diagnostic) : Adds (require condition d) :=
  inferInstanceAs (Adds (if condition then pure () else report d))

instance (c : ValueType) : Adds (arrayOf c) :=
  ⟨fun _ => le_rfl⟩

instance (id : Nat) (t : ValueType) : Adds (noteType id t) :=
  ⟨fun _ => le_rfl⟩

instance (id : Nat) (t : ValueType) : Adds (noteTypeExpr id t) :=
  ⟨fun _ => le_rfl⟩

instance (id : Nat) (b : Binding) : Adds (noteBinding id b) :=
  ⟨fun _ => le_rfl⟩

instance (id : Nat) (c : CallTarget) : Adds (noteCall id c) :=
  ⟨fun _ => le_rfl⟩

@[simp]
theorem silent_pure (a : α) (f : Findings) : Silent (pure a) f :=
  rfl

theorem silent_bind (m : Check α) (k : α → Check β) [hm : Adds m] [hk : ∀ a, Adds (k a)]
    (f : Findings) :
    Silent (m >>= k) f ↔ Silent m f ∧ Silent (k (m.value f)) (m.after f) := by
  have h := hm.le f
  have h' := (hk (m.value f)).le (m.after f)
  simp only [Silent, after_bind]
  omega

@[simp]
theorem silent_map (g : α → β) (m : Check α) (f : Findings) :
    Silent (g <$> m) f ↔ Silent m f :=
  Iff.rfl

@[simp]
theorem silent_get (f : Findings) : Silent get f :=
  rfl

@[simp]
theorem not_silent_report (d : Diagnostic) (f : Findings) : ¬ Silent (report d) f := by
  simp [Silent, after, report, modify, modifyGet, MonadStateOf.modifyGet, StateT.modifyGet,
    StateT.run, pure]

@[simp]
theorem silent_require (condition : Bool) (d : Diagnostic) (f : Findings) :
    Silent (require condition d) f ↔ condition = true := by
  cases condition <;> simp [require]

@[simp]
theorem silent_arrayOf (c : ValueType) (f : Findings) : Silent (arrayOf c) f :=
  rfl

@[simp]
theorem silent_noteType (id : Nat) (t : ValueType) (f : Findings) : Silent (noteType id t) f :=
  rfl

@[simp]
theorem silent_noteTypeExpr (id : Nat) (t : ValueType) (f : Findings) :
    Silent (noteTypeExpr id t) f :=
  rfl

@[simp]
theorem silent_noteBinding (id : Nat) (b : Binding) (f : Findings) :
    Silent (noteBinding id b) f :=
  rfl

@[simp]
theorem silent_noteCall (id : Nat) (c : CallTarget) (f : Findings) : Silent (noteCall id c) f :=
  rfl

/-- Behind a silent required condition nothing has changed. -/
theorem after_require_of_silent {condition : Bool} {d : Diagnostic} {f : Findings}
    (h : Silent (require condition d) f) : (require condition d).after f = f := by
  rw [silent_require] at h
  simp [h]

instance (expected found : ValueType) (span : Span) : Adds (requireType expected found span) :=
  inferInstanceAs (Adds (require _ _))

instance (found : ValueType) (span : Span) : Adds (requireArray found span) := by
  unfold requireArray
  split <;> infer_instance

instance (found : ValueType) (span : Span) : Adds (requireObject found span) := by
  unfold requireObject
  split <;> infer_instance

instance adds_checkType (classes : ClassTable) : (t : TypeExpr) → Adds (checkType classes t)
  | .int _ => by
      unfold checkType
      refine @adds_bind _ _ _ _ _ fun f => ?_
      split <;> infer_instance
  | .bool _ => by
      unfold checkType
      refine @adds_bind _ _ _ _ _ fun f => ?_
      split <;> infer_instance
  | .named _ name => by
      unfold checkType
      refine @adds_bind _ _ _ _ _ fun f => ?_
      split
      · infer_instance
      · simp only
        split <;> infer_instance
  | .array _ component => by
      have := adds_checkType classes component
      unfold checkType
      refine @adds_bind _ _ _ _ _ fun f => ?_
      split <;> infer_instance

instance adds_mapM (g : α → Check β) [h : ∀ a, Adds (g a)] : (l : List α) → Adds (l.mapM g)
  | [] => by
      rw [List.mapM_nil]
      infer_instance
  | a :: l => by
      have := adds_mapM g l
      rw [List.mapM_cons]
      infer_instance

instance adds_forM (g : α → Check PUnit) [h : ∀ a, Adds (g a)] : (l : List α) → Adds (l.forM g)
  | [] => inferInstanceAs (Adds (pure PUnit.unit))
  | a :: l => by
      have := adds_forM g l
      exact inferInstanceAs (Adds (g a >>= fun _ => l.forM g))

instance adds_foldlM (g : β → α → Check β) [h : ∀ b a, Adds (g b a)] :
    (l : List α) → (b : β) → Adds (l.foldlM g b)
  | [], b => by
      rw [List.foldlM_nil]
      infer_instance
  | a :: l, b => by
      have := adds_foldlM g l
      rw [List.foldlM_cons]
      infer_instance

instance (env : Surroundings) (id : Nat) (cls : ClassRef) (name : String) (d : Diagnostic) :
    Adds (bindField env id cls name d) := by
  unfold bindField
  split <;> infer_instance

instance (env : Surroundings) (scope : Scope) (id : Nat) (name : Ident) :
    Adds (bindVariable env scope id name) := by
  unfold bindVariable
  simp only
  split
  · infer_instance
  · split <;> infer_instance

instance (env : Surroundings) (name : Ident) : Adds (checkNewObject env name) := by
  unfold checkNewObject
  split <;> infer_instance

/-- The types in the signature of a function. -/
def signatureOf (classes : ClassTable) (decl : FunctionDecl) :
    Check (List ValueType × ValueType) := do
  let params ← decl.params.mapM fun p => checkType classes p.type
  let returnType ← checkType classes decl.returnType
  return (params, returnType)

instance (classes : ClassTable) (decl : FunctionDecl) : Adds (signatureOf classes decl) := by
  unfold signatureOf
  infer_instance

/-- A global function with its signature. -/
def functionCallee (env : Surroundings) (decl : FunctionDecl) : Check (Option Callee) := do
  let (params, returnType) ← signatureOf env.classes decl
  return some ⟨params, .function decl, returnType⟩

instance (env : Surroundings) (decl : FunctionDecl) : Adds (functionCallee env decl) := by
  unfold functionCallee
  infer_instance

instance (env : Surroundings) (name : Ident) : Adds (callee? env name) := by
  unfold callee?
  split
  · infer_instance
  · split <;> infer_instance

instance (expected found : Nat) (span : Span) : Adds (checkArity expected found span) := by
  unfold checkArity
  infer_instance

/-- A type that is found and noted. -/
def noting (id : Nat) (m : Check ValueType) : Check ValueType := do
  let type ← m
  noteType id type
  return type

instance (id : Nat) (m : Check ValueType) [Adds m] : Adds (noting id m) := by
  unfold noting
  infer_instance

/-- The usual complaint about an operand of another type. -/
def mismatch (T : ValueType) (e : Expr) (found : ValueType) : Diagnostic :=
  .typeMismatch T.text found.text e.span

/-- An operand that has to be of a type. -/
def operandOf (env : Surroundings) (scope : Scope) (T : ValueType) (e : Expr)
    (complaint : ValueType → Diagnostic) : Check Unit := do
  let found ← checkExpr env scope e
  require (found.isSubtype T) (complaint found)

/-- An operand that has to be an object. -/
def objectOf (env : Surroundings) (scope : Scope) (e : Expr) : Check (Option ClassRef) := do
  let found ← checkExpr env scope e
  requireObject found e.span

/-- A call of what was found for it. -/
def applied (env : Surroundings) (scope : Scope) (tag : Tag) (args : List Expr)
    (callee : Callee) : Check ValueType := do
  let fits ← checkArity callee.params.length args.length tag.span
  (if fits then checkArguments env scope args callee.params else pure ())
  noteCall tag.id callee.target
  return callee.returnType

/-- A call of a method of a class. -/
def methodApplied (env : Surroundings) (scope : Scope) (tag : Tag) (name : Ident)
    (args : List Expr) (cls : ClassRef) : Check ValueType :=
  (methodCallee? env cls name.name).elim
    (do
      report (.unknownMethod name.name cls.name name.span)
      pure .any)
    (applied env scope tag args)

theorem callee?_eq (env : Surroundings) (name : Ident) : callee? env name =
    (env.current.bind fun cls => methodCallee? env cls name.name).elim
      (match env.functions.find? name.name with
        | some .print => pure (some ⟨[.int], .print, .int⟩)
        | some (.declared decl) => functionCallee env decl
        | none => do
          report (.unknownFunction name.name name.span)
          pure none)
      (fun callee => pure (some callee)) := by
  unfold callee?
  cases env.current.bind fun cls => methodCallee? env cls name.name <;> rfl

section

variable {env : Surroundings} {scope : Scope} {tag : Tag} {name : Ident} {args : List Expr}

-- The equations of the checks are worked out here, once for the lemmas of the section.
attribute [local simp] checkExpr checkLocation checkArguments

theorem checkExpr_call : checkExpr env scope (.call tag name args) = noting tag.id (do
    let callee ← callee? env name
    callee.elim (pure .any) (applied env scope tag args)) := by
  unfold checkExpr
  simp only [noting, bind_assoc]
  congr
  funext callee
  cases callee with
  | none => rfl
  | some callee =>
      simp only [Option.elim, applied, bind_assoc]
      congr
      funext fits
      cases fits <;> rfl

theorem checkExpr_methodCall {receiver : Expr} :
    checkExpr env scope (.methodCall tag receiver name args) = noting tag.id (do
      let found ← objectOf env scope receiver
      found.elim (pure .any) (methodApplied env scope tag name args)) := by
  rw [checkExpr]
  simp only [noting, objectOf, bind_assoc]
  congr
  funext found
  congr
  funext cls
  cases cls with
  | none => rfl
  | some cls =>
      simp only [Option.elim, methodApplied]
      cases methodCallee? env cls name.name with
      | none => rfl
      | some callee =>
          simp only [applied, bind_assoc]
          congr
          funext fits
          cases fits <;> rfl

theorem checkLocation_field {receiver : Expr} :
    checkLocation env scope (.field tag receiver name) = noting tag.id (do
      let found ← objectOf env scope receiver
      found.elim (pure .any) fun cls =>
        bindField env tag.id cls name.name (.unknownField name.name cls.name name.span)) := by
  rw [checkLocation]
  simp only [noting, objectOf, bind_assoc]
  congr
  funext found
  congr
  funext cls
  cases cls <;> rfl

theorem checkLocation_index {array index : Expr} :
    checkLocation env scope (.index tag array index) = noting tag.id (do
      let found ← checkExpr env scope array
      let arrayType ← requireArray found array.span
      operandOf env scope .int index (mismatch .int index)
      pure (arrayType.component?.getD .any)) := by
  rw [checkLocation]
  simp only [noting, operandOf, bind_assoc]
  congr
  funext found
  congr
  funext type
  congr
  funext found
  congr
  funext _
  cases type <;> rfl

theorem checkExpr_this : checkExpr env scope (.this tag) = noting tag.id (do
    match env.current with
    | some cls => pure (.object cls)
    | none => do
      report (.thisOutsideMethod tag.span)
      pure .any) := by
  rw [checkExpr]
  cases env.current <;> rfl

theorem checkExpr_number {n : Nat} :
    checkExpr env scope (.number tag n) = noting tag.id (pure .int) := by
  rw [checkExpr]
  rfl

theorem checkExpr_bool {b : Bool} :
    checkExpr env scope (.bool tag b) = noting tag.id (pure .bool) := by
  rw [checkExpr]
  rfl

theorem checkExpr_null : checkExpr env scope (.null tag) = noting tag.id (pure .null) := by
  rw [checkExpr]
  rfl

theorem checkExpr_newObject {cls : Ident} :
    checkExpr env scope (.newObject tag cls) = noting tag.id (checkNewObject env cls) := by
  rw [checkExpr]
  rfl

theorem checkExpr_read {l : Location} :
    checkExpr env scope (.read tag l) = noting tag.id (checkLocation env scope l) := by
  rw [checkExpr]
  rfl

theorem checkExpr_arrayLength {array : Expr} :
    checkExpr env scope (.arrayLength tag array) = noting tag.id (do
      let found ← checkExpr env scope array
      let _ ← requireArray found array.span
      pure .int) := by
  rw [checkExpr]
  rfl

theorem checkLocation_var :
    checkLocation env scope (.var tag name) =
      noting tag.id (bindVariable env scope tag.id name) := by
  rw [checkLocation]
  rfl

theorem checkExpr_unary {op : UnaryOp} {operand : Expr} :
    checkExpr env scope (.unary tag op operand) = noting tag.id (do
      operandOf env scope (unaryType op) operand (mismatch (unaryType op) operand)
      pure (unaryType op)) := by
  rw [checkExpr]
  rfl

theorem checkExpr_equal {left right : Expr} :
    checkExpr env scope (.binary tag .equal left right) = noting tag.id (do
      let l ← checkExpr env scope left
      let r ← checkExpr env scope right
      require (l.isSubtype r || r.isSubtype l) (.incomparableTypes l.text r.text tag.span)
      pure .bool) := by
  rw [checkExpr]
  rfl

theorem checkExpr_binary {op : BinaryOp} {left right : Expr} (hop : op ≠ .equal) :
    checkExpr env scope (.binary tag op left right) = noting tag.id (do
      operandOf env scope (operandType op) left (mismatch (operandType op) left)
      operandOf env scope (operandType op) right (mismatch (operandType op) right)
      pure (resultType op)) := by
  rw [checkExpr]
  simp only [hop, if_false]
  rfl

theorem checkExpr_newArray {element : TypeExpr} {size : Expr} :
    checkExpr env scope (.newArray tag element size) = noting tag.id (do
      operandOf env scope .int size (mismatch .int size)
      let component ← checkType env.classes element
      arrayOf component) := by
  rw [checkExpr]
  rfl

theorem checkArguments_cons {e : Expr} {T : ValueType} {Ts : List ValueType} :
    checkArguments env scope (e :: args) (T :: Ts) = (do
      operandOf env scope T e (mismatch T e)
      checkArguments env scope args Ts) := by
  rw [checkArguments]
  rfl

end

mutual

instance adds_checkExpr (env : Surroundings) (scope : Scope) : (e : Expr) →
    Adds (checkExpr env scope e)
  | .unary _ op operand => by
      have := adds_checkExpr env scope operand
      unfold checkExpr
      infer_instance
  | .binary tag op left right => by
      have := adds_checkExpr env scope left
      have := adds_checkExpr env scope right
      by_cases hop : op = .equal
      · rw [hop, checkExpr_equal]
        infer_instance
      · rw [checkExpr_binary hop]
        unfold operandOf
        infer_instance
  | .number _ _ => by
      unfold checkExpr
      infer_instance
  | .bool _ _ => by
      unfold checkExpr
      infer_instance
  | .null _ => by
      unfold checkExpr
      infer_instance
  | .this tag => by
      rw [checkExpr_this]
      cases env.current <;> infer_instance
  | .read _ location => by
      have := adds_checkLocation env scope location
      unfold checkExpr
      infer_instance
  | .arrayLength _ array => by
      have := adds_checkExpr env scope array
      unfold checkExpr
      infer_instance
  | .newObject _ cls => by
      unfold checkExpr
      infer_instance
  | .newArray _ element size => by
      have := adds_checkExpr env scope size
      unfold checkExpr
      infer_instance
  | .call tag name args => by
      have := adds_checkArguments env scope args
      rw [checkExpr_call]
      unfold applied
      infer_instance
  | .methodCall tag receiver name args => by
      have := adds_checkExpr env scope receiver
      have := adds_checkArguments env scope args
      rw [checkExpr_methodCall]
      unfold objectOf methodApplied applied
      infer_instance
termination_by structural e => e

instance adds_checkLocation (env : Surroundings) (scope : Scope) : (l : Location) →
    Adds (checkLocation env scope l)
  | .var tag name => by
      unfold checkLocation
      infer_instance
  | .field tag receiver name => by
      have := adds_checkExpr env scope receiver
      rw [checkLocation_field]
      unfold objectOf
      infer_instance
  | .index tag array index => by
      have := adds_checkExpr env scope array
      have := adds_checkExpr env scope index
      rw [checkLocation_index]
      unfold operandOf
      infer_instance
termination_by structural l => l

instance adds_checkArguments (env : Surroundings) (scope : Scope) : (args : List Expr) →
    (params : List ValueType) → Adds (checkArguments env scope args params)
  | [], _ => by
      unfold checkArguments
      infer_instance
  | arg :: args, params => by
      have := adds_checkExpr env scope arg
      have := adds_checkArguments env scope args
      unfold checkArguments
      cases params <;> infer_instance
termination_by structural args => args

end

instance (env : Surroundings) (scope : Scope) (T : ValueType) (e : Expr)
    (complaint : ValueType → Diagnostic) : Adds (operandOf env scope T e complaint) := by
  unfold operandOf
  infer_instance

instance (env : Surroundings) (scope : Scope) (e : Expr) : Adds (objectOf env scope e) := by
  unfold objectOf
  infer_instance

instance (env : Surroundings) (scope : Scope) (tag : Tag) (args : List Expr) (callee : Callee) :
    Adds (applied env scope tag args callee) := by
  unfold applied
  infer_instance

instance (env : Surroundings) (scope : Scope) (tag : Tag) (name : Ident) (args : List Expr)
    (cls : ClassRef) : Adds (methodApplied env scope tag name args cls) := by
  unfold methodApplied
  infer_instance

instance (env : Surroundings) (scope : Scope) (decl : VarDecl) :
    Adds (checkDeclaration env scope decl) := by
  unfold checkDeclaration
  infer_instance

instance (env : Surroundings) (scope : Scope) (target : Location) (e : Expr) :
    Adds (checkAssignment env scope target e) := by
  unfold checkAssignment
  infer_instance

instance (env : Surroundings) (scope : Scope) (construct : Conditional) (e : Expr) :
    Adds (checkCondition env scope construct e) := by
  unfold checkCondition
  infer_instance

instance (env : Surroundings) (scope : Scope) (span : Span) (e : Expr) :
    Adds (checkReturn env scope span e) := by
  unfold checkReturn
  infer_instance

mutual

instance adds_checkStmt (env : Surroundings) : (scope : Scope) → (s : Stmt) →
    Adds (checkStmt env scope s)
  | scope, .declare decl => by
      unfold checkStmt
      infer_instance
  | scope, .eval value => by
      unfold checkStmt
      infer_instance
  | scope, .assign _ target value => by
      unfold checkStmt
      infer_instance
  | scope, .branch _ condition onTrue none => by
      have := adds_checkStmt env scope.enter onTrue
      unfold checkStmt
      infer_instance
  | scope, .branch _ condition onTrue (some onFalse) => by
      have := adds_checkStmt env scope.enter onTrue
      have := adds_checkStmt env scope.enter onFalse
      unfold checkStmt
      infer_instance
  | scope, .loop _ condition body => by
      have := adds_checkStmt env scope.enter body
      unfold checkStmt
      infer_instance
  | scope, .return span value => by
      unfold checkStmt
      infer_instance
  | scope, .block _ body => by
      have := adds_checkBlock env scope.enter body
      unfold checkStmt
      infer_instance
termination_by structural _ s => s

instance adds_checkBlock (env : Surroundings) : (scope : Scope) → (body : List Stmt) →
    Adds (checkBlock env scope body)
  | scope, [] => by
      unfold checkBlock
      infer_instance
  | scope, s :: rest => by
      have := adds_checkStmt env scope s
      have := fun scope => adds_checkBlock env scope rest
      unfold checkBlock
      infer_instance
termination_by structural _ body => body

end

instance (classes : ClassTable) (m : ClassMembers) (decl : VarDecl) :
    Adds (declareField classes m decl) := by
  unfold declareField
  refine @adds_bind _ _ _ _ _ fun type => ?_
  split <;> infer_instance

instance (classes : ClassTable) (m : ClassMembers) (decl : FunctionDecl) :
    Adds (declareMethod classes m decl) := by
  unfold declareMethod
  refine @adds_bind _ _ _ _ _ fun params => @adds_bind _ _ _ _ _ fun type => ?_
  split <;> infer_instance

instance (classes : ClassTable) (cls : ClassRef) (decl : ClassDecl) :
    Adds (declareMembers classes cls decl) := by
  unfold declareMembers
  infer_instance

instance (env : Surroundings) (scope : Scope) (params : List VarDecl) :
    Adds (declareParameters env scope params) := by
  unfold declareParameters
  infer_instance

instance (env : Surroundings) (f : FunctionDecl) : Adds (checkFunction env f) := by
  unfold checkFunction
  infer_instance

instance (p : Program) (classes : ClassTable) (functions : FunctionTable) :
    Adds (p.checkAll classes functions) := by
  unfold Program.checkAll
  infer_instance

end ObjectLang.Check
