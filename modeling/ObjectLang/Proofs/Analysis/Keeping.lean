import ObjectLang.Proofs.Analysis.Progress

/-!
# What analysis keeps

Array types are numbered once, and a written type that was looked at has a meaning from then on.
This is so whatever is reported, and so what is known behind a part of the analysis is known at its
end, however much follows.
-/
namespace ObjectLang

theorem ArrayTypes.within_arrayOf (a : ArrayTypes) (c : ValueType) :
    a.Within (a.arrayOf c).2 := by
  rw [ArrayTypes.arrayOf]
  split
  · exact .rfl
  · exact a.within_push c

/-- Array types and the meanings of written types are known later too. -/
structure Findings.Kept (f g : Findings) : Prop where
  arrays : f.arrays.Within g.arrays
  typeExprs : ∀ id, (f.notes.typeExpr? id).isSome → (g.notes.typeExpr? id).isSome

namespace Findings.Kept

variable {f g h : Findings}

theorem rfl : f.Kept f :=
  ⟨.rfl, fun _ h => h⟩

theorem trans (hfg : f.Kept g) (hgh : g.Kept h) : f.Kept h :=
  ⟨hfg.arrays.trans hgh.arrays, fun id hid => hgh.typeExprs id (hfg.typeExprs id hid)⟩

end Findings.Kept

namespace Check

variable {α β : Type}

/-- A part of the analysis forgets no array types and no meanings of written types. -/
class Keeps (m : Check α) : Prop where
  kept : ∀ f : Findings, f.Kept (m.after f)

/-- What is kept up to the end of the first of two parts is kept up to the end of both. -/
theorem Keeps.bind {m : Check α} {k : α → Check β} {f g : Findings} [hk : ∀ a, Keeps (k a)]
    (h : g.Kept (m.after f)) : g.Kept ((m >>= k).after f) :=
  h.trans ((hk _).kept _)

instance (a : α) : Keeps (pure a : Check α) :=
  ⟨fun _ => .rfl⟩

instance keeps_bind {m : Check α} {k : α → Check β} [hm : Keeps m] [∀ a, Keeps (k a)] :
    Keeps (m >>= k) :=
  ⟨fun f => Keeps.bind (hm.kept f)⟩

instance : Keeps (get : Check Findings) :=
  ⟨fun _ => .rfl⟩

instance (d : Diagnostic) : Keeps (report d) :=
  ⟨fun _ => ⟨.rfl, fun _ h => h⟩⟩

instance {c : Prop} [Decidable c] {m n : Check α} [hm : Keeps m] [hn : Keeps n] :
    Keeps (if c then m else n) := by
  split
  · exact hm
  · exact hn

instance {o : Option β} {m : Check α} {k : β → Check α} [hm : Keeps m] [hk : ∀ b, Keeps (k b)] :
    Keeps (o.elim m k) := by
  cases o
  · exact hm
  · exact hk _

instance (condition : Bool) (d : Diagnostic) : Keeps (require condition d) :=
  inferInstanceAs (Keeps (if condition then pure () else report d))

instance (c : ValueType) : Keeps (arrayOf c) :=
  ⟨fun f => ⟨f.arrays.within_arrayOf c, fun _ h => h⟩⟩

instance (id : Nat) (t : ValueType) : Keeps (noteType id t) :=
  ⟨fun _ => ⟨.rfl, fun _ h => h⟩⟩

instance (id : Nat) (t : ValueType) : Keeps (noteTypeExpr id t) := by
  refine ⟨fun f => ⟨.rfl, fun i h => ?_⟩⟩
  rw [typeExpr?_insert]
  split
  · rfl
  · exact h

instance (id : Nat) (b : Binding) : Keeps (noteBinding id b) :=
  ⟨fun _ => ⟨.rfl, fun _ h => h⟩⟩

instance (id : Nat) (c : CallTarget) : Keeps (noteCall id c) :=
  ⟨fun _ => ⟨.rfl, fun _ h => h⟩⟩

instance keeps_checkType (classes : ClassTable) : (t : TypeExpr) → Keeps (checkType classes t)
  | .int _ => by
      unfold checkType
      refine @keeps_bind _ _ _ _ _ fun f => ?_
      split <;> infer_instance
  | .bool _ => by
      unfold checkType
      refine @keeps_bind _ _ _ _ _ fun f => ?_
      split <;> infer_instance
  | .named _ name => by
      unfold checkType
      refine @keeps_bind _ _ _ _ _ fun f => ?_
      split
      · infer_instance
      · simp only
        split <;> infer_instance
  | .array _ component => by
      have := keeps_checkType classes component
      unfold checkType
      refine @keeps_bind _ _ _ _ _ fun f => ?_
      split <;> infer_instance

instance keeps_mapM (g : α → Check β) [h : ∀ a, Keeps (g a)] : (l : List α) → Keeps (l.mapM g)
  | [] => by
      rw [List.mapM_nil]
      infer_instance
  | a :: l => by
      have := keeps_mapM g l
      rw [List.mapM_cons]
      infer_instance

instance keeps_forM (g : α → Check PUnit) [h : ∀ a, Keeps (g a)] : (l : List α) → Keeps (l.forM g)
  | [] => inferInstanceAs (Keeps (pure PUnit.unit))
  | a :: l => by
      have := keeps_forM g l
      exact inferInstanceAs (Keeps (g a >>= fun _ => l.forM g))

instance keeps_foldlM (g : β → α → Check β) [h : ∀ b a, Keeps (g b a)] :
    (l : List α) → (b : β) → Keeps (l.foldlM g b)
  | [], b => by
      rw [List.foldlM_nil]
      infer_instance
  | a :: l, b => by
      have := keeps_foldlM g l
      rw [List.foldlM_cons]
      infer_instance

instance (found : ValueType) (span : Span) : Keeps (requireArray found span) := by
  unfold requireArray
  split <;> infer_instance

instance (found : ValueType) (span : Span) : Keeps (requireObject found span) := by
  unfold requireObject
  split <;> infer_instance

instance (env : Surroundings) (id : Nat) (cls : ClassRef) (name : String) (d : Diagnostic) :
    Keeps (bindField env id cls name d) := by
  unfold bindField
  split <;> infer_instance

instance (env : Surroundings) (scope : Scope) (id : Nat) (name : Ident) :
    Keeps (bindVariable env scope id name) := by
  unfold bindVariable
  simp only
  split
  · infer_instance
  · split <;> infer_instance

instance (env : Surroundings) (name : Ident) : Keeps (checkNewObject env name) := by
  unfold checkNewObject
  split <;> infer_instance

instance (env : Surroundings) (decl : FunctionDecl) : Keeps (functionCallee env decl) := by
  unfold functionCallee signatureOf
  infer_instance

instance (env : Surroundings) (name : Ident) : Keeps (callee? env name) := by
  rw [callee?_eq]
  split <;> infer_instance

instance (expected found : Nat) (span : Span) : Keeps (checkArity expected found span) := by
  unfold checkArity
  infer_instance

instance (id : Nat) (m : Check ValueType) [Keeps m] : Keeps (noting id m) := by
  unfold noting
  infer_instance

mutual

instance keeps_checkExpr (env : Surroundings) (scope : Scope) : (e : Expr) →
    Keeps (checkExpr env scope e)
  | .unary _ op operand => by
      have := keeps_checkExpr env scope operand
      rw [checkExpr_unary]
      unfold operandOf
      infer_instance
  | .binary tag op left right => by
      have := keeps_checkExpr env scope left
      have := keeps_checkExpr env scope right
      by_cases hop : op = .equal
      · rw [hop, checkExpr_equal]
        infer_instance
      · rw [checkExpr_binary hop]
        unfold operandOf
        infer_instance
  | .number _ _ => by
      rw [checkExpr_number]
      infer_instance
  | .bool _ _ => by
      rw [checkExpr_bool]
      infer_instance
  | .null _ => by
      rw [checkExpr_null]
      infer_instance
  | .this tag => by
      rw [checkExpr_this]
      cases env.current <;> infer_instance
  | .read _ location => by
      have := keeps_checkLocation env scope location
      rw [checkExpr_read]
      infer_instance
  | .arrayLength _ array => by
      have := keeps_checkExpr env scope array
      rw [checkExpr_arrayLength]
      infer_instance
  | .newObject _ cls => by
      rw [checkExpr_newObject]
      infer_instance
  | .newArray _ element size => by
      have := keeps_checkExpr env scope size
      rw [checkExpr_newArray]
      unfold operandOf
      infer_instance
  | .call tag name args => by
      have := keeps_checkArguments env scope args
      rw [checkExpr_call]
      unfold applied
      infer_instance
  | .methodCall tag receiver name args => by
      have := keeps_checkExpr env scope receiver
      have := keeps_checkArguments env scope args
      rw [checkExpr_methodCall]
      unfold objectOf methodApplied applied
      infer_instance
termination_by structural e => e

instance keeps_checkLocation (env : Surroundings) (scope : Scope) : (l : Location) →
    Keeps (checkLocation env scope l)
  | .var tag name => by
      rw [checkLocation_var]
      infer_instance
  | .field tag receiver name => by
      have := keeps_checkExpr env scope receiver
      rw [checkLocation_field]
      unfold objectOf
      infer_instance
  | .index tag array index => by
      have := keeps_checkExpr env scope array
      have := keeps_checkExpr env scope index
      rw [checkLocation_index]
      unfold operandOf
      infer_instance
termination_by structural l => l

instance keeps_checkArguments (env : Surroundings) (scope : Scope) : (args : List Expr) →
    (params : List ValueType) → Keeps (checkArguments env scope args params)
  | [], _ => by
      unfold checkArguments
      infer_instance
  | arg :: args, [] => by
      unfold checkArguments
      infer_instance
  | arg :: args, param :: params => by
      have := keeps_checkExpr env scope arg
      have := keeps_checkArguments env scope args params
      rw [checkArguments_cons]
      unfold operandOf
      infer_instance
termination_by structural args => args

end

instance (env : Surroundings) (scope : Scope) (T : ValueType) (e : Expr)
    (complaint : ValueType → Diagnostic) : Keeps (operandOf env scope T e complaint) := by
  unfold operandOf
  infer_instance

instance (env : Surroundings) (scope : Scope) (tag : Tag) (args : List Expr) (callee : Callee) :
    Keeps (applied env scope tag args callee) := by
  unfold applied
  infer_instance

instance (env : Surroundings) (scope : Scope) (tag : Tag) (name : Ident) (args : List Expr)
    (cls : ClassRef) : Keeps (methodApplied env scope tag name args cls) := by
  unfold methodApplied
  infer_instance

instance (env : Surroundings) (scope : Scope) (decl : VarDecl) :
    Keeps (checkDeclaration env scope decl) := by
  unfold checkDeclaration
  infer_instance

instance (env : Surroundings) (scope : Scope) (target : Location) (e : Expr) :
    Keeps (checkAssignment env scope target e) := by
  unfold checkAssignment
  infer_instance

instance (env : Surroundings) (scope : Scope) (construct : Conditional) (e : Expr) :
    Keeps (checkCondition env scope construct e) := by
  unfold checkCondition
  infer_instance

instance (env : Surroundings) (scope : Scope) (span : Span) (e : Expr) :
    Keeps (checkReturn env scope span e) := by
  unfold checkReturn
  infer_instance

mutual

instance keeps_checkStmt (env : Surroundings) : (scope : Scope) → (s : Stmt) →
    Keeps (checkStmt env scope s)
  | scope, .declare decl => by
      unfold checkStmt
      infer_instance
  | scope, .eval value => by
      unfold checkStmt
      infer_instance
  | scope, .assign _ target value => by
      unfold checkStmt
      infer_instance
  | scope, .branch _ condition onTrue none => by
      have := keeps_checkStmt env scope.enter onTrue
      unfold checkStmt
      infer_instance
  | scope, .branch _ condition onTrue (some onFalse) => by
      have := keeps_checkStmt env scope.enter onTrue
      have := keeps_checkStmt env scope.enter onFalse
      unfold checkStmt
      infer_instance
  | scope, .loop _ condition body => by
      have := keeps_checkStmt env scope.enter body
      unfold checkStmt
      infer_instance
  | scope, .return span value => by
      unfold checkStmt
      infer_instance
  | scope, .block _ body => by
      have := keeps_checkBlock env scope.enter body
      unfold checkStmt
      infer_instance
termination_by structural _ s => s

instance keeps_checkBlock (env : Surroundings) : (scope : Scope) → (body : List Stmt) →
    Keeps (checkBlock env scope body)
  | scope, [] => by
      unfold checkBlock
      infer_instance
  | scope, s :: rest => by
      have := keeps_checkStmt env scope s
      have := fun scope => keeps_checkBlock env scope rest
      unfold checkBlock
      infer_instance
termination_by structural _ body => body

end

instance (env : Surroundings) (f : FunctionDecl) : Keeps (checkFunction env f) := by
  unfold checkFunction declareParameters
  infer_instance

end Check
end ObjectLang
