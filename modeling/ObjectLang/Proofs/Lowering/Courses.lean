import Mathlib.Tactic
import ObjectLang.Proofs.IR.Courses
import ObjectLang.Proofs.Lowering.Parallel

/-!
# The course of making code

Making code does nothing to the builder but the moves that it puts on record. Behind an expression
or a statement the same blocks are still to be opened as before it, and the moves are orderly:
whatever blocks were made on the way were opened, and got a terminator. Behind an expression a block
is open if one was open before.
-/
namespace ObjectLang

open IR

/-- If no fact is missing, making code does orderly moves, behind which `d` holds if `o` held
before. -/
def Steers {α : Type} (o : Outlook) (x : Lower α) (d : α → Outlook) : Prop :=
  ∀ (b : Builder) entries targets ms s a s', b.Course entries targets ms o →
    s.builder = b.makeAll ms → x s = .ok (a, s') →
      ∃ ms', s'.builder = s.builder.makeAll ms' ∧ b.Course entries targets (ms ++ ms') (d a)

section combinators

variable {α β : Type} {o : Outlook} {x : Lower α} {d d' : α → Outlook}

theorem Steers.mono (h : Steers o x d) (hd : ∀ a, (d' a).Le (d a)) : Steers o x d' := by
  intro b entries targets ms s a s' hc hs hx
  obtain ⟨ms', hs', hc'⟩ := h b entries targets ms s a s' hc hs hx
  exact ⟨ms', hs', hc'.mono (hd a)⟩

theorem Steers.weaken {o' : Outlook} (h : Steers o' x d) (ho : o'.Le o) : Steers o x d :=
  fun b entries targets ms s a s' hc => h b entries targets ms s a s' (hc.mono ho)

theorem Steers.bind {f : α → Lower β} {e : β → Outlook} (h : Steers o x d)
    (hf : ∀ a, Steers (d a) (f a) e) : Steers o (x >>= f) e := by
  intro b entries targets ms s c s'' hc hs hrun
  obtain ⟨a, s', hx, hfa⟩ := Lower.of_bind hrun
  obtain ⟨ms', hfirst, hc'⟩ := h b entries targets ms s a s' hc hs hx
  have hs' : s'.builder = b.makeAll (ms ++ ms') := by
    rw [hfirst, hs, Builder.makeAll_append]
  obtain ⟨ms'', hsecond, hc''⟩ := hf a b entries targets _ s' c s'' hc' hs' hfa
  refine ⟨ms' ++ ms'', ?_, List.append_assoc .. ▸ hc''⟩
  rw [hsecond, hfirst, Builder.makeAll_append]

theorem steers_pure {a : α} (h : (d a).Le o) : Steers o (pure a) d := by
  rintro b entries targets ms s _ _ hc hs ⟨⟩
  exact ⟨[], rfl, (List.append_nil ms).symm ▸ hc.mono h⟩

theorem steers_throw {fact : MissingFact} : Steers o (throw fact : Lower α) d := by
  rintro b entries targets ms s _ _ hc hs ⟨⟩

theorem steers_known {fact : Option α} {missing : MissingFact} :
    Steers o (known fact missing) fun _ => o := by
  cases fact with
  | none => exact steers_throw
  | some a => exact steers_pure .rfl

theorem steers_get : Steers o (get : Lower LowerState) fun _ => o := by
  rintro b entries targets ms s _ _ hc hs ⟨⟩
  exact ⟨[], rfl, (List.append_nil ms).symm ▸ hc⟩

theorem steers_modify {f : LowerState → LowerState} (hf : ∀ s, (f s).builder = s.builder) :
    Steers o (modify f : Lower PUnit) fun _ => o := by
  rintro b entries targets ms s _ _ hc hs ⟨⟩
  exact ⟨[], hf s, (List.append_nil ms).symm ▸ hc⟩

theorem steers_onTarget {build : Build α} : Steers o (onTarget build) fun _ => o := by
  rintro b entries targets ms s _ _ hc hs ⟨⟩
  exact ⟨[], rfl, (List.append_nil ms).symm ▸ hc⟩

theorem steers_typeOfOperand {x : Operand} : Steers o (typeOfOperand x) fun _ => o :=
  steers_get.bind fun _ => steers_pure .rfl

theorem steers_compute {g : Builder → α × Builder}
    (hg : ∀ (b : Builder) entries targets ms, b.Course entries targets ms o → ∃ ms',
      (g (b.makeAll ms)).2 = (b.makeAll ms).makeAll ms' ∧
        b.Course entries targets (ms ++ ms') (d (g (b.makeAll ms)).1)) :
    Steers o (compute g) d := by
  rintro b entries targets ms s _ _ hc hs ⟨⟩
  obtain ⟨ms', hmoves, hc'⟩ := hg b entries targets ms hc
  rw [← hs] at hmoves hc'
  exact ⟨ms', hmoves, hc'⟩

theorem steers_perform {g : Builder → Builder} {d : Outlook} {m : Move}
    (hg : ∀ b : Builder, g b = b.make m)
    (hm : ∀ (b : Builder) entries targets ms, b.Course entries targets ms o →
      b.Course entries targets (ms ++ [m]) d) : Steers o (perform g) fun _ => d := by
  rintro b entries targets ms s _ _ hc hs ⟨⟩
  exact ⟨[m], hg _, hm b entries targets ms hc⟩

end combinators

section operations

variable {o : Outlook}

theorem steers_define {g : Builder → Operand × Builder}
    (hg : ∀ b, ∃ type i, (g b).2 = b.makeAll [.temp type, .emit i]) :
    Steers o (compute g) fun _ => o := by
  refine steers_compute fun b entries targets ms hc => ?_
  obtain ⟨type, i, heq⟩ := hg (b.makeAll ms)
  refine ⟨_, heq, ?_⟩
  rw [List.append_cons]
  exact (hc.temp type).emit i

theorem steers_binary {op : Operation} {x y : Operand} :
    Steers o (compute (·.binary op x y)) fun _ => o :=
  steers_define fun _ => ⟨_, _, rfl⟩

theorem steers_load {x : Operand} : Steers o (compute (·.load x)) fun _ => o :=
  steers_define fun _ => ⟨_, _, rfl⟩

theorem steers_bitcast {x : Operand} {type : Ty} :
    Steers o (compute (·.bitcast x type)) fun _ => o :=
  steers_define fun _ => ⟨_, _, rfl⟩

theorem steers_elementPtr {x : Operand} {indices : List Operand} {type : Ty} :
    Steers o (compute (·.elementPtr x indices type)) fun _ => o :=
  steers_define fun _ => ⟨_, _, rfl⟩

theorem steers_call {procedure : Nat} {args : List Operand} {type : Ty} :
    Steers o (compute (·.call procedure args type)) fun _ => o :=
  steers_define fun _ => ⟨_, _, rfl⟩

theorem steers_slot {type : Ty} : Steers o (compute (·.slot type)) fun _ => o :=
  steers_compute fun _ _ _ _ hc => ⟨[.slot type], rfl, hc.slot type⟩

theorem steers_emit {g : Builder → Builder} {i : Instruction} (hg : ∀ b, g b = b.emit i) :
    Steers o (perform g) fun _ => o :=
  steers_perform (m := .emit i) hg fun _ _ _ _ hc => hc.emit i

theorem steers_store {x y : Operand} : Steers o (perform (·.store x y)) fun _ => o :=
  steers_emit fun _ => rfl

theorem steers_print {x : Operand} : Steers o (perform (·.print x)) fun _ => o :=
  steers_emit fun _ => rfl

theorem steers_comment {text : String} : Steers o (perform (·.comment text)) fun _ => o :=
  steers_emit fun _ => rfl

theorem steers_newBlock {name : String} : Steers o (compute (·.newBlock name)) fun n =>
    ⟨n :: o.pending, n :: o.known, o.isOpen⟩ :=
  steers_compute fun _ _ _ _ hc => ⟨[.block name], rfl, hc.block name⟩

theorem steers_terminate {g : Builder → Builder} {t : Terminator} (hg : ∀ b, g b = b.terminate t)
    (ht : ∀ k ∈ t.successors, k ∈ o.known) :
    Steers o (perform g) fun _ => { o with isOpen := some false } :=
  steers_perform (m := .terminate t) hg fun _ _ _ _ hc => hc.terminate ht

theorem steers_halt {message : String} :
    Steers o (perform (·.halt message)) fun _ => { o with isOpen := some false } :=
  steers_terminate (fun _ => rfl) nofun

theorem steers_ret {x : Operand} :
    Steers o (perform (·.ret x)) fun _ => { o with isOpen := some false } :=
  steers_terminate (fun _ => rfl) nofun

theorem steers_jump {n : Nat} (hn : n ∈ o.known) :
    Steers o (perform (·.jump n)) fun _ => { o with isOpen := some false } :=
  steers_terminate (fun _ => rfl) (by simpa [Terminator.successors] using hn)

theorem steers_branch {x : Operand} {n k : Nat} (hn : n ∈ o.known) (hk : k ∈ o.known) :
    Steers o (perform (·.branch x n k)) fun _ => { o with isOpen := some false } :=
  steers_terminate (fun _ => rfl) (by simpa [Terminator.successors] using ⟨hn, hk⟩)

/-- Where no block is open, one of those that are still to be opened may be. -/
theorem steers_switchTo (before : List Nat) {n : Nat} {known after : List Nat} :
    Steers ⟨before ++ n :: after, known, some false⟩ (perform (·.switchTo n)) fun _ =>
      ⟨before ++ after, known, some true⟩ :=
  steers_perform (fun _ => rfl) fun _ _ _ _ hc => hc.switchTo rfl rfl

end operations

/-- It is not said that no block is open. -/
def IR.Outlook.MayBeOpen (o : Outlook) : Prop :=
  o.isOpen = none ∨ o.isOpen = some true

section fragments

variable {o : Outlook} {body : Body} {x y : Operand}

theorem steers_typeOf {id : Nat} : Steers o (body.typeOf id) fun _ => o :=
  steers_known

theorem steers_classOf {id : Nat} : Steers o (body.classOf id) fun _ => o :=
  steers_typeOf.bind fun _ => steers_known

theorem steers_lower {type : ValueType} : Steers o (body.lower type) fun _ => o :=
  steers_onTarget

theorem steers_lowerTypeExpr {t : TypeExpr} : Steers o (body.lowerTypeExpr t) fun _ => o :=
  steers_known.bind fun _ => steers_lower

theorem steers_classLayout {cls : ClassRef} : Steers o (body.classLayout cls) fun _ => o :=
  steers_known

theorem steers_variable {decl : VarDecl} : Steers o (body.slot decl) fun _ => o :=
  steers_known.bind fun _ => steers_pure .rfl

theorem steers_cast {type : Ty} : Steers o (cast x type) fun _ => o := by
  refine steers_typeOfOperand.bind fun _ => ?_
  split
  · exact steers_bitcast
  · exact steers_pure .rfl

theorem steers_thisAs {cls : ClassRef} : Steers o (thisAs body cls) fun _ => o :=
  steers_known.bind fun _ => steers_classLayout.bind fun _ => steers_cast

/-- Behind a test a block is open; that in which the program stops is closed again. -/
theorem steers_stopIf {stopName goName message : String} (ho : o.MayBeOpen) :
    Steers o (stopIf x stopName goName message) fun _ => o := by
  refine .bind steers_newBlock fun stop => .bind steers_newBlock fun go => ?_
  refine .bind (steers_branch (by simp) (by simp)) fun _ => ?_
  refine .bind (steers_switchTo [go]) fun _ => .bind steers_halt fun _ => ?_
  exact (steers_switchTo []).mono fun _ =>
    ⟨rfl, List.subset_append_right [go, stop] _, ho⟩

theorem steers_nullCheck {span : Span} (ho : o.MayBeOpen) :
    Steers o (nullCheck x span) fun _ => o :=
  steers_binary.bind fun _ => steers_stopIf ho

theorem steers_arrayLength : Steers o (arrayLength x) fun _ => o :=
  steers_elementPtr.bind fun _ => steers_load

theorem steers_boundsCheck {span : Span} (ho : o.MayBeOpen) :
    Steers o (boundsCheck x y span) fun _ => o :=
  steers_arrayLength.bind fun _ => steers_binary.bind fun _ => steers_binary.bind fun _ =>
    steers_binary.bind fun _ => steers_binary.bind fun _ => steers_stopIf ho

theorem steers_fieldAddress {cls owner : ClassRef} {field : VarDecl} :
    Steers o (fieldAddress body x cls owner field) fun _ => o :=
  steers_classLayout.bind fun _ => steers_known.bind fun _ => steers_lowerTypeExpr.bind fun _ =>
    steers_elementPtr

theorem steers_quotient {span : Span} (ho : o.MayBeOpen) :
    Steers o (quotient x y span) fun _ => o := by
  refine .bind steers_binary fun _ => .bind (steers_stopIf ho) fun _ => ?_
  refine .bind steers_slot fun _ => .bind steers_binary fun _ => .bind steers_binary fun _ => ?_
  refine .bind steers_binary fun overflow => .bind steers_store fun _ => ?_
  refine .bind steers_newBlock fun divide => .bind steers_newBlock fun done => ?_
  refine .bind (steers_branch (by simp) (by simp)) fun _ => ?_
  refine .bind (steers_switchTo [done]) fun _ => ?_
  refine .bind steers_binary fun _ => .bind steers_store fun _ => ?_
  refine .bind (steers_jump (by simp)) fun _ => .bind (steers_switchTo []) fun _ => ?_
  exact steers_load.mono fun _ => ⟨rfl, List.subset_append_right [done, divide] _, ho⟩

theorem steers_equality {leftType rightType : ValueType} :
    Steers o (equality leftType rightType x y) fun _ => o := by
  refine .bind steers_typeOfOperand fun _ => .bind steers_typeOfOperand fun _ => ?_
  dsimp only
  split
  all_goals
    split
    · exact steers_cast.bind fun _ => steers_binary
    · exact steers_cast.bind fun _ => steers_binary

theorem steers_allocator {component : ValueType} :
    Steers o (allocator body component) fun _ => o := by
  refine .bind steers_get fun _ => ?_
  split
  · exact steers_pure .rfl
  · exact steers_onTarget.bind fun _ => steers_onTarget.bind fun _ =>
      .bind (steers_modify fun _ => rfl) fun _ => steers_pure .rfl

theorem steers_commentOn {s : Stmt} : Steers o (commentOn body s) fun _ => o := by
  rw [commentOn]
  split
  · exact steers_comment
  · exact steers_pure .rfl

theorem steers_assign : Steers o (assign x y) fun _ => o :=
  steers_typeOfOperand.bind fun _ => steers_cast.bind fun _ => steers_store

theorem steers_returnValue : Steers o (returnValue x) fun _ => { o with isOpen := some false } :=
  steers_get.bind fun _ => steers_cast.bind fun _ => steers_ret

end fragments

section expressions

variable {body : Body}

mutual

theorem steers_expr : ∀ (e : Expr) {o : Outlook}, o.MayBeOpen →
    Steers o (lowerExpr body e) fun _ => o
  | .unary _ .neg operand, _, ho => .bind (steers_expr operand ho) fun _ => steers_binary
  | .unary _ .not operand, _, ho => .bind (steers_expr operand ho) fun _ => steers_binary
  | .binary tag op left right, o, ho => by
      have hboth : ∀ {op : Operation}, Steers o (do
          let first ← lowerExpr body left
          let second ← lowerExpr body right
          compute (·.binary op first second)) fun _ => o :=
        .bind (steers_expr left ho) fun _ => .bind (steers_expr right ho) fun _ => steers_binary
      cases op with
      | and =>
          refine .bind steers_slot fun _ => .bind (steers_expr left ho) fun _ =>
            .bind steers_store fun _ => ?_
          refine .bind steers_newBlock fun onTrue => .bind steers_newBlock fun done => ?_
          refine .bind (steers_branch (by simp) (by simp)) fun _ => ?_
          refine .bind (steers_switchTo [done]) fun _ => ?_
          refine .bind (steers_expr right (.inr rfl)) fun _ => .bind steers_store fun _ => ?_
          refine .bind (steers_jump (by simp)) fun _ =>
            .bind (steers_switchTo []) fun _ => ?_
          exact steers_load.mono fun _ => ⟨rfl, List.subset_append_right [done, onTrue] _, ho⟩
      | div =>
          exact .bind (steers_expr left ho) fun _ => .bind (steers_expr right ho) fun _ =>
            steers_quotient ho
      | equal =>
          exact .bind (steers_expr left ho) fun _ => .bind (steers_expr right ho) fun _ =>
            steers_typeOf.bind fun _ => steers_typeOf.bind fun _ => steers_equality
      | _ => exact hboth
  | .number _ _, _, _ | .bool _ _, _, _ | .null _, _, _ => steers_pure .rfl
  | .this _, _, _ => steers_known.bind fun _ => steers_pure .rfl
  | .read _ location, _, ho => .bind (steers_location location ho) fun _ => steers_load
  | .arrayLength _ array, _, ho =>
      .bind (steers_expr array ho) fun _ => .bind (steers_nullCheck ho) fun _ => steers_arrayLength
  | .newObject _ _, _, _ =>
      steers_classOf.bind fun _ => steers_classLayout.bind fun _ => steers_call
  | .newArray _ _ size, _, ho =>
      steers_typeOf.bind fun _ => steers_known.bind fun _ => steers_allocator.bind fun _ =>
        .bind (steers_expr size ho) fun _ => steers_lower.bind fun _ => steers_call
  | .call _ _ args, _, ho => by
      refine .bind steers_known fun target => ?_
      cases target with
      | print =>
          exact .bind (steers_arguments args ho) fun _ => steers_known.bind fun _ =>
            steers_print.bind fun _ => steers_pure .rfl
      | function decl =>
          exact .bind steers_known fun _ => .bind (steers_arguments args ho) fun _ => steers_call
      | method owner decl =>
          exact steers_thisAs.bind fun _ => steers_classLayout.bind fun _ =>
            .bind steers_known fun _ => .bind (steers_arguments args ho) fun _ => steers_call
  | .methodCall _ receiver _ args, _, ho => by
      refine .bind (steers_expr receiver ho) fun _ => .bind (steers_nullCheck ho) fun _ =>
        .bind steers_known fun target => ?_
      cases target with
      | print => exact steers_throw
      | function decl => exact steers_throw
      | method owner decl =>
          exact steers_classLayout.bind fun _ => steers_cast.bind fun _ =>
            .bind steers_known fun _ => .bind (steers_arguments args ho) fun _ => steers_call
termination_by structural e => e

theorem steers_location : ∀ (l : Location) {o : Outlook}, o.MayBeOpen →
    Steers o (lowerLocation body l) fun _ => o
  | .var _ _, _, _ => by
      refine .bind steers_known fun binding => ?_
      cases binding with
      | «variable» decl => exact steers_variable
      | field owner decl => exact steers_thisAs.bind fun _ => steers_fieldAddress
  | .field _ receiver _, _, ho => by
      refine .bind (steers_expr receiver ho) fun _ => .bind (steers_nullCheck ho) fun _ =>
        steers_classOf.bind fun _ => .bind steers_known fun binding => ?_
      cases binding with
      | «variable» decl => exact steers_throw
      | field owner decl => exact steers_fieldAddress
  | .index _ array index, _, ho =>
      .bind (steers_expr array ho) fun _ => .bind (steers_nullCheck ho) fun _ =>
        .bind (steers_expr index ho) fun _ => .bind (steers_boundsCheck ho) fun _ =>
          steers_typeOf.bind fun _ => steers_lower.bind fun _ => steers_elementPtr
termination_by structural l => l

theorem steers_arguments : ∀ (args : List Expr) {params : List Ty} {o : Outlook}, o.MayBeOpen →
    Steers o (lowerArguments body args params) fun _ => o
  | [], _, _, _ => steers_pure .rfl
  | _ :: _, [], _, _ => steers_pure .rfl
  | arg :: args, _ :: _, _, ho =>
      .bind (steers_expr arg ho) fun _ => steers_cast.bind fun _ =>
        .bind (steers_arguments args ho) fun _ => steers_pure .rfl
termination_by structural args => args

end

end expressions

/-- It is not known whether a block is open. -/
def IR.Outlook.blind (o : Outlook) : Outlook :=
  { o with isOpen := none }

@[simp]
theorem IR.Outlook.known_blind (o : Outlook) : o.blind.known = o.known :=
  rfl

theorem IR.Outlook.blind_le (o : Outlook) : o.blind.Le o :=
  ⟨rfl, List.Subset.refl _, .inl rfl⟩

section leads

variable (body : Body) (span : Span) (test : Expr)

/-- What is made before the first arm of a conditional statement. Gives the block of the second arm
and the one behind the statement. -/
def enterFirst (onTrue : Stmt) (onFalse : Option Stmt) : Lower (Nat × Nat) := do
  commentOn body (.branch span test onTrue onFalse)
  let condition ← lowerExpr body test
  let first ← compute (·.newBlock "if_true")
  let second ← compute (·.newBlock "if_false")
  let done ← compute (·.newBlock "if_end")
  perform (·.branch condition first second)
  perform (·.switchTo first)
  return (second, done)

/-- What is made before the repeated part of a loop. Gives the block of its test and the one behind
the loop. -/
def enterLoop (repeated : Stmt) : Lower (Nat × Nat) := do
  commentOn body (.loop span test repeated)
  let check ← compute (·.newBlock "while_cond")
  let again ← compute (·.newBlock "while_body")
  let done ← compute (·.newBlock "while_end")
  perform (·.jump check)
  perform (·.switchTo check)
  let condition ← lowerExpr body test
  perform (·.branch condition again done)
  perform (·.switchTo again)
  return (check, done)

end leads

section statements

variable {body : Body} {span : Span} {test : Expr} {x : Stmt} {other : Option Stmt}

theorem lowerStmt_branch_eq : lowerStmt body (.branch span test x other) = (do
    let arms ← enterFirst body span test x other
    lowerStmt body x
    perform (·.jump arms.2)
    perform (·.switchTo arms.1)
    other.elim (pure ()) (lowerStmt body)
    perform (·.jump arms.2)
    perform (·.switchTo arms.2)) := by
  rw [lowerStmt_branch, enterFirst]
  simp only [bind_assoc, pure_bind]

theorem lowerStmt_loop_eq : lowerStmt body (.loop span test x) = (do
    let blocks ← enterLoop body span test x
    lowerStmt body x
    perform (·.jump blocks.1)
    perform (·.switchTo blocks.2)) := by
  rw [lowerStmt_loop, enterLoop]
  simp only [bind_assoc, pure_bind]

theorem steers_enterFirst {o : Outlook} : Steers o (enterFirst body span test x other) fun arms =>
    ⟨arms.2 :: arms.1 :: o.pending, arms.2 :: arms.1 :: o.known, some true⟩ := by
  refine .weaken (.bind steers_commentOn fun _ =>
    .bind (steers_expr test (.inl rfl)) fun _ => ?_) o.blind_le
  refine .bind steers_newBlock fun first => .bind steers_newBlock fun second =>
    .bind steers_newBlock fun done => ?_
  refine .bind (steers_branch (by simp) (by simp)) fun _ => ?_
  refine .bind (steers_switchTo [done, second]) fun _ => ?_
  refine steers_pure ⟨rfl, ?_, .inr rfl⟩
  exact List.cons_subset_cons _ (List.cons_subset_cons _ (List.subset_cons_self ..))

theorem steers_enterLoop {o : Outlook} : Steers o (enterLoop body span test x) fun blocks =>
    ⟨blocks.2 :: o.pending, blocks.2 :: blocks.1 :: o.known, some true⟩ := by
  refine .weaken (.bind steers_commentOn fun _ => ?_) o.blind_le
  refine .bind steers_newBlock fun check => .bind steers_newBlock fun again =>
    .bind steers_newBlock fun done => ?_
  refine .bind (steers_jump (by simp)) fun _ =>
    .bind (steers_switchTo [done, again]) fun _ =>
      .bind (steers_expr test (.inr rfl)) fun _ => ?_
  refine .bind (steers_branch (by simp) (by simp)) fun _ => ?_
  refine .bind (steers_switchTo [done]) fun _ => ?_
  refine steers_pure ⟨rfl, ?_, .inr rfl⟩
  exact List.cons_subset_cons _ (List.subset_cons_self ..)

/-- No block is open behind a `return`. -/
theorem steers_return {span : Span} {value : Expr} {o : Outlook} :
    Steers o (lowerStmt body (.return span value)) fun _ => { o with isOpen := some false } := by
  refine .weaken ?_ o.blind_le
  exact .bind steers_commentOn fun _ => .bind (steers_expr value (.inl rfl)) fun _ =>
    steers_returnValue

mutual

theorem steers_stmt : ∀ (s : Stmt) {o : Outlook},
    Steers o (lowerStmt body s) fun _ => o.blind
  | .declare _, o => steers_pure o.blind_le
  | .eval value, o =>
      .weaken (.bind steers_commentOn fun _ => .bind (steers_expr value (.inl rfl)) fun _ =>
        steers_pure .rfl) o.blind_le
  | .assign _ target value, o =>
      .weaken (.bind steers_commentOn fun _ => .bind (steers_location target (.inl rfl)) fun _ =>
        .bind (steers_expr value (.inl rfl)) fun _ => steers_assign) o.blind_le
  | .branch _ test onTrue onFalse, o => by
      rw [lowerStmt_branch_eq]
      refine .bind steers_enterFirst fun (second, done) => .bind (steers_stmt onTrue) fun _ => ?_
      have hother : ∀ {o : Outlook},
          Steers o (onFalse.elim (pure ()) (lowerStmt body)) fun _ => o.blind := by
        intro o
        cases onFalse with
        | some onFalse => exact steers_stmt onFalse
        | none => exact steers_pure o.blind_le
      refine .bind (steers_jump (by simp)) fun _ =>
        .bind (steers_switchTo [done]) fun _ => .bind hother fun _ => ?_
      refine .bind (steers_jump (by simp)) fun _ => ?_
      exact (steers_switchTo []).mono fun _ =>
        ⟨rfl, List.subset_append_right [done, second] _, .inl rfl⟩
  | .loop _ test repeated, o => by
      rw [lowerStmt_loop_eq]
      refine .bind steers_enterLoop fun (check, done) => .bind (steers_stmt repeated) fun _ => ?_
      refine .bind (steers_jump (by simp)) fun _ => ?_
      exact (steers_switchTo []).mono fun _ =>
        ⟨rfl, List.subset_append_right [done, check] _, .inl rfl⟩
  | .return _ _, _ => steers_return.mono fun _ => ⟨rfl, List.Subset.refl _, .inl rfl⟩
  | .block _ stmts, _ => .bind steers_commentOn fun _ => steers_stmts stmts
termination_by structural s => s

theorem steers_stmts : ∀ (stmts : List Stmt) {o : Outlook},
    Steers o (lowerStmts body stmts) fun _ => o.blind
  | [], o => steers_pure o.blind_le
  | s :: stmts, _ => .bind (steers_stmt s) fun _ => steers_stmts stmts
termination_by structural stmts => stmts

end

theorem steers_other {o : Outlook} :
    Steers o (other.elim (pure ()) (lowerStmt body)) fun _ => o.blind := by
  cases other with
  | some y => exact steers_stmt y
  | none => exact steers_pure o.blind_le

end statements

end ObjectLang
