import Mathlib.Tactic
import ObjectLang.Proofs.IR.Supplies
import ObjectLang.Proofs.Lowering.Statements

/-!
# Code reads what was assigned

The code that is made for an expression, a location or a statement reads only what is assigned on
every way to it. What could be read before can be read behind it, and so can the operand that it
leaves. This holds whenever no fact is missing, whatever the facts are.
-/
namespace ObjectLang

open IR

/-- If no fact is missing, making code leads from where some operands can be read to where others
can. -/
def Tracks {α : Type} (c : Supply) (x : Lower α) (d : α → Supply) : Prop :=
  ∀ s a s', s.builder.Supplies c → x s = .ok (a, s') → s'.builder.Supplies (d a)

section combinators

variable {α β : Type} {c : Supply} {x : Lower α} {d d' : α → Supply}

theorem Tracks.mono (h : Tracks c x d) (hd : ∀ a, (d' a).Le (d a)) : Tracks c x d' :=
  fun s a s' hs hx => (h s a s' hs hx).mono (hd a)

theorem Tracks.bind {f : α → Lower β} {e : β → Supply} (h : Tracks c x d)
    (hf : ∀ a, Tracks (d a) (f a) e) : Tracks c (x >>= f) e := by
  intro s b s'' hs hb
  change (x s >>= fun r => f r.1 r.2) = _ at hb
  cases hx : x s with
  | error e =>
      rw [hx] at hb
      cases hb
  | ok r =>
      rw [hx] at hb
      exact hf r.1 r.2 b s'' (h s r.1 r.2 hs hx) hb

theorem tracks_pure {a : α} (h : (d a).Le c) : Tracks c (pure a) d := by
  rintro s _ _ hs ⟨⟩
  exact hs.mono h

theorem tracks_throw {fact : MissingFact} : Tracks c (throw fact : Lower α) d := by
  rintro s _ _ _ ⟨⟩

theorem tracks_known {fact : Option α} {missing : MissingFact} :
    Tracks c (known fact missing) fun _ => c := by
  cases fact with
  | none => exact tracks_throw
  | some a => exact tracks_pure .rfl

/-- A fact that is there is the one that was looked up. -/
theorem Tracks.known {fact : Option α} {missing : MissingFact} {f : α → Lower β}
    {e : β → Supply} (hf : ∀ a, fact = some a → Tracks c (f a) e) :
    Tracks c (known fact missing >>= f) e := by
  cases fact with
  | none =>
      rintro s b s' _ hb
      cases hb
  | some a => exact fun s b s' hs hb => hf a rfl s b s' hs hb

theorem tracks_get : Tracks c (get : Lower LowerState) fun _ => c := by
  rintro s _ _ hs ⟨⟩
  exact hs

theorem tracks_modify {f : LowerState → LowerState} (hf : ∀ s, (f s).builder = s.builder) :
    Tracks c (modify f : Lower PUnit) fun _ => c := by
  rintro s _ _ hs ⟨⟩
  exact (hf s).symm ▸ hs

theorem tracks_onTarget {build : Build α} : Tracks c (onTarget build) fun _ => c := by
  rintro s _ _ hs ⟨⟩
  exact hs

theorem tracks_typeOfOperand {x : Operand} : Tracks c (typeOfOperand x) fun _ => c := by
  rintro s _ _ hs ⟨⟩
  exact hs

theorem tracks_compute {g : Builder → α × Builder}
    (hg : ∀ b : Builder, b.Supplies c → (g b).2.Supplies (d (g b).1)) :
    Tracks c (compute g) d := by
  rintro s _ _ hs ⟨⟩
  exact hg _ hs

theorem tracks_perform {g : Builder → Builder} {d : Supply}
    (hg : ∀ b : Builder, b.Supplies c → (g b).Supplies d) : Tracks c (perform g) fun _ => d := by
  rintro s _ _ hs ⟨⟩
  exact hg _ hs

end combinators

section operations

variable {c : Supply} {x y z : Operand}

theorem tracks_binary {op : Operation} (hx : x.In c.temps) (hy : y.In c.temps) :
    Tracks c (compute (·.binary op x y)) c.put :=
  tracks_compute fun _ hb => hb.define _ rfl rfl (by simp [Instruction.operands, hx, hy])

theorem tracks_load (hx : x.In c.temps) : Tracks c (compute (·.load x)) c.put :=
  tracks_compute fun _ hb => hb.define _ rfl rfl (by simp [Instruction.operands, hx])

theorem tracks_bitcast {type : Ty} (hx : x.In c.temps) :
    Tracks c (compute (·.bitcast x type)) c.put :=
  tracks_compute fun _ hb => hb.define _ rfl rfl (by simp [Instruction.operands, hx])

theorem tracks_elementPtr {indices : List Operand} {type : Ty} (hx : x.In c.temps)
    (hindices : ∀ y ∈ indices, y.In c.temps) :
    Tracks c (compute (·.elementPtr x indices type)) c.put :=
  tracks_compute fun _ hb => hb.define _ rfl rfl (List.forall_mem_cons.2 ⟨hx, hindices⟩)

theorem tracks_call {procedure : Nat} {args : List Operand} {type : Ty}
    (hargs : ∀ y ∈ args, y.In c.temps) : Tracks c (compute (·.call procedure args type)) c.put :=
  tracks_compute fun _ hb => hb.define _ rfl rfl hargs

theorem tracks_store (hx : x.In c.temps) (hy : y.In c.temps) :
    Tracks c (perform (·.store x y)) fun _ => c :=
  tracks_perform fun _ hb => hb.effect rfl (by simp [Instruction.operands, hx, hy])

theorem tracks_print (hx : x.In c.temps) : Tracks c (perform (·.print x)) fun _ => c :=
  tracks_perform fun _ hb => hb.effect rfl (by simp [Instruction.operands, hx])

theorem tracks_comment {text : String} : Tracks c (perform (·.comment text)) fun _ => c :=
  tracks_perform fun _ hb => hb.effect rfl fun _ hx => by cases hx

theorem tracks_slot {type : Ty} :
    Tracks c (compute (·.slot type)) fun t => c.put (.temp t) :=
  tracks_compute fun _ hb => hb.slot type

theorem tracks_newBlock {name : String} : Tracks c (compute (·.newBlock name)) fun n =>
    { c with blocks := (n, c.temps) :: c.blocks } :=
  tracks_compute fun _ hb => hb.newBlock name

theorem tracks_switchTo {n : Nat} (ts : Set Nat) (hn : (n, ts) ∈ c.blocks) :
    Tracks c (perform (·.switchTo n)) fun _ => { c with temps := ts } :=
  tracks_perform fun _ hb => hb.switchTo hn

/-- Behind a terminator nothing can be read, nor has to be. -/
theorem tracks_terminate {t : Terminator} (ht : ∀ x ∈ t.operand?, x.In c.temps)
    (htargets : ∀ target ∈ t.successors, ∃ ts, (target, ts) ∈ c.blocks ∧ ts ⊆ c.temps) :
    Tracks c (perform (·.terminate t)) fun _ => c :=
  tracks_perform fun _ hb => hb.terminate ht htargets _

theorem tracks_halt {message : String} : Tracks c (perform (·.halt message)) fun _ => c :=
  tracks_terminate (t := .halt message) nofun nofun

theorem tracks_ret (hx : x.In c.temps) : Tracks c (perform (·.ret x)) fun _ => c :=
  tracks_terminate (t := .ret x) (by simpa [Terminator.operand?] using hx) nofun

theorem tracks_jump {n : Nat} (ts : Set Nat) (hn : (n, ts) ∈ c.blocks) (hts : ts ⊆ c.temps) :
    Tracks c (perform (·.jump n)) fun _ => c :=
  tracks_terminate (t := .jump n) nofun (by simpa [Terminator.successors] using ⟨ts, hn, hts⟩)

theorem tracks_branch {n k : Nat} (ts ts' : Set Nat) (hx : x.In c.temps) (hn : (n, ts) ∈ c.blocks)
    (hts : ts ⊆ c.temps) (hk : (k, ts') ∈ c.blocks) (hts' : ts' ⊆ c.temps) :
    Tracks c (perform (·.branch x n k)) fun _ => c :=
  tracks_terminate (by simpa [Terminator.operand?] using hx)
    (by simpa [Terminator.successors] using ⟨⟨ts, hn, hts⟩, ts', hk, hts'⟩)

end operations

section fragments

variable {c : Supply} {body : Body} {x y : Operand}

theorem tracks_typeOf {id : Nat} : Tracks c (body.typeOf id) fun _ => c :=
  tracks_known

theorem tracks_classOf {id : Nat} : Tracks c (body.classOf id) fun _ => c :=
  tracks_typeOf.bind fun _ => tracks_known

theorem tracks_lower {type : ValueType} : Tracks c (body.lower type) fun _ => c :=
  tracks_onTarget

theorem tracks_lowerTypeExpr {t : TypeExpr} : Tracks c (body.lowerTypeExpr t) fun _ => c :=
  tracks_known.bind fun _ => tracks_lower

theorem tracks_classLayout {cls : ClassRef} : Tracks c (body.classLayout cls) fun _ => c :=
  tracks_known

/-- A value as one of another type can be read where the value can. -/
theorem tracks_cast {type : Ty} (hx : x.In c.temps) : Tracks c (cast x type) c.put := by
  refine tracks_typeOfOperand.bind fun _ => ?_
  split
  · exact tracks_bitcast hx
  · exact tracks_pure (Supply.put_le hx)

theorem tracks_stopIf {stopName goName message : String} (hx : x.In c.temps) :
    Tracks c (stopIf x stopName goName message) fun _ => c := by
  refine .bind tracks_newBlock fun stop => .bind tracks_newBlock fun go => ?_
  refine .bind (tracks_branch c.temps c.temps hx (by simp) Set.Subset.rfl (by simp)
    Set.Subset.rfl) fun _ => ?_
  refine .bind (tracks_switchTo c.temps (by simp)) fun _ => .bind tracks_halt fun _ => ?_
  exact (tracks_switchTo c.temps (by simp)).mono fun _ => Supply.Le.rfl.block.block

theorem tracks_nullCheck {span : Span} (hx : x.In c.temps) :
    Tracks c (nullCheck x span) fun _ => c :=
  (tracks_binary hx in_null).bind fun _ =>
    (tracks_stopIf (by simp)).mono fun _ => Supply.Le.rfl.more

theorem tracks_arrayLength (hx : x.In c.temps) : Tracks c (arrayLength x) c.put :=
  (tracks_elementPtr hx (by simp)).bind fun _ =>
    (tracks_load (by simp)).mono fun _ => Supply.Le.rfl.more.put

theorem tracks_boundsCheck {span : Span} (hx : x.In c.temps) (hy : y.In c.temps) :
    Tracks c (boundsCheck x y span) fun _ => c := by
  refine (tracks_arrayLength hx).bind fun length => ?_
  refine (tracks_binary (by simp [hy]) (by simp)).bind fun negative => ?_
  refine (tracks_binary (by simp) (by simp)).bind fun last => ?_
  refine (tracks_binary (by simp) (by simp [hy])).bind fun tooLarge => ?_
  refine (tracks_binary (by simp) (by simp)).bind fun outside => ?_
  exact (tracks_stopIf (by simp)).mono fun _ => Supply.Le.rfl.more.more.more.more.more

/-- The receiver and all variables of a body can be read. -/
structure Body.Reads (body : Body) (ts : Set Nat) : Prop where
  slots : ∀ x ∈ body.slots, (Operand.temp x.2).In ts
  this : ∀ t, body.this = some t → (Operand.temp t).In ts

theorem Body.Reads.mono {ts ts' : Set Nat} (h : body.Reads ts) (hts : ts ⊆ ts') :
    body.Reads ts' :=
  ⟨fun x hx => (h.slots x hx).mono hts, fun t ht => (h.this t ht).mono hts⟩

theorem tracks_variable {decl : VarDecl} (hb : body.Reads c.temps) :
    Tracks c (body.slot decl) c.put :=
  .known fun x hx => tracks_pure (Supply.put_le (hb.slots x (List.mem_of_find?_eq_some hx)))

theorem tracks_thisAs {cls : ClassRef} (hb : body.Reads c.temps) :
    Tracks c (thisAs body cls) c.put :=
  .known fun t ht => .bind tracks_classLayout fun _ => tracks_cast (hb.this t ht)

theorem tracks_fieldAddress {cls owner : ClassRef} {field : VarDecl} (hx : x.In c.temps) :
    Tracks c (fieldAddress body x cls owner field) c.put :=
  .bind tracks_classLayout fun _ => .bind tracks_known fun _ => .bind tracks_lowerTypeExpr fun _ =>
    tracks_elementPtr hx (by simp)

theorem tracks_quotient {span : Span} (hx : x.In c.temps) (hy : y.In c.temps) :
    Tracks c (quotient x y span) c.put := by
  refine .bind (tracks_binary hy (by simp)) fun isZero =>
    .bind (tracks_stopIf (by simp)) fun _ => ?_
  refine .bind tracks_slot fun result => .bind (tracks_binary (by simp [hy]) (by simp)) fun _ => ?_
  refine .bind (tracks_binary (by simp [hx]) (by simp)) fun _ => ?_
  refine .bind (tracks_binary (by simp) (by simp)) fun overflow => ?_
  refine .bind (tracks_store (by simp) (by simp)) fun _ => ?_
  generalize hd : Supply.put _ overflow = d
  have hput : ∀ z : Operand, (c.put z).Le (d.put z) := fun z => by
    rw [← hd]
    exact Supply.Le.rfl.more.more.more.more.more.put
  have hresult : (Operand.temp result).In d.temps := by simp [← hd]
  have hoverflow : overflow.In d.temps := by simp [← hd]
  have hx : x.In d.temps := by simp [← hd, hx]
  have hy : y.In d.temps := by simp [← hd, hy]
  -- Both blocks may read what can be read here; the second one is where the quotient is loaded.
  refine .bind tracks_newBlock fun divide => .bind tracks_newBlock fun done => ?_
  refine .bind (tracks_branch d.temps d.temps hoverflow (by simp) Set.Subset.rfl
    (by simp) Set.Subset.rfl) fun _ => ?_
  refine .bind (tracks_switchTo d.temps (by simp)) fun _ => ?_
  refine .bind (tracks_binary hx hy) fun value => .bind (tracks_store (by simp [hresult]) (by simp))
    fun _ => ?_
  refine .bind (tracks_jump d.temps (by simp) (by simp)) fun _ => ?_
  refine .bind (tracks_switchTo d.temps (by simp)) fun _ => ?_
  exact .mono (tracks_load hresult) fun z => (hput z).trans Supply.Le.rfl.block.block.put

theorem tracks_equality {leftType rightType : ValueType} (hx : x.In c.temps) (hy : y.In c.temps) :
    Tracks c (equality leftType rightType x y) c.put := by
  refine .bind tracks_typeOfOperand fun _ => .bind tracks_typeOfOperand fun _ => ?_
  dsimp only
  split
  all_goals
    split
    · refine .bind (tracks_cast hy) fun _ =>
        (tracks_binary (by simp [hx]) (by simp)).mono fun _ => ?_
      exact Supply.Le.rfl.more.put
    · refine .bind (tracks_cast hx) fun _ =>
        (tracks_binary (by simp) (by simp [hy])).mono fun _ => ?_
      exact Supply.Le.rfl.more.put

theorem tracks_allocator {component : ValueType} :
    Tracks c (allocator body component) fun _ => c := by
  refine .bind tracks_get fun s => ?_
  split
  · exact tracks_pure .rfl
  · exact .bind tracks_onTarget fun _ => .bind tracks_onTarget fun _ =>
      .bind (tracks_modify fun _ => rfl) fun _ => tracks_pure .rfl

end fragments

section trees

variable {body : Body}

mutual

theorem tracks_expr : ∀ (e : Expr) {c : Supply}, body.Reads c.temps →
    Tracks c (lowerExpr body e) c.put
  | .unary _ .neg operand, _, hb =>
      .bind (tracks_expr operand hb) fun _ =>
        .mono (tracks_binary (by simp) (by simp)) fun _ => Supply.Le.rfl.more.put
  | .unary _ .not operand, _, hb =>
      .bind (tracks_expr operand hb) fun _ =>
        .mono (tracks_binary (by simp) (by simp)) fun _ => Supply.Le.rfl.more.put
  | .binary tag op left right, c, hb => by
      have hboth : ∀ {op : Operation}, Tracks c (do
          let first ← lowerExpr body left
          let second ← lowerExpr body right
          compute (·.binary op first second)) c.put :=
        .bind (tracks_expr left hb) fun _ =>
          .bind (tracks_expr right (hb.mono Supply.temps_put)) fun _ =>
            .mono (tracks_binary (by simp) (by simp)) fun _ => Supply.Le.rfl.more.more.put
      cases op with
      | and =>
          refine .bind tracks_slot fun result =>
            .bind (tracks_expr left (hb.mono Supply.temps_put)) fun first =>
              .bind (tracks_store (by simp) (by simp)) fun _ => ?_
          generalize hd : Supply.put _ first = d
          have hput : ∀ z : Operand, (c.put z).Le (d.put z) := fun z => by
            rw [← hd]
            exact Supply.Le.rfl.more.more.put
          have hresult : (Operand.temp result).In d.temps := by simp [← hd]
          have hfirst : first.In d.temps := by simp [← hd]
          have hbody : body.Reads d.temps := hb.mono (hd ▸ Supply.Le.rfl.more.more.temps)
          refine .bind tracks_newBlock fun onTrue => .bind tracks_newBlock fun done => ?_
          refine .bind (tracks_branch d.temps d.temps hfirst (by simp)
            Set.Subset.rfl (by simp) Set.Subset.rfl) fun _ => ?_
          refine .bind (tracks_switchTo d.temps (by simp)) fun _ => ?_
          refine .bind (tracks_expr right hbody) fun second =>
            .bind (tracks_store (by simp [hresult]) (by simp)) fun _ => ?_
          refine .bind (tracks_jump d.temps (by simp) (by simp)) fun _ => ?_
          refine .bind (tracks_switchTo d.temps (by simp)) fun _ => ?_
          exact .mono (tracks_load hresult) fun z => (hput z).trans Supply.Le.rfl.block.block.put
      | div =>
          exact .bind (tracks_expr left hb) fun _ =>
            .bind (tracks_expr right (hb.mono Supply.temps_put)) fun _ =>
              .mono (tracks_quotient (by simp) (by simp)) fun _ => Supply.Le.rfl.more.more.put
      | equal =>
          exact .bind (tracks_expr left hb) fun _ =>
            .bind (tracks_expr right (hb.mono Supply.temps_put)) fun _ =>
              .bind tracks_typeOf fun _ => .bind tracks_typeOf fun _ =>
                .mono (tracks_equality (by simp) (by simp)) fun _ => Supply.Le.rfl.more.more.put
      | _ => exact hboth
  | .number _ _, _, _ => tracks_pure (Supply.put_le (in_int _))
  | .bool _ _, _, _ => tracks_pure (Supply.put_le (in_bool _))
  | .null _, _, _ => tracks_pure (Supply.put_le in_null)
  | .this _, _, hb => .known fun t ht => tracks_pure (Supply.put_le (hb.this t ht))
  | .read _ location, _, hb =>
      .bind (tracks_location location hb) fun _ =>
        .mono (tracks_load (by simp)) fun _ => Supply.Le.rfl.more.put
  | .arrayLength _ array, _, hb =>
      .bind (tracks_expr array hb) fun _ => .bind (tracks_nullCheck (by simp)) fun _ =>
        .mono (tracks_arrayLength (by simp)) fun _ => Supply.Le.rfl.more.put
  | .newObject _ _, _, _ =>
      .bind tracks_classOf fun _ => .bind tracks_classLayout fun _ => tracks_call nofun
  | .newArray _ _ size, _, hb =>
      .bind tracks_typeOf fun _ => .bind tracks_known fun _ => .bind tracks_allocator fun _ =>
        .bind (tracks_expr size hb) fun _ => .bind tracks_lower fun _ =>
          .mono (tracks_call (by simp)) fun _ => Supply.Le.rfl.more.put
  | .call _ _ args, c, hb => by
      refine .bind tracks_known fun target => ?_
      cases target with
      | print =>
          refine .bind (tracks_arguments args hb) fun values => .known fun value hvalue => ?_
          refine .bind (tracks_print ?_) fun _ => tracks_pure ?_
          · exact Supply.in_putAll_self value (List.mem_of_head? hvalue)
          · exact Supply.Le.rfl.moreAll.gather (by simp)
      | function decl =>
          refine .bind tracks_known fun s => .bind (tracks_arguments args hb) fun values => ?_
          exact .mono (tracks_call Supply.in_putAll_self) fun _ => Supply.Le.rfl.moreAll.put
      | method owner decl =>
          refine .bind (tracks_thisAs hb) fun receiver => .bind tracks_classLayout fun _ =>
            .bind tracks_known fun s =>
              .bind (tracks_arguments args (hb.mono Supply.temps_put)) fun values => ?_
          exact .mono (tracks_call (List.forall_mem_cons.2 ⟨by simp, Supply.in_putAll_self⟩))
            fun _ => Supply.Le.rfl.more.moreAll.put
  | .methodCall _ receiver _ args, c, hb => by
      refine .bind (tracks_expr receiver hb) fun object =>
        .bind (tracks_nullCheck (by simp)) fun _ => .bind tracks_known fun target => ?_
      cases target with
      | print => exact tracks_throw
      | function decl => exact tracks_throw
      | method owner decl =>
          refine .bind tracks_classLayout fun _ => .bind (tracks_cast (by simp)) fun _ =>
            .bind tracks_known fun s => .bind (tracks_arguments args
              (hb.mono (Supply.Le.rfl.more.more).temps)) fun values => ?_
          exact .mono (tracks_call (List.forall_mem_cons.2 ⟨by simp, Supply.in_putAll_self⟩))
            fun _ => Supply.Le.rfl.more.more.moreAll.put
termination_by structural e => e

theorem tracks_location : ∀ (l : Location) {c : Supply}, body.Reads c.temps →
    Tracks c (lowerLocation body l) c.put
  | .var _ _, c, hb => by
      refine .bind tracks_known fun binding => ?_
      cases binding with
      | «variable» decl => exact tracks_variable hb
      | field owner decl =>
          exact .bind (tracks_thisAs hb) fun _ =>
            .mono (tracks_fieldAddress (by simp)) fun _ => Supply.Le.rfl.more.put
  | .field _ receiver _, c, hb => by
      refine .bind (tracks_expr receiver hb) fun object =>
        .bind (tracks_nullCheck (by simp)) fun _ => .bind tracks_classOf fun _ =>
          .bind tracks_known fun binding => ?_
      cases binding with
      | «variable» decl => exact tracks_throw
      | field owner decl =>
          exact .mono (tracks_fieldAddress (by simp)) fun _ => Supply.Le.rfl.more.put
  | .index _ array index, _, hb =>
      .bind (tracks_expr array hb) fun _ => .bind (tracks_nullCheck (by simp)) fun _ =>
        .bind (tracks_expr index (hb.mono Supply.temps_put)) fun _ =>
          .bind (tracks_boundsCheck (by simp) (by simp)) fun _ => .bind tracks_typeOf fun _ =>
            .bind tracks_lower fun _ =>
              .mono (tracks_elementPtr (by simp) (by simp)) fun _ => Supply.Le.rfl.more.more.put
termination_by structural l => l

theorem tracks_arguments : ∀ (args : List Expr) {params : List Ty} {c : Supply},
    body.Reads c.temps → Tracks c (lowerArguments body args params) c.putAll
  | [], _, _, _ => tracks_pure (Supply.Le.rfl.gather nofun)
  | arg :: args, [], _, _ => tracks_pure (Supply.Le.rfl.gather nofun)
  | arg :: args, type :: params, c, hb =>
      .bind (tracks_expr arg hb) fun _ => .bind (tracks_cast (by simp)) fun value =>
        .bind (tracks_arguments args (hb.mono (Supply.Le.rfl.more.more).temps)) fun values =>
          tracks_pure (Supply.Le.rfl.more.more.moreAll.gather
            (List.forall_mem_cons.2 ⟨by simp, Supply.in_putAll_self⟩))
termination_by structural args => args

end

theorem tracks_commentOn {s : Stmt} {c : Supply} : Tracks c (commentOn body s) fun _ => c := by
  rw [commentOn]
  split
  · exact tracks_comment
  · exact tracks_pure .rfl

theorem tracks_assign {c : Supply} {address value : Operand} (ha : address.In c.temps)
    (hv : value.In c.temps) : Tracks c (assign address value) fun _ => c :=
  .bind tracks_typeOfOperand fun _ => .bind (tracks_cast hv) fun _ =>
    .mono (tracks_store (by simp [ha]) (by simp)) fun _ => Supply.Le.rfl.more

theorem tracks_returnValue {c : Supply} {value : Operand} (hv : value.In c.temps) :
    Tracks c (returnValue value) fun _ => c :=
  .bind tracks_get fun _ => .bind (tracks_cast hv) fun _ =>
    .mono (tracks_ret (by simp)) fun _ => Supply.Le.rfl.more

mutual

theorem tracks_stmt : ∀ (s : Stmt) {c : Supply}, body.Reads c.temps →
    Tracks c (lowerStmt body s) fun _ => c
  | .declare _, _, _ => tracks_pure .rfl
  | .eval value, _, hb =>
      .bind tracks_commentOn fun _ => .bind (tracks_expr value hb) fun _ =>
        tracks_pure Supply.Le.rfl.more
  | .assign _ target value, _, hb =>
      .bind tracks_commentOn fun _ => .bind (tracks_location target hb) fun _ =>
        .bind (tracks_expr value (hb.mono Supply.temps_put)) fun _ =>
          .mono (tracks_assign (by simp) (by simp)) fun _ => Supply.Le.rfl.more.more
  | .branch _ test onTrue onFalse, c, hb => by
      rw [lowerStmt_branch]
      have hother : ∀ {d : Supply}, body.Reads d.temps →
          Tracks d (onFalse.elim (pure ()) (lowerStmt body)) fun _ => d := by
        intro d hb
        cases onFalse with
        | some onFalse => exact tracks_stmt onFalse hb
        | none => exact tracks_pure .rfl
      refine .bind tracks_commentOn fun _ => .bind (tracks_expr test hb) fun condition => ?_
      -- What the condition leaves can be read in both arms and behind them.
      generalize hd : c.put condition = d
      have hcd : c.Le d := hd ▸ Supply.Le.rfl.more
      have hcondition : condition.In d.temps := by simp [← hd]
      have hbody : body.Reads d.temps := hb.mono hcd.temps
      refine .bind tracks_newBlock fun first => .bind tracks_newBlock fun second =>
        .bind tracks_newBlock fun done => ?_
      refine .bind (tracks_branch d.temps d.temps hcondition (by simp) Set.Subset.rfl (by simp)
        Set.Subset.rfl) fun _ => ?_
      refine .bind (tracks_switchTo d.temps (by simp)) fun _ =>
        .bind (tracks_stmt onTrue hbody) fun _ => ?_
      refine .bind (tracks_jump d.temps (by simp) Set.Subset.rfl) fun _ => ?_
      refine .bind (tracks_switchTo d.temps (by simp)) fun _ => .bind (hother hbody) fun _ => ?_
      refine .bind (tracks_jump d.temps (by simp) Set.Subset.rfl) fun _ => ?_
      exact .mono (tracks_switchTo d.temps (by simp)) fun _ =>
        hcd.trans Supply.Le.rfl.block.block.block
  | .loop _ test repeated, c, hb => by
      refine .bind tracks_commentOn fun _ => ?_
      refine .bind tracks_newBlock fun check => .bind tracks_newBlock fun again =>
        .bind tracks_newBlock fun done => ?_
      refine .bind (tracks_jump c.temps (by simp) Set.Subset.rfl) fun _ =>
        .bind (tracks_switchTo c.temps (by simp)) fun _ => .bind (tracks_expr test hb) fun _ => ?_
      refine .bind (tracks_branch c.temps c.temps (by simp) (by simp) (by simp) (by simp) (by simp))
        fun _ => ?_
      refine .bind (tracks_switchTo c.temps (by simp)) fun _ =>
        .bind (tracks_stmt repeated hb) fun _ => ?_
      refine .bind (tracks_jump c.temps (by simp) Set.Subset.rfl) fun _ => ?_
      exact .mono (tracks_switchTo c.temps (by simp)) fun _ => Supply.Le.rfl.block.block.block
  | .return _ value, _, hb =>
      .bind tracks_commentOn fun _ => .bind (tracks_expr value hb) fun _ =>
        .mono (tracks_returnValue (by simp)) fun _ => Supply.Le.rfl.more
  | .block _ stmts, _, hb => .bind tracks_commentOn fun _ => tracks_stmts stmts hb
termination_by structural s => s

theorem tracks_stmts : ∀ (stmts : List Stmt) {c : Supply}, body.Reads c.temps →
    Tracks c (lowerStmts body stmts) fun _ => c
  | [], _, _ => tracks_pure .rfl
  | s :: stmts, _, hb => .bind (tracks_stmt s hb) fun _ => tracks_stmts stmts hb
termination_by structural stmts => stmts

end

end trees

section bodies

variable {body : Body} {c : Supply}

/-- What is made for each of some things can be read behind all of them. -/
theorem tracks_mapM {α β : Type} {f : α → Lower β} {g : β → Operand} {l : List α}
    (hf : ∀ a ∈ l, ∀ d : Supply, c.Le d → Tracks d (f a) fun b => d.put (g b)) :
    Tracks c (l.mapM f) fun bs => c.putAll (bs.map g) := by
  induction l generalizing c with
  | nil => exact tracks_pure (Supply.Le.rfl.gather nofun)
  | cons a l ih =>
      rw [List.mapM_cons]
      refine .bind (hf a (List.mem_cons_self ..) c .rfl) fun b => ?_
      refine .bind (ih fun a ha d hd =>
        hf a (List.mem_cons_of_mem _ ha) d (Supply.Le.rfl.more.trans hd))
        fun bs => tracks_pure ?_
      refine Supply.Le.rfl.more.moreAll.gather (List.forall_mem_cons.2 ⟨by simp, ?_⟩)
      exact Supply.in_putAll_self

theorem tracks_lowerParameter {temp : Nat} {decl : VarDecl} (ht : temp ∈ c.temps) :
    Tracks c (lowerParameter temp decl) fun x => c.put (.temp x.2) :=
  .bind tracks_typeOfOperand fun _ => .bind tracks_slot fun _ =>
    .bind (tracks_store (by simp) (in_temp.2 (Supply.temps_put ht))) fun _ => tracks_pure .rfl

theorem tracks_lowerLocal {decl : VarDecl} :
    Tracks c (lowerLocal body decl) fun x => c.put (.temp x.2) :=
  .bind tracks_lowerTypeExpr fun _ => .bind tracks_slot fun _ =>
    .bind (tracks_store (by simp) (by simp)) fun _ => tracks_pure .rfl

/-- Code for the body of a function reads only what was assigned, if its parameters can be read. -/
theorem tracks_body {temps : List Nat} {f : FunctionDecl} (htemps : ∀ t ∈ temps, t ∈ c.temps)
    (hthis : ∀ t, body.this = some t → t ∈ c.temps) :
    Tracks c (do
      let params ← (temps.zip f.params).mapM fun (temp, decl) => lowerParameter temp decl
      let locals ← (localsOf f.body).mapM (lowerLocal body)
      lowerStmts { body with slots := params ++ locals } f.body) fun _ => c := by
  refine .bind (tracks_mapM (g := fun x => .temp x.2) fun x hx d hd => ?_) fun params =>
    .bind (tracks_mapM (g := fun x => .temp x.2) fun _ _ _ _ => tracks_lowerLocal) fun locals => ?_
  · exact tracks_lowerParameter (hd.temps (htemps _ (List.of_mem_zip hx).1))
  · refine .mono (tracks_stmts _ ⟨fun x hx => ?_, fun t ht => ?_⟩) fun _ =>
      Supply.Le.rfl.moreAll.moreAll
    · rw [Supply.in_putAll, Supply.in_putAll]
      rcases List.mem_append.1 hx with hx | hx
      · exact .inl (.inr (List.mem_map_of_mem hx))
      · exact .inr (List.mem_map_of_mem hx)
    · exact in_temp.2 (Supply.Le.rfl.moreAll.moreAll.temps (hthis t ht))

end bodies

end ObjectLang
