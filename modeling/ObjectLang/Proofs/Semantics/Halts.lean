import Mathlib.Tactic
import ObjectLang.Proofs.Semantics.Evaluation

/-!
# How evaluations stop

An evaluation halts in four ways only: null is used as an object or array, an index is not in its
array, a divisor is zero, or the size of a new array is negative. All but the last message name a
line. It stops for an object that takes too much memory only if a class has that many fields.
-/
namespace ObjectLang

/-- What a program says when it halts. -/
inductive HaltMessage : String → Prop
  | null (line : Nat) : HaltMessage ("Nullpointer exception in line " ++ toString line)
  | bounds (line : Nat) : HaltMessage ("Index out of bounds error in line " ++ toString line)
  | zero (line : Nat) : HaltMessage ("Division by zero in line " ++ toString line)
  | size : HaltMessage "Array Size must be positive"

/-- The reasons why an evaluation of a program may end without a value. -/
inductive Program.Stops (p : Program) : Stop → Prop
  | halt {message : String} : HaltMessage message → p.Stops (.halt message)
  | array : p.Stops (.tooLarge .array)
  | object {cls : String} : maxBytes < p.objectSize cls → p.Stops (.tooLarge .object)
  | timeout : p.Stops .timeout
  | stuck : p.Stops .stuck

/-- An evaluation that stops for these reasons only. -/
def Eval.Stops {α : Type} (p : Program) (x : Eval α) : Prop :=
  ∀ σ σ' e, x σ = (.error e, σ') → p.Stops e

/-- Calls that stop for these reasons only. -/
def Invoke.Stops (p : Program) (invoke : Invoke) : Prop :=
  ∀ f self args, (invoke f self args).Stops p

variable {p : Program}

namespace Eval.Stops

variable {α β : Type} {x : Eval α} {f : α → Eval β}

theorem pure (a : α) : (Pure.pure a : Eval α).Stops p :=
  nofun

theorem throw {e : Stop} (h : p.Stops e) : (MonadExcept.throw e : Eval α).Stops p := by
  rintro σ σ' _ ⟨⟩
  exact h

theorem stuck : (MonadExcept.throw .stuck : Eval α).Stops p :=
  throw .stuck

theorem modifyGet (g : Store → α × Store) : (MonadStateOf.modifyGet g : Eval α).Stops p :=
  nofun

theorem bind (hx : x.Stops p) (hf : ∀ a, (f a).Stops p) : (x >>= f).Stops p := by
  intro σ σ' e h
  rw [Eval.run_bind] at h
  cases hr : x σ with
  | mk r σ₁ =>
      rw [hr] at h
      cases r with
      | ok a => exact hf a _ _ _ h
      | error e =>
          cases h
          exact hx _ _ _ hr

end Eval.Stops

open Eval

theorem stops_reference (v : Datum) (span : Span) : (reference v span).Stops p := by
  cases v with
  | ref id => exact .pure id
  | null => exact .throw (.halt (.null span.line))
  | int n => exact .stuck
  | bool b => exact .stuck

theorem stops_number (v : Datum) : (number v).Stops p := by
  cases v <;> first | exact .pure _ | exact .stuck

theorem stops_truth (v : Datum) : (truth v).Stops p := by
  cases v <;> first | exact .pure _ | exact .stuck

theorem stops_entity (id : Nat) : (entity id).Stops p := by
  refine .bind (.modifyGet _) fun σ => ?_
  cases σ.heap[id]? with
  | some e => exact .pure e
  | none => exact .stuck

theorem stops_itemsOf (id : Nat) : (itemsOf id).Stops p := by
  refine .bind (stops_entity id) fun e => ?_
  cases e with
  | array t items => exact .pure items
  | object cls fields => exact .stuck

theorem Spot.stops_read (locals : Locals) (spot : Spot) : (spot.read locals).Stops p := by
  cases spot with
  | slot id => exact .pure _
  | field object owner name =>
      refine .bind (stops_entity object) fun e => ?_
      cases e with
      | object cls fields => exact .pure _
      | array t items => exact .stuck
  | element array index =>
      refine .bind (stops_itemsOf array) fun items => ?_
      cases items[index]? with
      | some v => exact .pure v
      | none => exact .stuck

theorem Spot.stops_write (locals : Locals) (v : Datum) (spot : Spot) :
    (spot.write locals v).Stops p := by
  cases spot with
  | slot id => exact .pure _
  | field object owner name =>
      refine .bind (stops_entity object) fun e => ?_
      cases e with
      | object cls fields => exact .bind (.modifyGet _) fun _ => .pure _
      | array t items => exact .stuck
  | element array index =>
      refine .bind (stops_entity array) fun e => ?_
      cases e with
      | array t items => exact .bind (.modifyGet _) fun _ => .pure _
      | object cls fields => exact .stuck

theorem BinaryOp.stops_apply (op : BinaryOp) (span : Span) (v w : Datum) :
    (op.apply span v w).Stops p := by
  unfold BinaryOp.apply
  split
  case h_4 a b =>
    split
    · exact .throw (.halt (.zero span.line))
    · exact .pure _
  all_goals first | exact .pure _ | exact .stuck

theorem stops_create (cls : String) : (p.create cls).Stops p := by
  unfold Program.create
  split
  case isTrue => exact .modifyGet _
  case isFalse h => exact .throw (.object (Nat.lt_of_not_le h))

theorem stops_createArray (t : PlainType) (n : Int32) : (createArray t n).Stops p := by
  unfold createArray
  split
  · exact .throw (.halt .size)
  · split
    · exact .modifyGet _
    · exact .throw .array

theorem stops_printArgument (args : List Datum) : (printArgument args).Stops p := by
  unfold printArgument
  split
  · exact .bind (.modifyGet _) fun _ => .pure _
  · exact .stuck

section trees

variable {invoke : Invoke} (Γ : Context) (self : Option Datum)

mutual

theorem stops_evalExpr (hinvoke : invoke.Stops p)
    (hΓ : Γ.program = p) (locals : Locals) :
    ∀ e : Expr, (evalExpr invoke Γ self locals e).Stops p
  | .unary _ .neg operand =>
      .bind (stops_evalExpr hinvoke hΓ locals operand) fun v =>
        .bind (stops_number v) fun _ => .pure _
  | .unary _ .not operand =>
      .bind (stops_evalExpr hinvoke hΓ locals operand) fun v =>
        .bind (stops_truth v) fun _ => .pure _
  | .binary tag op left right => by
      have hleft := stops_evalExpr hinvoke hΓ locals left
      have hright := stops_evalExpr hinvoke hΓ locals right
      cases op with
      | and =>
          refine .bind hleft fun v => .bind (stops_truth v) fun b => ?_
          cases b with
          | true => exact .bind hright fun w => .bind (stops_truth w) fun _ => .pure _
          | false => exact .pure _
      | _ => exact .bind hleft fun v => .bind hright fun w => BinaryOp.stops_apply _ _ v w
  | .number _ _ => .pure _
  | .bool _ _ => .pure _
  | .null _ => .pure _
  | .this _ => by
      cases self with
      | some v => exact .pure v
      | none => exact .stuck
  | .read _ location =>
      .bind (stops_evalLocation hinvoke hΓ locals location) fun spot => Spot.stops_read locals spot
  | .arrayLength _ array =>
      .bind (stops_evalExpr hinvoke hΓ locals array) fun v => .bind (stops_reference v _) fun id =>
        .bind (stops_itemsOf id) fun _ => .pure _
  | .newObject _ cls => by
      subst hΓ
      exact stops_create cls.name
  | .newArray _ element size =>
      .bind (stops_evalExpr hinvoke hΓ locals size) fun v => .bind (stops_number v) fun n =>
        stops_createArray _ n
  | .call _ f args => by
      have hargs := stops_evalArguments hinvoke hΓ locals args
      unfold evalExpr
      split
      · exact .bind hargs fun vs => stops_printArgument vs
      · exact .bind hargs fun vs => hinvoke _ _ vs
      · exact .bind hargs fun vs => hinvoke _ _ vs
      · exact .stuck
  | .methodCall _ receiver f args => by
      have hargs := stops_evalArguments hinvoke hΓ locals args
      unfold evalExpr
      refine .bind (stops_evalExpr hinvoke hΓ locals receiver) fun v =>
        .bind (stops_reference v _) fun id => ?_
      split
      · exact .bind hargs fun vs => hinvoke _ _ vs
      · exact .stuck
termination_by structural e => e

theorem stops_evalLocation (hinvoke : invoke.Stops p)
    (hΓ : Γ.program = p) (locals : Locals) :
    ∀ l : Location, (evalLocation invoke Γ self locals l).Stops p
  | .var _ x => by
      unfold evalLocation
      split
      · exact .pure _
      · exact .pure _
      · exact .stuck
  | .field _ receiver x => by
      unfold evalLocation
      refine .bind (stops_evalExpr hinvoke hΓ locals receiver) fun v =>
        .bind (stops_reference v _) fun id => ?_
      split
      · exact .pure _
      · exact .stuck
  | .index tag array index => by
      unfold evalLocation
      refine .bind (stops_evalExpr hinvoke hΓ locals array) fun v =>
        .bind (stops_reference v _) fun id =>
          .bind (stops_evalExpr hinvoke hΓ locals index) fun w =>
          .bind (stops_number w) fun i => .bind (stops_itemsOf id) fun items => ?_
      split
      · exact .pure _
      · exact .throw (.halt (.bounds tag.span.line))
termination_by structural l => l

theorem stops_evalArguments (hinvoke : invoke.Stops p)
    (hΓ : Γ.program = p) (locals : Locals) :
    ∀ args : List Expr, (evalArguments invoke Γ self locals args).Stops p
  | [] => .pure _
  | arg :: args =>
      .bind (stops_evalExpr hinvoke hΓ locals arg) fun _ =>
        .bind (stops_evalArguments hinvoke hΓ locals args) fun _ => .pure _
termination_by structural args => args

end

end trees

theorem stops_repeatWhile {test : Locals → Eval Datum} {body : Locals → Eval Flow}
    (htest : ∀ locals, (test locals).Stops p) (hbody : ∀ locals, (body locals).Stops p) :
    ∀ (bound : Nat) (locals : Locals), (repeatWhile test body bound locals).Stops p := by
  intro bound
  induction bound with
  | zero => exact fun _ => .throw .timeout
  | succ bound ih =>
      intro locals
      refine .bind (htest locals) fun v => .bind (stops_truth v) fun b => ?_
      cases b with
      | false => exact .pure _
      | true =>
          refine .bind (hbody locals) fun flow => ?_
          cases flow with
          | next locals => exact ih locals
          | returned v => exact .pure _

section trees

variable {invoke : Invoke} (bound : Nat) (self : Option Datum)

mutual

theorem stops_execStmt (hinvoke : invoke.Stops p) : ∀ (s : Stmt) (Γ : Context)
    (_ : Γ.program = p) (locals : Locals), (execStmt invoke bound self Γ locals s).Stops p
  | .declare _, _, _, _ => .pure _
  | .eval e, Γ, hΓ, locals => .bind (stops_evalExpr Γ self hinvoke hΓ locals e) fun _ => .pure _
  | .assign _ l e, Γ, hΓ, locals =>
      .bind (stops_evalLocation Γ self hinvoke hΓ locals l) fun spot =>
        .bind (stops_evalExpr Γ self hinvoke hΓ locals e) fun v =>
          .bind (spot.stops_write locals v) fun _ => .pure _
  | .branch _ c s none, Γ, hΓ, locals => by
      refine .bind (stops_evalExpr Γ self hinvoke hΓ locals c) fun v =>
        .bind (stops_truth v) fun b => ?_
      cases b with
      | true => exact stops_execStmt hinvoke s Γ hΓ locals
      | false => exact .pure _
  | .branch _ c s (some other), Γ, hΓ, locals => by
      refine .bind (stops_evalExpr Γ self hinvoke hΓ locals c) fun v =>
        .bind (stops_truth v) fun b => ?_
      cases b with
      | true => exact stops_execStmt hinvoke s Γ hΓ locals
      | false => exact stops_execStmt hinvoke other Γ hΓ locals
  | .loop _ c s, Γ, hΓ, locals =>
      stops_repeatWhile (fun locals => stops_evalExpr Γ self hinvoke hΓ locals c)
        (fun locals => stops_execStmt hinvoke s Γ hΓ locals) bound locals
  | .return _ e, Γ, hΓ, locals => .bind (stops_evalExpr Γ self hinvoke hΓ locals e) fun _ => .pure _
  | .block _ body, Γ, hΓ, locals => stops_execBody hinvoke body Γ hΓ locals
termination_by structural s => s

theorem stops_execBody (hinvoke : invoke.Stops p) : ∀ (body : List Stmt)
    (Γ : Context) (_ : Γ.program = p) (locals : Locals),
    (execBody invoke bound self Γ locals body).Stops p
  | [], _, _, _ => .pure _
  | s :: rest, Γ, hΓ, locals => by
      refine .bind (stops_execStmt hinvoke s Γ hΓ locals) fun flow => ?_
      cases flow with
      | next locals => exact stops_execBody hinvoke rest _ ((s.after_program Γ).trans hΓ) locals
      | returned v => exact .pure _
termination_by structural body => body

end

end trees

theorem FunctionDecl.stops_evaluate {invoke : Invoke} (hinvoke : invoke.Stops p) (f : FunctionDecl)
    (printName : String) (bound : Nat) (current : Option String)
    (self : Option Datum) (args : List Datum) :
    (f.evaluate p printName invoke bound current self args).Stops p := by
  refine .bind (stops_execBody bound self hinvoke _ _ rfl _) fun flow => ?_
  cases flow with
  | next locals => exact .stuck
  | returned v => exact .pure v

/-- Calls of any depth stop for these reasons only. -/
theorem Program.stops_invoke (p : Program) (printName : String) (bound : Nat) :
    (p.invoke printName bound).Stops p := by
  induction bound with
  | zero => exact fun _ _ _ => .throw .timeout
  | succ bound ih =>
      intro f self args
      cases f with
      | print => exact stops_printArgument args
      | function decl => exact decl.stops_evaluate ih printName _ none none args
      | method owner decl => exact decl.stops_evaluate ih printName _ (some owner) self args

/-- A program stops for these reasons only. -/
theorem Program.stops_evaluate {printName : String} {bound : Nat} {e : Stop} {σ : Store}
    (h : p.evaluate printName bound = (.error e, σ)) : p.Stops e := by
  unfold Program.evaluate at h
  split at h
  · exact p.stops_invoke printName bound _ _ _ _ _ _ h
  · cases h
    exact .stuck

end ObjectLang
