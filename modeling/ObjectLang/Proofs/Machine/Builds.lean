import Mathlib.Tactic
import ObjectLang.Machine.Run
import ObjectLang.Proofs.IR.Sizes

/-!
# Both builds of the machine

A machine that refuses numbers that do not fit does what a machine does that wraps them, up to the
first such number. So a run on the one is the same on the other, or it ends over a size or an offset
that does not fit.
-/
namespace ObjectLang.Machine

open IR

/-- The machine that refuses numbers that do not fit. -/
abbrev refusing : Profile where
  overflow := .refuse

/-- The machine that wraps them. -/
abbrev wrapping : Profile where
  overflow := .wrap

section sizes

variable {m : Module}

theorem word_builds (n : Nat) :
    Outlasts .overflow (Overflow.refuse.word n) (Overflow.wrap.word n) := by
  unfold Overflow.word
  split
  · exact .rfl
  · exact .inl rfl

theorem long_builds (n : Int) :
    Outlasts .overflow (Overflow.refuse.long n) (Overflow.wrap.long n) := by
  unfold Overflow.long
  split
  · exact .rfl
  · exact .inl rfl

theorem structSizeWithin_builds (depth id : Nat) :
    Outlasts .overflow (m.structSizeWithin Overflow.refuse.word depth id)
      (m.structSizeWithin Overflow.wrap.word depth id) := by
  induction depth generalizing id with
  | zero => exact .rfl
  | succ depth ih =>
      rw [Module.structSizeWithin, Module.structSizeWithin]
      cases m.structs[id]? with
      | none => exact .rfl
      | some s => exact sumSizes_outlasts word_builds (Ty.outlasts word_builds ih) s.fields

theorem measure_builds (t : Ty) :
    Outlasts .overflow (m.measure Overflow.refuse.word t) (m.measure Overflow.wrap.word t) :=
  Ty.outlasts word_builds (structSizeWithin_builds _) t

theorem measureOffset_builds (id index : Nat) :
    Outlasts .overflow (m.measureOffset Overflow.refuse.word id index)
      (m.measureOffset Overflow.wrap.word id index) := by
  rw [Module.measureOffset, Module.measureOffset]
  cases m.structs[id]? with
  | none => exact .rfl
  | some s =>
      dsimp only
      split
      · rcases sumSizes_outlasts word_builds measure_builds (s.fields.take index) with h | h
        · exact .inl (by rw [h]; rfl)
        · exact .inr (by rw [h])
      · exact .rfl

theorem strideOffset_builds (offset : Int) (n : Int32) (type : Ty) :
    Outlasts .overflow (@strideOffset refusing m offset n type)
      (@strideOffset wrapping m offset n type) :=
  (measure_builds type).bind fun _ => (long_builds _).bind fun _ => long_builds _

end sizes

section steps

variable {m : Module} {memory : Memory} {α : Type} (f : Frame)

theorem counted_builds {r r' : Except Breakdown α} (h : Outlasts .overflow r r') :
    Outlasts (.breakdown .overflow) (counted r) (counted r') := by
  rcases h with rfl | rfl
  · exact .inl rfl
  · exact .rfl

theorem indexOffset_builds (offset : Int) (type : Ty) (indices : List Operand) :
    Outlasts (.breakdown .overflow) (@indexOffset refusing m f offset type indices)
      (@indexOffset wrapping m f offset type indices) := by
  induction indices generalizing offset type with
  | nil => cases type <;> exact .rfl
  | cons index indices ih =>
      cases type with
      | struct id =>
          cases index with
          | int n =>
              refine (counted_builds (measureOffset_builds id _)).bind fun bytes => ?_
              split
              · exact (counted_builds (long_builds _)).bind fun _ => ih _ _
              · exact .rfl
          | _ => exact .rfl
      | array element length =>
          exact Outlasts.rfl.bind fun n =>
            (counted_builds (strideOffset_builds offset n element)).bind fun _ => ih _ _
      | _ => exact .rfl

theorem pointerOffset_builds (offset : Int) (type : Ty) (indices : List Operand) :
    Outlasts (.breakdown .overflow) (@pointerOffset refusing m f offset type indices)
      (@pointerOffset wrapping m f offset type indices) := by
  cases indices with
  | nil => exact .rfl
  | cons index indices =>
      exact Outlasts.rfl.bind fun n => (counted_builds (strideOffset_builds offset n type)).bind
        fun _ => indexOffset_builds f _ type indices

theorem elementAddress_builds (base : Operand) (indices : List Operand) :
    Outlasts (.breakdown .overflow) (@elementAddress refusing m f base indices)
      (@elementAddress wrapping m f base indices) := by
  refine Outlasts.rfl.bind fun a => ?_
  cases a with
  | none => exact .rfl
  | some a =>
      cases f.procedure.typeOf? base with
      | none => exact .rfl
      | some type =>
          cases htarget : type.target? with
          | none =>
              simp only [htarget]
              exact .rfl
          | some target =>
              simp only [htarget]
              exact (pointerOffset_builds f _ target indices).bind fun _ => .rfl

/-- An instruction that both machines do has the same effect. -/
theorem instructionAction_builds (i : Instruction) :
    Outlasts (.breakdown .overflow) (@instructionAction refusing m memory f i)
      (@instructionAction wrapping m memory f i) := by
  cases i with
  | alloca dest type => exact (counted_builds (measure_builds type)).bind fun _ => .rfl
  | elementPtr dest base indices =>
      exact (elementAddress_builds f base indices).bind fun _ => .rfl
  | _ => exact .rfl

theorem nextAction_builds :
    Outlasts (.breakdown .overflow) (@nextAction refusing m memory f)
      (@nextAction wrapping m memory f) := by
  unfold nextAction
  split
  · exact instructionAction_builds f _
  · exact .rfl

/-- A step of the refusing machine stops over a number that does not fit, or is one of the wrapping
machine. -/
theorem step_builds (s : State) :
    @step refusing m s = .stopped s.world (.error (.breakdown .overflow)) ∨
      @step refusing m s = @step wrapping m s := by
  unfold step
  rcases nextAction_builds s.frame with h | h
  · exact .inl (by rw [h])
  · exact .inr (by rw [h])

end steps

section runs

variable (m : Module)

theorem run_builds (limit budget : Nat) (s : State) :
    (@State.run refusing m limit budget s).result = .error (.breakdown .overflow) ∨
      @State.run refusing m limit budget s = @State.run wrapping m limit budget s := by
  induction budget generalizing s with
  | zero => exact .inr rfl
  | succ budget ih =>
      unfold State.run
      rcases step_builds (m := m) s with h | h
      · exact .inl (by rw [h])
      · rw [h]
        cases @step wrapping m s with
        | running t => exact ih t
        | stopped w result => exact .inr rfl

/-- An execution on the refusing machine is the same on the wrapping one, or it ends over a size or
an offset that does not fit. -/
theorem execute_builds (entry : String) (limit : Nat) :
    (@execute refusing m entry limit).result = .error (.breakdown .overflow) ∨
      @execute refusing m entry limit = @execute wrapping m entry limit := by
  unfold execute
  cases m.findProcedure? entry with
  | none => exact .inr rfl
  | some id =>
      simp only [Session.call]
      cases enter m id [] with
      | error fault => exact .inr rfl
      | ok frame =>
          rcases run_builds m limit limit ⟨{}, frame, []⟩ with h | h
          · refine .inl ?_
            simp only [Session.start, h]
            rfl
          · refine .inr ?_
            simp only [Session.start, h]

end runs

end ObjectLang.Machine
