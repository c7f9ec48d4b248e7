import Mathlib.Tactic
import ObjectLang.Machine.Run
import ObjectLang.Proofs.IR.Sizes

/-!
# What stops a computation

Where the machine only reads operands, addresses and memory, what can go wrong is an operand of the
wrong shape, an access that memory does not allow, or a read of what was never stored; and the
machine may break down over a size or an offset. Entering procedures and going to blocks find fault
with the shape of the code, and code may halt by itself. That the limit is reached is found by no
step.
-/
namespace ObjectLang.Machine

open IR

/-- The faults of reading and computing, wherever in the code that is. -/
inductive Fault.Local [Profile] (m : Module) : Fault → Prop
  | access (cause : AccessFault) : Fault.Local m (.access cause)
  | uninitialized (offset : Nat) : Fault.Local m (.uninitialized offset)
  | operand (procedure : String) (cause : OperandFault) : Fault.Local m (.operand procedure cause)
  | breakdown {cause : Breakdown} : m.Breaks cause → Fault.Local m (.breakdown cause)

section raises

variable {α β : Type} {P Q : Fault → Prop} {r : Except Fault α}

/-- All faults that a computation can have are of a sort. -/
def Raises (P : Fault → Prop) (r : Except Fault α) : Prop :=
  ∀ f, r = .error f → P f

theorem raises_ok (a : α) : Raises P (.ok a) :=
  nofun

theorem raises_error {f : Fault} (h : P f) : Raises P (.error f : Except Fault α) := by
  rintro _ ⟨⟩
  exact h

theorem Raises.mono (h : Raises P r) (hPQ : ∀ f, P f → Q f) : Raises Q r :=
  fun f hf => hPQ f (h f hf)

theorem Raises.bind {k : α → Except Fault β} (hr : Raises P r)
    (hk : ∀ a, r = .ok a → Raises P (k a)) : Raises P (r >>= k) := by
  cases r with
  | error fault => exact raises_error (hr fault rfl)
  | ok a => exact hk a rfl

end raises

section operands

variable [Profile] {m : Module} {α : Type} (f : Frame) (memory : Memory)

theorem Frame.raises_fault (cause : OperandFault) :
    Raises (Fault.Local m) (throw (f.fault cause) : Except Fault α) :=
  raises_error (.operand _ cause)

theorem raises_access (cause : AccessFault) :
    Raises (Fault.Local m) (throw (.access cause) : Except Fault α) :=
  raises_error (.access cause)

theorem Frame.raises_eval (x : Operand) : Raises (Fault.Local m) (f.eval x) := by
  cases x with
  | temp id =>
      rw [Frame.eval]
      split
      · exact raises_ok _
      · exact f.raises_fault _
  | _ => exact raises_ok _

theorem Frame.raises_evalInt (x : Operand) : Raises (Fault.Local m) (f.evalInt x) := by
  refine (f.raises_eval x).bind fun v _ => ?_
  cases v with
  | int n => exact raises_ok n
  | _ => exact f.raises_fault _

theorem Frame.raises_evalPointer (x : Operand) : Raises (Fault.Local m) (f.evalPointer x) := by
  refine (f.raises_eval x).bind fun v _ => ?_
  cases v with
  | pointer a => exact raises_ok a
  | _ => exact f.raises_fault _

theorem Frame.raises_compute (op : Operation) (x y : Operand) :
    Raises (Fault.Local m) (f.compute op x y) := by
  cases op with
  | add | sub | mul | slt =>
      exact (f.raises_evalInt x).bind fun _ _ => (f.raises_evalInt y).bind fun _ _ => raises_ok _
  | sdiv =>
      refine (f.raises_evalInt y).bind fun n _ => ?_
      by_cases hn : n = 0
      · rw [if_pos hn]
        exact f.raises_fault _
      · rw [if_neg hn]
        exact (f.raises_evalInt x).bind fun _ _ => raises_ok _
  | eq => exact (f.raises_eval x).bind fun _ _ => (f.raises_eval y).bind fun _ _ => raises_ok _
  | and | or =>
      refine (f.raises_eval x).bind fun v _ => (f.raises_eval y).bind fun w _ => ?_
      split
      · exact raises_ok _
      · exact f.raises_fault _

theorem Frame.raises_evals (args : List Operand) : Raises (Fault.Local m) (args.mapM f.eval) := by
  induction args with
  | nil => exact raises_ok _
  | cons x args ih =>
      rw [List.mapM_cons]
      exact (f.raises_eval x).bind fun _ _ => ih.bind fun _ _ => raises_ok _

theorem raises_counted {r : Except Breakdown α} (h : ∀ cause, r = .error cause → m.Breaks cause) :
    Raises (Fault.Local m) (counted r) := by
  cases r with
  | ok a => exact raises_ok a
  | error cause => exact raises_error (.breakdown (h cause rfl))

theorem breaks_of_strideOffset {offset : Int} {n : Int32} {type : Ty} {cause : Breakdown}
    (h : strideOffset m offset n type = .error cause) : m.Breaks cause := by
  rw [strideOffset] at h
  cases hsize : m.measure Profile.overflow.word type with
  | error cause' =>
      rw [hsize] at h
      cases h
      exact breaks_of_measure hsize
  | ok size =>
      cases hlong : Profile.overflow.long (n.toInt * size) with
      | error cause' =>
          simp only [hsize, hlong, bind, Except.bind] at h
          cases h
          exact breaks_of_long hlong
      | ok bytes =>
          simp only [hsize, hlong, bind, Except.bind] at h
          exact breaks_of_long h

theorem raises_indexOffset (offset : Int) (type : Ty) (indices : List Operand) :
    Raises (Fault.Local m) (indexOffset m f offset type indices) := by
  induction indices generalizing offset type with
  | nil => cases type <;> exact raises_ok _
  | cons index indices ih =>
      cases type with
      | struct id =>
          cases index with
          | int n =>
              refine (raises_counted fun _ => breaks_of_measureOffset).bind fun bytes _ => ?_
              split
              · exact (raises_counted fun _ => breaks_of_long).bind fun _ _ => ih _ _
              · exact f.raises_fault _
          | _ => exact f.raises_fault _
      | array element length =>
          exact (f.raises_evalInt index).bind fun _ _ =>
            (raises_counted fun _ => breaks_of_strideOffset).bind fun _ _ => ih _ _
      | _ => exact f.raises_fault _

theorem raises_pointerOffset (offset : Int) (type : Ty) (indices : List Operand) :
    Raises (Fault.Local m) (pointerOffset m f offset type indices) := by
  cases indices with
  | nil => exact raises_ok _
  | cons index indices =>
      exact (f.raises_evalInt index).bind fun _ _ =>
        (raises_counted fun _ => breaks_of_strideOffset).bind fun _ _ =>
          raises_indexOffset f _ type indices

theorem raises_elementAddress (base : Operand) (indices : List Operand) :
    Raises (Fault.Local m) (elementAddress m f base indices) := by
  refine (f.raises_evalPointer base).bind fun a _ => ?_
  cases a with
  | none => exact raises_access _
  | some a =>
      cases f.procedure.typeOf? base with
      | none => exact f.raises_fault _
      | some type =>
          cases htarget : type.target? with
          | none => simpa only [htarget] using f.raises_fault _
          | some target =>
              simp only [htarget]
              refine (raises_pointerOffset f _ target indices).bind fun offset _ => ?_
              split
              · exact raises_ok _
              · exact raises_access _

theorem Memory.raises_resolve (pointer : Option Address) :
    Raises (Fault.Local m) (memory.resolve pointer) := by
  unfold Memory.resolve
  split
  · exact raises_access _
  · split
    · exact raises_access _
    · split
      · exact raises_ok _
      · exact raises_access _

theorem Memory.raises_load (pointer : Option Address) :
    Raises (Fault.Local m) (memory.load pointer) := by
  refine (memory.raises_resolve pointer).bind fun a _ => ?_
  split
  · exact raises_ok _
  · exact raises_error (.uninitialized _)

end operands

section actions

variable [Profile] (m : Module) (memory : Memory) (f : Frame)

end actions

end ObjectLang.Machine
