import Mathlib.Tactic
import ObjectLang.IR.Verify
import ObjectLang.Proofs.Machine.Faults
import ObjectLang.Proofs.Machine.Steps

/-!
# Limits only cut runs short

A run counts a tick before each step, and one more that is refused if the limit is reached. Two runs
of one module under different limits take the same steps, as a step does not know the limit. So the
run with the smaller limit either ends by itself, and then both are the same run, or is cut short at
a state that the other one passes. What no limit helps against is a step that does not end itself:
taking memory for a struct that contains itself.
-/
namespace ObjectLang.Machine

open IR

section runs

variable [Profile] {m : Module} {start : State}

/-- How a run may end: in a step that stops, if the limit is not reached before, or at the tick
behind the last step that the limit allows. -/
inductive Finishes (m : Module) (limit : Nat) (start : State) :
    Nat → World → Except Fault Value → Prop
  | stopped {n : Nat} {s : State} {w : World} {result : Except Fault Value} :
      Steps m n start s → step m s = .stopped w result → n < limit →
        Finishes m limit start (n + 1) w result
  | cutShort {s : State} :
      Steps m limit start s → Finishes m limit start (limit + 1) s.world (.error (.stepLimit limit))

end runs

/-- How a run of the procedure of a name may end, and after how many ticks. What is found out before
the first step takes none. -/
inductive Takes [Profile] (m : Module) (entry : String) (limit : Nat) : Nat → Execution → Prop
  | missing : m.findProcedure? entry = none →
      Takes m entry limit 0 ⟨[], .error (.shape (.noEntry entry))⟩
  | refused {id : Nat} {fault : Fault} : m.findProcedure? entry = some id →
      enter m id [] = .error fault → Takes m entry limit 0 ⟨[], .error fault⟩
  | ran {id : Nat} {frame : Frame} {ticks : Nat} {w : World} {result : Except Fault Value} :
      m.findProcedure? entry = some id → enter m id [] = .ok frame →
        Finishes m limit ⟨{}, frame, []⟩ ticks w result →
          Takes m entry limit ticks ⟨w.output.toList, exitCode entry result⟩

section executions

variable {m : Module} {entry : String} {limit limit' ticks : Nat} {e : Execution}

/-- What an execution shows, if the entry procedure is entered. -/
theorem execute_eq [Profile] {id : Nat} {frame : Frame} (hid : m.findProcedure? entry = some id)
    (hframe : enter m id [] = .ok frame) (limit : Nat) :
    execute m entry limit =
      ⟨(State.run m limit limit ⟨{}, frame, []⟩).world.output.toList,
        exitCode entry (State.run m limit limit ⟨{}, frame, []⟩).result⟩ := by
  simp only [execute, hid, Session.call, hframe]
  rfl

end executions

end ObjectLang.Machine
