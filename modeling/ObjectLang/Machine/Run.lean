import ObjectLang.Machine.Step

/-!
# Runs

A run takes steps until it stops by itself or has used up its budget. A session makes one call
after the other over one world, with one budget for all of them: what a call printed and stored
stays, also when the call failed.
-/
namespace ObjectLang.Machine

open IR

/-- How a run ended: the world it left, the steps it did not use, and its result. -/
structure Outcome where
  world : World
  budget : Nat
  result : Except Fault Value

/-- Steps until the run stops, as far as the budget goes. -/
def State.run [Profile] (m : Module) (limit : Nat) : Nat → State → Outcome
  | 0, s => ⟨s.world, 0, .error (.stepLimit limit)⟩
  | budget + 1, s =>
    match step m s with
    | .running s => s.run m limit budget
    | .stopped w result => ⟨w, budget, result⟩

/-- How many steps a run may take if nothing else is said. -/
def defaultLimit : Nat :=
  10000000

/-- Calls that share a world and a budget. -/
structure Session where
  world : World := {}
  limit : Nat
  budget : Nat
deriving Inhabited

namespace Session

def start (limit : Nat) : Session :=
  ⟨{}, limit, limit⟩

/-- The session after a call, and the result of the call. -/
def call [Profile] (m : Module) (s : Session) (procedure : Nat) (args : List Value) :
    Session × Except Fault Value :=
  match enter m procedure args with
  | .error fault => (s, .error fault)
  | .ok frame =>
    let outcome := State.run m s.limit s.budget ⟨s.world, frame, []⟩
    ({ s with world := outcome.world, budget := outcome.budget }, outcome.result)

end Session

/-- What running a program shows: the numbers it printed, and its result. -/
structure Execution where
  output : List Int32
  result : Except Fault Int32

/-- What the program said if it stopped by itself. -/
def Execution.halt? (e : Execution) : Option String :=
  match e.result with
  | .error fault => fault.halt?
  | .ok _ => none

/-- The number that a run of an entry procedure has to end with. -/
def exitCode (entry : String) : Except Fault Value → Except Fault Int32
  | .ok (.int n) => .ok n
  | .ok value => .error (.operand entry (.entryResult value))
  | .error fault => .error fault

/-- A run of the procedure of a name, without arguments. -/
def execute [Profile] (m : Module) (entry : String) (limit : Nat) : Execution :=
  match m.findProcedure? entry with
  | none => ⟨[], .error (.shape (.noEntry entry))⟩
  | some id =>
    let (session, result) := (Session.start limit).call m id []
    ⟨session.world.output.toList, exitCode entry result⟩

end ObjectLang.Machine
