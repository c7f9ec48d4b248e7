import ObjectLang.Machine.Memory

/-!
# Single steps

A running procedure is a frame: the block it is in, the instructions still to do there, and the
values of its temporaries. A step does one instruction, or leaves a block by its terminator. Each
step has two parts. First the frame and the memory are only read, which finds the action to take or
the fault that stops the run; then the action is taken, and taking it cannot fail.
-/
namespace ObjectLang.Machine

open IR

/-- A procedure that is running. -/
structure Frame where
  procedure : Procedure
  block : Nat
  todo : List Instruction
  temps : Array (Option Value)
deriving Inhabited

namespace Frame

/-- A fault over an operand that the procedure reads. -/
def fault (f : Frame) (cause : OperandFault) : Fault :=
  .operand f.procedure.name cause

/-- The value of an operand. -/
def eval (f : Frame) : Operand → Except Fault Value
  | .int n => .ok (.int n)
  | .bool b => .ok (.bool b)
  | .null => .ok (.pointer none)
  | .temp id =>
    match f.temps[id]? with
    | some (some value) => .ok value
    | _ => .error (f.fault (.undefinedTemp id))

/-- The value of an operand that has to be a number. -/
def evalInt (f : Frame) (x : Operand) : Except Fault Int32 := do
  match ← f.eval x with
  | .int n => return n
  | value => throw (f.fault (.notInt value))

/-- The value of an operand that has to be a pointer. -/
def evalPointer (f : Frame) (x : Operand) : Except Fault (Option Address) := do
  match ← f.eval x with
  | .pointer a => return a
  | value => throw (f.fault (.notPointer value))

/-- The frame with a temporary assigned. -/
def set (f : Frame) (dest : Nat) (value : Value) : Frame :=
  { f with temps := f.temps.setIfInBounds dest (some value) }

/-- The result of an operation. A divisor is looked at before the number that it divides. -/
def compute (f : Frame) (op : Operation) (left right : Operand) : Except Fault Value := do
  match op with
  | .add => return .int ((← f.evalInt left) + (← f.evalInt right))
  | .sub => return .int ((← f.evalInt left) - (← f.evalInt right))
  | .mul => return .int ((← f.evalInt left) * (← f.evalInt right))
  | .sdiv =>
    let divisor ← f.evalInt right
    if divisor = 0 then throw (f.fault .zeroDivisor)
    return .int ((← f.evalInt left) / divisor)
  | .slt => return .bool (decide ((← f.evalInt left) < (← f.evalInt right)))
  | .eq => return .bool (decide ((← f.eval left) = (← f.eval right)))
  | .and =>
    match (← f.eval left), (← f.eval right) with
    | .bool a, .bool b => return .bool (a && b)
    | _, _ => throw (f.fault (.notBools op))
  | .or =>
    match (← f.eval left), (← f.eval right) with
    | .bool a, .bool b => return .bool (a || b)
    | _, _ => throw (f.fault (.notBools op))

end Frame

/-- A field number as the machine reads it: an unsigned word of 64 bits. -/
def fieldNumber (n : Int32) : Nat :=
  n.toInt64.toUInt64.toNat

section

variable [Profile]

/-- A size or an offset as it counts in a run. -/
def counted {α : Type} (r : Except Breakdown α) : Except Fault α :=
  r.mapError .breakdown

/-- An offset moved on by a number of values of a type. -/
def strideOffset (m : Module) (offset : Int) (n : Int32) (type : Ty) : Except Breakdown Int := do
  let size ← m.measure Profile.overflow.word type
  Profile.overflow.long (offset + (← Profile.overflow.long (n.toInt * size)))

/-- Where some indices lead inside of a value of a type that stands at an offset: each selects a
field of a struct or an element of an array. -/
def indexOffset (m : Module) (f : Frame) : Int → Ty → List Operand → Except Fault Int
  | offset, _, [] => .ok offset
  | offset, .struct id, index :: indices => do
    let .int n := index | throw (f.fault .variableField)
    let bytes ← counted (m.measureOffset Profile.overflow.word id (fieldNumber n))
    match bytes, m.structs[id]?.bind (·.fields[fieldNumber n]?) with
    | some bytes, some field =>
      indexOffset m f (← counted (Profile.overflow.long (offset + bytes))) field.type indices
    | _, _ => throw (f.fault (.unknownField (fieldNumber n) id))
  | offset, .array element _, index :: indices => do
    let n ← f.evalInt index
    indexOffset m f (← counted (strideOffset m offset n element)) element indices
  | _, type, _ :: _ => .error (f.fault (.notIndexable type))

/-- Where some indices lead from an offset at which values of a type stand: the first counts whole
values of that type, the others select inside of the one that it leads to. -/
def pointerOffset (m : Module) (f : Frame) (offset : Int) (type : Ty) :
    List Operand → Except Fault Int
  | [] => .ok offset
  | index :: indices => do
    let n ← f.evalInt index
    indexOffset m f (← counted (strideOffset m offset n type)) type indices

/-- The address that indices select from what a pointer points to. -/
def elementAddress (m : Module) (f : Frame) (base : Operand) (indices : List Operand) :
    Except Fault Address := do
  let some a ← f.evalPointer base | throw (.access .nullBase)
  let some type := f.procedure.typeOf? base | throw (f.fault .untypedBase)
  let some target := type.target? | throw (f.fault (.baseType type))
  let offset ← pointerOffset m f a.offset target indices
  if 0 ≤ offset ∧ offset < UInt32.size then return { a with offset := offset.toNat }
  throw (.access (.unaddressable offset))

end

/-- The frame of a procedure that is entered with some arguments. -/
def enter (m : Module) (callee : Nat) (args : List Value) : Except Fault Frame :=
  match m.procedures[callee]? with
  | none => .error (.shape (.unknownProcedure callee))
  | some p =>
    if p.params.length ≠ args.length then
      .error (.shape (.argumentCount p.name p.params.length args.length))
    else
      match p.blocks[0]? with
      | none => .error (.shape (.noBlocks p.name))
      | some entry =>
        let frame : Frame := ⟨p, 0, entry.instructions, Array.replicate p.temps.size none⟩
        .ok ((p.params.zip args).foldl (fun f (id, value) => f.set id value) frame)

/-- What a step does. -/
inductive Action where
  | skip
  | assign (dest : Nat) (value : Value)
  | allocate (dest size : Nat)
  | write (address : Address) (value : Value)
  | print (n : Int32)
  | enter (dest : Nat) (callee : Frame)
  | goto (block : Nat) (instructions : List Instruction)
  | leave (value : Value)
deriving Inhabited

/-- The action of an instruction. -/
def instructionAction [Profile] (m : Module) (memory : Memory) (f : Frame) :
    Instruction → Except Fault Action
  | .alloc dest size => do
    let n ← f.evalInt size
    if n < 0 then throw (.access (.negativeSize n))
    return .allocate dest n.toInt.toNat
  | .alloca dest type => return .allocate dest (← counted (m.measure Profile.overflow.word type))
  | .bitcast dest value => return .assign dest (.pointer (← f.evalPointer value))
  | .elementPtr dest base indices =>
    return .assign dest (.pointer (some (← elementAddress m f base indices)))
  | .load dest address => return .assign dest (← memory.load (← f.evalPointer address))
  | .store address value => do
    let target ← f.evalPointer address
    let value ← f.eval value
    return .write (← memory.resolve target) value
  | .binary dest op left right => return .assign dest (← f.compute op left right)
  | .call dest callee args => return .enter dest (← enter m callee (← args.mapM f.eval))
  | .print value => return .print (← f.evalInt value)
  | .comment _ => return .skip

/-- The action of going to a block. -/
def gotoAction (f : Frame) (block : Nat) : Except Fault Action :=
  match f.procedure.blocks[block]? with
  | some b => .ok (.goto block b.instructions)
  | none => .error (.shape (.unknownBlock f.procedure.name block))

/-- The action of the end of a block. -/
def terminatorAction (f : Frame) : Option Terminator → Except Fault Action
  | some (.jump target) => gotoAction f target
  | some (.branch condition onTrue onFalse) => do
    match ← f.eval condition with
    | .bool true => gotoAction f onTrue
    | .bool false => gotoAction f onFalse
    | value => throw (f.fault (.notCondition value))
  | some (.ret value) => return .leave (← f.eval value)
  | some (.halt message) => .error (.halt message)
  | none => .error (.shape (.unterminated f.procedure.name f.block))

/-- What a frame does next. -/
def nextAction [Profile] (m : Module) (memory : Memory) (f : Frame) : Except Fault Action :=
  match f.todo with
  | i :: _ => instructionAction m memory f i
  | [] => terminatorAction f (f.procedure.blocks[f.block]?.bind Block.terminator)

/-- What a run leaves behind: its memory, and what it printed. -/
structure World where
  memory : Memory := {}
  output : Array Int32 := #[]
deriving Inhabited

/-- A run: the frame that is running, and the frames that wait for it, each with the temporary that
the result goes to. -/
structure State where
  world : World
  frame : Frame
  callers : List (Nat × Frame)
deriving Inhabited

/-- Where a step leads: on, or to the end of the run. -/
inductive Progress where
  | running (s : State)
  | stopped (w : World) (result : Except Fault Value)

/-- The state after an action. -/
def State.perform : State → Action → Progress
  | ⟨⟨memory, output⟩, ⟨p, block, todo, temps⟩, callers⟩, action =>
    match action with
    | .skip => .running ⟨⟨memory, output⟩, ⟨p, block, todo.tail, temps⟩, callers⟩
    | .assign dest value =>
      .running ⟨⟨memory, output⟩, (Frame.mk p block todo.tail temps).set dest value, callers⟩
    | .allocate dest size =>
      let (a, memory) := memory.allocate size
      .running
        ⟨⟨memory, output⟩, (Frame.mk p block todo.tail temps).set dest (.pointer (some a)), callers⟩
    | .write a value =>
      .running ⟨⟨memory.put a value, output⟩, ⟨p, block, todo.tail, temps⟩, callers⟩
    | .print n => .running ⟨⟨memory, output.push n⟩, ⟨p, block, todo.tail, temps⟩, callers⟩
    | .enter dest callee =>
      .running ⟨⟨memory, output⟩, callee, (dest, ⟨p, block, todo.tail, temps⟩) :: callers⟩
    | .goto target instructions =>
      .running ⟨⟨memory, output⟩, ⟨p, target, instructions, temps⟩, callers⟩
    | .leave value =>
      match callers with
      | [] => .stopped ⟨memory, output⟩ (.ok value)
      | (dest, caller) :: callers => .running ⟨⟨memory, output⟩, caller.set dest value, callers⟩

/-- One step of a run. -/
def step [Profile] (m : Module) (s : State) : Progress :=
  match nextAction m s.world.memory s.frame with
  | .ok action => s.perform action
  | .error fault => .stopped s.world (.error fault)

end ObjectLang.Machine
