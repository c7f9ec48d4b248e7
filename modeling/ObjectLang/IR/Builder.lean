import ObjectLang.IR.Basic

/-!
# Building procedures

A builder holds a procedure under construction and the block that instructions go to. A terminator
closes that block, and until the builder is switched to another one, instructions are dropped. So
code that cannot be reached leaves no instructions behind, though it may leave temporaries, slots
and blocks.

Beside the procedure a builder keeps a record of all that was done to it. Nothing reads the record:
it is there to say of the making of code what cannot be seen in the procedure any more, such as that
no terminator took the place of another one.
-/
namespace ObjectLang.IR

/-- What can be done to a builder. -/
inductive Move where
  | temp (type : Ty)
  | block (name : String)
  | slot (type : Ty)
  | emit (i : Instruction)
  | terminate (t : Terminator)
  | switchTo (n : Nat)
deriving Repr, DecidableEq, Inhabited

/-- A procedure under construction, its open block, if one is open, and what was done so far. -/
structure Builder where
  procedure : Procedure
  current : Option Nat
  moves : Array Move
deriving Repr, DecidableEq, Inhabited

namespace Builder

/-- One more move is on record. -/
def record (m : Move) (b : Builder) : Builder :=
  { b with moves := b.moves.push m }

/-- Whether instructions go to some block. -/
def isOpen (b : Builder) : Bool :=
  b.current.isSome

/-- A new block, empty and without terminator; the open block stays the same. -/
def newBlock (b : Builder) (name : String) : Nat × Builder :=
  let (id, p) := b.procedure.newBlock name
  (id, record (.block name) { b with procedure := p })

/-- From here on instructions go to another block. -/
def switchTo (b : Builder) (block : Nat) : Builder :=
  record (.switchTo block) { b with current := some block }

/-- A builder for a procedure, which gets one more block; that block is open. -/
def start (p : Procedure) (entry : String) : Builder :=
  let (id, b) := newBlock ⟨p, none, #[]⟩ entry
  b.switchTo id

def newTemp (b : Builder) (type : Ty) : Nat × Builder :=
  let (id, p) := b.procedure.newTemp type
  (id, record (.temp type) { b with procedure := p })

/-- Memory for a value of a type, reserved whenever the procedure is entered; gives the temporary
that points there. -/
def slot (b : Builder) (type : Ty) : Nat × Builder :=
  let (id, p) := b.procedure.slot type
  (id, record (.slot type) { b with procedure := p })

/-- The type of an operand. -/
def typeOf (b : Builder) (x : Operand) : Ty :=
  (b.procedure.typeOf? x).getD .void

/-- An instruction at the end of the open block. -/
def emit (b : Builder) (i : Instruction) : Builder :=
  record (.emit i) <| match b.current with
    | some id => { b with procedure := b.procedure.modifyBlock id (·.push i) }
    | none => b

/-- An instruction that computes a value of a type into a new temporary. -/
def define (b : Builder) (type : Ty) (instruction : Nat → Instruction) : Operand × Builder :=
  let (id, b) := b.newTemp type
  (.temp id, b.emit (instruction id))

def comment (b : Builder) (text : String) : Builder :=
  b.emit (.comment text)

def binary (b : Builder) (op : Operation) (left right : Operand) : Operand × Builder :=
  b.define op.resultType (.binary · op left right)

/-- The value behind an address; it has the type that the address points to. -/
def load (b : Builder) (address : Operand) : Operand × Builder :=
  b.define ((b.typeOf address).target?.getD .void) (.load · address)

def store (b : Builder) (address value : Operand) : Builder :=
  b.emit (.store address value)

/-- The address of something of type `target` inside of what `base` points to. -/
def elementPtr (b : Builder) (base : Operand) (indices : List Operand) (target : Ty) :
    Operand × Builder :=
  b.define (.pointer target) (.elementPtr · base indices)

def bitcast (b : Builder) (value : Operand) (type : Ty) : Operand × Builder :=
  b.define type (.bitcast · value)

/-- Some bytes of memory. -/
def alloc (b : Builder) (size : Operand) : Operand × Builder :=
  b.define (.pointer .byte) (.alloc · size)

def call (b : Builder) (procedure : Nat) (args : List Operand) (returnType : Ty) :
    Operand × Builder :=
  b.define returnType (.call · procedure args)

def print (b : Builder) (value : Operand) : Builder :=
  b.emit (.print value)

/-- The end of the open block. -/
def terminate (b : Builder) (t : Terminator) : Builder :=
  record (.terminate t) <| match b.current with
    | some id =>
      { b with
        procedure := b.procedure.modifyBlock id fun block => { block with terminator := some t }
        current := none }
    | none => b

def jump (b : Builder) (target : Nat) : Builder :=
  b.terminate (.jump target)

def branch (b : Builder) (condition : Operand) (onTrue onFalse : Nat) : Builder :=
  b.terminate (.branch condition onTrue onFalse)

def ret (b : Builder) (value : Operand) : Builder :=
  b.terminate (.ret value)

def halt (b : Builder) (message : String) : Builder :=
  b.terminate (.halt message)

end Builder
end ObjectLang.IR
