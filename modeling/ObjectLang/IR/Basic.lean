/-!
# Intermediate code

Procedures over basic blocks. Values live in temporaries, which are assigned by instructions, and
in memory, which is reached through pointers. A block runs its instructions in order and then does
what its terminator says; a block under construction has none yet. Structs, procedures, blocks and
temporaries are known by their position.
-/
namespace ObjectLang.IR

/-- The types of temporaries and of memory. -/
inductive Ty where
  | int
  | bool
  | byte
  | pointer (target : Ty)
  | struct (id : Nat)
  | array (element : Ty) (length : Nat)
  | null
  | void
deriving Repr, DecidableEq, Inhabited

namespace Ty

/-- Whether values of a type are pointers. -/
def isPointer : Ty → Bool
  | .pointer _ | .null => true
  | _ => false

/-- The type of what a pointer type points to. -/
def target? : Ty → Option Ty
  | .pointer target => some target
  | _ => none

end Ty

/-- What an instruction takes: a constant or a temporary. -/
inductive Operand where
  | int (value : Int32)
  | bool (value : Bool)
  | null
  | temp (id : Nat)
deriving Repr, DecidableEq, Inhabited

/-- The operations on two operands. -/
inductive Operation where
  | add
  | sub
  | mul
  | sdiv
  | slt
  | eq
  | and
  | or
deriving Repr, DecidableEq, Inhabited

/-- The type of what an operation computes. -/
def Operation.resultType : Operation → Ty
  | .add | .sub | .mul | .sdiv => .int
  | .slt | .eq | .and | .or => .bool

/-- The steps of a block. Those that compute something name the temporary it goes to first. -/
inductive Instruction where
  /-- Memory for some number of bytes. -/
  | alloc (dest : Nat) (size : Operand)
  /-- Memory for a value of a type. -/
  | alloca (dest : Nat) (type : Ty)
  /-- The same pointer at the type of the temporary. -/
  | bitcast (dest : Nat) (value : Operand)
  /-- The address that indices select from what `base` points to. -/
  | elementPtr (dest : Nat) (base : Operand) (indices : List Operand)
  | load (dest : Nat) (address : Operand)
  | store (address value : Operand)
  | binary (dest : Nat) (op : Operation) (left right : Operand)
  | call (dest : Nat) (procedure : Nat) (args : List Operand)
  | print (value : Operand)
  | comment (text : String)
deriving Repr, DecidableEq, Inhabited

namespace Instruction

/-- The temporary that an instruction assigns. -/
def dest? : Instruction → Option Nat
  | .alloc dest _ | .alloca dest _ | .bitcast dest _ | .elementPtr dest _ _ | .load dest _
  | .binary dest _ _ _ | .call dest _ _ => some dest
  | .store _ _ | .print _ | .comment _ => none

/-- The operands that an instruction reads. -/
def operands : Instruction → List Operand
  | .alloc _ size => [size]
  | .alloca _ _ | .comment _ => []
  | .bitcast _ value => [value]
  | .elementPtr _ base indices => base :: indices
  | .load _ address => [address]
  | .store address value => [address, value]
  | .binary _ _ left right => [left, right]
  | .call _ _ args => args
  | .print value => [value]

def isAlloca : Instruction → Bool
  | .alloca _ _ => true
  | _ => false

end Instruction

/-- How a block ends. -/
inductive Terminator where
  | jump (target : Nat)
  | branch (condition : Operand) (onTrue onFalse : Nat)
  | ret (value : Operand)
  | halt (message : String)
deriving Repr, DecidableEq, Inhabited

namespace Terminator

/-- The blocks that may run next. -/
def successors : Terminator → List Nat
  | .jump target => [target]
  | .branch _ onTrue onFalse => [onTrue, onFalse]
  | .ret _ | .halt _ => []

/-- The operand that decides where control goes, or what is returned. -/
def operand? : Terminator → Option Operand
  | .branch condition _ _ => some condition
  | .ret value => some value
  | .jump _ | .halt _ => none

end Terminator

/-- A field of a struct. -/
structure Field where
  name : String
  type : Ty
deriving Repr, DecidableEq, Inhabited

/-- A struct type. -/
structure Struct where
  name : String
  fields : List Field := []
deriving Repr, DecidableEq, Inhabited

/-- The position of the first field of a name. -/
def Struct.fieldIndex? (s : Struct) (name : String) : Option Nat :=
  s.fields.findIdx? (·.name == name)

structure Block where
  name : String
  instructions : List Instruction := []
  terminator : Option Terminator := none
deriving Repr, DecidableEq, Inhabited

namespace Block

def isTerminated (b : Block) : Bool :=
  b.terminator.isSome

/-- A block with one more instruction at its end. -/
def push (b : Block) (i : Instruction) : Block :=
  { b with instructions := b.instructions ++ [i] }

/-- A block with one more instruction behind the run of allocas that it starts with. -/
def pushSlot (b : Block) (i : Instruction) : Block :=
  let (slots, body) := b.instructions.span Instruction.isAlloca
  { b with instructions := slots ++ i :: body }

end Block

/-- A temporary: its type, and a name if the source text gave it one. -/
structure Temp where
  type : Ty
  name : Option String := none
deriving Repr, DecidableEq, Inhabited

/-- A procedure. It starts with its first block; its parameters are temporaries. -/
structure Procedure where
  name : String
  returnType : Ty
  params : List Nat := []
  temps : Array Temp := #[]
  blocks : Array Block := #[]
deriving Repr, DecidableEq, Inhabited

namespace Procedure

/-- The procedure with one more temporary, and that temporary. -/
def newTemp (p : Procedure) (type : Ty) : Nat × Procedure :=
  (p.temps.size, { p with temps := p.temps.push ⟨type, none⟩ })

def newNamedTemp (p : Procedure) (name : String) (type : Ty) : Nat × Procedure :=
  (p.temps.size, { p with temps := p.temps.push ⟨type, some name⟩ })

/-- The procedure with one more parameter, and the temporary that holds it. -/
def newParam (p : Procedure) (name : String) (type : Ty) : Nat × Procedure :=
  let (id, p) := p.newNamedTemp name type
  (id, { p with params := p.params ++ [id] })

/-- The procedure with one more block, empty and open, and that block. -/
def newBlock (p : Procedure) (name : String) : Nat × Procedure :=
  (p.blocks.size, { p with blocks := p.blocks.push ⟨name, [], none⟩ })

/-- The type of an operand; a temporary that the procedure lacks has none. -/
def typeOf? (p : Procedure) : Operand → Option Ty
  | .int _ => some .int
  | .bool _ => some .bool
  | .null => some .null
  | .temp id => p.temps[id]?.map (·.type)

/-- The procedure with a block changed. -/
def modifyBlock (p : Procedure) (id : Nat) (f : Block → Block) : Procedure :=
  { p with blocks := p.blocks.modify id f }

/-- The procedure with memory for a value of a type, reserved whenever its first block is entered,
and the temporary that points there. -/
def slot (p : Procedure) (type : Ty) : Nat × Procedure :=
  let (dest, p) := p.newTemp (.pointer type)
  (dest, p.modifyBlock 0 (·.pushSlot (.alloca dest type)))

/-- A slot, if there is a first block to hold it. -/
def slot? (p : Procedure) (type : Ty) : Option (Nat × Procedure) :=
  if p.blocks.isEmpty then none else some (p.slot type)

end Procedure

/-- A whole program of structs and procedures. -/
structure Module where
  structs : Array Struct := #[]
  procedures : Array Procedure := #[]
deriving Repr, DecidableEq, Inhabited

namespace Module

def addStruct (m : Module) (name : String) (fields : List Field) : Nat × Module :=
  (m.structs.size, { m with structs := m.structs.push ⟨name, fields⟩ })

def addProcedure (m : Module) (p : Procedure) : Nat × Module :=
  (m.procedures.size, { m with procedures := m.procedures.push p })

/-- The procedure of a name that was added last. -/
def findProcedure? (m : Module) (name : String) : Option Nat :=
  (List.range m.procedures.size).reverse.find? fun id =>
    m.procedures[id]?.any (·.name == name)

end Module
end ObjectLang.IR
