import ObjectLang.IR.Size
import ObjectLang.IR.Text

/-!
# Values and faults

What temporaries and memory cells hold while code runs, and the reasons for which a run stops
without a result. The code may stop by itself; every other fault says that the code asked for
something that has no meaning, or that its time is up. A breakdown is not reported by the machine:
it is the machine that fails, as a number does not fit or as it counts for ever.
-/
namespace ObjectLang.Machine

open IR

/-- A byte of an allocation. -/
structure Address where
  allocation : Nat
  offset : Nat
deriving Repr, DecidableEq, Inhabited

/-- A value; a pointer without an address is the null pointer. -/
inductive Value where
  | int (n : Int32)
  | bool (b : Bool)
  | pointer (address : Option Address)
deriving Repr, DecidableEq, Inhabited

/-- How a fault shows a value. -/
def Value.text : Value → String
  | .int n => "Int(" ++ toString n.toInt ++ ")"
  | .bool b => "Bool(" ++ toString b ++ ")"
  | .pointer none => "Pointer(None)"
  | .pointer (some a) =>
    "Pointer(Some(Address \x7b allocation: " ++ toString a.allocation ++ ", offset: "
      ++ toString a.offset ++ " \x7d))"

/-- How memory can be misused. -/
inductive AccessFault where
  | nullPointer
  | unknownAllocation (id : Nat)
  | outside (offset size : Nat)
  | negativeSize (size : Int32)
  | nullBase
  | unaddressable (offset : Int)
deriving Repr, DecidableEq, Inhabited

def AccessFault.message : AccessFault → String
  | .nullPointer => "null pointer dereference"
  | .unknownAllocation id => "unknown allocation " ++ toString id
  | .outside offset size =>
    "offset " ++ toString offset ++ " outside allocation of " ++ toString size ++ " bytes"
  | .negativeSize size => "allocation of negative size " ++ toString size.toInt
  | .nullBase => "address computation on null pointer"
  | .unaddressable offset => "address offset " ++ toString offset ++ " is negative"

/-- How an operand can be of the wrong shape. -/
inductive OperandFault where
  | undefinedTemp (temp : Nat)
  | notInt (value : Value)
  | notPointer (value : Value)
  | notCondition (value : Value)
  | notBools (op : Operation)
  | zeroDivisor
  | untypedBase
  | baseType (type : Ty)
  | variableField
  | unknownField (index struct : Nat)
  | notIndexable (type : Ty)
  | entryResult (value : Value)
deriving Repr, DecidableEq, Inhabited

def OperandFault.message : OperandFault → String
  | .undefinedTemp temp => "read of undefined temporary " ++ tempText temp
  | .notInt value => "expected int, found " ++ value.text
  | .notPointer value => "expected pointer, found " ++ value.text
  | .notCondition value => "branch on non-bool " ++ value.text
  | .notBools op => op.text ++ " expects bool operands"
  | .zeroDivisor => "sdiv by zero"
  | .untypedBase => "untyped address base"
  | .baseType type => "address base of type " ++ type.text ++ " is not a pointer"
  | .variableField => "struct field index must be a constant"
  | .unknownField index struct => "no field " ++ toString index ++ " in " ++ structText struct
  | .notIndexable type => "cannot index into " ++ type.text
  | .entryResult value => "entry returned " ++ value.text ++ ", expected an int"

/-- How code can lack the shape that control needs. -/
inductive ShapeFault where
  | noEntry (name : String)
  | unknownProcedure (id : Nat)
  | argumentCount (procedure : String) (expected found : Nat)
  | noBlocks (procedure : String)
  | unknownBlock (procedure : String) (block : Nat)
  | unterminated (procedure : String) (block : Nat)
deriving Repr, DecidableEq, Inhabited

def ShapeFault.message : ShapeFault → String
  | .noEntry name => "no procedure named " ++ name
  | .unknownProcedure id => "call to unregistered " ++ procedureText id
  | .argumentCount procedure expected found =>
    procedure ++ " expects " ++ toString expected ++ " arguments, got " ++ toString found
  | .noBlocks procedure => procedure ++ " has no blocks"
  | .unknownBlock procedure block => procedure ++ " has no block " ++ blockText block
  | .unterminated procedure block =>
    "fell off unterminated block " ++ blockText block ++ " of " ++ procedure

/-- Why a run stopped without a result. -/
inductive Fault where
  | halt (message : String)
  | access (cause : AccessFault)
  | uninitialized (offset : Nat)
  | operand (procedure : String) (cause : OperandFault)
  | shape (cause : ShapeFault)
  | stepLimit (limit : Nat)
  | breakdown (cause : Breakdown)
deriving Repr, DecidableEq, Inhabited

namespace Fault

def message : Fault → String
  | .halt message => "halted: " ++ message
  | .access cause => "invalid memory access: " ++ cause.message
  | .uninitialized offset => "read of uninitialized memory at offset " ++ toString offset
  | .operand procedure cause => "type error in " ++ procedure ++ ": " ++ cause.message
  | .shape cause => "malformed IR: " ++ cause.message
  | .stepLimit limit => "step limit of " ++ toString limit ++ " instructions exceeded"
  | .breakdown cause => cause.message

/-- What the code said when it stopped by itself. -/
def halt? : Fault → Option String
  | .halt message => some message
  | _ => none

end Fault
end ObjectLang.Machine
