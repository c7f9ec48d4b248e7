import ObjectLang.IR.Basic

/-!
# Sizes

The size of a type is a count of bytes. Structs are packed, so sizes are made of sums and products
alone. When code runs, sizes are words of 32 bits and offsets are words of 64 bits, and what happens
to a number that does not fit depends on how the machine was built. A struct that contains itself by
value has no size: counting its bytes never ends.
-/
namespace ObjectLang.IR

/-- Why a size or an offset cannot be counted. -/
inductive Breakdown where
  /-- A number does not fit into its word. -/
  | overflow
  /-- A struct contains itself. -/
  | endless
deriving Repr, DecidableEq, Inhabited

namespace Breakdown

def message : Breakdown → String
  | .overflow => "arithmetic overflow"
  | .endless => "endless struct"

end Breakdown

/-- What is done with a number that does not fit into its word. -/
inductive Overflow where
  | wrap
  | refuse
deriving Repr, DecidableEq, Inhabited

namespace Overflow

/-- A number as an unsigned word of 32 bits. -/
def word (o : Overflow) (n : Nat) : Except Breakdown Nat :=
  if n < UInt32.size then .ok n
  else
    match o with
    | .wrap => .ok (n % UInt32.size)
    | .refuse => .error .overflow

/-- A number as a signed word of 64 bits. -/
def long (o : Overflow) (n : Int) : Except Breakdown Int :=
  if n.bmod UInt64.size = n then .ok n
  else
    match o with
    | .wrap => .ok (n.bmod UInt64.size)
    | .refuse => .error .overflow

end Overflow

/-- How the machine was built. -/
class Profile where
  overflow : Overflow

/-- Where nothing else is said, the machine wraps. -/
instance : Profile where
  overflow := .wrap

/-- How many bytes a value of a type takes, where `structSize` says it for structs and every number
that is computed goes through `word`. -/
def Ty.measure (word structSize : Nat → Except Breakdown Nat) : Ty → Except Breakdown Nat
  | .int => .ok 4
  | .bool | .byte => .ok 1
  | .pointer _ | .null => .ok 8
  | .struct id => structSize id
  | .array element length => do word ((← element.measure word structSize) * length)
  | .void => .ok 0

/-- The sum of the sizes of some fields, from the first to the last. -/
def sumSizes (word : Nat → Except Breakdown Nat) (size : Ty → Except Breakdown Nat)
    (fields : List Field) : Except Breakdown Nat :=
  fields.foldlM (fun total f => do word (total + (← size f.type))) 0

namespace Module

/-- How many bytes a struct takes whose structs, itself included, contain each other at most `depth`
deep. -/
def structSizeWithin (m : Module) (word : Nat → Except Breakdown Nat) :
    Nat → Nat → Except Breakdown Nat
  | 0, _ => .error .endless
  | depth + 1, id =>
    match m.structs[id]? with
    | some s => sumSizes word (Ty.measure word (m.structSizeWithin word depth)) s.fields
    | none => .ok 0

variable (m : Module) (word : Nat → Except Breakdown Nat)

/-- How many bytes a value of a type takes. If structs contain each other deeper than there are
structs, then one contains itself. -/
def measure (type : Ty) : Except Breakdown Nat :=
  type.measure word (m.structSizeWithin word (m.structs.size + 1))

/-- How many bytes of a struct stand before one of its fields. -/
def measureOffset (struct index : Nat) : Except Breakdown (Option Nat) :=
  match m.structs[struct]? with
  | some s =>
    if index < s.fields.length then
      some <$> sumSizes word (m.measure word) (s.fields.take index)
    else .ok none
  | none => .ok none

/-- The size of a type, as a number that no word bounds. A type without a size
counts for nothing. -/
def sizeOf (type : Ty) : Nat :=
  (m.measure .ok type).toOption.getD 0

/-- The offset of a field, as a number that no word bounds. -/
def fieldOffset? (struct index : Nat) : Option Nat :=
  (m.measureOffset .ok struct index).toOption.join

end Module
end ObjectLang.IR
