import ObjectLang.IR.Basic
import ObjectLang.Typing.ValueType

/-!
# Types of the code

What a type of values becomes in the code. Objects and arrays are pointers to structs. The struct
of an array type holds the length and then the elements, which the struct type itself does not
count; it is made when the array type is first asked for, after the struct of its component.
-/
namespace ObjectLang

/-- The part of a generated name that stands for a type. -/
def ValueType.fragment : ValueType → String
  | .int => "int"
  | .bool => "boolean"
  | .object cls => cls.name
  | .array _ component => "array_" ++ component.fragment
  | .null | .any => "any"

/-- What a new variable, field or element holds: zero, false or null. -/
def IR.Ty.defaultValue : IR.Ty → IR.Operand
  | .int => .int 0
  | .bool => .bool false
  | _ => .null

/-- The struct of an array type, and the type of its elements. -/
structure ArrayLayout where
  struct : Nat
  element : IR.Ty
deriving Repr, DecidableEq, Inhabited

/-- The type of a reference to an array. -/
def ArrayLayout.pointerType (l : ArrayLayout) : IR.Ty :=
  .pointer (.struct l.struct)

/-- The fields of the struct of an array type. -/
def ArrayLayout.fields (element : IR.Ty) : List IR.Field :=
  [⟨"length", .int⟩, ⟨"data", .array element 0⟩]

/-- The code that is being made, and the array types that it has structs for. -/
structure Target where
  module : IR.Module := {}
  arrays : List (ValueType × ArrayLayout) := []
deriving Inhabited

namespace Target

/-- The layout of the array type with a component, if it was asked for before. -/
def array? (t : Target) (component : ValueType) : Option ArrayLayout :=
  (t.arrays.find? (·.1.same component)).map (·.2)

/-- The code with a struct for one more array type. -/
def addArray (t : Target) (component : ValueType) (element : IR.Ty) : ArrayLayout × Target :=
  let (struct, module) :=
    t.module.addStruct ("array_" ++ component.fragment) (ArrayLayout.fields element)
  let layout : ArrayLayout := ⟨struct, element⟩
  (layout, ⟨module, t.arrays ++ [(component, layout)]⟩)

def addProcedure (t : Target) (p : IR.Procedure) : Nat × Target :=
  let (id, module) := t.module.addProcedure p
  (id, { t with module })

def setProcedure (t : Target) (id : Nat) (p : IR.Procedure) : Target :=
  { t with module.procedures := t.module.procedures.setIfInBounds id p }

end Target

/-- A part of the making of code. -/
abbrev Build :=
  StateM Target

/-- The structs of the classes, by name. -/
abbrev ClassStructs :=
  List (String × Nat)

/-- The struct of a class. -/
def ClassStructs.find? (s : ClassStructs) (name : String) : Option Nat :=
  (List.find? (·.1 == name) s).map (·.2)

/-- The layout of the array type with a component, where `element` finds the type of the elements
if the layout is not there yet. -/
def arrayWith (component : ValueType) (element : Build IR.Ty) : Build ArrayLayout := do
  match (← get).array? component with
  | some layout => return layout
  | none =>
    let element ← element
    modifyGet (·.addArray component element)

/-- What a type of values is in the code. -/
def lowerType (structs : ClassStructs) : ValueType → Build IR.Ty
  | .int => pure .int
  | .bool => pure .bool
  | .null => pure .null
  | .any => pure (.pointer .byte)
  | .object cls =>
    match structs.find? cls.name with
    | some struct => pure (.pointer (.struct struct))
    | none => pure (.pointer .byte)
  | .array _ component => do
    return (← arrayWith component (lowerType structs component)).pointerType

/-- The layout of the array type with a component. -/
def arrayLayout (structs : ClassStructs) (component : ValueType) : Build ArrayLayout :=
  arrayWith component (lowerType structs component)

end ObjectLang
