/-!
# Types of values

The types that analysis works with. A class carries its superclass, so a class type knows its whole
chain of ancestors; two classes are the same if they have one name. An array type carries a number,
and two array types are the same if they have one number: whoever hands them out sees to it that
equal components get equal numbers. The type `any` stands for what could not be determined; it is
below and above every type, so that one mistake is reported once.
-/
namespace ObjectLang

/-- An accepted class: its name, the position of its declaration, and its superclass if it has
one. -/
inductive ClassRef where
  | root (name : String) (decl : Nat)
  | derived (name : String) (decl : Nat) (superclass : ClassRef)
deriving Repr, DecidableEq, Inhabited

namespace ClassRef

def name : ClassRef → String
  | .root name _ => name
  | .derived name _ _ => name

/-- The position of the declaration among the classes of the program. -/
def decl : ClassRef → Nat
  | .root _ decl => decl
  | .derived _ decl _ => decl

def superclass? : ClassRef → Option ClassRef
  | .root _ _ => none
  | .derived _ _ superclass => some superclass

/-- A class and the classes above it, itself first. -/
def ancestors : ClassRef → List ClassRef
  | .root name decl => [.root name decl]
  | .derived name decl superclass => .derived name decl superclass :: superclass.ancestors

/-- Whether two classes have one name. -/
def same (c d : ClassRef) : Bool :=
  c.name == d.name

/-- Whether a class is another one or below it. -/
def isSubclass (c d : ClassRef) : Bool :=
  c.ancestors.any (·.same d)

/-- A class with the class that it extends. -/
def headText (c : ClassRef) : String :=
  match c.superclass? with
  | some superclass => c.name ++ " extends " ++ superclass.name
  | none => c.name

end ClassRef

/-- The type of a value. -/
inductive ValueType where
  | int
  | bool
  | null
  | any
  | array (id : Nat) (component : ValueType)
  | object (cls : ClassRef)
deriving Repr, DecidableEq, Inhabited

namespace ValueType

def text : ValueType → String
  | .int => "int"
  | .bool => "boolean"
  | .null => "null"
  | .any => "any"
  | .array _ component => component.text ++ "[]"
  | .object cls => cls.name

/-- Whether two types are one: arrays by their number, classes by their name. -/
def same : ValueType → ValueType → Bool
  | .int, .int | .bool, .bool | .null, .null | .any, .any => true
  | .array id _, .array id' _ => id == id'
  | .object c, .object d => c.same d
  | _, _ => false

/-- Whether every value of the first type can stand where one of the second is asked for. -/
def isSubtype : ValueType → ValueType → Bool
  | .any, _ | _, .any => true
  | .int, .int | .bool, .bool | .null, .null => true
  | .null, .array _ _ | .null, .object _ => true
  | .array id _, .array id' _ => id == id'
  | .object c, .object d => c.isSubclass d
  | _, _ => false

/-- Whether two types are subtypes of each other. -/
def isEquivalent (t u : ValueType) : Bool :=
  t.isSubtype u && u.isSubtype t

def isAny : ValueType → Bool
  | .any => true
  | _ => false

/-- The class of an object type. -/
def class? : ValueType → Option ClassRef
  | .object cls => some cls
  | _ => none

/-- The type of the elements of an array type. -/
def component? : ValueType → Option ValueType
  | .array _ component => some component
  | _ => none

end ValueType

/-- The array types handed out so far, known by their components. -/
structure ArrayTypes where
  components : Array ValueType := #[]
deriving Repr, DecidableEq, Inhabited

namespace ArrayTypes

/-- The array type with a component type. A component that was asked for before gets the number
that it got then. -/
def arrayOf (a : ArrayTypes) (component : ValueType) : ValueType × ArrayTypes :=
  match a.components.findIdx? (·.same component) with
  | some id => (.array id (a.components[id]?.getD component), a)
  | none => (.array a.components.size component, ⟨a.components.push component⟩)

end ArrayTypes
end ObjectLang
