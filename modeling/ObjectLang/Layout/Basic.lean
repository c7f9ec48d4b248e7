import ObjectLang.Analysis.Basic
import ObjectLang.IR.Builder
import ObjectLang.IR.Size
import ObjectLang.Layout.Types

/-!
# Layouts

Where the objects of each class keep their fields, and which procedure each method and function is.
The struct of a class starts with the fields of its superclass, so that a pointer to an object is
also one to the object as its ancestors see it. A field with the name of an inherited one gets a
slot of its own. All procedures are there before any of them has a body, except the constructors,
which set every field to its default.
-/
namespace ObjectLang

/-- A procedure and its types; those of a method are without its receiver. -/
structure Signature where
  procedure : Nat
  params : List IR.Ty
  returnType : IR.Ty
deriving Repr, DecidableEq, Inhabited

/-- A field of an object, and the class that declares it. -/
structure FieldSlot where
  owner : String
  name : String
  type : ValueType
deriving Repr, DecidableEq, Inhabited

/-- The struct, the fields, the constructor and the methods of a class. -/
structure ClassLayout where
  name : String
  struct : Nat
  slots : List FieldSlot
  constructor : Nat
  methods : List (String × Signature) := []
deriving Repr, DecidableEq, Inhabited

namespace ClassLayout

/-- The position of the field that a class and its name say. -/
def fieldIndex? (l : ClassLayout) (owner name : String) : Option Nat :=
  l.slots.findIdx? fun slot => slot.owner == owner && slot.name == name

/-- The procedure of a method that the class declares itself. -/
def method? (l : ClassLayout) (name : String) : Option Signature :=
  (l.methods.find? (·.1 == name)).map (·.2)

/-- The type of a reference to an object of the class. -/
def pointerType (l : ClassLayout) : IR.Ty :=
  .pointer (.struct l.struct)

end ClassLayout

/-- The layouts of all classes, and the procedures of all functions. -/
structure Layouts where
  structs : ClassStructs := []
  classes : List ClassLayout := []
  functions : List (String × Signature) := []
deriving Repr, DecidableEq, Inhabited

namespace Layouts

def class? (l : Layouts) (name : String) : Option ClassLayout :=
  l.classes.find? (·.name == name)

def function? (l : Layouts) (name : String) : Option Signature :=
  (l.functions.find? (·.1 == name)).map (·.2)

end Layouts

/-- The slots of an object with those of one more field of a class; a name that the class has
declared already keeps its slot. -/
def addSlot (notes : Notes) (owner : String) (slots : List FieldSlot) (field : VarDecl) :
    List FieldSlot :=
  if slots.any fun slot => slot.owner == owner && slot.name == field.name.name then slots
  else slots ++ [⟨owner, field.name.name, (notes.typeExpr? field.type.id).getD .any⟩]

/-- The slots of an object of a class, those of its superclass first. -/
def Program.slots (p : Program) (notes : Notes) : ClassRef → List FieldSlot
  | .root name decl => (p.classDecl (.root name decl)).fields.foldl (addSlot notes name) []
  | .derived name decl superclass =>
    (p.classDecl (.derived name decl superclass)).fields.foldl (addSlot notes name)
      (p.slots notes superclass)

/-- The names of the slots: a field with the name of an earlier one is called after its class
too. -/
def slotNames (slots : List FieldSlot) : List String :=
  slots.zipIdx.map fun (slot, index) =>
    if (slots.take index).any (·.name == slot.name) then slot.owner ++ "." ++ slot.name
    else slot.name

/-- The procedure that makes an object: it takes memory, sets every field, and returns a pointer to
the object. -/
def constructorOf (m : IR.Module) (cls : String) (struct : Nat) : IR.Procedure :=
  let type : IR.Ty := .pointer (.struct struct)
  let b := IR.Builder.start { name := cls ++ "_Create_Default", returnType := type } "entry"
  let (raw, b) := b.alloc (.int (Int32.ofNat (m.sizeOf (.struct struct))))
  let (object, b) := b.bitcast raw type
  let fields := m.structs[struct]?.elim [] IR.Struct.fields
  let b := fields.zipIdx.foldl
    (fun b (field, index) =>
      let (address, b) :=
        b.elementPtr object [.int 0, .int (Int32.ofNat index)] field.type
      b.store address field.type.defaultValue)
    b
  (b.ret object).procedure

/-- A struct without fields for each class. -/
def declareStructs (classes : List ClassRef) : Build ClassStructs :=
  classes.mapM fun cls => do
    let struct ← modifyGet fun (t : Target) =>
      let (id, module) := t.module.addStruct cls.name []
      (id, { t with module })
    return (cls.name, struct)

/-- The layout of a class, with its struct filled in and its constructor, but without methods. -/
def layoutClass (p : Program) (notes : Notes) (structs : ClassStructs) (cls : ClassRef) :
    Build ClassLayout := do
  let struct := (structs.find? cls.name).getD 0
  let slots := p.slots notes cls
  let types ← slots.mapM fun slot => lowerType structs slot.type
  let fields := (slotNames slots).zipWith IR.Field.mk types
  modify fun t =>
    { t with module.structs := t.module.structs.modify struct fun s => { s with fields } }
  let constructor ← modifyGet fun t => t.addProcedure (constructorOf t.module cls.name struct)
  return { name := cls.name, struct, slots, constructor }

/-- A procedure without body for a function. The receiver of a method is its first parameter. -/
def declareProcedure (notes : Notes) (structs : ClassStructs) (name : String)
    (receiver : Option IR.Ty) (f : FunctionDecl) : Build Signature := do
  let typeOf (t : TypeExpr) := lowerType structs ((notes.typeExpr? t.id).getD .any)
  let params ← f.params.mapM fun p => typeOf p.type
  let returnType ← typeOf f.returnType
  let p : IR.Procedure := { name, returnType }
  let p := receiver.elim p fun type => (p.newParam "this" type).2
  let p := (f.params.zip params).foldl
    (fun p (param, type) => (p.newParam param.name.name type).2) p
  let id ← modifyGet (·.addProcedure p)
  return ⟨id, params, returnType⟩

/-- The layout of a class with procedures for the methods that it declares itself, the first of
each name. -/
def layoutMethods (a : Analysis) (structs : ClassStructs) (cls : ClassRef) (l : ClassLayout) :
    Build ClassLayout := do
  let own := (a.members.of? cls).elim [] ClassMembers.methods
  let methods ← own.mapM fun method => do
    let name := method.decl.name.name
    let s ← declareProcedure a.notes structs (cls.name ++ "_" ++ name) (some l.pointerType)
      method.decl
    return (name, s)
  return { l with methods }

/-- The layouts of an analysed program. -/
def Layouts.build (p : Program) (a : Analysis) : Build Layouts := do
  let structs ← declareStructs a.classes.classes
  let bare ← a.classes.classes.mapM (layoutClass p a.notes structs)
  let classes ← (a.classes.classes.zip bare).mapM fun (cls, l) => layoutMethods a structs cls l
  let functions ← a.functions.functions.mapM fun f => do
    return (f.name.name, ← declareProcedure a.notes structs f.name.name none f)
  return ⟨structs, classes, functions⟩

end ObjectLang
