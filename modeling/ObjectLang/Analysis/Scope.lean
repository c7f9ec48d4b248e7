import ObjectLang.Tree.Basic
import ObjectLang.Typing.ValueType

/-!
# Scopes and members

The variables that are visible at a place of a function body, and the members that a class declares
itself. A nested block starts with the variables around it; what it declares is gone behind it,
because the scope around it was never changed.
-/
namespace ObjectLang

/-- A variable with its type. -/
structure TypedVar where
  decl : VarDecl
  type : ValueType
deriving Repr, DecidableEq, Inhabited

/-- The function that a place belongs to, and the variables visible there, the latest first. -/
structure Scope where
  function : String
  returnType : ValueType
  vars : List TypedVar := []
deriving Repr, DecidableEq, Inhabited

namespace Scope

/-- The scope of a nested block. -/
def enter (s : Scope) : Scope :=
  s

/-- The scope with one more variable, which hides any other of its name. -/
def declare (s : Scope) (decl : VarDecl) (type : ValueType) : Scope :=
  { s with vars := ⟨decl, type⟩ :: s.vars }

/-- The variable that a name stands for. -/
def find? (s : Scope) (name : String) : Option TypedVar :=
  s.vars.find? (·.decl.name.name == name)

end Scope

/-- A method with the types of its signature. -/
structure TypedMethod where
  decl : FunctionDecl
  params : List ValueType
  returnType : ValueType
deriving Inhabited

/-- The members that a class declares itself, the first of each name. -/
structure ClassMembers where
  cls : ClassRef
  fields : List TypedVar := []
  methods : List TypedMethod := []
deriving Inhabited

namespace ClassMembers

def field? (m : ClassMembers) (name : String) : Option TypedVar :=
  m.fields.find? (·.decl.name.name == name)

def method? (m : ClassMembers) (name : String) : Option TypedMethod :=
  m.methods.find? (·.decl.name.name == name)

/-- The members with one more field; nothing if the name is taken. -/
def addField? (m : ClassMembers) (field : TypedVar) : Option ClassMembers :=
  if (m.field? field.decl.name.name).isSome then none
  else some { m with fields := m.fields ++ [field] }

/-- The members with one more method; nothing if the name is taken. -/
def addMethod? (m : ClassMembers) (method : TypedMethod) : Option ClassMembers :=
  if (m.method? method.decl.name.name).isSome then none
  else some { m with methods := m.methods ++ [method] }

end ClassMembers

/-- The members of all classes. -/
structure MemberTable where
  members : List ClassMembers := []
deriving Inhabited

namespace MemberTable

/-- What a class declares itself. -/
def of? (t : MemberTable) (c : ClassRef) : Option ClassMembers :=
  t.members.find? (·.cls.same c)

/-- The nearest class upwards that declares a field, and the field. -/
def field? (t : MemberTable) (c : ClassRef) (name : String) : Option (ClassRef × TypedVar) :=
  c.ancestors.findSome? fun owner =>
    ((t.of? owner).bind (·.field? name)).map fun field => (owner, field)

/-- The nearest class upwards that declares a method, and the method. -/
def method? (t : MemberTable) (c : ClassRef) (name : String) : Option (ClassRef × TypedMethod) :=
  c.ancestors.findSome? fun owner =>
    ((t.of? owner).bind (·.method? name)).map fun method => (owner, method)

end MemberTable
end ObjectLang
