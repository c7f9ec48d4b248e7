import ObjectLang.Analysis.Expressions

/-!
# Members and overriding

A class declares each name once. A method that an ancestor declares too overrides it: the nearest
such method has as many parameters, of the same types, and its result type is the same or wider.
-/
namespace ObjectLang

/-- The declaration of a class. -/
def Program.classDecl (p : Program) (cls : ClassRef) : ClassDecl :=
  p.classes[cls.decl]?.getD default

/-- The members of a class with one more field. -/
def declareField (classes : ClassTable) (m : ClassMembers) (decl : VarDecl) :
    Check ClassMembers := do
  let type ← checkType classes decl.type
  match m.addField? ⟨decl, type⟩ with
  | some m => return m
  | none =>
    Check.report (.duplicateField decl.name.name m.cls.name decl.name.span)
    return m

/-- The members of a class with one more method. -/
def declareMethod (classes : ClassTable) (m : ClassMembers) (decl : FunctionDecl) :
    Check ClassMembers := do
  let params ← decl.params.mapM fun p => checkType classes p.type
  let returnType ← checkType classes decl.returnType
  match m.addMethod? ⟨decl, params, returnType⟩ with
  | some m => return m
  | none =>
    Check.report (.duplicateMethod decl.name.name m.cls.name decl.name.span)
    return m

/-- The members that a class declares. -/
def declareMembers (classes : ClassTable) (cls : ClassRef) (decl : ClassDecl) :
    Check ClassMembers := do
  let m ← decl.fields.foldlM (declareField classes) { cls }
  decl.methods.foldlM (declareMethod classes) m

/-- What a method has wrong if it overrides another one. -/
def overrideDiagnostics (method overridden : TypedMethod) : List Diagnostic :=
  let name := method.decl.name.name
  if method.params.length = overridden.params.length then
    let pairs := method.decl.params.zip (method.params.zip overridden.params)
    let changed := pairs.filter fun (_, type, expected) => !type.isEquivalent expected
    changed.map (fun (param, _) => .overrideParameterType name param.span)
      ++ if method.returnType.isSubtype overridden.returnType then []
        else [.overrideReturnType name method.decl.returnType.span]
  else [.overrideParameterCount name method.decl.name.span]

/-- What the methods of a class have wrong that override methods of its ancestors. -/
def classOverrides (members : MemberTable) (cls : ClassRef) : List Diagnostic :=
  match cls.superclass?, members.of? cls with
  | some superclass, some own =>
    own.methods.flatMap fun method =>
      match members.method? superclass method.decl.name.name with
      | some (_, overridden) => overrideDiagnostics method overridden
      | none => []
  | _, _ => []

end ObjectLang
