import ObjectLang.Analysis.Diagnostic
import ObjectLang.Tree.Basic

/-!
# The function table

The global functions of a program. One name belongs to the built-in function that prints a number;
of several functions of one name the first is registered, and a function of the built-in name is
not.
-/
namespace ObjectLang

/-- What a global name calls. -/
inductive GlobalFunction where
  | print
  | declared (decl : FunctionDecl)
deriving Inhabited

/-- The name of the built-in function, and the registered functions in order. -/
structure FunctionTable where
  printName : String
  functions : List FunctionDecl := []
deriving Inhabited

namespace FunctionTable

/-- The registered function of a name. -/
def declared? (t : FunctionTable) (name : String) : Option FunctionDecl :=
  t.functions.find? (·.name.name == name)

/-- What a name calls. -/
def find? (t : FunctionTable) (name : String) : Option GlobalFunction :=
  if name == t.printName then some .print else (t.declared? name).map .declared

/-- Whether a function is the one registered under its name. -/
def isRegistered (t : FunctionTable) (decl : FunctionDecl) : Bool :=
  (t.declared? decl.name.name).any (·.id == decl.id)

/-- The table with one more function, unless its name is taken. -/
def add (t : FunctionTable) (decl : FunctionDecl) : FunctionTable × List Diagnostic :=
  if (t.find? decl.name.name).isSome then
    (t, [.duplicateFunction decl.name.name decl.name.span])
  else ({ t with functions := t.functions ++ [decl] }, [])

/-- The table of some functions, and the names that they take twice. -/
def build (printName : String) (decls : List FunctionDecl) : FunctionTable × List Diagnostic :=
  decls.foldl
    (fun (t, found) decl =>
      let (t, more) := t.add decl
      (t, found ++ more))
    (⟨printName, []⟩, [])

end FunctionTable
end ObjectLang
