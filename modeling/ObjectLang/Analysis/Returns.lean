import ObjectLang.Analysis.Diagnostic
import ObjectLang.Tree.Basic

/-!
# The rules on returning

Every function ends with a `return`, and nothing stands behind a `return` in its block. The second
rule looks into nested blocks and into the arms of conditional statements, but not into loops. The
function `main`, where a program starts, takes nothing and returns an `int`.
-/
namespace ObjectLang

def Stmt.isReturn : Stmt → Bool
  | .return _ _ => true
  | _ => false

/-- Whether the last of some statements is a `return`. -/
def endsWithReturn (body : List Stmt) : Bool :=
  body.getLast?.any Stmt.isReturn

mutual

/-- The statements inside of a statement that cannot be reached. -/
def Stmt.unreachable : Stmt → List Diagnostic
  | .block _ body => unreachableIn false body
  | .branch _ _ onTrue none => onTrue.unreachable
  | .branch _ _ onTrue (some onFalse) => onTrue.unreachable ++ onFalse.unreachable
  | .loop _ _ _ | .declare _ | .eval _ | .assign _ _ _ | .return _ _ => []
termination_by structural s => s

/-- The statements of a block that cannot be reached, where `returned` says whether a `return` has
come already. -/
def unreachableIn (returned : Bool) : List Stmt → List Diagnostic
  | [] => []
  | s :: rest =>
    (if returned then [.unreachableStatement s.span] else [])
      ++ s.unreachable ++ unreachableIn (returned || s.isReturn) rest
termination_by structural body => body

end

namespace FunctionDecl

/-- What the body of a function has wrong with its returns. -/
def returnDiagnostics (f : FunctionDecl) (isMain : Bool) : List Diagnostic :=
  unreachableIn false f.body
    ++ if isMain || endsWithReturn f.body then []
      else [.missingReturn f.name.name f.name.span]

def returnsInt (f : FunctionDecl) : Bool :=
  match f.returnType with
  | .int _ => true
  | _ => false

/-- What the function where a program starts has wrong. -/
def mainDiagnostics (f : FunctionDecl) : List Diagnostic :=
  (if f.returnsInt then [] else [.mainReturnType f.returnType.span])
    ++ (f.params.head?.toList.map fun p => .mainParameters p.span)
    ++ (if endsWithReturn f.body then [] else [.mainMissingReturn f.name.span])

end FunctionDecl

/-- The name of the function where a program starts. -/
def mainName : String :=
  "main"

/-- What is wrong with the start of a program. -/
def Program.mainDiagnostics (p : Program) : List Diagnostic :=
  match p.function? mainName with
  | some f => f.mainDiagnostics
  | none => [.missingMain]

end ObjectLang
