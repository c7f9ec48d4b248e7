import ObjectLang.Source.Span
import ObjectLang.Text.Lines

/-!
# Diagnostics

All that analysis can find wrong with a program, and how it is put into words. Types appear in
diagnostics by their text.
-/
namespace ObjectLang

/-- The statements that have a condition. -/
inductive Conditional where
  | branch
  | loop
deriving Repr, DecidableEq, Inhabited

def Conditional.text : Conditional → String
  | .branch => "if"
  | .loop => "while"

/-- Something that is wrong with a program. -/
inductive Diagnostic where
  | duplicateClass (name : String) (span : Span)
  | undeclaredSuperclass (cls superclass : String) (span : Span)
  | cyclicInheritance (cls : String) (cycle : List String) (span : Span)
  | duplicateField (name cls : String) (span : Span)
  | duplicateMethod (name cls : String) (span : Span)
  | duplicateFunction (name : String) (span : Span)
  | duplicateParameter (name : String) (span : Span)
  | duplicateVariable (name function : String) (span : Span)
  | undeclaredClass (name : String) (span : Span)
  | unknownVariable (name : String) (span : Span)
  | unknownField (name cls : String) (span : Span)
  | unknownMethod (name cls : String) (span : Span)
  | unknownFunction (name : String) (span : Span)
  | tooManyArguments (expected found : Nat) (span : Span)
  | notEnoughArguments (expected found : Nat) (span : Span)
  | typeMismatch (expected found : String) (span : Span)
  | invalidAssignment (target found : String) (span : Span)
  | invalidCondition (construct : Conditional) (found : String) (span : Span)
  | invalidReturn (expected found : String) (span : Span)
  | incomparableTypes (left right : String) (span : Span)
  | notAnArray (found : String) (span : Span)
  | notAClass (found : String) (span : Span)
  | thisOutsideMethod (span : Span)
  | overrideParameterCount (method : String) (span : Span)
  | overrideParameterType (method : String) (span : Span)
  | overrideReturnType (method : String) (span : Span)
  | missingReturn (function : String) (span : Span)
  | unreachableStatement (span : Span)
  | missingMain
  | mainReturnType (span : Span)
  | mainParameters (span : Span)
  | mainMissingReturn (span : Span)
deriving Repr, DecidableEq, Inhabited

namespace Diagnostic

/-- The place that a diagnostic points to; a missing `main` has none. -/
def span? : Diagnostic → Option Span
  | .missingMain => none
  | .duplicateClass _ span | .undeclaredSuperclass _ _ span | .cyclicInheritance _ _ span
  | .duplicateField _ _ span | .duplicateMethod _ _ span | .duplicateFunction _ span
  | .duplicateParameter _ span | .duplicateVariable _ _ span | .undeclaredClass _ span
  | .unknownVariable _ span | .unknownField _ _ span | .unknownMethod _ _ span
  | .unknownFunction _ span | .tooManyArguments _ _ span | .notEnoughArguments _ _ span
  | .typeMismatch _ _ span | .invalidAssignment _ _ span | .invalidCondition _ _ span
  | .invalidReturn _ _ span | .incomparableTypes _ _ span | .notAnArray _ span
  | .notAClass _ span | .thisOutsideMethod span | .overrideParameterCount _ span
  | .overrideParameterType _ span | .overrideReturnType _ span | .missingReturn _ span
  | .unreachableStatement span | .mainReturnType span | .mainParameters span
  | .mainMissingReturn span => some span

/-- What a diagnostic says, without its place. -/
def message : Diagnostic → String
  | .duplicateClass name _ => "class with name " ++ name ++ " is already defined"
  | .undeclaredSuperclass cls superclass _ =>
    "class " ++ cls ++ " extends undeclared class " ++ superclass
  | .cyclicInheritance _ cycle _ =>
    "cyclic dependency involving: [" ++ ", ".intercalate cycle ++ "]"
  | .duplicateField name cls _ =>
    "variable with name " ++ name ++ " is already defined in class " ++ cls
  | .duplicateMethod name cls _ =>
    "method with name " ++ name ++ " is already defined in class " ++ cls
  | .duplicateFunction name _ => "there already is a global function with name " ++ name
  | .duplicateParameter name _ => "parameter with name " ++ name ++ " already exists"
  | .duplicateVariable name function _ =>
    "variable with name " ++ name ++ " already exists in function " ++ function
  | .undeclaredClass name _ => "the type " ++ name ++ " is an undeclared class"
  | .unknownVariable name _ => "there is no variable with name " ++ name
  | .unknownField name cls _ =>
    "there is no field " ++ name ++ " in class " ++ cls ++ " or its superclasses"
  | .unknownMethod name cls _ => "there is no method with name " ++ name ++ " in class " ++ cls
  | .unknownFunction name _ => "function " ++ name ++ " does not exist"
  | .tooManyArguments expected found _ =>
    "too many arguments (expected " ++ toString expected ++ ", found " ++ toString found ++ ")"
  | .notEnoughArguments expected found _ =>
    "not enough arguments (expected " ++ toString expected ++ ", found " ++ toString found ++ ")"
  | .typeMismatch expected found _ =>
    "expected expression of type " ++ expected ++ " but found " ++ found
  | .invalidAssignment target found _ =>
    "cannot assign value of type " ++ found ++ " to " ++ target
  | .invalidCondition construct found _ =>
    construct.text ++ "-condition must be of type boolean, found " ++ found
  | .invalidReturn expected found _ =>
    "should return value of type " ++ expected ++ ", but found " ++ found
  | .incomparableTypes left right _ => "cannot compare types " ++ left ++ " and " ++ right
  | .notAnArray found _ => "expected expression of array type, but found " ++ found
  | .notAClass found _ => "receiver of type " ++ found ++ " is not a class"
  | .thisOutsideMethod _ => "cannot use the keyword 'this' outside a method"
  | .overrideParameterCount method _ =>
    "method " ++ method ++ " must have same number of parameters as method in super class"
  | .overrideParameterType method _ =>
    "parameter types must be equal for overridden method " ++ method
  | .overrideReturnType method _ =>
    "return type of " ++ method ++ " must be a subtype of the overridden method's"
  | .missingReturn function _ =>
    "method " ++ function ++ " does not have a return statement as the last statement"
  | .unreachableStatement _ => "unreachable statement"
  | .missingMain => "main method must be present"
  | .mainReturnType _ => "return type of the main method must be int"
  | .mainParameters _ => "main method does not take parameters"
  | .mainMissingReturn _ =>
    "main method does not have a return statement as the last statement"

/-- A diagnostic in one line: its place, and what it says. -/
def text (d : Diagnostic) : String :=
  match d.span? with
  | some span => "at " ++ span.text ++ ": " ++ d.message
  | none => d.message

/-- Several diagnostics, one a line. -/
def listText (diagnostics : List Diagnostic) : String :=
  Text.joinLines (diagnostics.map text)

end Diagnostic
end ObjectLang
