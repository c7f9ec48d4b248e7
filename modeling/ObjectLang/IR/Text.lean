import ObjectLang.IR.Basic
import ObjectLang.Text.Quoted

/-!
# Code as text

A listing of a module for readers: its structs, then its procedures block by block. Structs and
callees are shown by name in the listing of a module, and by number where a type stands alone.
-/
namespace ObjectLang.IR

def structText (id : Nat) : String :=
  "struct" ++ toString id

def procedureText (id : Nat) : String :=
  "proc" ++ toString id

def blockText (id : Nat) : String :=
  "bb" ++ toString id

def tempText (id : Nat) : String :=
  "%t" ++ toString id

/-- A type, with structs shown by `structName`. -/
def Ty.textWith (structName : Nat → String) : Ty → String
  | .int => "i32"
  | .bool => "i1"
  | .byte => "i8"
  | .pointer target => target.textWith structName ++ "*"
  | .struct id => "%" ++ structName id
  | .array element length =>
    "[" ++ toString length ++ " x " ++ element.textWith structName ++ "]"
  | .null => "null"
  | .void => "void"

/-- A type, with structs shown by number. -/
def Ty.text : Ty → String :=
  Ty.textWith structText

def Operand.text : Operand → String
  | .int value => toString value.toInt
  | .bool value => toString value
  | .null => "null"
  | .temp id => tempText id

def Operation.text : Operation → String
  | .add => "add"
  | .sub => "sub"
  | .mul => "mul"
  | .sdiv => "sdiv"
  | .slt => "slt"
  | .eq => "eq"
  | .and => "and"
  | .or => "or"

/-- Texts put one after the other, each two separated by a comma. -/
def commaList (texts : List String) : String :=
  ", ".intercalate texts

namespace Module

def structName (m : Module) (id : Nat) : String :=
  m.structs[id]?.elim (structText id) Struct.name

/-- A type, with structs shown by name. -/
def typeText (m : Module) (type : Ty) : String :=
  type.textWith m.structName

/-- The type of an operand in a procedure. -/
def operandTypeText (m : Module) (p : Procedure) (x : Operand) : String :=
  (p.typeOf? x).elim "?" m.typeText

/-- An operand behind its type. -/
def typedText (m : Module) (p : Procedure) (x : Operand) : String :=
  m.operandTypeText p x ++ " " ++ x.text

def instructionText (m : Module) (p : Procedure) : Instruction → String
  | .alloc dest size => tempText dest ++ " = alloc " ++ size.text
  | .alloca dest type => tempText dest ++ " = alloca " ++ m.typeText type
  | .bitcast dest value =>
    tempText dest ++ " = bitcast " ++ m.typedText p value ++ " to "
      ++ m.operandTypeText p (.temp dest)
  | .elementPtr dest base indices =>
    tempText dest ++ " = getelementptr " ++ m.typedText p base ++ ", "
      ++ commaList (indices.map Operand.text)
  | .load dest address => tempText dest ++ " = load " ++ m.typedText p address
  | .store address value => "store " ++ m.typedText p value ++ ", " ++ m.typedText p address
  | .binary dest op left right =>
    tempText dest ++ " = " ++ op.text ++ " " ++ m.typedText p left ++ ", " ++ right.text
  | .call dest callee args =>
    tempText dest ++ " = call @" ++ m.procedures[callee]?.elim "?" Procedure.name ++ "("
      ++ commaList (args.map (m.typedText p)) ++ ")"
  | .print value => "print " ++ value.text
  | .comment text => "; " ++ text

def terminatorText (m : Module) (p : Procedure) : Option Terminator → String
  | some (.jump target) => "br " ++ blockText target
  | some (.branch condition onTrue onFalse) =>
    "br " ++ condition.text ++ ", " ++ blockText onTrue ++ ", " ++ blockText onFalse
  | some (.ret value) => "ret " ++ m.typedText p value
  | some (.halt message) => "halt " ++ Text.quote message
  | none => "<unterminated>"

def blockListing (m : Module) (p : Procedure) (id : Nat) (b : Block) : String :=
  blockText id ++ ": ; " ++ b.name ++ "\n"
    ++ String.join (b.instructions.map fun i => "  " ++ m.instructionText p i ++ "\n")
    ++ "  " ++ m.terminatorText p b.terminator ++ "\n"

def procedureListing (m : Module) (p : Procedure) : String :=
  "define " ++ m.typeText p.returnType ++ " @" ++ p.name ++ "("
    ++ commaList (p.params.map fun id => m.typedText p (.temp id)) ++ ") \x7b\n"
    ++ String.join (p.blocks.toList.zipIdx.map fun (b, id) => m.blockListing p id b) ++ "\x7d\n"

def structListing (m : Module) (s : Struct) : String :=
  "%" ++ s.name ++ " = type \x7b " ++ commaList (s.fields.map fun f => m.typeText f.type)
    ++ " \x7d\n"

/-- The listing of a module. -/
def text (m : Module) : String :=
  String.join (m.structs.toList.map m.structListing)
    ++ String.join (m.procedures.toList.map fun p => "\n" ++ m.procedureListing p)

end Module
end ObjectLang.IR
