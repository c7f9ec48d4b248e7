import ObjectLang.IR.Text

/-!
# Well-formed code

What every producer of code has to keep: a procedure has a block, every block ends, control stays
within the procedure, temporaries that are read exist, and calls fit the procedures that they call.
The checks look at each procedure by itself and report all that is wrong.
-/
namespace ObjectLang.IR

/-- A rule that some code breaks. -/
inductive Violation where
  | noBlocks (procedure : String)
  | unterminated (procedure : String) (block : Nat) (name : String)
  | unknownTarget (procedure : String) (block target : Nat)
  | unknownTemp (procedure : String) (temp : Nat)
  | unknownCallee (procedure : String)
  | argumentCount (procedure callee : String) (expected found : Nat)
deriving Repr, DecidableEq, Inhabited

def Violation.message : Violation → String
  | .noBlocks procedure => "procedure " ++ procedure ++ " has no blocks"
  | .unterminated procedure block name =>
    "block " ++ blockText block ++ " (" ++ name ++ ") of " ++ procedure ++ " has no terminator"
  | .unknownTarget procedure block target =>
    "block " ++ blockText block ++ " of " ++ procedure ++ " jumps to unregistered block "
      ++ blockText target
  | .unknownTemp procedure temp => procedure ++ " uses undefined temporary " ++ tempText temp
  | .unknownCallee procedure => procedure ++ " calls an unregistered procedure"
  | .argumentCount procedure callee expected found =>
    procedure ++ " calls " ++ callee ++ " with " ++ toString found ++ " arguments, expected "
      ++ toString expected

/-- An operand is a constant or a temporary of the procedure. -/
def checkOperand (p : Procedure) : Operand → List Violation
  | .temp id => if id < p.temps.size then [] else [.unknownTemp p.name id]
  | _ => []

/-- A call fits the procedure that it calls. -/
def checkCall (m : Module) (p : Procedure) : Instruction → List Violation
  | .call _ callee args =>
    match m.procedures[callee]? with
    | none => [.unknownCallee p.name]
    | some q =>
      if q.params.length = args.length then []
      else [.argumentCount p.name q.name q.params.length args.length]
  | _ => []

def checkInstruction (m : Module) (p : Procedure) (i : Instruction) : List Violation :=
  i.operands.flatMap (checkOperand p) ++ checkCall m p i

def checkTarget (p : Procedure) (block target : Nat) : List Violation :=
  if target < p.blocks.size then [] else [.unknownTarget p.name block target]

def checkBlock (m : Module) (p : Procedure) (id : Nat) (b : Block) : List Violation :=
  b.instructions.flatMap (checkInstruction m p)
    ++ match b.terminator with
      | none => [.unterminated p.name id b.name]
      | some t =>
        t.operand?.toList.flatMap (checkOperand p) ++ t.successors.flatMap (checkTarget p id)

def checkProcedure (m : Module) (p : Procedure) : List Violation :=
  if p.blocks.isEmpty then [.noBlocks p.name]
  else p.blocks.toList.zipIdx.flatMap fun (b, id) => checkBlock m p id b

/-- All rules that a module breaks. -/
def Module.violations (m : Module) : List Violation :=
  m.procedures.toList.flatMap (checkProcedure m)

/-- Code that keeps all rules. -/
def Module.verifies (m : Module) : Bool :=
  m.violations.isEmpty

end ObjectLang.IR
