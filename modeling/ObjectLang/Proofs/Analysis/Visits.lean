import Mathlib.Logic.Relation
import ObjectLang.Lowering.Statements
import ObjectLang.Proofs.Analysis.Acceptance
import ObjectLang.Proofs.Analysis.Keeping

/-!
# What the analysis comes to

The check of a body is made up of the checks of its statements, these of the checks of their parts,
and so on down to the leaves. Each of them begins when something is known already, and which part it
is and what is known then is all that decides what it gives. The analysis comes to a node if its
check is among them.
-/
namespace ObjectLang

/-- An expression or a location. -/
inductive Node where
  | expr (e : Expr)
  | location (l : Location)

namespace Node

def id : Node → Nat
  | .expr e => e.id
  | .location l => l.id

/-- The check of a node, which gives its type. -/
def check (env : Surroundings) (scope : Scope) : Node → Check ValueType
  | .expr e => checkExpr env scope e
  | .location l => checkLocation env scope l

end Node

mutual

/-- An expression and all expressions and locations in it. -/
def Expr.nodes : Expr → List Node
  | .unary tag op operand => .expr (.unary tag op operand) :: operand.nodes
  | .binary tag op left right => .expr (.binary tag op left right) :: (left.nodes ++ right.nodes)
  | .number tag value => [.expr (.number tag value)]
  | .bool tag value => [.expr (.bool tag value)]
  | .null tag => [.expr (.null tag)]
  | .this tag => [.expr (.this tag)]
  | .read tag location => .expr (.read tag location) :: location.nodes
  | .arrayLength tag array => .expr (.arrayLength tag array) :: array.nodes
  | .newObject tag cls => [.expr (.newObject tag cls)]
  | .newArray tag element size => .expr (.newArray tag element size) :: size.nodes
  | .call tag name args => .expr (.call tag name args) :: nodesOfArguments args
  | .methodCall tag receiver name args =>
    .expr (.methodCall tag receiver name args) :: (receiver.nodes ++ nodesOfArguments args)
termination_by structural e => e

def Location.nodes : Location → List Node
  | .var tag name => [.location (.var tag name)]
  | .field tag receiver name => .location (.field tag receiver name) :: receiver.nodes
  | .index tag array index =>
    .location (.index tag array index) :: (array.nodes ++ index.nodes)
termination_by structural l => l

def nodesOfArguments : List Expr → List Node
  | [] => []
  | e :: es => e.nodes ++ nodesOfArguments es
termination_by structural es => es

end

mutual

/-- All expressions and locations in a statement. -/
def Stmt.nodes : Stmt → List Node
  | .declare _ => []
  | .eval value => value.nodes
  | .assign _ target value => target.nodes ++ value.nodes
  | .branch _ condition onTrue none => condition.nodes ++ onTrue.nodes
  | .branch _ condition onTrue (some onFalse) =>
    condition.nodes ++ (onTrue.nodes ++ onFalse.nodes)
  | .loop _ condition body => condition.nodes ++ body.nodes
  | .return _ value => value.nodes
  | .block _ body => nodesOfBody body
termination_by structural s => s

def nodesOfBody : List Stmt → List Node
  | [] => []
  | s :: rest => s.nodes ++ nodesOfBody rest
termination_by structural body => body

end

/-- A part of the check of a body. -/
inductive Task where
  | node (scope : Scope) (n : Node)
  | arguments (scope : Scope) (args : List Expr) (params : List ValueType)
  | stmt (scope : Scope) (s : Stmt)
  | body (scope : Scope) (body : List Stmt)

section

open Check

variable (env : Surroundings)

/-- A part of the check, begun when something is known, is made up of others, each begun when what
was found out before it is known too. -/
inductive Task.Calls : Task × Findings → Task × Findings → Prop
  | operand {scope : Scope} {tag : Tag} {op : UnaryOp} {e : Expr} {f : Findings} :
      Calls (.node scope (.expr (.unary tag op e)), f) (.node scope (.expr e), f)
  | left {scope : Scope} {tag : Tag} {op : BinaryOp} {l r : Expr} {f : Findings} :
      Calls (.node scope (.expr (.binary tag op l r)), f) (.node scope (.expr l), f)
  | right {scope : Scope} {tag : Tag} {op : BinaryOp} {l r : Expr} {f : Findings} :
      op ≠ .equal → Calls (.node scope (.expr (.binary tag op l r)), f)
        (.node scope (.expr r),
          (operandOf env scope (operandType op) l (mismatch (operandType op) l)).after f)
  | rightOfEqual {scope : Scope} {tag : Tag} {l r : Expr} {f : Findings} :
      Calls (.node scope (.expr (.binary tag .equal l r)), f)
        (.node scope (.expr r), (checkExpr env scope l).after f)
  | read {scope : Scope} {tag : Tag} {l : Location} {f : Findings} :
      Calls (.node scope (.expr (.read tag l)), f) (.node scope (.location l), f)
  | arrayLength {scope : Scope} {tag : Tag} {array : Expr} {f : Findings} :
      Calls (.node scope (.expr (.arrayLength tag array)), f) (.node scope (.expr array), f)
  | size {scope : Scope} {tag : Tag} {element : TypeExpr} {size : Expr} {f : Findings} :
      Calls (.node scope (.expr (.newArray tag element size)), f) (.node scope (.expr size), f)
  | call {scope : Scope} {tag : Tag} {name : Ident} {args : List Expr} {c : Callee}
      {f : Findings} : (callee? env name).value f = some c → args.length = c.params.length →
      Calls (.node scope (.expr (.call tag name args)), f)
        (.arguments scope args c.params, (callee? env name).after f)
  | receiver {scope : Scope} {tag : Tag} {receiver : Expr} {name : Ident} {args : List Expr}
      {f : Findings} : Calls (.node scope (.expr (.methodCall tag receiver name args)), f)
        (.node scope (.expr receiver), f)
  | methodCall {scope : Scope} {tag : Tag} {receiver : Expr} {name : Ident} {args : List Expr}
      {cls : ClassRef} {c : Callee} {f : Findings} :
      (objectOf env scope receiver).value f = some cls →
      methodCallee? env cls name.name = some c → args.length = c.params.length →
      Calls (.node scope (.expr (.methodCall tag receiver name args)), f)
        (.arguments scope args c.params, (objectOf env scope receiver).after f)
  | object {scope : Scope} {tag : Tag} {receiver : Expr} {name : Ident} {f : Findings} :
      Calls (.node scope (.location (.field tag receiver name)), f)
        (.node scope (.expr receiver), f)
  | array {scope : Scope} {tag : Tag} {array index : Expr} {f : Findings} :
      Calls (.node scope (.location (.index tag array index)), f)
        (.node scope (.expr array), f)
  | index {scope : Scope} {tag : Tag} {array index : Expr} {f : Findings} :
      Calls (.node scope (.location (.index tag array index)), f)
        (.node scope (.expr index),
          (do requireArray (← checkExpr env scope array) array.span : Check ValueType).after f)
  | argument {scope : Scope} {e : Expr} {es : List Expr} {T : ValueType} {Ts : List ValueType}
      {f : Findings} : Calls (.arguments scope (e :: es) (T :: Ts), f) (.node scope (.expr e), f)
  | arguments {scope : Scope} {e : Expr} {es : List Expr} {T : ValueType} {Ts : List ValueType}
      {f : Findings} : Calls (.arguments scope (e :: es) (T :: Ts), f)
        (.arguments scope es Ts, (operandOf env scope T e (mismatch T e)).after f)
  | eval {scope : Scope} {e : Expr} {f : Findings} :
      Calls (.stmt scope (.eval e), f) (.node scope (.expr e), f)
  | target {scope : Scope} {span : Span} {l : Location} {e : Expr} {f : Findings} :
      Calls (.stmt scope (.assign span l e), f) (.node scope (.location l), f)
  | assigned {scope : Scope} {span : Span} {l : Location} {e : Expr} {f : Findings} :
      Calls (.stmt scope (.assign span l e), f)
        (.node scope (.expr e), (checkLocation env scope l).after f)
  | condition {scope : Scope} {span : Span} {c : Expr} {s : Stmt} {s? : Option Stmt}
      {f : Findings} : Calls (.stmt scope (.branch span c s s?), f) (.node scope (.expr c), f)
  | onTrue {scope : Scope} {span : Span} {c : Expr} {s : Stmt} {s? : Option Stmt} {f : Findings} :
      Calls (.stmt scope (.branch span c s s?), f)
        (.stmt scope.enter s, (checkCondition env scope .branch c).after f)
  | onFalse {scope : Scope} {span : Span} {c : Expr} {s s' : Stmt} {f : Findings} :
      Calls (.stmt scope (.branch span c s (some s')), f)
        (.stmt scope.enter s', (checkStmt env scope.enter s).after
          ((checkCondition env scope .branch c).after f))
  | loopCondition {scope : Scope} {span : Span} {c : Expr} {s : Stmt} {f : Findings} :
      Calls (.stmt scope (.loop span c s), f) (.node scope (.expr c), f)
  | loop {scope : Scope} {span : Span} {c : Expr} {s : Stmt} {f : Findings} :
      Calls (.stmt scope (.loop span c s), f)
        (.stmt scope.enter s, (checkCondition env scope .loop c).after f)
  | returned {scope : Scope} {span : Span} {e : Expr} {f : Findings} :
      Calls (.stmt scope (.return span e), f) (.node scope (.expr e), f)
  | block {scope : Scope} {span : Span} {body : List Stmt} {f : Findings} :
      Calls (.stmt scope (.block span body), f) (.body scope.enter body, f)
  | first {scope : Scope} {s : Stmt} {rest : List Stmt} {f : Findings} :
      Calls (.body scope (s :: rest), f) (.stmt scope s, f)
  | rest {scope : Scope} {s : Stmt} {rest : List Stmt} {f : Findings} :
      Calls (.body scope (s :: rest), f)
        (.body ((checkStmt env scope s).value f) rest, (checkStmt env scope s).after f)

/-- A part of the check comes to another one. -/
def Task.ComesTo : Task × Findings → Task × Findings → Prop :=
  Relation.ReflTransGen (Task.Calls env)

end

/-- The scope of the body of a function. -/
def FunctionDecl.scope (env : Surroundings) (d : FunctionDecl) : Check Scope := do
  let returnType ← checkType env.classes d.returnType
  declareParameters env ⟨d.name.name, returnType, []⟩ d.params

theorem checkFunction_eq (env : Surroundings) (d : FunctionDecl) :
    checkFunction env d = (do checkBlock env (← d.scope env).enter d.body) := by
  simp only [checkFunction, FunctionDecl.scope, bind_assoc]

/-- The check of a function, begun when something is known, comes to a node of its body, for which
something more is known. -/
def FunctionDecl.ComesTo (env : Surroundings) (d : FunctionDecl) (start : Findings) (scope : Scope)
    (n : Node) (f : Findings) : Prop :=
  Task.ComesTo env
    (.body ((d.scope env).value start).enter d.body, (d.scope env).after start)
    (.node scope n, f)

namespace Program

open Check

/-- What is known when the members of all classes are declared. -/
def begun (p : Program) (printName : String) : Findings :=
  { diagnostics := (p.early printName).toArray }

/-- What the bodies of a program are checked against. -/
def surroundings (p : Program) (printName : String) : Surroundings :=
  bodySurroundings (ClassTable.build p.classes).1
    (FunctionTable.build printName p.functions).1
    ((declareAll p (ClassTable.build p.classes).1).value (p.begun printName))

/-- What is known when the first body is checked. -/
def declared (p : Program) (printName : String) : Findings :=
  (reportOverrides (ClassTable.build p.classes).1
      ((declareAll p (ClassTable.build p.classes).1).value (p.begun printName))).after
    ((declareAll p (ClassTable.build p.classes).1).after (p.begun printName))

/-- The check of the methods of a class. -/
def checkMethods (p : Program) (env : Surroundings) (cls : ClassRef) : Check Unit :=
  (p.classDecl cls).methods.forM (checkFunction { env with current := some cls })

/-- The analysis of a program checks a method of a class, or a function, when something is
known. -/
inductive Begins (p : Program) (printName : String) :
    Surroundings → FunctionDecl → Findings → Prop
  | method {cls : ClassRef} {before behind : List ClassRef} {d : FunctionDecl}
      {earlier later : List FunctionDecl} :
      (ClassTable.build p.classes).1.classes = before ++ cls :: behind →
      (p.classDecl cls).methods = earlier ++ d :: later →
      Begins p printName { p.surroundings printName with current := some cls } d
        (Check.after
          (earlier.forM (checkFunction { p.surroundings printName with current := some cls }))
          (Check.after (before.forM (p.checkMethods (p.surroundings printName)))
            (p.declared printName)))
  | function {d : FunctionDecl} {earlier later : List FunctionDecl} :
      p.functions = earlier ++ d :: later →
      Begins p printName (p.surroundings printName) d
        (Check.after (earlier.forM (checkFunction (p.surroundings printName)))
          (Check.after
            ((ClassTable.build p.classes).1.classes.forM
              (p.checkMethods (p.surroundings printName)))
            (p.declared printName)))

end Program
end ObjectLang
