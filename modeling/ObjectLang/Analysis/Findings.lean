import ObjectLang.Analysis.Diagnostic
import ObjectLang.Analysis.Scope
import Std.Data.TreeMap

/-!
# Findings

What analysis finds out about the nodes of a program, and what it reports. The notes are kept
beside the tree, by the identities of its nodes: the types of expressions and locations, the
meaning of written types, what variables and fields refer to, and what calls call.
-/
namespace ObjectLang

/-- What a variable or a field access refers to. -/
inductive Binding where
  | variable (decl : VarDecl)
  | field (owner : ClassRef) (decl : VarDecl)
deriving Repr, DecidableEq, Inhabited

/-- What a call calls. -/
inductive CallTarget where
  | print
  | function (decl : FunctionDecl)
  | method (owner : ClassRef) (decl : FunctionDecl)
deriving Inhabited

/-- Notes on the nodes of a program. -/
structure Notes where
  types : Std.TreeMap Nat ValueType := ∅
  typeExprs : Std.TreeMap Nat ValueType := ∅
  bindings : Std.TreeMap Nat Binding := ∅
  calls : Std.TreeMap Nat CallTarget := ∅
deriving Inhabited

namespace Notes

/-- The type of an expression or a location. -/
def type? (n : Notes) (id : Nat) : Option ValueType :=
  n.types[id]?

/-- The meaning of a written type. -/
def typeExpr? (n : Notes) (id : Nat) : Option ValueType :=
  n.typeExprs[id]?

/-- What a location refers to. -/
def binding? (n : Notes) (id : Nat) : Option Binding :=
  n.bindings[id]?

/-- What a call calls. -/
def call? (n : Notes) (id : Nat) : Option CallTarget :=
  n.calls[id]?

end Notes

/-- What is known at some time of the analysis. -/
structure Findings where
  arrays : ArrayTypes := {}
  notes : Notes := {}
  diagnostics : Array Diagnostic := #[]
deriving Inhabited

/-- A part of the analysis: it adds to the findings. -/
abbrev Check :=
  StateM Findings

namespace Check

def report (d : Diagnostic) : Check Unit :=
  modify fun f => { f with diagnostics := f.diagnostics.push d }

/-- Reports something unless a condition holds. -/
def require (condition : Bool) (d : Diagnostic) : Check Unit :=
  if condition then pure () else report d

def arrayOf (component : ValueType) : Check ValueType :=
  modifyGet fun f =>
    let (type, arrays) := f.arrays.arrayOf component
    (type, { f with arrays })

def noteType (id : Nat) (type : ValueType) : Check Unit :=
  modify fun f => { f with notes.types := f.notes.types.insert id type }

def noteTypeExpr (id : Nat) (type : ValueType) : Check Unit :=
  modify fun f => { f with notes.typeExprs := f.notes.typeExprs.insert id type }

def noteBinding (id : Nat) (binding : Binding) : Check Unit :=
  modify fun f => { f with notes.bindings := f.notes.bindings.insert id binding }

def noteCall (id : Nat) (target : CallTarget) : Check Unit :=
  modify fun f => { f with notes.calls := f.notes.calls.insert id target }

end Check
end ObjectLang
