import ObjectLang.Analysis.Diagnostic
import ObjectLang.Tree.Basic
import ObjectLang.Typing.ValueType

/-!
# The class table

The classes of a program with their superclasses. Of several classes of one name the first is
accepted. A class that names an undeclared superclass has none, and neither has a class that would
be its own ancestor: each cycle of extending classes is found once, reported for all its members,
and cut at all of them, so that what is left has no cycle.
-/
namespace ObjectLang

/-- The accepted classes, in the order of their declarations. -/
structure ClassTable where
  classes : List ClassRef := []
deriving Repr, DecidableEq, Inhabited

namespace ClassTable

/-- The accepted class of a name. -/
def find? (t : ClassTable) (name : String) : Option ClassRef :=
  t.classes.find? (·.name == name)

/-- The position of the first class of a name. -/
def firstOf? (decls : List ClassDecl) (name : String) : Option Nat :=
  decls.findIdx? (·.name.name == name)

/-- Whether a class is the first one of its name. -/
def isFirst (decls : List ClassDecl) (decl : ClassDecl × Nat) : Bool :=
  firstOf? decls decl.1.name.name == some decl.2

/-- The first class of each name, with its position. -/
def accepted (decls : List ClassDecl) : List (ClassDecl × Nat) :=
  decls.zipIdx.filter (isFirst decls)

/-- The other classes. -/
def duplicates (decls : List ClassDecl) : List Diagnostic :=
  (decls.zipIdx.filter fun decl => !isFirst decls decl).map fun (decl, _) =>
    .duplicateClass decl.name.name decl.name.span

/-- Where each class finds its superclass, by position. -/
abbrev Edges :=
  Array (Option Nat)

/-- The superclass that a class names, if that class is declared. -/
def edgeOf (decls : List ClassDecl) (decl : ClassDecl × Nat) : Option Nat :=
  if isFirst decls decl then decl.1.superclass.bind fun name => firstOf? decls name.name else none

def edges (decls : List ClassDecl) : Edges :=
  (decls.zipIdx.map (edgeOf decls)).toArray

/-- The superclass names that no class has. -/
def undeclared (decls : List ClassDecl) : List Diagnostic :=
  (accepted decls).filterMap fun (decl, _) =>
    decl.superclass.bind fun name =>
      match firstOf? decls name.name with
      | some _ => none
      | none => some (.undeclaredSuperclass decl.name.name name.name name.span)

/-- The superclass of a class. -/
def edge (e : Edges) (index : Nat) : Option Nat :=
  e[index]?.getD none

/-- The first cycle on the way up from a class, in the order of extending. The classes passed so
far are given latest first; a way of more steps than there are classes has met a cycle. -/
def cycleFrom (e : Edges) : Nat → List Nat → Nat → List Nat
  | 0, _, _ => []
  | steps + 1, passed, index =>
    if index ∈ passed then
      ((passed.takeWhile (· ≠ index)) ++ [index]).reverse
    else
      match edge e index with
      | some next => cycleFrom e steps (index :: passed) next
      | none => []

/-- The superclass edges with those of some classes cut. -/
def cut (e : Edges) (members : List Nat) : Edges :=
  members.foldl (fun e index => e.setIfInBounds index none) e

/-- The diagnostics of a cycle, one for each member. -/
def cycleDiagnostics (decls : List ClassDecl) (members : List Nat) : List Diagnostic :=
  let cycle := members.filterMap (decls[·]?)
  let names := cycle.map (·.name.name)
  cycle.map fun decl => .cyclicInheritance decl.name.name names decl.name.span

/-- The edges without cycles, and what is reported of the cycles. -/
def cutCycles (decls : List ClassDecl) (e : Edges) : Edges × List Diagnostic :=
  (accepted decls).foldl
    (fun (e, found) (_, start) =>
      let members := cycleFrom e (decls.length + 1) [] start
      (cut e members, found ++ cycleDiagnostics decls members))
    (e, [])

/-- A class with its superclasses, at most `steps` of them. -/
def chain (decls : List ClassDecl) (e : Edges) : Nat → Nat → ClassRef
  | 0, index => .root (decls[index]?.elim "" (·.name.name)) index
  | steps + 1, index =>
    let name := decls[index]?.elim "" (·.name.name)
    match edge e index with
    | some superclass => .derived name index (chain decls e steps superclass)
    | none => .root name index

/-- The class table of some classes, and all that is wrong with their hierarchy. -/
def build (decls : List ClassDecl) : ClassTable × List Diagnostic :=
  let (e, cycles) := cutCycles decls (edges decls)
  (⟨(accepted decls).map fun (_, index) => chain decls e decls.length index⟩,
    duplicates decls ++ undeclared decls ++ cycles)

end ClassTable
end ObjectLang
