import ObjectLang.Proofs.Typing.Rules

/-!
# Values and stores of the language

What a program computes with, told without memory and code: numbers, truth values and references to
objects and arrays. An object has a field for each class and each field name that the class
declares; an array has a type of elements and the elements. Objects and arrays stay for ever, and
what was printed stays printed.
-/
namespace ObjectLang

/-- A value of the language. -/
inductive Datum where
  | int (n : Int32)
  | bool (b : Bool)
  | null
  | ref (id : Nat)
deriving Repr, DecidableEq, Inhabited

/-- What a variable, field or element of a type holds before it is assigned. -/
def PlainType.default : PlainType → Datum
  | .int => .int 0
  | .bool => .bool false
  | .null | .array _ | .object _ => .null

/-- How many bytes a value of a type takes. -/
def PlainType.size : PlainType → Nat
  | .int => 4
  | .bool => 1
  | .null | .array _ | .object _ => 8

theorem PlainType.size_le (t : PlainType) : t.size ≤ 8 := by
  cases t <;> simp [PlainType.size]

theorem PlainType.size_pos (t : PlainType) : 0 < t.size := by
  cases t <;> exact Nat.succ_pos _

/-- What a reference refers to. The fields of an object are known by the class that declares them
and their name. -/
inductive Entity where
  | object (cls : String) (fields : String → String → Datum)
  | array (element : PlainType) (items : List Datum)

/-- The objects and arrays that were made, and the numbers that were printed. -/
structure Store where
  heap : List Entity := []
  output : List Int32 := []
deriving Inhabited

namespace Store

/-- The store with one more object or array, and a reference to it. -/
def add (σ : Store) (e : Entity) : Datum × Store :=
  (.ref σ.heap.length, { σ with heap := σ.heap ++ [e] })

def print (σ : Store) (n : Int32) : Store :=
  { σ with output := σ.output ++ [n] }

end Store

/-- The fields with one of them changed. -/
def setField (fields : String → String → Datum) (owner name : String) (v : Datum) :
    String → String → Datum :=
  fun o n => if o = owner ∧ n = name then v else fields o n

/-- What may have too many bytes. -/
inductive Huge where
  | array
  | object
deriving Repr, DecidableEq, Inhabited

/-- Why an evaluation ends without a value: the program halts, an object or array has more than
`maxBytes` bytes, the bound on the evaluation is reached, or the rules of the language were not
kept. -/
inductive Stop where
  | halt (message : String)
  | tooLarge (what : Huge)
  | timeout
  | stuck
deriving Repr, DecidableEq, Inhabited

/-- How many bytes one object or array may have. -/
def maxBytes : Nat :=
  2147483647

/-- An evaluation that may stop early; the store stays in either case. -/
abbrev Eval :=
  ExceptT Stop (StateM Store)

namespace Eval

variable {α β : Type}

theorem run_pure (a : α) (σ : Store) : (pure a : Eval α) σ = (.ok a, σ) :=
  rfl

theorem run_bind (x : Eval α) (f : α → Eval β) (σ : Store) :
    (x >>= f) σ = match x σ with
      | (.ok a, σ) => f a σ
      | (.error e, σ) => (.error e, σ) := by
  change (match x σ with | (a, σ) => (ExceptT.bindCont f a) σ) = _
  cases x σ with
  | mk a σ => cases a <;> rfl

end Eval

/-- The values of the variables of a running function, by their declarations. -/
abbrev Locals :=
  Nat → Datum

/-- The values with one of them changed. -/
def Locals.set (locals : Locals) (id : Nat) (v : Datum) : Locals :=
  fun i => if i = id then v else locals i

end ObjectLang
