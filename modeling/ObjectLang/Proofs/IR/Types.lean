import Mathlib.Tactic
import ObjectLang.Proofs.IR.Growth

/-!
# Types of code

An instruction fits a procedure if its operands have the types that it takes and the temporary that
it assigns has the type of what it computes. A call fits the interface of the procedure that it
calls. Null stands for a pointer wherever one is asked for. What fits still does when the procedure
and the module have grown.
-/
namespace ObjectLang.IR

/-- What a call has to know of a procedure. -/
structure Interface where
  params : List Ty
  returnType : Ty
deriving Repr, DecidableEq

def Procedure.interface (p : Procedure) : Interface :=
  ⟨p.params.map fun id => (p.temps[id]?.map Temp.type).getD .void, p.returnType⟩

def Module.interface? (m : Module) (id : Nat) : Option Interface :=
  m.procedures[id]?.map Procedure.interface

/-- A constant, or one of the first temporaries. -/
def Operand.Fits (temps : Nat) : Operand → Prop
  | .temp id => id < temps
  | _ => True

namespace Procedure

/-- An operand can stand where a value of a type is asked for: it has that type, or it is null and
the type is one of pointers. -/
def Passes (p : Procedure) (x : Operand) (type : Ty) : Prop :=
  p.typeOf? x = some type ∨ p.typeOf? x = some .null ∧ ∃ target, type = .pointer target

/-- Two operands can be compared: they have one type, or one is null and the other one is a pointer
or null. -/
def Compares (p : Procedure) (x y : Operand) : Prop :=
  ∃ t u, p.typeOf? x = some t ∧ p.typeOf? y = some u ∧
    (t = u ∨ t = .null ∧ u.isPointer = true ∨ u = .null ∧ t.isPointer = true)

/-- The operands have the types that an operation takes. -/
def Operates (p : Procedure) (op : Operation) (x y : Operand) : Prop :=
  match op with
  | .add | .sub | .mul | .sdiv | .slt => p.typeOf? x = some .int ∧ p.typeOf? y = some .int
  | .and | .or => p.typeOf? x = some .bool ∧ p.typeOf? y = some .bool
  | .eq => p.Compares x y

/-- Numbers that select an element, then an element of that, and so on, give something of a type. -/
inductive Selects (p : Procedure) : Ty → List Operand → Ty → Prop
  | whole {type : Ty} : Selects p type [] type
  | element {element type : Ty} {length : Nat} {x : Operand} {rest : List Operand} :
      p.typeOf? x = some .int → Selects p element rest type →
      Selects p (.array element length) (x :: rest) type

end Procedure

/-- An instruction has operands and a temporary of the types that it needs. The address of a part of
a struct names one of its fields, and selects elements of it. -/
inductive Instruction.Fits (m : Module) (p : Procedure) : Instruction → Prop
  | alloc {dest : Nat} {x : Operand} : p.typeOf? x = some .int →
      p.typeOf? (.temp dest) = some (.pointer .byte) → Fits m p (.alloc dest x)
  | alloca {dest : Nat} {type : Ty} : p.typeOf? (.temp dest) = some (.pointer type) →
      Fits m p (.alloca dest type)
  | bitcast {dest : Nat} {x : Operand} {t u : Ty} : p.typeOf? x = some (.pointer t) →
      p.typeOf? (.temp dest) = some (.pointer u) → Fits m p (.bitcast dest x)
  | elementPtr {dest id k : Nat} {base x : Operand} {rest : List Operand} {s : Struct} {f : Field}
      {type : Ty} : p.typeOf? base = some (.pointer (.struct id)) → m.structs[id]? = some s →
      p.typeOf? x = some .int → s.fields[k]? = some f → p.Selects f.type rest type →
      p.typeOf? (.temp dest) = some (.pointer type) →
      Fits m p (.elementPtr dest base (x :: .int (Int32.ofNat k) :: rest))
  | load {dest : Nat} {x : Operand} {type : Ty} : p.typeOf? x = some (.pointer type) →
      p.typeOf? (.temp dest) = some type → Fits m p (.load dest x)
  | store {x y : Operand} {type : Ty} : p.typeOf? x = some (.pointer type) → p.Passes y type →
      Fits m p (.store x y)
  | binary {dest : Nat} {op : Operation} {x y : Operand} : p.Operates op x y →
      p.typeOf? (.temp dest) = some op.resultType → Fits m p (.binary dest op x y)
  | call {dest callee : Nat} {args : List Operand} {i : Interface} :
      m.interface? callee = some i → List.Forall₂ p.Passes args i.params →
      p.typeOf? (.temp dest) = some i.returnType → Fits m p (.call dest callee args)
  | print {x : Operand} : p.typeOf? x = some .int → Fits m p (.print x)
  | comment {text : String} : Fits m p (.comment text)

/-- The operand of a terminator has the type that it needs, and it leads to blocks that exist. -/
inductive Terminator.Fits (p : Procedure) : Terminator → Prop
  | jump {target : Nat} : target < p.blocks.size → Fits p (.jump target)
  | branch {x : Operand} {onTrue onFalse : Nat} : p.typeOf? x = some .bool →
      onTrue < p.blocks.size → onFalse < p.blocks.size → Fits p (.branch x onTrue onFalse)
  | ret {x : Operand} : p.Passes x p.returnType → Fits p (.ret x)
  | halt {message : String} : Fits p (.halt message)

structure Block.Fits (m : Module) (p : Procedure) (b : Block) : Prop where
  instructions : ∀ i ∈ b.instructions, i.Fits m p
  terminator : ∀ t, b.terminator = some t → t.Fits p

/-- A procedure is finished: it has a block, and every block ends and fits. -/
structure Procedure.WellTyped (m : Module) (p : Procedure) : Prop where
  entry : 0 < p.blocks.size
  blocks : ∀ (i : Nat) (b : Block), p.blocks[i]? = some b → b.terminator ≠ none ∧ b.Fits m p

/-- A module has grown: structs and the interfaces of procedures stay. -/
structure Module.Grows (m m' : Module) : Prop where
  structs : ∀ (id : Nat) (s : Struct), m.structs[id]? = some s → m'.structs[id]? = some s
  interfaces : ∀ (id : Nat) (i : Interface), m.interface? id = some i → m'.interface? id = some i

/-- A procedure has grown: operands have the types that they had. -/
structure Procedure.Grows (p q : Procedure) : Prop where
  types : ∀ (x : Operand) (type : Ty), p.typeOf? x = some type → q.typeOf? x = some type
  returnType : q.returnType = p.returnType
  blocks : p.blocks.size ≤ q.blocks.size

theorem Module.Grows.rfl {m : Module} : m.Grows m :=
  ⟨fun _ _ h => h, fun _ _ h => h⟩

section growth

variable {m m' : Module} {p q : Procedure} {x y : Operand} {type : Ty}

theorem Operand.Fits.mono {temps temps' : Nat} (h : x.Fits temps) (ht : temps ≤ temps') :
    x.Fits temps' := by
  cases x with
  | temp id => exact Nat.lt_of_lt_of_le h ht
  | _ => trivial

/-- An operand that has a type is a constant or a temporary that exists. -/
theorem fits_of_typeOf? (h : p.typeOf? x = some type) : x.Fits p.temps.size := by
  cases x with
  | temp id =>
      obtain ⟨_, htemp, _⟩ := Option.map_eq_some_iff.1 h
      exact (Array.getElem?_eq_some_iff.1 htemp).1
  | _ => trivial

theorem Procedure.Passes.fits (h : p.Passes x type) : x.Fits p.temps.size :=
  h.elim fits_of_typeOf? fun h => fits_of_typeOf? h.1

theorem Procedure.Within.grows (h : p.Within q) : p.Grows q :=
  ⟨fun _ _ hx => h.typeOf? hx, h.returnType, h.size_blocks⟩

theorem Procedure.Compares.symm (h : p.Compares x y) : p.Compares y x := by
  obtain ⟨t, u, ht, hu, htu⟩ := h
  exact ⟨u, t, hu, ht, htu.elim (fun h => .inl h.symm) fun h => .inr h.symm⟩

section procedure

variable (hp : p.Grows q)
include hp

theorem Procedure.Passes.mono (h : p.Passes x type) : q.Passes x type :=
  h.imp (hp.types _ _) fun h => ⟨hp.types _ _ h.1, h.2⟩

theorem Procedure.Operates.mono {op : Operation} (h : p.Operates op x y) : q.Operates op x y := by
  cases op with
  | eq =>
      obtain ⟨t, u, ht, hu, htu⟩ := h
      exact ⟨t, u, hp.types _ _ ht, hp.types _ _ hu, htu⟩
  | _ => exact ⟨hp.types _ _ h.1, hp.types _ _ h.2⟩

theorem Procedure.Selects.mono {t : Ty} {rest : List Operand} (h : p.Selects t rest type) :
    q.Selects t rest type := by
  induction h with
  | whole => exact .whole
  | element hx _ ih => exact .element (hp.types _ _ hx) ih

theorem Instruction.Fits.mono {i : Instruction} (h : i.Fits m p) (hm : m.Grows m') :
    i.Fits m' q := by
  have ht := hp.types
  cases h with
  | alloc hx hd => exact .alloc (ht _ _ hx) (ht _ _ hd)
  | alloca hd => exact .alloca (ht _ _ hd)
  | bitcast hx hd => exact .bitcast (ht _ _ hx) (ht _ _ hd)
  | elementPtr hb hs hx hf hsel hd =>
      exact .elementPtr (ht _ _ hb) (hm.structs _ _ hs) (ht _ _ hx) hf (hsel.mono hp) (ht _ _ hd)
  | load hx hd => exact .load (ht _ _ hx) (ht _ _ hd)
  | store hx hy => exact .store (ht _ _ hx) (hy.mono hp)
  | binary ho hd => exact .binary (ho.mono hp) (ht _ _ hd)
  | call hi hargs hd =>
      exact .call (hm.interfaces _ _ hi) (hargs.imp fun _ _ h => h.mono hp) (ht _ _ hd)
  | print hx => exact .print (ht _ _ hx)
  | comment => exact .comment

theorem Terminator.Fits.mono {t : Terminator} (h : t.Fits p) : t.Fits q := by
  cases h with
  | jump hb => exact .jump (Nat.lt_of_lt_of_le hb hp.blocks)
  | branch hx ht hf =>
      exact .branch (hp.types _ _ hx) (Nat.lt_of_lt_of_le ht hp.blocks)
        (Nat.lt_of_lt_of_le hf hp.blocks)
  | ret hx => exact .ret (hp.returnType ▸ hx.mono hp)
  | halt => exact .halt

theorem Block.Fits.mono {b : Block} (h : b.Fits m p) (hm : m.Grows m') : b.Fits m' q :=
  ⟨fun i hi => (h.instructions i hi).mono hp hm, fun t ht => (h.terminator t ht).mono hp⟩

end procedure

end growth

/-- The temporary that an instruction assigns exists. -/
theorem Instruction.Fits.dest_lt {m : Module} {p : Procedure} {i : Instruction} (h : i.Fits m p)
    {dest : Nat} (hd : i.dest? = some dest) : dest < p.temps.size := by
  cases h with
  | store | print | comment => cases hd
  | _ =>
      cases hd
      exact fits_of_typeOf? (x := .temp dest) ‹_›

end ObjectLang.IR
