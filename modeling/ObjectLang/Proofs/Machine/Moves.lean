import Mathlib.Tactic
import ObjectLang.Proofs.Machine.Memory
import ObjectLang.Proofs.Machine.Steps

/-!
# Steps within a procedure

What one instruction does to the memory, the output and the temporaries of the procedure that runs,
and where a terminator leads. A point of a procedure is a block with the instructions that are still
to do there.
-/
namespace ObjectLang.Machine

open IR

/-- What a running procedure works on. -/
structure Config where
  memory : Memory
  output : Array Int32
  temps : Array (Option Value)

/-- A block, and the instructions to do there. -/
abbrev Point :=
  Nat × List Instruction

/-- A procedure that runs at a point. -/
def Config.state (p : Procedure) (callers : List (Nat × Frame)) (x : Point) (μ : Config) : State :=
  ⟨⟨μ.memory, μ.output⟩, ⟨p, x.1, x.2, μ.temps⟩, callers⟩

namespace Config

/-- The value of an operand. -/
def value? (μ : Config) : Operand → Option Value
  | .int n => some (.int n)
  | .bool b => some (.bool b)
  | .null => some (.pointer none)
  | .temp id => μ.temps[id]?.join

def set (μ : Config) (dest : Nat) (v : Value) : Config :=
  { μ with temps := μ.temps.setIfInBounds dest (some v) }

def write (μ : Config) (a : Address) (v : Value) : Config :=
  { μ with memory := μ.memory.put a v }

def print (μ : Config) (n : Int32) : Config :=
  { μ with output := μ.output.push n }

/-- A new allocation, whose address a temporary gets. -/
def allocate (μ : Config) (dest size : Nat) : Config :=
  { μ with memory := (μ.memory.allocate size).2 }.set dest (.pointer (some ⟨μ.memory.count, 0⟩))

@[simp] theorem memory_set {μ : Config} {dest : Nat} {v : Value} :
    (μ.set dest v).memory = μ.memory :=
  rfl

@[simp] theorem output_set {μ : Config} {dest : Nat} {v : Value} :
    (μ.set dest v).output = μ.output :=
  rfl

@[simp] theorem memory_write {μ : Config} {a : Address} {v : Value} :
    (μ.write a v).memory = μ.memory.put a v :=
  rfl

@[simp] theorem output_write {μ : Config} {a : Address} {v : Value} :
    (μ.write a v).output = μ.output :=
  rfl

@[simp] theorem temps_write {μ : Config} {a : Address} {v : Value} :
    (μ.write a v).temps = μ.temps :=
  rfl

@[simp] theorem size_temps_set {μ : Config} {dest : Nat} {v : Value} :
    (μ.set dest v).temps.size = μ.temps.size :=
  Array.size_setIfInBounds

theorem value?_temp {μ : Config} {id : Nat} {v : Value} (h : μ.temps[id]? = some (some v)) :
    μ.value? (.temp id) = some v := by
  rw [value?, h]
  rfl

theorem temps_set_self {μ : Config} {dest : Nat} {v : Value} (h : dest < μ.temps.size) :
    (μ.set dest v).temps[dest]? = some (some v) := by
  simp [set, h]

theorem value?_set_self {μ : Config} {dest : Nat} {v : Value} (h : dest < μ.temps.size) :
    (μ.set dest v).value? (.temp dest) = some v := by
  simp [value?, set, h]

theorem temps_set_of_ne {μ : Config} {dest id : Nat} {v : Value} (h : id ≠ dest) :
    (μ.set dest v).temps[id]? = μ.temps[id]? := by
  simp [set, h.symm]

theorem value?_write {μ : Config} {a : Address} {v : Value} (x : Operand) :
    (μ.write a v).value? x = μ.value? x := by
  cases x <;> rfl

end Config

/-- What an operation makes of two values. -/
inductive Computes : Operation → Value → Value → Value → Prop
  | add {a b : Int32} : Computes .add (.int a) (.int b) (.int (a + b))
  | sub {a b : Int32} : Computes .sub (.int a) (.int b) (.int (a - b))
  | mul {a b : Int32} : Computes .mul (.int a) (.int b) (.int (a * b))
  | sdiv {a b : Int32} : b ≠ 0 → Computes .sdiv (.int a) (.int b) (.int (a / b))
  | slt {a b : Int32} : Computes .slt (.int a) (.int b) (.bool (decide (a < b)))
  | eq {v w : Value} : Computes .eq v w (.bool (decide (v = w)))
  | and {a b : Bool} : Computes .and (.bool a) (.bool b) (.bool (a && b))
  | or {a b : Bool} : Computes .or (.bool a) (.bool b) (.bool (a || b))

section

variable {m : Module} {p : Procedure} {callers : List (Nat × Frame)} {c : Nat}
  {rest : List Instruction} {μ : Config}

theorem eval_eq {f : Frame} (hf : f.temps = μ.temps) {x : Operand} {v : Value}
    (h : μ.value? x = some v) : f.eval x = .ok v := by
  cases x with
  | temp id =>
      have ht : f.temps[id]? = some (some v) := by
        rw [hf]
        exact Option.join_eq_some_iff.1 h
      rw [Frame.eval, ht]
  | _ =>
      cases h
      rfl

theorem evalInt_eq {f : Frame} (hf : f.temps = μ.temps) {x : Operand} {n : Int32}
    (h : μ.value? x = some (.int n)) : f.evalInt x = .ok n := by
  rw [Frame.evalInt, eval_eq hf h]
  rfl

theorem evalPointer_eq {f : Frame} (hf : f.temps = μ.temps) {x : Operand} {a : Option Address}
    (h : μ.value? x = some (.pointer a)) : f.evalPointer x = .ok a := by
  rw [Frame.evalPointer, eval_eq hf h]
  rfl

theorem compute_eq {f : Frame} (hf : f.temps = μ.temps) {op : Operation} {x y : Operand}
    {v w u : Value} (hx : μ.value? x = some v) (hy : μ.value? y = some w) (h : Computes op v w u) :
    f.compute op x y = .ok u := by
  cases h with
  | add | sub | mul | slt =>
      simp only [Frame.compute, evalInt_eq hf hx, evalInt_eq hf hy]
      rfl
  | sdiv hb =>
      simp only [Frame.compute, evalInt_eq hf hx, evalInt_eq hf hy]
      simp only [bind, Except.bind, if_neg hb]
      rfl
  | eq | and | or =>
      simp only [Frame.compute, eval_eq hf hx, eval_eq hf hy]
      rfl

/-- A step of an instruction whose action is known. -/
theorem step_instruction {i : Instruction} (action : Action)
    (h : instructionAction m μ.memory ⟨p, c, i :: rest, μ.temps⟩ i = .ok action) :
    step m (μ.state p callers (c, i :: rest)) =
      (μ.state p callers (c, i :: rest)).perform action := by
  rw [step, nextAction]
  simp only [Config.state, h]

/-- A step of an instruction that finds a fault. -/
theorem step_fault {i : Instruction} {fault : Fault}
    (h : instructionAction m μ.memory ⟨p, c, i :: rest, μ.temps⟩ i = .error fault) :
    step m (μ.state p callers (c, i :: rest)) =
      .stopped ⟨μ.memory, μ.output⟩ (.error fault) := by
  rw [step, nextAction]
  simp only [Config.state, h]

theorem step_binary {dest : Nat} {op : Operation} {x y : Operand} {v w u : Value}
    (hx : μ.value? x = some v) (hy : μ.value? y = some w) (h : Computes op v w u) :
    step m (μ.state p callers (c, .binary dest op x y :: rest)) =
      .running ((μ.set dest u).state p callers (c, rest)) := by
  rw [step_instruction (.assign dest u)]
  · rfl
  · rw [instructionAction, compute_eq (μ := μ) rfl hx hy h]
    rfl

theorem step_bitcast {dest : Nat} {x : Operand} {a : Option Address}
    (hx : μ.value? x = some (.pointer a)) :
    step m (μ.state p callers (c, .bitcast dest x :: rest)) =
      .running ((μ.set dest (.pointer a)).state p callers (c, rest)) := by
  rw [step_instruction (.assign dest (.pointer a))]
  · rfl
  · rw [instructionAction, evalPointer_eq (μ := μ) rfl hx]
    rfl

theorem step_load {dest : Nat} {x : Operand} {a : Address} {v : Value}
    (hx : μ.value? x = some (.pointer (some a))) (ha : μ.memory.Covers a)
    (hv : μ.memory.get? a = some v) :
    step m (μ.state p callers (c, .load dest x :: rest)) =
      .running ((μ.set dest v).state p callers (c, rest)) := by
  rw [step_instruction (.assign dest v)]
  · rfl
  · rw [instructionAction, evalPointer_eq (μ := μ) rfl hx]
    simp only [bind, Except.bind, ha.load hv]
    rfl

theorem step_store {x y : Operand} {a : Address} {v : Value}
    (hx : μ.value? x = some (.pointer (some a))) (hy : μ.value? y = some v)
    (ha : μ.memory.Covers a) :
    step m (μ.state p callers (c, .store x y :: rest)) =
      .running ((μ.write a v).state p callers (c, rest)) := by
  rw [step_instruction (.write a v)]
  · rfl
  · rw [instructionAction, evalPointer_eq (μ := μ) rfl hx]
    simp only [bind, Except.bind, eval_eq (μ := μ) (f := ⟨p, c, _, μ.temps⟩) rfl hy, ha.resolve]
    rfl

/-- A store behind the end of an allocation. -/
theorem step_store_outside {x y : Operand} {a : Address} {v : Value} {n : Nat}
    (hx : μ.value? x = some (.pointer (some a))) (hy : μ.value? y = some v)
    (hs : μ.memory.sizeAt? a.allocation = some n) (hle : n ≤ a.offset) :
    step m (μ.state p callers (c, .store x y :: rest)) =
      .stopped ⟨μ.memory, μ.output⟩ (.error (.access (.outside a.offset n))) := by
  refine step_fault ?_
  rw [instructionAction, evalPointer_eq (μ := μ) rfl hx]
  simp only [bind, Except.bind, eval_eq (μ := μ) (f := ⟨p, c, _, μ.temps⟩) rfl hy,
    Memory.resolve_outside hs hle]

/-- A request for less than no memory. -/
theorem step_alloc_negative {dest : Nat} {x : Operand} {n : Int32}
    (hx : μ.value? x = some (.int n)) (hn : n < 0) :
    step m (μ.state p callers (c, .alloc dest x :: rest)) =
      .stopped ⟨μ.memory, μ.output⟩ (.error (.access (.negativeSize n))) := by
  refine step_fault ?_
  rw [instructionAction, evalInt_eq (μ := μ) rfl hx]
  simp only [bind, Except.bind, if_pos hn]
  rfl

theorem step_alloc {dest : Nat} {x : Operand} {n : Int32} (hx : μ.value? x = some (.int n))
    (hn : 0 ≤ n) : step m (μ.state p callers (c, .alloc dest x :: rest)) =
      .running ((μ.allocate dest n.toInt.toNat).state p callers (c, rest)) := by
  rw [step_instruction (.allocate dest n.toInt.toNat)]
  · rfl
  · rw [instructionAction, evalInt_eq (μ := μ) rfl hx]
    simp only [bind, Except.bind, if_neg (Int32.not_lt.2 hn)]
    rfl

theorem step_alloca {dest size : Nat} {type : Ty}
    (hsize : m.measure Profile.overflow.word type = .ok size) :
    step m (μ.state p callers (c, .alloca dest type :: rest)) =
      .running ((μ.allocate dest size).state p callers (c, rest)) := by
  rw [step_instruction (.allocate dest size)]
  · rfl
  · rw [instructionAction, hsize]
    rfl

theorem step_print {x : Operand} {n : Int32} (hx : μ.value? x = some (.int n)) :
    step m (μ.state p callers (c, .print x :: rest)) =
      .running ((μ.print n).state p callers (c, rest)) := by
  rw [step_instruction (.print n)]
  · rfl
  · rw [instructionAction, evalInt_eq (μ := μ) rfl hx]
    rfl

theorem step_comment {text : String} :
    step m (μ.state p callers (c, .comment text :: rest)) =
      .running (μ.state p callers (c, rest)) := by
  rw [step_instruction .skip]
  · rfl
  · rfl

theorem step_elementPtr {dest : Nat} {x : Operand} {indices : List Operand} {a : Address}
    {target : Ty} {offset : Nat} (hx : μ.value? x = some (.pointer (some a)))
    (htype : p.typeOf? x = some (.pointer target))
    (hoffset : pointerOffset m ⟨p, c, .elementPtr dest x indices :: rest, μ.temps⟩ a.offset target
      indices = .ok (offset : Int)) (hlt : offset < UInt32.size) :
    step m (μ.state p callers (c, .elementPtr dest x indices :: rest)) =
      .running ((μ.set dest (.pointer (some ⟨a.allocation, offset⟩))).state p callers
        (c, rest)) := by
  rw [step_instruction (.assign dest (.pointer (some ⟨a.allocation, offset⟩)))]
  · rfl
  · have hrange : 0 ≤ (offset : Int) ∧ (offset : Int) < UInt32.size := by
      omega
    rw [instructionAction, elementAddress, evalPointer_eq (μ := μ) rfl hx]
    simp only [bind, Except.bind, htype, Ty.target?, hoffset, if_pos hrange]
    rfl

/-- The values of some operands. -/
theorem mapM_eval {f : Frame} (hf : f.temps = μ.temps) {xs : List Operand} {vs : List Value}
    (h : List.Forall₂ (fun x v => μ.value? x = some v) xs vs) : xs.mapM f.eval = .ok vs := by
  induction h with
  | nil => rfl
  | cons hx _ ih =>
      rw [List.mapM_cons, eval_eq hf hx, ih]
      rfl

theorem step_call {dest callee : Nat} {args : List Operand} {vs : List Value} {f : Frame}
    (hargs : List.Forall₂ (fun x v => μ.value? x = some v) args vs)
    (hf : enter m callee vs = .ok f) :
    step m (μ.state p callers (c, .call dest callee args :: rest)) =
      .running ⟨⟨μ.memory, μ.output⟩, f, (dest, ⟨p, c, rest, μ.temps⟩) :: callers⟩ := by
  rw [step_instruction (.enter dest f)]
  · rfl
  · rw [instructionAction, mapM_eval (μ := μ) rfl hargs]
    simp only [bind, Except.bind, hf]
    rfl

section terminators

variable {b b' : Block} (hb : p.blocks[c]? = some b)
include hb

theorem step_jump {target : Nat} (ht : b.terminator = some (.jump target))
    (hb' : p.blocks[target]? = some b') : step m (μ.state p callers (c, [])) =
      .running (μ.state p callers (target, b'.instructions)) := by
  simp only [step, nextAction, Config.state, hb, Option.bind_some, ht, terminatorAction,
    gotoAction, hb', State.perform]

theorem step_branch {x : Operand} {onTrue onFalse : Nat} {v : Bool}
    (ht : b.terminator = some (.branch x onTrue onFalse)) (hx : μ.value? x = some (.bool v))
    (hb' : p.blocks[if v then onTrue else onFalse]? = some b') :
    step m (μ.state p callers (c, [])) =
      .running (μ.state p callers (if v then onTrue else onFalse, b'.instructions)) := by
  simp only [step, nextAction, Config.state, hb, Option.bind_some, ht, terminatorAction,
    eval_eq (μ := μ) (f := ⟨p, c, [], μ.temps⟩) rfl hx, bind, Except.bind]
  cases v
  · simp only [Bool.false_eq_true, if_false] at hb' ⊢
    simp only [gotoAction, hb', State.perform]
  · simp only [if_true] at hb' ⊢
    simp only [gotoAction, hb', State.perform]

theorem step_halt {message : String} (ht : b.terminator = some (.halt message)) :
    step m (μ.state p callers (c, [])) = .stopped ⟨μ.memory, μ.output⟩
      (.error (.halt message)) := by
  simp only [step, nextAction, Config.state, hb, Option.bind_some, ht, terminatorAction]

theorem step_ret {x : Operand} {v : Value} (ht : b.terminator = some (.ret x))
    (hx : μ.value? x = some v) : step m (μ.state p callers (c, [])) =
      (μ.state p callers (c, [])).perform (.leave v) := by
  simp only [step, nextAction, Config.state, hb, Option.bind_some, ht, terminatorAction,
    eval_eq (μ := μ) (f := ⟨p, c, [], μ.temps⟩) rfl hx, bind, Except.bind]
  rfl

end terminators

end

end ObjectLang.Machine
