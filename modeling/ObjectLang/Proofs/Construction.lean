import Mathlib.Tactic
import ObjectLang.Proofs.Layout.Agreement
import ObjectLang.Proofs.Simulation.Constructors

/-!
# What calls of constructors make

Whatever is wrong with a program and whatever is in memory, a call of the constructor of an accepted
class takes a fixed number of steps and returns a new object: all its slots, also those of hidden
fields and of fields of ancestors, hold the default of their type, and what was in memory before is
unchanged. Only objects that are too large for a number of 32 bits are left out.
-/
namespace ObjectLang

open Machine IR

/-- What a new variable, field or element of a type of values holds. -/
def ValueType.initial : ValueType → Value
  | .int => .int 0
  | .bool => .bool false
  | _ => .pointer none

/-- An object is new in memory: it is one allocation behind the others, of the size of its struct,
and every slot can be read and holds the default of its type. -/
structure NewObject (m : Module) (l : ClassLayout) (before after : Memory) : Prop where
  count : after.count = before.count + 1
  size : after.sizeAt? before.count = some (m.sizeOf (.struct l.struct))
  slots : ∀ (i : Nat) (slot : FieldSlot), l.slots[i]? = some slot → ∃ offset,
    m.fieldOffset? l.struct i = some offset ∧
      after.load (some ⟨before.count, offset⟩) = .ok slot.type.initial
  unchanged : ∀ b < before.count, after.allocations[b]? = before.allocations[b]?

/-- How many steps a constructor takes: two for its object, two for each slot, and the return. -/
def ClassLayout.constructorSteps (l : ClassLayout) : Nat :=
  2 * l.slots.length + 3

/-- The constructor of a class makes a new object in every state of the machine, called from outside
or by an instruction. -/
structure ClassLayout.Constructs (m : Module) (l : ClassLayout) : Prop where
  called : ∀ s : Session, l.constructorSteps ≤ s.budget → ∃ after,
    NewObject m l s.world.memory after ∧
      s.call m l.constructor [] =
        ({ s with world := ⟨after, s.world.output⟩, budget := s.budget - l.constructorSteps },
          .ok (.pointer (some ⟨s.world.memory.count, 0⟩)))
  stepped : ∀ (s : State) (dest : Nat) (todo : List Instruction),
    s.frame.todo = .call dest l.constructor [] :: todo → ∃ after,
      NewObject m l s.world.memory after ∧
        Steps m (l.constructorSteps + 1) s
          ⟨⟨after, s.world.output⟩, { s.frame with todo }.set dest
            (.pointer (some ⟨s.world.memory.count, 0⟩)), s.callers⟩

section types

variable (structs : ClassStructs) (T : Target)

/-- What a type becomes in the code takes room. -/
theorem size_lowerType_pos (V : ValueType) : 0 < (lowerType structs V T).1.size := by
  cases V with
  | object c =>
      rw [lowerType]
      cases structs.find? c.name <;> exact Nat.succ_pos _
  | _ => exact Nat.succ_pos _

/-- The default of a type of values is that of what it becomes in the code. -/
theorem initial_lowerType (V : ValueType) : (lowerType structs V T).1.initial = V.initial := by
  cases V with
  | object c =>
      rw [lowerType]
      cases structs.find? c.name <;> rfl
  | _ => rfl

end types

namespace ClassLayout.Laid

variable {p : Program} {notes : Notes} {structs : ClassStructs} {T : Target} {c : ClassRef}
  {l : ClassLayout}

theorem exists_struct (h : l.Laid p notes structs T c) : ∃ s : Struct,
    T.module.structs[l.struct]? = some s ∧ s.fields.length = l.slots.length ∧
      ∀ f ∈ s.fields, f.type.Flat ∧ 0 < f.type.size := by
  refine ⟨_, h.getElem?_struct, by simp [length_slotNames], fun f hf =>
    ⟨h.flat h.getElem?_struct f hf, ?_⟩⟩
  obtain ⟨i, hi, rfl⟩ := List.getElem_of_mem hf
  rw [List.getElem_zipWith, List.getElem_map]
  exact size_lowerType_pos _ _ _

/-- An object whose fields are set is new, with the defaults of its slots. -/
theorem newObject (h : l.Laid p notes structs T c) {s : Struct}
    (hs : T.module.structs[l.struct]? = some s) {memory : Memory} {output : Array Int32}
    {μ : Config} (hmade : ObjectMade s memory output μ) :
    NewObject T.module l memory μ.memory := by
  have hsize := sizeOf_struct hs (h.flat hs)
  refine ⟨hmade.count, hsize ▸ hmade.size, fun i slot hi => ?_, hmade.unchanged⟩
  obtain ⟨s', f, hs', hf, hoffset, hlower⟩ := h.exists_field hi
  obtain rfl := Option.some.inj (hs.symm.trans hs')
  refine ⟨_, hoffset, ?_⟩
  have hvalue : slot.type.initial = f.type.initial := by
    rw [← initial_lowerType structs T, hlower]
  obtain ⟨hlt, hget⟩ := List.getElem?_eq_some_iff.1 hf
  have hroom := sum_take_add_le_sum (l := s.fields.map fun f => f.type.size) (by simpa using hlt)
  rw [List.getElem_map, ← fieldBytes_take] at hroom
  have hpos : 0 < s.fields[i].type.size := by
    have := size_lowerType_pos structs T slot.type
    rwa [hlower, ← hget] at this
  rw [hvalue]
  refine Memory.Covers.load ⟨_, hmade.size, ?_⟩ (hmade.fields i f hf)
  exact Nat.lt_of_lt_of_le (Nat.lt_add_of_pos_right hpos) hroom

/-- A constructor that was entered makes an object and returns. -/
theorem exists_made (h : l.Laid p notes structs T c)
    (hfits : T.module.sizeOf (.struct l.struct) ≤ maxBytes) : ∃ f : Frame,
    enter T.module l.constructor [] = .ok f ∧
      ∀ (memory : Memory) (output : Array Int32) (callers : List (Nat × Frame)),
        ∃ (after : Memory) (s : State), NewObject T.module l memory after ∧
          Steps T.module (2 * l.slots.length + 2) ⟨⟨memory, output⟩, f, callers⟩ s ∧
            step T.module s = State.perform ⟨⟨after, output⟩, s.frame, callers⟩
              (.leave (.pointer (some ⟨memory.count, 0⟩))) := by
  obtain ⟨s, hs, hlength, hfields⟩ := h.exists_struct
  have hbytes := sizeOf_struct hs (h.flat hs)
  have hcode := constructorOf_eq c.name hs
  rw [hbytes] at hcode hfits
  have hq := h.constructor.trans (congrArg some hcode)
  refine ⟨_, enter_eq hq rfl rfl, fun memory output callers => ?_⟩
  obtain ⟨μ, hsteps, hreturns, hmade⟩ := exists_objectMade c.name hs hfields hfits rfl memory
    output callers
  exact ⟨μ.memory, _, h.newObject hs hmade, hlength ▸ hsteps, hmade.output ▸ hreturns⟩

/-- The constructor of a class that is laid out makes its objects. -/
theorem constructs (h : l.Laid p notes structs T c)
    (hfits : T.module.sizeOf (.struct l.struct) ≤ maxBytes) : l.Constructs T.module := by
  obtain ⟨f, henter, hmakes⟩ := h.exists_made hfits
  refine ⟨fun s hbudget => ?_, fun s dest todo htodo => ?_⟩
  · obtain ⟨after, t, hnew, hsteps, hstop⟩ := hmakes s.world.memory s.world.output []
    refine ⟨after, hnew, ?_⟩
    obtain ⟨spare, hspare⟩ := Nat.exists_eq_add_of_le hbudget
    have hrun : State.run T.module s.limit s.budget ⟨s.world, f, []⟩ =
        ⟨⟨after, s.world.output⟩, spare, .ok (.pointer (some ⟨s.world.memory.count, 0⟩))⟩ := by
      have hsteps := hsteps.run s.limit (spare + 1)
      rw [State.run, hstop] at hsteps
      rw [hspare, constructorSteps, Nat.add_right_comm _ 3 spare]
      exact (congrArg (State.run T.module s.limit · _) (by omega)).trans hsteps
    rw [Session.call, henter]
    simp only [hrun]
    rw [hspare, Nat.add_sub_cancel_left]
  · obtain ⟨⟨memory, output⟩, ⟨q, block, _, temps⟩, callers⟩ := s
    obtain rfl := htodo
    obtain ⟨after, t, hnew, hsteps, hstop⟩ := hmakes memory output
      ((dest, ⟨q, block, todo, temps⟩) :: callers)
    refine ⟨after, hnew, ?_⟩
    have hcall : step T.module ⟨⟨memory, output⟩,
        ⟨q, block, .call dest l.constructor [] :: todo, temps⟩, callers⟩ = .running _ :=
      step_call (μ := ⟨memory, output, temps⟩) (c := block) .nil henter
    have hreturn : step T.module t = .running ⟨⟨after, output⟩,
        (Frame.mk q block todo temps).set dest (.pointer (some ⟨memory.count, 0⟩)), callers⟩ := by
      rw [hstop]
      rfl
    exact .head hcall (hsteps.trans (.one hreturn))

end ClassLayout.Laid

/-- All fields of a class and of its ancestors have slots in the layout of the class. -/
def ClassLayout.Has (l : ClassLayout) (p : Program) (c : ClassRef) : Prop :=
  ∀ o ∈ c.ancestors, ∀ (name : String) (d : VarDecl), (p.classDecl o).field? name = some d →
    ∃ i slot, l.fieldIndex? o.name name = some i ∧ l.slots[i]? = some slot

/-- In the layouts of any program that was read, the constructors of all accepted classes make new
objects, if these are not too large. -/
theorem Layouts.build_constructs {source : String} {p : Program}
    (h : Program.ofText source = .ok p) (printName : String) (c : ClassRef)
    (hc : c ∈ (p.analyze printName).classes.classes) :
    let (L, T) := (Layouts.build p (p.analyze printName)).run {}
    ∃ l, L.class? c.name = some l ∧ l.Has p c ∧
      (T.module.sizeOf (.struct l.struct) ≤ maxBytes → l.Constructs T.module) := by
  have ha := p.judged (p.numbered_ofText h).nodup printName
  have hlaid := Layouts.laid_of_ofText h printName
  obtain ⟨l, hl, hlaid'⟩ := hlaid.classes c hc
  refine ⟨l, hl, fun o ho name d hd => ?_, hlaid'.constructs⟩
  obtain ⟨i, l', k, hplaced⟩ := hlaid.placed ha hc ho hd
  obtain rfl := Option.some.inj (hl.symm.trans hplaced.class?)
  exact ⟨i, _, hplaced.index, hplaced.slot⟩

/-- A program that is rejected for a duplicate field, with a class that hides a field. -/
def shadowingText : String :=
  "class A { int x; int x; } class B extends A { A[] x; boolean y; }"

/-- An object of the second class has three slots, one of them that of a hidden field. -/
theorem Layouts.build_constructs_hidden : ∃ p, Program.ofText shadowingText = .ok p ∧
    (p.analyze "printInt").isAccepted = false ∧
      ∃ c ∈ (p.analyze "printInt").classes.classes, c.name = "B" ∧
        let (L, T) := (Layouts.build p (p.analyze "printInt")).run {}
        ∃ l, L.class? "B" = some l ∧ l.slots.length = 3 ∧
          T.module.sizeOf (.struct l.struct) = 13 ∧ l.Constructs T.module := by
  obtain ⟨p, hp, hread⟩ := exists_ok_of_any (r := Program.ofText shadowingText) (f := fun p =>
    ((p.analyze "printInt").isAccepted,
      (p.analyze "printInt").classes.classes[1]?.map ClassRef.name,
        let (L, T) := (Layouts.build p (p.analyze "printInt")).run {}
        (L.class? "B").map fun l => (l.slots.length, T.module.sizeOf (.struct l.struct))) ==
      (false, some "B", some (3, 13))) (by decide +kernel)
  obtain ⟨haccepted, hsecond⟩ := Prod.mk.inj (eq_of_beq hread)
  obtain ⟨hname, hlayout⟩ := Prod.mk.inj hsecond
  obtain ⟨c, hc, hname⟩ := Option.map_eq_some_iff.1 hname
  have hmem := List.mem_of_getElem? hc
  obtain ⟨l, hl, -, hconstructs⟩ := Layouts.build_constructs hp "printInt" c hmem
  rw [hname] at hl
  obtain ⟨l', hl', hsizes⟩ := Option.map_eq_some_iff.1 hlayout
  obtain rfl := Option.some.inj (hl.symm.trans hl')
  obtain ⟨hslots, hsize⟩ := Prod.mk.inj hsizes
  exact ⟨p, hp, haccepted, c, hmem, hname, l, hl, hslots, hsize, hconstructs (hsize ▸ by decide)⟩

end ObjectLang
