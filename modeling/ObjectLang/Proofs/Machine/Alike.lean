import Mathlib.Tactic
import ObjectLang.Machine.Run
import ObjectLang.Proofs.IR.Alike
import ObjectLang.Proofs.Machine.Offsets

/-!
# Code that is alike runs alike

Two modules are alike if their related procedures are alike and their related structs have fields of
types that are alike. Runs of related procedures then go step by step together: they show the same
values, use the same memory and stop at the same step for the same reason. A fault over an operand
or over the shape of the code names procedures and structs, and only that there is such a fault is
the same on both sides.
-/
namespace ObjectLang.Machine

open IR

section agreement

variable {α α' β β' : Type} {R : α → α' → Prop} {Q : β → β' → Prop}

/-- A fault that names procedures and structs by the names and numbers that the code has for
them. -/
inductive Fault.Internal : Fault → Prop
  | operand (procedure : String) (cause : OperandFault) : Fault.Internal (.operand procedure cause)
  | shape (cause : ShapeFault) : Fault.Internal (.shape cause)

/-- Two computations have related values, or the same fault, or both an internal one. -/
inductive Agree (R : α → α' → Prop) : Except Fault α → Except Fault α' → Prop
  | ok {a : α} {a' : α'} : R a a' → Agree R (.ok a) (.ok a')
  | fault (f : Fault) : Agree R (.error f) (.error f)
  | internal {f f' : Fault} : f.Internal → f'.Internal → Agree R (.error f) (.error f')

theorem Agree.bind {r : Except Fault α} {r' : Except Fault α'} {k : α → Except Fault β}
    {k' : α' → Except Fault β'} (h : Agree R r r') (hk : ∀ a a', R a a' → Agree Q (k a) (k' a')) :
    Agree Q (r >>= k) (r' >>= k') := by
  cases h with
  | ok h => exact hk _ _ h
  | fault f => exact .fault f
  | internal hf hf' => exact .internal hf hf'

theorem agree_rfl (r : Except Fault α) : Agree Eq r r := by
  cases r with
  | ok a => exact .ok rfl
  | error f => exact .fault f

/-- The result is the same unless it is an internal fault. -/
theorem Agree.eq {r r' : Except Fault α} (h : Agree Eq r r')
    (hr : ∀ f, f.Internal → r ≠ .error f) : r = r' := by
  cases h with
  | ok h => rw [h]
  | fault f => rfl
  | internal hf _ => exact (hr _ hf rfl).elim

end agreement

variable {S C : Nat → Nat → Prop} {m m' : Module}

/-- Related structs and procedures of two modules are there and are alike. -/
structure ModulesAlike (S C : Nat → Nat → Prop) (m m' : Module) : Prop where
  structs : ∀ i j, S i j → ∃ s s', m.structs[i]? = some s ∧ m'.structs[j]? = some s' ∧
    List.Forall₂ (fun f f' => f.type.Alike S f'.type) s.fields s'.fields ∧
    (∀ f ∈ s.fields, f.type.Flat) ∧ ∀ f ∈ s'.fields, f.type.Flat
  procedures : ∀ i j, C i j → ∃ p p', m.procedures[i]? = some p ∧ m'.procedures[j]? = some p' ∧
    p.Alike S C p'

section sizes

variable {type type' : Ty} {fields fields' : List Field}

theorem size_alike (h : type.Alike S type') : type.size = type'.size := by
  induction h with
  | array _ ih => rw [Ty.size, Ty.size, ih]
  | _ => rfl

theorem fieldBytes_alike (h : List.Forall₂ (fun f f' => f.type.Alike S f'.type) fields fields') :
    fieldBytes fields = fieldBytes fields' := by
  induction h with
  | nil => rfl
  | cons hf _ ih => rw [fieldBytes_cons, fieldBytes_cons, size_alike hf, ih]

/-- Flat fields of types that are alike are summed up alike. -/
theorem sumSizes_alike {word f g : Nat → Except Breakdown Nat}
    (h : List.Forall₂ (fun f f' => f.type.Alike S f'.type) fields fields')
    (hflat : ∀ f ∈ fields, f.type.Flat) (hflat' : ∀ f ∈ fields', f.type.Flat)
    (hword : word 0 = .ok 0) :
    sumSizes word (Ty.measure word f) fields = sumSizes word (Ty.measure word g) fields' := by
  refine sumSizes_congr ?_
  induction h with
  | nil => exact .nil
  | cons hf _ ih =>
      rw [List.forall_mem_cons] at hflat hflat'
      refine .cons ?_ (ih hflat.2 hflat'.2)
      rw [hflat.1 word _ hword, hflat'.1 word _ hword, size_alike hf]

variable (h : ModulesAlike S C m m') {word : Nat → Except Breakdown Nat} (hword : word 0 = .ok 0)
include h hword

theorem ModulesAlike.measure (ht : type.Alike S type') : m.measure word type =
    m'.measure word type' := by
  refine ht.measure fun i j hij => ?_
  obtain ⟨s, s', hs, hs', hfields, hflat, hflat'⟩ := h.structs i j hij
  rw [Module.structSizeWithin, Module.structSizeWithin, hs, hs']
  exact sumSizes_alike hfields hflat hflat' hword

/-- A field of related structs has the same offset, and types that are alike. -/
theorem ModulesAlike.field {i j : Nat} (hij : S i j) (k : Nat) :
    m.measureOffset word i k = m'.measureOffset word j k ∧
      ((m.structs[i]?.bind (·.fields[k]?) = none ∧ m'.structs[j]?.bind (·.fields[k]?) = none) ∨
        ∃ f f', m.structs[i]?.bind (·.fields[k]?) = some f ∧
          m'.structs[j]?.bind (·.fields[k]?) = some f' ∧ f.type.Alike S f'.type) := by
  obtain ⟨s, s', hs, hs', hfields, hflat, hflat'⟩ := h.structs i j hij
  have hsum : sumSizes word (m.measure word) (s.fields.take k) =
      sumSizes word (m'.measure word) (s'.fields.take k) :=
    sumSizes_alike (List.forall₂_take k hfields)
      (fun f hf => hflat f (List.mem_of_mem_take hf))
      (fun f hf => hflat' f (List.mem_of_mem_take hf)) hword
  refine ⟨?_, ?_⟩
  · simp only [Module.measureOffset, hs, hs', hfields.length_eq, hsum]
  · rw [hs, hs', Option.bind_some, Option.bind_some]
    rcases Nat.lt_or_ge k s.fields.length with hk | hk
    · have hk' : k < s'.fields.length := hfields.length_eq ▸ hk
      exact .inr ⟨_, _, List.getElem?_eq_getElem hk, List.getElem?_eq_getElem hk',
        hfields.get hk hk'⟩
    · exact .inl ⟨List.getElem?_eq_none hk, List.getElem?_eq_none (hfields.length_eq ▸ hk)⟩

end sizes

/-- Two frames stand at one place of procedures that are alike, with the same values. -/
structure Frame.Alike (S C : Nat → Nat → Prop) (f f' : Frame) : Prop where
  procedure : f.procedure.Alike S C f'.procedure
  block : f.block = f'.block
  todo : List.Forall₂ (Instruction.Alike S C) f.todo f'.todo
  temps : f.temps = f'.temps

section operands

variable {f f' : Frame} {α α' : Type} {R : α → α' → Prop}

theorem agree_operand (f f' : Frame) (cause cause' : OperandFault) :
    Agree R (throw (f.fault cause)) (throw (f'.fault cause')) :=
  .internal (.operand _ _) (.operand _ _)

variable (h : f.Alike S C f')
include h

namespace Frame.Alike

theorem set (dest : Nat) (v : Value) : (f.set dest v).Alike S C (f'.set dest v) :=
  ⟨h.procedure, h.block, h.todo, congrArg (·.setIfInBounds dest (some v)) h.temps⟩

theorem eval (x : Operand) : Agree Eq (f.eval x) (f'.eval x) := by
  cases x with
  | temp id =>
      simp only [Frame.eval, h.temps]
      split
      · exact .ok rfl
      · exact agree_operand ..
  | _ => exact .ok rfl

theorem evalInt (x : Operand) : Agree Eq (f.evalInt x) (f'.evalInt x) := by
  refine (h.eval x).bind ?_
  rintro v _ rfl
  cases v with
  | int n => exact .ok rfl
  | _ => exact agree_operand ..

theorem evalPointer (x : Operand) : Agree Eq (f.evalPointer x) (f'.evalPointer x) := by
  refine (h.eval x).bind ?_
  rintro v _ rfl
  cases v with
  | pointer a => exact .ok rfl
  | _ => exact agree_operand ..

theorem compute (op : Operation) (x y : Operand) :
    Agree Eq (f.compute op x y) (f'.compute op x y) := by
  cases op with
  | add | sub | mul | slt =>
      refine (h.evalInt x).bind ?_
      rintro a _ rfl
      refine (h.evalInt y).bind ?_
      rintro b _ rfl
      exact .ok rfl
  | sdiv =>
      refine (h.evalInt y).bind ?_
      rintro n _ rfl
      by_cases hn : n = 0
      · rw [if_pos hn, if_pos hn]
        exact agree_operand ..
      · rw [if_neg hn, if_neg hn]
        refine (h.evalInt x).bind ?_
        rintro a _ rfl
        exact .ok rfl
  | eq =>
      refine (h.eval x).bind ?_
      rintro a _ rfl
      refine (h.eval y).bind ?_
      rintro b _ rfl
      exact .ok rfl
  | and | or =>
      refine (h.eval x).bind ?_
      rintro a _ rfl
      refine (h.eval y).bind ?_
      rintro b _ rfl
      split
      · exact .ok rfl
      · exact agree_operand ..

theorem evals (xs : List Operand) : Agree Eq (xs.mapM f.eval) (xs.mapM f'.eval) := by
  induction xs with
  | nil => exact .ok rfl
  | cons x xs ih =>
      rw [List.mapM_cons, List.mapM_cons]
      refine (h.eval x).bind ?_
      rintro v _ rfl
      refine ih.bind ?_
      rintro vs _ rfl
      exact .ok rfl

end Frame.Alike

variable (hm : ModulesAlike S C m m')
include hm

omit h in
theorem ModulesAlike.strideOffset {type type' : Ty} (ht : type.Alike S type') (offset : Int)
    (n : Int32) :
    Machine.strideOffset m offset n type = Machine.strideOffset m' offset n type' := by
  rw [Machine.strideOffset, Machine.strideOffset,
    hm.measure (Overflow.word_of_lt (by decide)) ht]

theorem agree_indexOffset (indices : List Operand) : ∀ {type type' : Ty}, type.Alike S type' →
    ∀ offset, Agree Eq (indexOffset m f offset type indices)
      (indexOffset m' f' offset type' indices) := by
  induction indices with
  | nil =>
      intro type type' ht offset
      cases ht <;> exact .ok rfl
  | cons index indices ih =>
      intro type type' ht offset
      cases ht with
      | struct hij =>
          cases index with
          | int n =>
              obtain ⟨hoffset, hfield⟩ :=
                hm.field (Overflow.word_of_lt (by decide)) hij
                  (fieldNumber n)
              unfold indexOffset
              dsimp only
              rw [hoffset]
              refine (agree_rfl _).bind ?_
              rintro bytes _ rfl
              rcases hfield with ⟨hf, hf'⟩ | ⟨field, field', hf, hf', hty⟩
              · simp only [hf, hf']
                exact agree_operand ..
              · simp only [hf, hf']
                cases bytes with
                | none => exact agree_operand ..
                | some bytes =>
                    refine (agree_rfl _).bind ?_
                    rintro next _ rfl
                    exact ih hty next
          | _ => exact agree_operand ..
      | array he =>
          unfold indexOffset
          refine (h.evalInt index).bind ?_
          rintro n _ rfl
          rw [hm.strideOffset he]
          refine (agree_rfl _).bind ?_
          rintro next _ rfl
          exact ih he next
      | _ => exact agree_operand ..

theorem agree_pointerOffset (indices : List Operand) {type type' : Ty} (ht : type.Alike S type')
    (offset : Int) :
    Agree Eq (pointerOffset m f offset type indices)
      (pointerOffset m' f' offset type' indices) := by
  cases indices with
  | nil => exact .ok rfl
  | cons index indices =>
      refine (h.evalInt index).bind ?_
      rintro n _ rfl
      rw [hm.strideOffset ht]
      refine (agree_rfl _).bind ?_
      rintro next _ rfl
      exact agree_indexOffset h hm indices ht next

theorem agree_elementAddress (base : Operand) (indices : List Operand) :
    Agree Eq (elementAddress m f base indices) (elementAddress m' f' base indices) := by
  refine (h.evalPointer base).bind ?_
  rintro a _ rfl
  cases a with
  | none => exact .fault _
  | some a =>
      rcases h.procedure.typeOf? base with ⟨hx, hx'⟩ | ⟨type, type', hx, hx', ht⟩
      · simp only [hx, hx']
        exact agree_operand ..
      rcases ht.target? with ⟨ht, ht'⟩ | ⟨target, target', ht, ht', hty⟩
      · simp only [hx, hx', ht, ht']
        exact agree_operand ..
      · simp only [hx, hx', ht, ht']
        refine (agree_pointerOffset h hm indices hty _).bind ?_
        rintro offset _ rfl
        exact agree_rfl _

omit h in
/-- Related procedures are entered alike. -/
theorem agree_enter {i j : Nat} (hij : C i j) (args : List Value) :
    Agree (Frame.Alike S C) (enter m i args) (enter m' j args) := by
  obtain ⟨p, p', hp, hp', halike⟩ := hm.procedures i j hij
  have hparams := halike.params
  simp only [enter, hp, hp', hparams]
  split_ifs with hlength
  · exact .internal (.shape _) (.shape _)
  · rcases halike.blocks.cases 0 with ⟨hb, hb'⟩ | ⟨b, b', hb, hb', hblocks⟩
    · simp only [hb, hb']
      exact .internal (.shape _) (.shape _)
    · simp only [hb, hb']
      refine .ok ?_
      have hstart : Frame.Alike S C
          ⟨p, 0, b.instructions, Array.replicate p.temps.size none⟩
          ⟨p', 0, b'.instructions, Array.replicate p'.temps.size none⟩ :=
        ⟨halike, rfl, hblocks.instructions, by rw [halike.temps.size]⟩
      generalize p'.params.zip args = values
      generalize Frame.mk p 0 b.instructions (Array.replicate p.temps.size none) = g at hstart ⊢
      generalize Frame.mk p' 0 b'.instructions (Array.replicate p'.temps.size none) = g'
        at hstart ⊢
      induction values generalizing g g' with
      | nil => exact hstart
      | cons x values ih => exact ih _ _ (hstart.set x.1 x.2)

end operands

/-- Two actions are alike if they are one, or lead to frames or instructions that are alike. -/
inductive Action.Alike (S C : Nat → Nat → Prop) : Action → Action → Prop
  | skip : Action.Alike S C .skip .skip
  | assign (dest : Nat) (v : Value) : Action.Alike S C (.assign dest v) (.assign dest v)
  | allocate (dest size : Nat) : Action.Alike S C (.allocate dest size) (.allocate dest size)
  | write (a : Address) (v : Value) : Action.Alike S C (.write a v) (.write a v)
  | print (n : Int32) : Action.Alike S C (.print n) (.print n)
  | enter (dest : Nat) {callee callee' : Frame} : callee.Alike S C callee' →
      Action.Alike S C (.enter dest callee) (.enter dest callee')
  | goto (block : Nat) {instructions instructions' : List Instruction} :
      List.Forall₂ (Instruction.Alike S C) instructions instructions' →
      Action.Alike S C (.goto block instructions) (.goto block instructions')
  | leave (v : Value) : Action.Alike S C (.leave v) (.leave v)

section actions

variable {f f' : Frame} (h : f.Alike S C f')
include h

theorem agree_goto (block : Nat) :
    Agree (Action.Alike S C) (gotoAction f block) (gotoAction f' block) := by
  rw [gotoAction, gotoAction]
  rcases h.procedure.blocks.cases block with ⟨hb, hb'⟩ | ⟨b, b', hb, hb', hblocks⟩
  · rw [hb, hb']
    exact .internal (.shape _) (.shape _)
  · rw [hb, hb']
    exact .ok (.goto block hblocks.instructions)

theorem agree_terminator (t : Option Terminator) :
    Agree (Action.Alike S C) (terminatorAction f t) (terminatorAction f' t) := by
  cases t with
  | none => exact .internal (.shape _) (.shape _)
  | some t =>
      cases t with
      | jump target => exact agree_goto h target
      | branch condition onTrue onFalse =>
          refine (h.eval condition).bind ?_
          rintro v _ rfl
          split
          · exact agree_goto h onTrue
          · exact agree_goto h onFalse
          · exact agree_operand ..
      | ret x =>
          refine (h.eval x).bind ?_
          rintro v _ rfl
          exact .ok (.leave v)
      | halt message => exact .fault _

variable (hm : ModulesAlike S C m m')
include hm

theorem agree_instruction (memory : Memory) {i i' : Instruction} (hi : i.Alike S C i') :
    Agree (Action.Alike S C) (instructionAction m memory f i)
      (instructionAction m' memory f' i') := by
  cases hi with
  | alloca ht =>
      rw [instructionAction, instructionAction,
        hm.measure (Overflow.word_of_lt (by decide)) ht]
      refine (agree_rfl _).bind ?_
      rintro size _ rfl
      exact .ok (.allocate ..)
  | @call dest p p' args hp =>
      refine (h.evals args).bind ?_
      rintro values _ rfl
      exact (agree_enter hm hp values).bind fun _ _ hg => .ok (.enter dest hg)
  | same halloca hcall =>
      cases i with
      | alloca dest type => cases halloca
      | call dest p args => cases hcall
      | alloc dest size =>
          refine (h.evalInt size).bind ?_
          rintro n _ rfl
          split
          · exact .fault _
          · exact .ok (.allocate ..)
      | bitcast dest x =>
          refine (h.evalPointer x).bind ?_
          rintro a _ rfl
          exact .ok (.assign ..)
      | elementPtr dest base indices =>
          refine (agree_elementAddress h hm base indices).bind ?_
          rintro a _ rfl
          exact .ok (.assign ..)
      | load dest x =>
          refine (h.evalPointer x).bind ?_
          rintro a _ rfl
          refine (agree_rfl (memory.load a)).bind ?_
          rintro v _ rfl
          exact .ok (.assign ..)
      | store x y =>
          refine (h.evalPointer x).bind ?_
          rintro a _ rfl
          refine (h.eval y).bind ?_
          rintro v _ rfl
          refine (agree_rfl (memory.resolve a)).bind ?_
          rintro b _ rfl
          exact .ok (.write ..)
      | binary dest op x y =>
          refine (h.compute op x y).bind ?_
          rintro v _ rfl
          exact .ok (.assign ..)
      | print x =>
          refine (h.evalInt x).bind ?_
          rintro n _ rfl
          exact .ok (.print n)
      | comment text => exact .ok .skip

theorem agree_next (memory : Memory) :
    Agree (Action.Alike S C) (nextAction m memory f) (nextAction m' memory f') := by
  obtain ⟨p, block, todo, temps⟩ := f
  obtain ⟨p', block', todo', temps'⟩ := f'
  have htodo := h.todo
  cases htodo with
  | cons hi _ => exact agree_instruction h hm memory hi
  | nil =>
      obtain rfl : block = block' := h.block
      have hend : p.blocks[block]?.bind Block.terminator =
          p'.blocks[block]?.bind Block.terminator := by
        rcases h.procedure.blocks.cases block with ⟨hb, hb'⟩ | ⟨b, b', hb, hb', hblocks⟩
        · rw [hb, hb']
        · rw [hb, hb']
          exact hblocks.terminator
      simp only [nextAction, hend]
      exact agree_terminator h _

end actions

/-- Two runs are at states that are alike: worlds are the same, and so are the temporaries that the
results of calls go to. -/
structure State.Alike (S C : Nat → Nat → Prop) (s s' : State) : Prop where
  world : s.world = s'.world
  frame : s.frame.Alike S C s'.frame
  callers : List.Forall₂ (fun c c' => c.1 = c'.1 ∧ c.2.Alike S C c'.2) s.callers s'.callers

/-- Two runs go on alike, or stop with one world and results that agree. -/
inductive Progress.Alike (S C : Nat → Nat → Prop) : Progress → Progress → Prop
  | running {s s' : State} : s.Alike S C s' → Progress.Alike S C (.running s) (.running s')
  | stopped (w : World) {r r' : Except Fault Value} : Agree Eq r r' →
      Progress.Alike S C (.stopped w r) (.stopped w r')

section runs

variable {s s' : State}

theorem Frame.Alike.tail {f f' : Frame} (h : f.Alike S C f') :
    Frame.Alike S C ⟨f.procedure, f.block, f.todo.tail, f.temps⟩
      ⟨f'.procedure, f'.block, f'.todo.tail, f'.temps⟩ :=
  ⟨h.procedure, h.block, by simpa using List.forall₂_drop 1 h.todo, h.temps⟩

theorem State.Alike.perform (h : s.Alike S C s') {a a' : Action} (ha : a.Alike S C a') :
    Progress.Alike S C (s.perform a) (s'.perform a') := by
  obtain ⟨⟨memory, output⟩, ⟨p, block, todo, temps⟩, callers⟩ := s
  obtain ⟨⟨memory', output'⟩, ⟨p', block', todo', temps'⟩, callers'⟩ := s'
  obtain ⟨hworld, hframe, hcallers⟩ := h
  cases hworld
  cases ha with
  | skip => exact .running ⟨rfl, hframe.tail, hcallers⟩
  | assign dest v => exact .running ⟨rfl, hframe.tail.set dest v, hcallers⟩
  | allocate dest size => exact .running ⟨rfl, hframe.tail.set dest _, hcallers⟩
  | write a v => exact .running ⟨rfl, hframe.tail, hcallers⟩
  | print n => exact .running ⟨rfl, hframe.tail, hcallers⟩
  | enter dest hcallee => exact .running ⟨rfl, hcallee, .cons ⟨rfl, hframe.tail⟩ hcallers⟩
  | goto target hi =>
      exact .running ⟨rfl, ⟨hframe.procedure, rfl, hi, hframe.temps⟩, hcallers⟩
  | leave v =>
      cases hcallers with
      | nil => exact .stopped _ (.ok rfl)
      | @cons c c' callers callers' hc hcallers =>
          obtain ⟨dest, caller⟩ := c
          obtain ⟨dest', caller'⟩ := c'
          obtain ⟨rfl, hcaller⟩ := hc
          exact .running ⟨rfl, hcaller.set dest v, hcallers⟩

variable (hm : ModulesAlike S C m m')
include hm

theorem State.Alike.step (h : s.Alike S C s') :
    Progress.Alike S C (Machine.step m s) (Machine.step m' s') := by
  have hnext := agree_next h.frame hm s.world.memory
  rw [Machine.step, Machine.step, ← h.world]
  generalize nextAction m s.world.memory s.frame = r at hnext
  generalize nextAction m' s.world.memory s'.frame = r' at hnext
  cases hnext with
  | ok ha => exact h.perform ha
  | fault f => exact .stopped _ (.fault f)
  | internal hf hf' => exact .stopped _ (.internal hf hf')

/-- Runs that start alike leave one world and have used as many steps, and their results agree. -/
theorem State.Alike.run (limit : Nat) : ∀ (budget : Nat) {s s' : State}, s.Alike S C s' →
    (s.run m limit budget).world = (s'.run m' limit budget).world ∧
      (s.run m limit budget).budget = (s'.run m' limit budget).budget ∧
        Agree Eq (s.run m limit budget).result (s'.run m' limit budget).result := by
  intro budget
  induction budget with
  | zero => exact fun h => ⟨h.world, rfl, .fault _⟩
  | succ budget ih =>
      intro s s' h
      have hstep := h.step hm
      rw [State.run, State.run]
      generalize Machine.step m s = r at hstep
      generalize Machine.step m' s' = r' at hstep
      cases hstep with
      | running ht => exact ih ht
      | stopped w hr => exact ⟨rfl, rfl, hr⟩

omit hm in
theorem Agree.exitCode {r r' : Except Fault Value} (h : Agree Eq r r') (entry : String) :
    Agree Eq (Machine.exitCode entry r) (Machine.exitCode entry r') := by
  cases h with
  | ok h =>
      rw [h]
      exact agree_rfl _
  | fault f => exact .fault f
  | internal hf hf' => exact .internal hf hf'

/-- Related procedures that programs start with show the same, unless it is an internal fault. -/
theorem ModulesAlike.execute {entry : String} {i j : Nat} (hi : m.findProcedure? entry = some i)
    (hj : m'.findProcedure? entry = some j) (hij : C i j) (limit : Nat)
    (hresult : ∀ f, f.Internal → (execute m entry limit).result ≠ .error f) :
    execute m entry limit = execute m' entry limit := by
  have hagree : (Machine.execute m entry limit).output = (Machine.execute m' entry limit).output ∧
      Agree Eq (Machine.execute m entry limit).result (Machine.execute m' entry limit).result := by
    have henter := agree_enter hm hij []
    simp only [Machine.execute, hi, hj, Session.call]
    generalize enter m i [] = r at henter
    generalize enter m' j [] = r' at henter
    cases henter with
    | @ok frame frame' hframe =>
        have hstart : State.Alike S C ⟨{}, frame, []⟩ ⟨{}, frame', []⟩ := ⟨rfl, hframe, .nil⟩
        obtain ⟨hworld, _, hr⟩ := hstart.run hm limit limit
        exact ⟨congrArg (·.output.toList) hworld, hr.exitCode entry⟩
    | fault f => exact ⟨rfl, .fault f⟩
    | internal hf hf' => exact ⟨rfl, .internal hf hf'⟩
  have hr := hagree.2.eq hresult
  generalize Machine.execute m entry limit = e at hagree hr ⊢
  generalize Machine.execute m' entry limit = e' at hagree hr ⊢
  obtain ⟨output, result⟩ := e
  obtain ⟨output', result'⟩ := e'
  rw [Execution.mk.injEq]
  exact ⟨hagree.1, hr⟩

end runs

end ObjectLang.Machine
