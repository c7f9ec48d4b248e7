import Mathlib.Tactic
import ObjectLang.Machine.Run
import ObjectLang.Proofs.IR.Comments

/-!
# Runs without comments

A run of a module and a run of the module without its comments stand at the same place whenever the
first is not at a comment, and they do the same there. A comment takes a step of the first run and
none of the second, and changes nothing else. So the runs count different steps, and show the same
if both have enough of them.
-/
namespace ObjectLang.Machine

open IR

def Frame.uncommented (f : Frame) : Frame :=
  { f with procedure := f.procedure.uncommented, todo := withoutComments f.todo }

def Action.uncommented : Action → Action
  | .enter dest callee => .enter dest callee.uncommented
  | .goto block instructions => .goto block (withoutComments instructions)
  | action => action

def State.uncommented (s : State) : State :=
  { s with
    frame := s.frame.uncommented
    callers := s.callers.map fun c => (c.1, c.2.uncommented) }

def Progress.uncommented : Progress → Progress
  | .running s => .running s.uncommented
  | .stopped w result => .stopped w result

section operands

variable (m : Module) (f : Frame)

theorem eval_uncommented (x : Operand) : f.uncommented.eval x = f.eval x := by
  cases x <;> rfl

theorem evalInt_uncommented (x : Operand) : f.uncommented.evalInt x = f.evalInt x := by
  rw [Frame.evalInt, eval_uncommented]
  rfl

theorem evalPointer_uncommented (x : Operand) : f.uncommented.evalPointer x = f.evalPointer x := by
  rw [Frame.evalPointer, eval_uncommented]
  rfl

theorem compute_uncommented (op : Operation) (x y : Operand) :
    f.uncommented.compute op x y = f.compute op x y := by
  cases op <;> simp only [Frame.compute, eval_uncommented, evalInt_uncommented] <;> rfl

theorem structSizeWithin_uncommented (word : Nat → Except Breakdown Nat) (depth : Nat) :
    m.uncommented.structSizeWithin word depth = m.structSizeWithin word depth := by
  induction depth with
  | zero => rfl
  | succ depth ih =>
      funext id
      rw [Module.structSizeWithin, Module.structSizeWithin, ih]
      rfl

/-- Comments take no memory. -/
theorem measure_uncommented (word : Nat → Except Breakdown Nat) :
    m.uncommented.measure word = m.measure word :=
  funext fun type => congrArg (type.measure word) (structSizeWithin_uncommented m word _)

theorem sizeOf_uncommented (type : Ty) : m.uncommented.sizeOf type = m.sizeOf type := by
  rw [Module.sizeOf, measure_uncommented]
  rfl

theorem measureOffset_uncommented (word : Nat → Except Breakdown Nat) (struct index : Nat) :
    m.uncommented.measureOffset word struct index = m.measureOffset word struct index := by
  rw [Module.measureOffset, measure_uncommented]
  rfl

theorem strideOffset_uncommented (offset : Int) (n : Int32) (type : Ty) :
    strideOffset m.uncommented offset n type = strideOffset m offset n type := by
  rw [strideOffset, measure_uncommented]
  rfl

theorem indexOffset_uncommented (offset : Int) (type : Ty) (indices : List Operand) :
    indexOffset m.uncommented f.uncommented offset type indices =
      indexOffset m f offset type indices := by
  induction indices generalizing offset type with
  | nil => cases type <;> rfl
  | cons index indices ih =>
      cases type with
      | struct id =>
          simp only [indexOffset, ih, measureOffset_uncommented]
          rfl
      | array element length =>
          simp only [indexOffset, ih, evalInt_uncommented, strideOffset_uncommented]
      | _ => rfl

theorem pointerOffset_uncommented (offset : Int) (type : Ty) (indices : List Operand) :
    pointerOffset m.uncommented f.uncommented offset type indices =
      pointerOffset m f offset type indices := by
  cases indices with
  | nil => rfl
  | cons index indices =>
      simp only [pointerOffset, evalInt_uncommented, indexOffset_uncommented,
        strideOffset_uncommented]

theorem elementAddress_uncommented (base : Operand) (indices : List Operand) :
    elementAddress m.uncommented f.uncommented base indices = elementAddress m f base indices := by
  simp only [elementAddress, evalPointer_uncommented, pointerOffset_uncommented]
  rfl

theorem Frame.uncommented_assigned (values : List (Nat × Value)) (f : Frame) :
    values.foldl (fun f (x : Nat × Value) => f.set x.1 x.2) f.uncommented =
      (values.foldl (fun f (x : Nat × Value) => f.set x.1 x.2) f).uncommented := by
  induction values generalizing f with
  | nil => rfl
  | cons x values ih => exact ih (f.set x.1 x.2)

theorem enter_uncommented (callee : Nat) (args : List Value) :
    enter m.uncommented callee args = (enter m callee args).map Frame.uncommented := by
  rw [enter, enter, Module.uncommented, Array.getElem?_map]
  cases m.procedures[callee]? with
  | none => rfl
  | some p =>
      simp only [Option.map_some, Procedure.uncommented, Array.getElem?_map]
      split_ifs with hlength
      · rfl
      · cases p.blocks[0]? with
        | none => rfl
        | some entry =>
            exact congrArg Except.ok (Frame.uncommented_assigned _ ⟨p, 0, entry.instructions, _⟩)

end operands

section actions

variable (m : Module) (memory : Memory) (f : Frame)

theorem evals_uncommented (xs : List Operand) :
    xs.mapM f.uncommented.eval = xs.mapM f.eval :=
  congrArg (fun eval => xs.mapM eval) (funext (eval_uncommented f))

theorem instructionAction_uncommented (i : Instruction) :
    instructionAction m.uncommented memory f.uncommented i =
      (instructionAction m memory f i).map Action.uncommented := by
  cases i with
  | alloc dest size =>
      rw [instructionAction, instructionAction, evalInt_uncommented]
      cases f.evalInt size with
      | error e => rfl
      | ok n =>
          change (if n < 0 then _ else _) = Except.map _ (if n < 0 then _ else _)
          split_ifs <;> rfl
  | alloca dest type =>
      rw [instructionAction, instructionAction, measure_uncommented]
      cases counted (m.measure Profile.overflow.word type) <;> rfl
  | bitcast dest x =>
      rw [instructionAction, instructionAction, evalPointer_uncommented]
      cases f.evalPointer x <;> rfl
  | elementPtr dest base indices =>
      rw [instructionAction, instructionAction, elementAddress_uncommented]
      cases elementAddress m f base indices <;> rfl
  | load dest x =>
      rw [instructionAction, instructionAction, evalPointer_uncommented]
      cases f.evalPointer x with
      | error e => rfl
      | ok a =>
          change (memory.load a >>= _) = Except.map _ (memory.load a >>= _)
          cases memory.load a <;> rfl
  | store x y =>
      rw [instructionAction, instructionAction, evalPointer_uncommented, eval_uncommented]
      cases f.evalPointer x with
      | error e => rfl
      | ok a =>
          cases f.eval y with
          | error e => rfl
          | ok v =>
              change (memory.resolve a >>= _) = Except.map _ (memory.resolve a >>= _)
              cases memory.resolve a <;> rfl
  | binary dest op x y =>
      rw [instructionAction, instructionAction, compute_uncommented]
      cases f.compute op x y <;> rfl
  | call dest callee args =>
      rw [instructionAction, instructionAction, evals_uncommented]
      cases args.mapM f.eval with
      | error e => rfl
      | ok values =>
          change (enter m.uncommented callee values >>= _) =
            Except.map _ (enter m callee values >>= _)
          rw [enter_uncommented]
          cases enter m callee values <;> rfl
  | print x =>
      rw [instructionAction, instructionAction, evalInt_uncommented]
      cases f.evalInt x <;> rfl
  | comment text => rfl

theorem gotoAction_uncommented (block : Nat) :
    gotoAction f.uncommented block = (gotoAction f block).map Action.uncommented := by
  have hblock : f.uncommented.procedure.blocks[block]? =
      f.procedure.blocks[block]?.map Block.uncommented :=
    Array.getElem?_map ..
  rw [gotoAction, gotoAction, hblock]
  cases f.procedure.blocks[block]? <;> rfl

theorem terminatorAction_uncommented (t : Option Terminator) :
    terminatorAction f.uncommented t = (terminatorAction f t).map Action.uncommented := by
  cases t with
  | none => rfl
  | some t =>
      cases t with
      | jump target => exact gotoAction_uncommented f target
      | branch condition onTrue onFalse =>
          simp only [terminatorAction, eval_uncommented, gotoAction_uncommented]
          cases f.eval condition with
          | error e => rfl
          | ok v =>
              cases v with
              | bool b => cases b <;> rfl
              | _ => rfl
      | ret x =>
          rw [terminatorAction, terminatorAction, eval_uncommented]
          cases f.eval x <;> rfl
      | halt message => rfl

/-- Whether the next thing that a frame does is no comment. -/
def Frame.Acts (f : Frame) : Prop :=
  ∀ i ∈ f.todo.head?, i.isComment = false

variable {f}

theorem nextAction_uncommented (h : f.Acts) :
    nextAction m.uncommented memory f.uncommented =
      (nextAction m memory f).map Action.uncommented := by
  obtain ⟨p, block, todo, temps⟩ := f
  cases todo with
  | cons i rest =>
      have hnext := instructionAction_uncommented m memory ⟨p, block, i :: rest, temps⟩ i
      rw [Frame.uncommented, withoutComments_cons (h i rfl)] at hnext ⊢
      exact hnext
  | nil =>
      have hblock : p.uncommented.blocks[block]? = p.blocks[block]?.map Block.uncommented :=
        Array.getElem?_map ..
      simp only [nextAction, Frame.uncommented, hblock, Option.bind_map]
      exact terminatorAction_uncommented ⟨p, block, [], temps⟩ _

theorem Frame.Acts.tail (h : f.Acts) :
    (withoutComments f.todo).tail = withoutComments f.todo.tail := by
  cases htodo : f.todo with
  | nil => rfl
  | cons i rest =>
      rw [withoutComments_cons (h i (by rw [htodo]; rfl)), List.tail_cons, List.tail_cons]

end actions

section runs

variable {m : Module} {s : State}

theorem State.perform_uncommented (h : s.frame.Acts) (action : Action) :
    s.uncommented.perform action.uncommented = (s.perform action).uncommented := by
  obtain ⟨⟨memory, output⟩, ⟨p, block, todo, temps⟩, callers⟩ := s
  have htail := h.tail
  cases action with
  | goto => rfl
  | leave v => cases callers <;> rfl
  | _ =>
      simp [State.perform, Action.uncommented, Progress.uncommented, State.uncommented,
        Frame.uncommented, Frame.set, htail]

/-- What is no comment is done alike with and without the comments. -/
theorem step_uncommented (h : s.frame.Acts) :
    step m.uncommented s.uncommented = (step m s).uncommented := by
  have hnext : nextAction m.uncommented s.uncommented.world.memory s.uncommented.frame =
      (nextAction m s.world.memory s.frame).map Action.uncommented :=
    nextAction_uncommented m s.world.memory h
  rw [step, step, hnext]
  cases nextAction m s.world.memory s.frame with
  | error fault => rfl
  | ok action => exact State.perform_uncommented h action

/-- A comment is passed. -/
theorem passes_comment (h : ¬ s.frame.Acts) :
    ∃ t, step m s = .running t ∧ t.uncommented = s.uncommented := by
  obtain ⟨⟨memory, output⟩, ⟨p, block, todo, temps⟩, callers⟩ := s
  cases todo with
  | nil => exact absurd nofun h
  | cons i rest =>
      cases i with
      | comment text => exact ⟨_, rfl, rfl⟩
      | _ => exact absurd (fun j hj => by cases hj; rfl) h

/-- Two runs that are not cut short end alike, with and without the comments. -/
theorem run_uncommented {limit limit' : Nat} : ∀ (budget budget' : Nat) (s : State),
    (∀ n, (s.run m limit budget).result ≠ .error (.stepLimit n)) →
    (∀ n, (s.uncommented.run m.uncommented limit' budget').result ≠ .error (.stepLimit n)) →
    (s.run m limit budget).world = (s.uncommented.run m.uncommented limit' budget').world ∧
      (s.run m limit budget).result = (s.uncommented.run m.uncommented limit' budget').result := by
  intro budget
  induction budget with
  | zero => exact fun _ _ h => absurd rfl (h limit)
  | succ budget ih =>
      intro budget' s h h'
      by_cases hacts : s.frame.Acts
      · cases budget' with
        | zero => exact absurd rfl (h' limit')
        | succ budget' =>
            simp only [State.run, step_uncommented hacts] at h h' ⊢
            cases hs : step m s with
            | running t =>
                rw [hs] at h h'
                exact ih budget' t h h'
            | stopped w r => exact ⟨rfl, rfl⟩
      · obtain ⟨t, ht, hsame⟩ := passes_comment (m := m) hacts
        rw [State.run, ht] at h ⊢
        rw [← hsame] at h' ⊢
        exact ih budget' t h h'

theorem findProcedure?_uncommented (m : Module) (name : String) :
    m.uncommented.findProcedure? name = m.findProcedure? name := by
  simp only [Module.findProcedure?, Module.uncommented, Array.size_map, Array.getElem?_map]
  congr 1
  funext id
  cases m.procedures[id]? <;> rfl

/-- A whole run shows the same with and without the comments, if it is not cut short. -/
theorem execute_uncommented (m : Module) (entry : String) {limit limit' : Nat}
    (h : ∀ n, (execute m entry limit).result ≠ .error (.stepLimit n))
    (h' : ∀ n, (execute m.uncommented entry limit').result ≠ .error (.stepLimit n)) :
    execute m entry limit = execute m.uncommented entry limit' := by
  simp only [execute, findProcedure?_uncommented] at h h' ⊢
  cases hfound : m.findProcedure? entry with
  | none => rfl
  | some id =>
      simp only [hfound, Session.call, enter_uncommented] at h h' ⊢
      cases hframe : enter m id [] with
      | error fault => rfl
      | ok frame =>
          simp only [hframe, Except.map] at h h' ⊢
          obtain ⟨hworld, hresult⟩ := @run_uncommented m limit limit' limit limit'
            ⟨{}, frame, []⟩ (fun n heq => h n (congrArg (exitCode entry) heq))
              fun n heq => h' n (congrArg (exitCode entry) heq)
          rw [Execution.mk.injEq]
          exact ⟨congrArg (·.output.toList) hworld, congrArg (exitCode entry) hresult⟩

end runs
end ObjectLang.Machine
