import Mathlib.Tactic
import ObjectLang.Proofs.Analysis.Recorded
import ObjectLang.Proofs.IR.Discipline
import ObjectLang.Proofs.Layout.Standing
import ObjectLang.Proofs.Lowering.Procedures

/-!
# The stages of making code

The making of code from some state on misses no fact, and what it gives and the state in the end
have a property. The property of steps in a row is found step by step.

What holds at every stage while the body of a function becomes code: what analysis and layout have
found out stands for the program, the builder keeps the discipline of open and pending blocks, and
every variable has a slot. Each operation of the builder leads from one stage to another and leaves
one instruction or terminator where the builder was.
-/
namespace ObjectLang

section does

variable {α β : Type}

/-- From a state on, nothing is missing, and the value and the state in the end are as told. -/
def Does (x : Lower α) (s : LowerState) (Q : α → LowerState → Prop) : Prop :=
  ∃ a s', x s = .ok (a, s') ∧ Q a s'

variable {x : Lower α} {s : LowerState} {Q Q' : α → LowerState → Prop}

theorem Does.mono (h : Does x s Q) (hQ : ∀ a s', Q a s' → Q' a s') : Does x s Q' := by
  obtain ⟨a, s', hx, hq⟩ := h
  exact ⟨a, s', hx, hQ a s' hq⟩

theorem Does.bind {f : α → Lower β} {R : β → LowerState → Prop} (h : Does x s Q)
    (hf : ∀ a s', Q a s' → Does (f a) s' R) : Does (x >>= f) s R := by
  obtain ⟨a, s', hx, hq⟩ := h
  obtain ⟨b, s'', hb, hr⟩ := hf a s' hq
  refine ⟨b, s'', ?_, hr⟩
  change (x s >>= fun r => f r.1 r.2) = _
  rw [hx]
  exact hb

/-- What is known of the end whenever nothing is missing. -/
theorem Does.and {P : α → LowerState → Prop} (h : Does x s Q)
    (hP : ∀ a s', x s = .ok (a, s') → P a s') : Does x s fun a s' => Q a s' ∧ P a s' := by
  obtain ⟨a, s', hx, hq⟩ := h
  exact ⟨a, s', hx, hq, hP a s' hx⟩

/-- Two steps, where the second is looked at from where the first one leads. -/
theorem Does.seq {f : α → Lower β} {R : β → LowerState → Prop}
    (h : Does x s fun a s' => Does (f a) s' R) : Does (x >>= f) s R :=
  h.bind fun _ _ hf => hf

theorem does_pure {a : α} (h : Q a s) : Does (pure a) s Q :=
  ⟨a, s, rfl, h⟩

theorem does_known {fact : Option α} {a : α} {missing : MissingFact} (hf : fact = some a)
    (h : Q a s) : Does (known fact missing) s Q := by
  subst hf
  exact ⟨a, s, rfl, h⟩

theorem does_get {Q : LowerState → LowerState → Prop} (h : Q s s) :
    Does (get : Lower LowerState) s Q :=
  ⟨s, s, rfl, h⟩

theorem does_modify {f : LowerState → LowerState} {Q : PUnit → LowerState → Prop}
    (h : Q ⟨⟩ (f s)) : Does (modify f : Lower PUnit) s Q :=
  ⟨⟨⟩, f s, rfl, h⟩

theorem does_onTarget {build : Build α}
    (h : Q (build s.target).1 { s with target := (build s.target).2 }) :
    Does (onTarget build) s Q :=
  ⟨_, _, rfl, h⟩

theorem does_compute {f : IR.Builder → α × IR.Builder}
    (h : Q (f s.builder).1 { s with builder := (f s.builder).2 }) : Does (compute f) s Q :=
  ⟨_, _, rfl, h⟩

theorem does_perform {f : IR.Builder → IR.Builder} {Q : PUnit → LowerState → Prop}
    (h : Q ⟨⟩ { s with builder := f s.builder }) : Does (perform f) s Q :=
  ⟨_, _, rfl, h⟩

theorem does_typeOfOperand {x : IR.Operand} {Q : IR.Ty → LowerState → Prop}
    (h : Q (s.builder.typeOf x) s) : Does (typeOfOperand x) s Q :=
  ⟨_, _, rfl, h⟩

/-- What is done for each of some things, one after the other, keeps what each step keeps. -/
theorem does_forM {f : α → Lower PUnit} {I : List α → LowerState → Prop} {l : List α}
    (hf : ∀ a rest s, a :: rest <:+ l → I (a :: rest) s → Does (f a) s fun _ s' => I rest s')
    (h : I l s) : Does (l.forM f) s fun _ s' => I [] s' := by
  induction l generalizing s with
  | nil => exact does_pure h
  | cons a rest ih =>
      change Does (f a >>= fun _ => rest.forM f) s _
      refine (hf a rest s List.suffix_rfl h).bind fun _ s' hs' => ?_
      exact ih (fun b rest' t hsuffix => hf b rest' t (hsuffix.trans (List.suffix_cons _ _))) hs'

end does

open IR

/-- What the code of a function is made from: the program, the body that the function has, the type
of what it returns, the class that it is a method of, and its variables, each with the temporary
that points to it. -/
structure Job where
  program : Program
  printName : String
  body : Body
  result : PlainType
  current : Option String := none
  vars : List (VarDecl × Nat) := []

/-- The temporary that is made next. -/
def LowerState.next (s : LowerState) : Nat :=
  s.builder.procedure.temps.size

/-- How many procedures there are. -/
def Target.size (T : Target) : Nat :=
  T.module.procedures.size

/-- No component has two allocators. -/
def LowerState.Distinct (s : LowerState) : Prop :=
  s.allocators.Pairwise fun x y => x.1.same y.1 = false

/-- The procedures that were added are those of the allocators that were added. -/
def LowerState.Declares (s s' : LowerState) : Prop :=
  ∃ k, s'.target.size = s.target.size + k ∧
    s'.allocators.map Prod.snd = s.allocators.map Prod.snd ++ List.range' s.target.size k ∧
      (s.Distinct → s'.Distinct)

/-- The making of code has gone on from one state to another. -/
structure LowerState.Leads (s s' : LowerState) : Prop where
  procedure : s.builder.procedure.Within s'.builder.procedure
  target : s.target.Leads s'.target
  allocators : s.allocators <+: s'.allocators
  declares : s.Declares s'

namespace Job

/-- A type of the code represents a type of the program. -/
abbrev Represents (J : Job) (T : Target) (t : PlainType) (ty : Ty) : Prop :=
  ObjectLang.Represents J.program J.body.analysis.arrays J.body.layouts.structs T t ty

/-- An operand has a type that represents a type of the program. -/
def Typed (J : Job) (s : LowerState) (x : Operand) (t : PlainType) : Prop :=
  ∃ ty, s.builder.procedure.typeOf? x = some ty ∧ J.Represents s.target t ty

/-- An operand points to something of a type that represents a type of the program. -/
def Addresses (J : Job) (s : LowerState) (x : Operand) (t : PlainType) : Prop :=
  ∃ ty, s.builder.procedure.typeOf? x = some (.pointer ty) ∧ J.Represents s.target t ty

/-- The procedure that makes arrays with a component was declared. -/
def Allocates (J : Job) (T : Target) (component : ValueType) (id : Nat) (t : PlainType) : Prop :=
  component.Denotes J.program J.body.analysis.arrays t ∧
    ∃ returnType, T.module.procedures[id]? = some (allocatorSkeleton component returnType) ∧
      J.Represents T (.array t) returnType

/-- What holds at every stage. -/
structure Stage (J : Job) (pending : List Nat) (s : LowerState) : Prop where
  wellFormed : J.program.WellFormed J.printName
  canonical : J.body.analysis.arrays.Canonical J.program
  fieldTypes : ∀ c ∈ J.program.classes, ∀ x ∈ c.fields,
    x.type.Recorded J.body.analysis.arrays J.body.analysis.notes J.program
  layouts : J.body.layouts.Stands J.program J.body.analysis.arrays s.target
  interfaces : J.body.layouts.Interfaces J.program s.target.module
  target : s.target.Sound J.program J.body.analysis.arrays J.body.layouts.structs
  allocators : ∀ x ∈ s.allocators, ∃ t, J.Allocates s.target x.1 x.2 t
  builder : s.builder.Ready s.target.module pending
  result : J.Represents s.target J.result s.builder.procedure.returnType
  slotTypes : ∀ dest type, .alloca dest type ∈ s.builder.procedure.slots →
    type.Flat ∧ 0 < type.size
  receiver : ∀ c, J.current = some c → ∃ t, J.body.this = some t ∧ J.Typed s (.temp t) (.object c)
  slots : J.body.slots = J.vars.map fun x => (x.1.id, x.2)
  vars : ∀ x ∈ J.vars, J.Addresses s (.temp x.2) x.1.plain ∧
    ∃ type, .alloca x.2 type ∈ s.builder.procedure.slots
  ids : (J.vars.map (·.1.id)).Nodup
  temps : (J.vars.map Prod.snd).Nodup

end Job

section

variable {J : Job} {pending : List Nat} {s s' s'' : LowerState} {x : Operand} {t : PlainType}

/-- No procedure was added. -/
theorem LowerState.Declares.none (hsize : s'.target.size = s.target.size)
    (h : s'.allocators = s.allocators) : s.Declares s' :=
  ⟨0, hsize, by rw [h, List.range'_zero, List.append_nil], by
    rw [LowerState.Distinct, LowerState.Distinct, h]
    exact id⟩

theorem LowerState.Declares.trans (h : s.Declares s') (h' : s'.Declares s'') :
    s.Declares s'' := by
  obtain ⟨k, hsize, hids, hdistinct⟩ := h
  obtain ⟨k', hsize', hids', hdistinct'⟩ := h'
  refine ⟨k + k', by omega, ?_, hdistinct' ∘ hdistinct⟩
  rw [hids', hids, hsize, List.append_assoc, List.range'_append_1]

namespace LowerState.Leads

theorem rfl : s.Leads s :=
  ⟨.rfl, .rfl, List.prefix_refl _, .none (Eq.refl _) (Eq.refl _)⟩

theorem trans (h : s.Leads s') (h' : s'.Leads s'') : s.Leads s'' :=
  ⟨h.procedure.trans h'.procedure, h.target.trans h'.target, h.allocators.trans h'.allocators,
    h.declares.trans h'.declares⟩

theorem next_le (h : s.Leads s') : s.next ≤ s'.next :=
  h.procedure.size_temps

theorem typeOf? (h : s.Leads s') {type : Ty}
    (hx : s.builder.procedure.typeOf? x = some type) :
    s'.builder.procedure.typeOf? x = some type :=
  h.procedure.typeOf? hx

theorem passes (h : s.Leads s') {type : Ty} (hx : s.builder.procedure.Passes x type) :
    s'.builder.procedure.Passes x type :=
  hx.mono h.procedure.grows

end LowerState.Leads

namespace Job

theorem Typed.mono (h : J.Typed s x t) (hl : s.Leads s') : J.Typed s' x t := by
  obtain ⟨ty, hty, hr⟩ := h
  exact ⟨ty, hl.procedure.typeOf? hty, hr.mono hl.target.arrays⟩

theorem Typed.fits (h : J.Typed s x t) : x.Fits s.next := by
  obtain ⟨ty, hty, _⟩ := h
  exact fits_of_typeOf? hty

theorem Typed.int (h : J.Typed s x .int) : s.builder.procedure.typeOf? x = some .int := by
  obtain ⟨_, hty, hr⟩ := h
  cases hr
  exact hty

theorem Typed.bool (h : J.Typed s x .bool) : s.builder.procedure.typeOf? x = some .bool := by
  obtain ⟨_, hty, hr⟩ := h
  cases hr
  exact hty

theorem Allocates.mono {T T' : Target} {V : ValueType} {id : Nat} (h : J.Allocates T V id t)
    (hT : T.Leads T') : J.Allocates T' V id t := by
  obtain ⟨hV, returnType, hp, hr⟩ := h
  exact ⟨hV, returnType, hT.procedures id _ hp, hr.mono hT.arrays⟩

theorem Allocates.interface? {T : Target} {V : ValueType} {id : Nat} (h : J.Allocates T V id t) :
    ∃ returnType, T.module.interface? id = some ⟨[.int], returnType⟩ ∧
      J.Represents T (.array t) returnType := by
  obtain ⟨_, returnType, hp, hr⟩ := h
  refine ⟨returnType, ?_, hr⟩
  rw [Module.interface?, hp]
  rfl

theorem Addresses.mono (h : J.Addresses s x t) (hl : s.Leads s') : J.Addresses s' x t := by
  obtain ⟨ty, hty, hr⟩ := h
  exact ⟨ty, hl.procedure.typeOf? hty, hr.mono hl.target.arrays⟩

theorem Addresses.fits (h : J.Addresses s x t) : x.Fits s.next := by
  obtain ⟨ty, hty, _⟩ := h
  exact fits_of_typeOf? hty

/-- A stage after another one, where the builder keeps its discipline. -/
theorem Stage.lead {pending' : List Nat} (h : J.Stage pending s) (hl : s.Leads s')
    (htarget : s'.target.Sound J.program J.body.analysis.arrays J.body.layouts.structs)
    (hallocators : ∀ x ∈ s'.allocators, x ∈ s.allocators ∨ ∃ t, J.Allocates s'.target x.1 x.2 t)
    (hbuilder : s'.builder.Ready s'.target.module pending')
    (hslots : ∀ dest type, .alloca dest type ∈ s'.builder.procedure.slots →
      .alloca dest type ∈ s.builder.procedure.slots ∨ type.Flat ∧ 0 < type.size) :
    J.Stage pending' s' where
  wellFormed := h.wellFormed
  canonical := h.canonical
  fieldTypes := h.fieldTypes
  layouts := h.layouts.mono hl.target.toKeeps
  interfaces := h.interfaces.mono hl.target.grows
  target := htarget
  allocators x hx := by
    rcases hallocators x hx with hx | hx
    · obtain ⟨t, ht⟩ := h.allocators x hx
      exact ⟨t, ht.mono hl.target⟩
    · exact hx
  builder := hbuilder
  result := hl.procedure.returnType ▸ h.result.mono hl.target.arrays
  slotTypes dest type hd := (hslots dest type hd).elim (h.slotTypes dest type) id
  receiver c hc := by
    obtain ⟨t, ht, hty⟩ := h.receiver c hc
    exact ⟨t, ht, hty.mono hl⟩
  slots := h.slots
  vars x hx := by
    obtain ⟨hty, type, hs⟩ := h.vars x hx
    exact ⟨hty.mono hl, type, hl.procedure.slots.subset hs⟩
  ids := h.ids
  temps := h.temps

/-- A stage after an operation of the builder that makes no slot. -/
theorem Stage.build {pending' : List Nat} {b : Builder} (h : J.Stage pending s)
    (hw : s.builder.procedure.Within b.procedure) (hbuilder : b.Ready s.target.module pending')
    (hslots : b.procedure.slots = s.builder.procedure.slots) :
    s.Leads { s with builder := b } ∧ J.Stage pending' { s with builder := b } := by
  have hl : s.Leads { s with builder := b } := ⟨hw, .rfl, List.prefix_refl _, .none rfl rfl⟩
  exact ⟨hl, h.lead hl h.target (fun _ hx => .inl hx) hbuilder fun _ _ hd => .inl (hslots ▸ hd)⟩

end Job

/-- Blocks or slots were made, and the builder is where it was. -/
structure LowerState.Stays (s s' : LowerState) : Prop where
  leads : s.Leads s'
  current : s'.builder.current = s.builder.current
  point : ∀ p, s'.builder.point p = s.builder.point p

/-- An instruction was put where the builder was. -/
structure LowerState.Emits (s : LowerState) (i : Instruction) (s' : LowerState) : Prop where
  leads : s.Leads s'
  current : s'.builder.current = s.builder.current
  point : ∀ p, s'.builder.procedure.Within p → ∀ c, s.builder.current = some c →
    ∃ rest, s.builder.point p = (c, i :: rest) ∧ s'.builder.point p = (c, rest)

/-- An instruction was put where the builder was, which assigns a new temporary. -/
structure LowerState.Defines (s : LowerState) (i : Instruction) (type : Ty) (s' : LowerState) :
    Prop extends s.Emits i s' where
  typed : s'.builder.procedure.typeOf? (.temp s.next) = some type
  free : ∀ p, s'.builder.procedure.Within p → ∀ type', .alloca s.next type' ∉ p.slots

/-- A terminator was put where the builder was. -/
structure LowerState.Ends (s : LowerState) (t : Terminator) (s' : LowerState) : Prop where
  leads : s.Leads s'
  current : s'.builder.current = none
  point : ∀ p, s'.builder.procedure.Within p → ∀ c, s.builder.current = some c →
    s.builder.point p = (c, []) ∧ ∃ b, p.blocks[c]? = some b ∧ b.terminator = some t

/-- The builder was switched to a block, which starts with what is emitted next. -/
structure LowerState.Enters (s : LowerState) (block : Nat) (s' : LowerState) : Prop where
  leads : s.Leads s'
  current : s'.builder.current = some block
  point : ∀ p, s'.builder.procedure.Within p →
    ∃ b, p.blocks[block]? = some b ∧ s'.builder.point p = (block, b.instructions)

section operations

variable {α : Type} (h : J.Stage pending s)
include h

theorem slots_emit {i : Instruction} (hi : i.isAlloca = false) :
    (s.builder.emit i).procedure.slots = s.builder.procedure.slots := by
  have hw := h.builder.within_emit hi
  obtain ⟨b, hb⟩ : ∃ b, s.builder.procedure.blocks[0]? = some b :=
    ⟨_, Array.getElem?_eq_getElem h.builder.entry⟩
  rw [Builder.emit, Builder.procedure_record]
  cases hc : s.builder.current with
  | none => rfl
  | some c =>
      simp only [Procedure.slots, Procedure.modifyBlock, Array.getElem?_modify, hb,
        Option.map_some]
      split_ifs
      · exact Block.slots_push hi
      · rfl

theorem does_emit {i : Instruction} {Q : PUnit → LowerState → Prop} (hi : i.isAlloca = false)
    (hfits : i.Fits s.target.module s.builder.procedure)
    (hQ : ∀ s', s.Emits i s' → J.Stage pending s' → Q ⟨⟩ s') : Does (perform (·.emit i)) s Q := by
  have hready := h.builder.emit hi hfits
  obtain ⟨hl, hs⟩ := h.build (h.builder.within_emit hi) hready (slots_emit h hi)
  refine does_perform (hQ _ ⟨hl, ?_, fun p hp c hc => ?_⟩ hs)
  · simp only [Builder.emit]
    split <;> simp_all
  · exact h.builder.point_emit hc hi hp

/-- The temporaries of the slots are there. -/
theorem slot_lt {dest : Nat} {type : Ty} (hs : .alloca dest type ∈ s.builder.procedure.slots) :
    dest < s.next := by
  have hb := Array.getElem?_eq_getElem h.builder.entry
  rw [Procedure.slots, hb] at hs
  have hm := List.takeWhile_subset _ hs
  exact ((h.builder.fits 0 _ hb).instructions _ hm).dest_lt rfl

theorem does_define {g : Builder → Operand × Builder} (type : Ty) (f : Nat → Instruction)
    {Q : Operand → LowerState → Prop} (hg : g s.builder = s.builder.define type f)
    (hi : (f s.next).isAlloca = false)
    (hfits : ∀ p : Procedure, s.builder.procedure.Grows p → p.typeOf? (.temp s.next) = some type →
      (f s.next).Fits s.target.module p)
    (hQ : ∀ s', s.Defines (f s.next) type s' → J.Stage pending s' → Q (.temp s.next) s') :
    Does (compute g) s Q := by
  -- First the temporary is made, and then the instruction that assigns it is emitted.
  obtain ⟨hl, hs⟩ := h.build (b := (s.builder.newTemp type).2)
    (Builder.Ready.within_newTemp type) (h.builder.newTemp type) rfl
  have hnext : (s.builder.newTemp type).2.procedure.temps.size = s.next + 1 := by
    simp [Builder.procedure_newTemp, Procedure.newTemp, LowerState.next]
  have htype : (s.builder.newTemp type).2.procedure.typeOf? (.temp s.next) = some type := by
    simp [Builder.procedure_newTemp, Procedure.newTemp, LowerState.next, Procedure.typeOf?]
  obtain ⟨hl', hs'⟩ := hs.build (hs.builder.within_emit hi)
    (hs.builder.emit hi (hfits _ hl.procedure.grows htype)) (slots_emit hs hi)
  apply does_compute
  rw [hg]
  refine hQ _ ⟨⟨hl.trans hl', ?_, fun p hp c hc => ?_⟩, ?_, fun p hp type' hm => ?_⟩ hs'
  · simp only [Builder.define, Builder.emit]
    split <;> simp_all [Builder.newTemp]
  · exact hs.builder.point_emit hc hi hp
  · exact hl'.typeOf? htype
  · rcases hp.fresh _ _ hm with hm | hle
    · have hm' : Instruction.alloca s.next type' ∈ s.builder.procedure.slots := by
        rw [← show _ = s.builder.procedure.slots from slots_emit hs hi]
        exact hm
      exact Nat.lt_irrefl _ (slot_lt h hm')
    · have := hl'.next_le
      simp only [LowerState.next] at this hnext hle
      rw [hnext] at this
      exact Nat.lt_irrefl _ (Nat.lt_of_lt_of_le this hle)

theorem does_newBlock {name : String} {Q : Nat → LowerState → Prop}
    (hQ : ∀ s', s.Stays s' → J.Stage (s.builder.procedure.blocks.size :: pending) s' →
      Q s.builder.procedure.blocks.size s') : Does (compute (·.newBlock name)) s Q := by
  have hslots : (s.builder.newBlock name).2.procedure.slots = s.builder.procedure.slots := by
    refine Procedure.slots_congr ?_
    simp only [Builder.procedure_newBlock, Procedure.newBlock]
    rw [Array.getElem?_push_lt h.builder.entry]
    exact (Array.getElem?_eq_getElem h.builder.entry).symm
  obtain ⟨hl, hs⟩ := h.build (h.builder.within_newBlock name) (h.builder.newBlock name) hslots
  refine does_compute (hQ _ ⟨hl, rfl, fun p => ?_⟩ hs)
  have hlt : s.builder.current.getD 0 < s.builder.procedure.blocks.size := by
    cases hc : s.builder.current with
    | none => exact h.builder.entry
    | some c => exact (h.builder.current c hc).1
  have hcode : (s.builder.newBlock name).2.procedure.code (s.builder.current.getD 0) =
      s.builder.procedure.code (s.builder.current.getD 0) := by
    simp only [Builder.procedure_newBlock, Procedure.newBlock, Procedure.code]
    rw [Array.getElem?_push_lt hlt, Array.getElem?_eq_getElem hlt]
  change (_, List.drop
    ((s.builder.newBlock name).2.procedure.code (s.builder.current.getD 0)).length _) = _
  rw [hcode]
  rfl

theorem does_terminate {t : Terminator} {Q : PUnit → LowerState → Prop}
    (hfits : t.Fits s.builder.procedure)
    (hQ : ∀ s', s.Ends t s' → J.Stage pending s' → Q ⟨⟩ s') :
    Does (perform (·.terminate t)) s Q := by
  have hslots : (s.builder.terminate t).procedure.slots = s.builder.procedure.slots := by
    rw [Builder.terminate, Builder.procedure_record]
    cases hc : s.builder.current with
    | none => rfl
    | some c =>
        simp only [Procedure.slots, Procedure.modifyBlock, Array.getElem?_modify]
        split_ifs
        · cases s.builder.procedure.blocks[0]? <;> rfl
        · rfl
  obtain ⟨hl, hs⟩ := h.build h.builder.within_terminate (h.builder.terminate hfits) hslots
  refine does_perform (hQ _ ⟨hl, ?_, fun p hp c hc => h.builder.point_terminate hc hp⟩ hs)
  simp only [Builder.terminate]
  split <;> simp_all

theorem does_slot {type : Ty} (htype : type.Flat ∧ 0 < type.size) {Q : Nat → LowerState → Prop}
    (hQ : ∀ s', s.Stays s' → s'.builder.procedure.typeOf? (.temp s.next) = some (.pointer type) →
      .alloca s.next type ∈ s'.builder.procedure.slots → J.Stage pending s' → Q s.next s') :
    Does (compute (·.slot type)) s Q := by
  have hb := Array.getElem?_eq_getElem h.builder.entry
  have hslots : (s.builder.slot type).2.procedure.slots =
      s.builder.procedure.slots ++ [.alloca s.next type] := Procedure.slots_slot hb
  have hl : s.Leads { s with builder := (s.builder.slot type).2 } :=
    ⟨h.builder.within_slot type, .rfl, List.prefix_refl _, .none rfl rfl⟩
  have hs := h.lead hl h.target (fun _ hx => .inl hx) (h.builder.slot type) fun dest ty hd => by
    rw [hslots, List.mem_append, List.mem_singleton] at hd
    rcases hd with hd | hd
    · exact .inl hd
    · cases hd
      exact .inr htype
  refine does_compute (hQ _ ⟨hl, rfl, fun p => ?_⟩ ?_ ?_ hs)
  · have hcode : (s.builder.slot type).2.procedure.code (s.builder.current.getD 0) =
        s.builder.procedure.code (s.builder.current.getD 0) := by
      simp only [Builder.procedure_slot, Procedure.slot, Procedure.newTemp, Procedure.code,
        Procedure.modifyBlock, Array.getElem?_modify]
      split_ifs with hi
      · cases hc : s.builder.procedure.blocks[s.builder.current.getD 0]? with
        | none => rfl
        | some c => exact Block.code_pushSlot rfl
      · rfl
    change (_, List.drop
      ((s.builder.slot type).2.procedure.code (s.builder.current.getD 0)).length _) = _
    rw [hcode]
    rfl
  · simp [Builder.procedure_slot, Procedure.slot, Procedure.newTemp, Procedure.modifyBlock,
      LowerState.next, Procedure.typeOf?]
  · rw [hslots]
    exact List.mem_append_right _ (List.mem_singleton_self _)

end operations

theorem does_switchTo {block : Nat} (h : J.Stage (block :: pending) s)
    (hc : s.builder.current = none) {Q : PUnit → LowerState → Prop}
    (hQ : ∀ s', s.Enters block s' → J.Stage pending s' → Q ⟨⟩ s') :
    Does (perform (·.switchTo block)) s Q := by
  obtain ⟨hl, hs⟩ := h.build (b := s.builder.switchTo block) .rfl
    (h.builder.switchTo hc) rfl
  exact does_perform (hQ _ ⟨hl, rfl, fun p hp =>
    h.builder.point_switchTo (List.mem_cons_self ..) hp⟩ hs)

theorem Job.Stage.perm {pending' : List Nat} (h : J.Stage pending s)
    (hp : pending.Perm pending') : J.Stage pending' s :=
  { h with builder := h.builder.perm hp }

end

end ObjectLang
