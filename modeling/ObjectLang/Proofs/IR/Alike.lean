import Mathlib.Tactic
import ObjectLang.IR.Builder
import ObjectLang.IR.Size

/-!
# Code that is alike

Two procedures are alike if they differ in nothing but names and in the numbers by which they tell
structs and procedures. Which number on one side goes with which on the other is given by two
relations. Every operation of the builder keeps two procedures alike, so what is built by the same
operations is alike.
-/
namespace ObjectLang.IR

section entries

variable {α β : Type} {R R' : α → β → Prop} {xs : Array α} {ys : Array β}

/-- Two arrays are of one length, and their entries are related. -/
structure Entrywise (R : α → β → Prop) (xs : Array α) (ys : Array β) : Prop where
  size : xs.size = ys.size
  get : ∀ (i : Nat) (x : α) (y : β), xs[i]? = some x → ys[i]? = some y → R x y

namespace Entrywise

theorem mono (h : Entrywise R xs ys) (hR : ∀ x y, R x y → R' x y) : Entrywise R' xs ys :=
  ⟨h.size, fun i x y hx hy => hR x y (h.get i x y hx hy)⟩

theorem empty : Entrywise R #[] #[] :=
  ⟨rfl, nofun⟩

/-- Entries are there on both sides or on none. -/
theorem cases (h : Entrywise R xs ys) (i : Nat) :
    (xs[i]? = none ∧ ys[i]? = none) ∨ ∃ x y, xs[i]? = some x ∧ ys[i]? = some y ∧ R x y := by
  rcases Nat.lt_or_ge i xs.size with hi | hi
  · have hx := Array.getElem?_eq_getElem hi
    have hy := Array.getElem?_eq_getElem (h.size ▸ hi)
    exact .inr ⟨_, _, hx, hy, h.get i _ _ hx hy⟩
  · exact .inl ⟨Array.getElem?_eq_none hi, Array.getElem?_eq_none (h.size ▸ hi)⟩

theorem push (h : Entrywise R xs ys) {x : α} {y : β} (hxy : R x y) :
    Entrywise R (xs.push x) (ys.push y) := by
  refine ⟨by simp [h.size], fun i a b ha hb => ?_⟩
  rw [Array.getElem?_push] at ha hb
  rw [h.size] at ha
  split_ifs at ha hb with hi
  · cases ha
    cases hb
    exact hxy
  · exact h.get i a b ha hb

theorem modify (h : Entrywise R xs ys) (i : Nat) {f : α → α} {g : β → β}
    (hfg : ∀ x y, R x y → R (f x) (g y)) : Entrywise R (xs.modify i f) (ys.modify i g) := by
  refine ⟨by simp [h.size], fun j a b ha hb => ?_⟩
  rw [Array.getElem?_modify] at ha hb
  split_ifs at ha hb with hi
  · obtain ⟨x, hx, rfl⟩ := Option.map_eq_some_iff.1 ha
    obtain ⟨y, hy, rfl⟩ := Option.map_eq_some_iff.1 hb
    exact hfg x y (h.get j x y hx hy)
  · exact h.get j a b ha hb

end Entrywise

/-- Related lists are split alike where a test that cannot tell related entries apart fails. -/
theorem forall₂_span {p : α → Bool} {q : β → Bool} (hpq : ∀ x y, R x y → p x = q y) {l : List α}
    {m : List β} (h : List.Forall₂ R l m) :
    List.Forall₂ R (l.span p).1 (m.span q).1 ∧ List.Forall₂ R (l.span p).2 (m.span q).2 := by
  simp only [List.span_eq_takeWhile_dropWhile]
  induction h with
  | nil => exact ⟨.nil, .nil⟩
  | @cons x y l m hxy hlm ih =>
      rw [List.takeWhile_cons, List.takeWhile_cons, List.dropWhile_cons, List.dropWhile_cons,
        hpq x y hxy]
      cases q y with
      | true => exact ⟨.cons hxy ih.1, ih.2⟩
      | false => exact ⟨.nil, .cons hxy hlm⟩

end entries

section types

variable {S : Nat → Nat → Prop} {type type' : Ty}

/-- Two types are alike if they are of one form and their structs are related. -/
inductive Ty.Alike (S : Nat → Nat → Prop) : Ty → Ty → Prop
  | int : Ty.Alike S .int .int
  | bool : Ty.Alike S .bool .bool
  | byte : Ty.Alike S .byte .byte
  | null : Ty.Alike S .null .null
  | void : Ty.Alike S .void .void
  | pointer {target target' : Ty} : Ty.Alike S target target' →
      Ty.Alike S (.pointer target) (.pointer target')
  | struct {i j : Nat} : S i j → Ty.Alike S (.struct i) (.struct j)
  | array {element element' : Ty} {length : Nat} : Ty.Alike S element element' →
      Ty.Alike S (.array element length) (.array element' length)

namespace Ty.Alike

theorem mono {S' : Nat → Nat → Prop} (hS : ∀ i j, S i j → S' i j) (h : Ty.Alike S type type') :
    Ty.Alike S' type type' := by
  induction h with
  | pointer _ ih => exact .pointer ih
  | struct hij => exact .struct (hS _ _ hij)
  | array _ ih => exact .array ih
  | _ => constructor

/-- Types that are alike are pointers to what is alike, or no pointers. -/
theorem target? (h : Ty.Alike S type type') :
    (type.target? = none ∧ type'.target? = none) ∨
      ∃ target target', type.target? = some target ∧ type'.target? = some target' ∧
        Ty.Alike S target target' := by
  cases h with
  | pointer h => exact .inr ⟨_, _, rfl, rfl, h⟩
  | _ => exact .inl ⟨rfl, rfl⟩

theorem isSome_target? (h : Ty.Alike S type type') :
    type.target?.isSome = type'.target?.isSome := by
  cases h <;> rfl

theorem target (h : Ty.Alike S type type') :
    Ty.Alike S (type.target?.getD .void) (type'.target?.getD .void) := by
  cases h with
  | pointer h => exact h
  | _ => exact .void

/-- If each struct is related to one at most, types that are alike are equal to types that are
alike, or both are not. -/
theorem eq_iff (hS : ∀ i j i' j', S i j → S i' j' → (i = i' ↔ j = j'))
    (h : Ty.Alike S type type') : ∀ {other other' : Ty}, Ty.Alike S other other' →
      (type = other ↔ type' = other') := by
  induction h with
  | pointer _ ih =>
      intro other other' h'
      cases h' with
      | pointer h' => simp [ih h']
      | _ => simp
  | struct hij =>
      intro other other' h'
      cases h' with
      | struct hij' => simp [hS _ _ _ _ hij hij']
      | _ => simp
  | array _ ih =>
      intro other other' h'
      cases h' with
      | array h' => simp [ih h']
      | _ => simp
  | _ =>
      intro other other' h'
      cases h' <;> simp

/-- Types that are alike take as many bytes, if related structs do. -/
theorem measure {word f g : Nat → Except Breakdown Nat} (hS : ∀ i j, S i j → f i = g j)
    (h : Ty.Alike S type type') : type.measure word f = type'.measure word g := by
  induction h with
  | struct hij => exact hS _ _ hij
  | array _ ih => rw [Ty.measure, Ty.measure, ih]
  | _ => rfl

end Ty.Alike

end types

/-- The procedure that an instruction calls. -/
def Instruction.callee? : Instruction → Option Nat
  | .call _ procedure _ => some procedure
  | _ => none

section procedures

variable (S C : Nat → Nat → Prop)

/-- Two instructions are alike if they take memory for types that are alike, call related
procedures, or are one instruction. -/
inductive Instruction.Alike : Instruction → Instruction → Prop
  | same {i : Instruction} : i.isAlloca = false → i.callee? = none → Instruction.Alike i i
  | alloca {dest : Nat} {type type' : Ty} : type.Alike S type' →
      Instruction.Alike (.alloca dest type) (.alloca dest type')
  | call {dest procedure procedure' : Nat} {args : List Operand} : C procedure procedure' →
      Instruction.Alike (.call dest procedure args) (.call dest procedure' args)

structure Block.Alike (b b' : Block) : Prop where
  instructions : List.Forall₂ (Instruction.Alike S C) b.instructions b'.instructions
  terminator : b.terminator = b'.terminator

structure Procedure.Alike (p p' : Procedure) : Prop where
  returnType : p.returnType.Alike S p'.returnType
  params : p.params = p'.params
  temps : Entrywise (fun t t' => t.type.Alike S t'.type) p.temps p'.temps
  blocks : Entrywise (Block.Alike S C) p.blocks p'.blocks

/-- Two builders stand at one place of procedures that are alike. -/
structure Builder.Alike (b b' : Builder) : Prop where
  procedure : b.procedure.Alike S C b'.procedure
  current : b.current = b'.current

end procedures

variable {S C : Nat → Nat → Prop}

section mono

variable {S' C' : Nat → Nat → Prop} (hS : ∀ i j, S i j → S' i j) (hC : ∀ i j, C i j → C' i j)
include hS hC

theorem Instruction.Alike.mono {i i' : Instruction} (h : i.Alike S C i') : i.Alike S' C' i' := by
  cases h with
  | same halloca hcallee => exact .same halloca hcallee
  | alloca ht => exact .alloca (ht.mono hS)
  | call hp => exact .call (hC _ _ hp)

theorem Procedure.Alike.mono {p p' : Procedure} (h : p.Alike S C p') : p.Alike S' C' p' :=
  ⟨h.returnType.mono hS, h.params, h.temps.mono fun _ _ ht => ht.mono hS,
    h.blocks.mono fun _ _ hb => ⟨hb.instructions.imp fun _ _ hi => hi.mono hS hC, hb.terminator⟩⟩

/-- Code that is alike stays so if more is related. -/
theorem Builder.Alike.mono {b b' : Builder} (h : b.Alike S C b') : b.Alike S' C' b' :=
  ⟨h.procedure.mono hS hC, h.current⟩

end mono

theorem Instruction.Alike.isAlloca {i i' : Instruction} (h : i.Alike S C i') :
    i.isAlloca = i'.isAlloca := by
  cases h <;> rfl

namespace Block.Alike

variable {b b' : Block} {i i' : Instruction}

theorem push (h : b.Alike S C b') (hi : i.Alike S C i') : (b.push i).Alike S C (b'.push i') :=
  ⟨List.rel_append h.instructions (.cons hi .nil), h.terminator⟩

theorem pushSlot (h : b.Alike S C b') (hi : i.Alike S C i') :
    (b.pushSlot i).Alike S C (b'.pushSlot i') := by
  obtain ⟨hslots, hrest⟩ := forall₂_span (fun _ _ h => h.isAlloca) h.instructions
  exact ⟨List.rel_append hslots (.cons hi hrest), h.terminator⟩

end Block.Alike

namespace Procedure.Alike

variable {p p' : Procedure} {type type' : Ty} (h : p.Alike S C p')
include h

/-- One operand has types that are alike. -/
theorem typeOf? (x : Operand) : (p.typeOf? x = none ∧ p'.typeOf? x = none) ∨
    ∃ type type', p.typeOf? x = some type ∧ p'.typeOf? x = some type' ∧ type.Alike S type' := by
  cases x with
  | int => exact .inr ⟨_, _, rfl, rfl, .int⟩
  | bool => exact .inr ⟨_, _, rfl, rfl, .bool⟩
  | null => exact .inr ⟨_, _, rfl, rfl, .null⟩
  | temp id =>
      simp only [Procedure.typeOf?]
      rcases h.temps.cases id with ⟨ht, ht'⟩ | ⟨t, t', ht, ht', hty⟩
      · exact .inl ⟨by rw [ht]; rfl, by rw [ht']; rfl⟩
      · exact .inr ⟨t.type, t'.type, by rw [ht]; rfl, by rw [ht']; rfl, hty⟩

theorem newTemp (ht : type.Alike S type') :
    (p.newTemp type).1 = (p'.newTemp type').1 ∧
      (p.newTemp type).2.Alike S C (p'.newTemp type').2 :=
  ⟨h.temps.size, h.returnType, h.params, h.temps.push ht, h.blocks⟩

theorem newBlock (name name' : String) : (p.newBlock name).1 = (p'.newBlock name').1 ∧
    (p.newBlock name).2.Alike S C (p'.newBlock name').2 :=
  ⟨h.blocks.size, h.returnType, h.params, h.temps, h.blocks.push ⟨.nil, rfl⟩⟩

theorem modifyBlock (id : Nat) {f g : Block → Block}
    (hfg : ∀ b b', b.Alike S C b' → (f b).Alike S C (g b')) :
    (p.modifyBlock id f).Alike S C (p'.modifyBlock id g) :=
  ⟨h.returnType, h.params, h.temps, h.blocks.modify id hfg⟩

theorem slot (ht : type.Alike S type') :
    (p.slot type).1 = (p'.slot type').1 ∧ (p.slot type).2.Alike S C (p'.slot type').2 := by
  obtain ⟨hdest, hp⟩ := h.newTemp (.pointer ht)
  refine ⟨hdest, hp.modifyBlock 0 fun b b' hb => hb.pushSlot ?_⟩
  change (Instruction.alloca (p.newTemp (.pointer type)).1 type).Alike S C _
  rw [hdest]
  exact .alloca ht

end Procedure.Alike

namespace Builder.Alike

variable {b b' : Builder} {type type' : Ty} {i i' : Instruction}

theorem start {p p' : Procedure} (h : p.Alike S C p') (entry : String) :
    (Builder.start p entry).Alike S C (Builder.start p' entry) := by
  obtain ⟨hid, hp⟩ := h.newBlock entry entry
  exact ⟨hp, congrArg some hid⟩

variable (h : b.Alike S C b')
include h

theorem record (m m' : Move) : (b.record m).Alike S C (b'.record m') :=
  ⟨h.procedure, h.current⟩

theorem typeOf (x : Operand) : (b.typeOf x).Alike S (b'.typeOf x) := by
  rw [Builder.typeOf, Builder.typeOf]
  rcases h.procedure.typeOf? x with ⟨hx, hx'⟩ | ⟨type, type', hx, hx', ht⟩
  · rw [hx, hx']
    exact .void
  · rw [hx, hx']
    exact ht

theorem newBlock (name : String) : (b.newBlock name).1 = (b'.newBlock name).1 ∧
    (b.newBlock name).2.Alike S C (b'.newBlock name).2 :=
  ⟨(h.procedure.newBlock name name).1, (h.procedure.newBlock name name).2, h.current⟩

theorem switchTo (block : Nat) : (b.switchTo block).Alike S C (b'.switchTo block) :=
  ⟨h.procedure, rfl⟩

theorem slot (ht : type.Alike S type') :
    (b.slot type).1 = (b'.slot type').1 ∧ (b.slot type).2.Alike S C (b'.slot type').2 :=
  ⟨(h.procedure.slot ht).1, (h.procedure.slot ht).2, h.current⟩

theorem emit (hi : i.Alike S C i') : (b.emit i).Alike S C (b'.emit i') := by
  have hcurrent := h.current
  rw [Builder.emit, Builder.emit, hcurrent]
  refine record ?_ _ _
  cases hc : b'.current with
  | none => exact h
  | some id => exact ⟨h.procedure.modifyBlock id fun _ _ hb => hb.push hi, rfl⟩

theorem define (ht : type.Alike S type') {f f' : Nat → Instruction}
    (hf : ∀ id, (f id).Alike S C (f' id)) :
    (b.define type f).1 = (b'.define type' f').1 ∧
      (b.define type f).2.Alike S C (b'.define type' f').2 := by
  obtain ⟨hid, hp⟩ := h.procedure.newTemp ht
  have hb : Builder.Alike S C (b.newTemp type).2 (b'.newTemp type').2 := ⟨hp, h.current⟩
  refine ⟨congrArg Operand.temp hid, hb.emit ?_⟩
  change (f (b.procedure.newTemp type).1).Alike S C (f' (b'.procedure.newTemp type').1)
  rw [hid]
  exact hf _

theorem terminate (t : Terminator) : (b.terminate t).Alike S C (b'.terminate t) := by
  rw [Builder.terminate, Builder.terminate, h.current]
  refine record ?_ _ _
  cases hc : b'.current with
  | none => exact h
  | some id =>
      exact ⟨h.procedure.modifyBlock id fun _ _ hb => ⟨hb.instructions, rfl⟩, rfl⟩

end Builder.Alike

end ObjectLang.IR
