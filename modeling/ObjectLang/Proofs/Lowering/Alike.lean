import Mathlib.Tactic
import ObjectLang.Proofs.IR.Alike
import ObjectLang.Proofs.Lowering.Parallel

/-!
# Code that is made alike

Builders that stand at one place of procedures that are alike do so after each operation. So two
makings of code can be followed side by side, whatever is known of the targets and the allocators
that they have.
-/
namespace ObjectLang

open IR

/-- What making code has besides the procedure that is being built. -/
structure Stock where
  target : Target
  allocators : List (ValueType × Nat)

def LowerState.stock (s : LowerState) : Stock :=
  ⟨s.target, s.allocators⟩

variable {W : Type} [Preorder W]

section states

variable (S C : W → Nat → Nat → Prop) (X : W → Stock → Stock → Prop)

/-- Two states have stocks that are related, and build procedures that are alike. -/
structure LowerState.Alike (w : W) (s s' : LowerState) : Prop where
  stock : X w s.stock s'.stock
  builder : s.builder.Alike (S w) (C w) s'.builder

end states

variable {S C : W → Nat → Nat → Prop} {X : W → Stock → Stock → Prop} {w : W} {α : Type}

theorem parallel_compute {f g : Builder → α × Builder}
    (h : ∀ b b', b.Alike (S w) (C w) b' →
      (f b).1 = (g b').1 ∧ (f b).2.Alike (S w) (C w) (g b').2) :
    Parallel (LowerState.Alike S C X) w (fun _ => Eq) (compute f) (compute g) := by
  rintro s s' _ _ _ _ hs ⟨⟩ ⟨⟩
  obtain ⟨hvalue, hbuilder⟩ := h _ _ hs.builder
  exact ⟨w, le_rfl, hvalue, hs.stock, hbuilder⟩

theorem parallel_perform {f g : Builder → Builder}
    (h : ∀ b b', b.Alike (S w) (C w) b' → (f b).Alike (S w) (C w) (g b')) :
    Parallel (LowerState.Alike S C X) w (fun _ _ _ => True) (perform f) (perform g) := by
  rintro s s' _ _ _ _ hs ⟨⟩ ⟨⟩
  exact ⟨w, le_rfl, trivial, hs.stock, h _ _ hs.builder⟩

/-- Types that are alike have one default. -/
theorem IR.Ty.Alike.defaultValue {S : Nat → Nat → Prop} {type type' : Ty}
    (h : type.Alike S type') : type.defaultValue = type'.defaultValue := by
  cases h <;> rfl

theorem alike_of_isPlain {S C : Nat → Nat → Prop} {i : Instruction} (h : i.isPlain = true) :
    i.Alike S C i := by
  cases i with
  | alloca | call | comment => cases h
  | _ => exact .same rfl rfl

/-- Whatever the builder does on one side, it does on the other, if no struct is related to two. -/
theorem alike_operations (hS : ∀ {w v : W} (i j : Nat), w ≤ v → S w i j → S v i j)
    (hC : ∀ {w v : W} (i j : Nat), w ≤ v → C w i j → C v i j)
    (hinj : ∀ (w : W) (i j i' j' : Nat), S w i j → S w i' j' → (i = i' ↔ j = j')) :
    Operations (LowerState.Alike S C X) (fun w => Ty.Alike (S w)) C where
  monoType hw h := h.mono fun i j => hS i j hw
  monoCallee hw h := hC _ _ hw h
  int := .int
  bool := .bool
  byte := .byte
  void := .void
  pointer _ _ h := .pointer h
  target _ _ h := ⟨h.isSome_target?, h.target⟩
  eq_iff _ _ _ _ h h' := h.eq_iff (hinj _) h'
  defaultValue _ _ h := h.defaultValue
  typeOf x := by
    rintro s s' _ _ _ _ hs ⟨⟩ ⟨⟩
    exact ⟨_, le_rfl, hs.builder.typeOf x, hs⟩
  procedure := by
    rintro w s s' _ _ _ _ hs ⟨⟩ ⟨⟩
    exact ⟨w, le_rfl, ⟨hs.builder.procedure.params, hs.builder.procedure.returnType⟩, hs⟩
  newBlock name := parallel_compute fun _ _ hb => hb.newBlock name
  slot _ _ ht := parallel_compute fun _ _ hb => hb.slot ht
  define _ _ _ ht hf := parallel_compute fun _ _ hb =>
    hb.define ht fun id => alike_of_isPlain (hf id)
  load x := parallel_compute fun _ _ hb =>
    hb.define (hb.typeOf x).target fun _ => .same rfl rfl
  call _ _ _ _ _ hij ht := parallel_compute fun _ _ hb => hb.define ht fun _ => .call hij
  emit _ hi := parallel_perform fun _ _ hb => hb.emit (alike_of_isPlain hi)
  terminate t := parallel_perform fun _ _ hb => hb.terminate t
  switchTo i := parallel_perform fun _ _ hb => hb.switchTo i

end ObjectLang
