import Mathlib.Tactic
import ObjectLang.Proofs.Analysis.Hierarchy
import ObjectLang.Proofs.Analysis.Silence
import ObjectLang.Proofs.Typing.Denotation
import ObjectLang.Proofs.Typing.Written

/-!
# What silent analysis keeps

As long as nothing is reported, every written type that was looked at is known by the type that it
means, and array types stay canonical. What is known of a node changes only when the analysis comes
to that node, so that what was found out about one part of a program is not lost in the others.
-/
namespace ObjectLang

variable {p : Program} {f g h : Findings} {ids ids' : List Nat}

/-- What is noted of a node is what was noted earlier. -/
structure Notes.SameAt (n m : Notes) (id : Nat) : Prop where
  type : m.type? id = n.type? id
  binding : m.binding? id = n.binding? id
  call : m.call? id = n.call? id

theorem Notes.SameAt.trans {n m k : Notes} {id : Nat} (hnm : n.SameAt m id) (hmk : m.SameAt k id) :
    n.SameAt k id :=
  ⟨hmk.type.trans hnm.type, hmk.binding.trans hnm.binding, hmk.call.trans hnm.call⟩

namespace Findings

/-- What is known of written types is what they mean. -/
structure Sound (p : Program) (f : Findings) : Prop where
  arrays : f.arrays.Canonical p
  typeExprs : ∀ t ∈ p.typeExprs, ∀ T, f.notes.typeExpr? t.id = some T → T.Denotes p f.arrays t.plain

/-- Findings are extended by what is found out about some nodes. -/
structure Grows (p : Program) (ids : List Nat) (f g : Findings) : Prop where
  sound : f.Sound p → g.Sound p
  arrays : f.arrays.Within g.arrays
  typeExprs : ∀ id T, f.notes.typeExpr? id = some T → g.notes.typeExpr? id = some T
  same : ∀ id ∉ ids, f.notes.SameAt g.notes id

namespace Grows

theorem rfl : f.Grows p ids f :=
  ⟨id, .rfl, fun _ _ h => h, fun _ _ => ⟨Eq.refl _, Eq.refl _, Eq.refl _⟩⟩

theorem trans (hfg : f.Grows p ids g) (hgh : g.Grows p ids' h) : f.Grows p (ids ++ ids') h where
  sound := hgh.sound ∘ hfg.sound
  arrays := hfg.arrays.trans hgh.arrays
  typeExprs id T hT := hgh.typeExprs id T (hfg.typeExprs id T hT)
  same id hid := by
    rw [List.mem_append, not_or] at hid
    exact (hfg.same id hid.1).trans (hgh.same id hid.2)

theorem mono (hfg : f.Grows p ids g) (hsub : ids ⊆ ids') : f.Grows p ids' g where
  sound := hfg.sound
  arrays := hfg.arrays
  typeExprs := hfg.typeExprs
  same id hid := hfg.same id fun h => hid (hsub h)

end Grows
end Findings

namespace Check

open Findings

theorem getElem?_insert {α : Type} (m : Std.TreeMap Nat α) (k i : Nat) (a : α) :
    (m.insert k a)[i]? = if i = k then some a else m[i]? := by
  rw [Std.TreeMap.getElem?_insert]
  simp only [compare_eq_iff_eq, @eq_comm _ k i]

theorem type?_insert (f : Findings) (id : Nat) (T : ValueType) (i : Nat) :
    ((noteType id T).after f).notes.type? i = if i = id then some T else f.notes.type? i :=
  getElem?_insert f.notes.types id i T

theorem typeExpr?_insert (f : Findings) (id : Nat) (T : ValueType) (i : Nat) :
    ((noteTypeExpr id T).after f).notes.typeExpr? i =
      if i = id then some T else f.notes.typeExpr? i :=
  getElem?_insert f.notes.typeExprs id i T

theorem binding?_insert (f : Findings) (id : Nat) (b : Binding) (i : Nat) :
    ((noteBinding id b).after f).notes.binding? i =
      if i = id then some b else f.notes.binding? i :=
  getElem?_insert f.notes.bindings id i b

theorem call?_insert (f : Findings) (id : Nat) (c : CallTarget) (i : Nat) :
    ((noteCall id c).after f).notes.call? i = if i = id then some c else f.notes.call? i :=
  getElem?_insert f.notes.calls id i c

theorem grows_noteType (id : Nat) (T : ValueType) : f.Grows p [id] ((noteType id T).after f) where
  sound hf := ⟨hf.arrays, hf.typeExprs⟩
  arrays := .rfl
  typeExprs _ _ h := h
  same i hi := by
    refine ⟨?_, rfl, rfl⟩
    rw [type?_insert, if_neg (by simpa using hi)]

theorem grows_noteBinding (id : Nat) (b : Binding) :
    f.Grows p [id] ((noteBinding id b).after f) where
  sound hf := ⟨hf.arrays, hf.typeExprs⟩
  arrays := .rfl
  typeExprs _ _ h := h
  same i hi := by
    refine ⟨rfl, ?_, rfl⟩
    rw [binding?_insert, if_neg (by simpa using hi)]

theorem grows_noteCall (id : Nat) (c : CallTarget) :
    f.Grows p [id] ((noteCall id c).after f) where
  sound hf := ⟨hf.arrays, hf.typeExprs⟩
  arrays := .rfl
  typeExprs _ _ h := h
  same i hi := by
    refine ⟨rfl, rfl, ?_⟩
    rw [call?_insert, if_neg (by simpa using hi)]

theorem grows_noteTypeExpr (hh : p.Hierarchy) (hp : p.ids.Nodup) (hf : f.Sound p) {t : TypeExpr}
    {T : ValueType} (ht : t ∈ p.typeExprs) (hT : T.Denotes p f.arrays t.plain) :
    f.Grows p [] ((noteTypeExpr t.id T).after f) where
  sound _ := by
    refine ⟨hf.arrays, fun u hu U hU => ?_⟩
    rw [typeExpr?_insert] at hU
    split_ifs at hU with h
    · cases hU
      rw [p.typeExpr_unique hp hu ht h]
      exact hT
    · exact hf.typeExprs u hu U hU
  arrays := .rfl
  typeExprs i U hU := by
    rw [typeExpr?_insert]
    split_ifs with h
    · subst h
      rw [hT.injective hh hf.arrays (hf.typeExprs t ht U hU)]
    · exact hU
  same _ _ := ⟨rfl, rfl, rfl⟩

/-- Asking for the array type with a component that means something gives one that means the arrays
of it. -/
theorem arrayOf_spec (hh : p.Hierarchy) {c : ValueType} {t : PlainType} (hf : f.Sound p)
    (hc : c.Denotes p f.arrays t) (ht : t ≠ .null) :
    ((arrayOf c).value f).Denotes p ((arrayOf c).after f).arrays (.array t) ∧
      f.Grows p [] ((arrayOf c).after f) := by
  obtain ⟨hcanonical, hwithin, hdenotes⟩ := ArrayTypes.arrayOf_spec hh hf.arrays hc ht
  refine ⟨hdenotes, ?_, hwithin, fun _ _ h => h, fun _ _ => ⟨rfl, rfl, rfl⟩⟩
  exact fun _ => ⟨hcanonical, fun u hu U hU => (hf.typeExprs u hu U hU).mono hwithin⟩

/-- A written type that is looked at has its meaning, which is kept from then on. -/
structure Understood (p : Program) (t : TypeExpr) (m : Check ValueType) (f : Findings) : Prop where
  denotes : (m.value f).Denotes p (m.after f).arrays t.plain
  noted : (m.after f).notes.typeExpr? t.id = some (m.value f)
  grows : f.Grows p [] (m.after f)

/-- The meaning of a written type that was not looked at before. -/
def newMeaning (classes : ClassTable) : TypeExpr → Check ValueType
  | .int _ => pure .int
  | .bool _ => pure .bool
  | .named _ name =>
    match classes.find? name.name with
    | some cls => pure (.object cls)
    | none => do
      report (.undeclaredClass name.name name.span)
      pure .any
  | .array _ component => do arrayOf (← checkType classes component)

theorem checkType_of_noted (classes : ClassTable) {t : TypeExpr} {T : ValueType}
    (hT : f.notes.typeExpr? t.id = some T) : (checkType classes t).run f = (T, f) := by
  rw [checkType.eq_def]
  simp only [bind, StateT.run, StateT.bind, get, getThe, MonadStateOf.get, StateT.get, pure, hT]
  rfl

theorem checkType_of_new (classes : ClassTable) {t : TypeExpr}
    (hT : f.notes.typeExpr? t.id = none) : (checkType classes t).run f =
      (do
        let type ← newMeaning classes t
        noteTypeExpr t.id type
        return type : Check ValueType).run f := by
  rw [checkType.eq_def]
  simp only [bind, StateT.run, StateT.bind, get, getThe, MonadStateOf.get, StateT.get, pure, hT]
  cases t with
  | named tag name =>
      simp only [newMeaning]
      cases classes.find? name.name <;> rfl
  | _ => rfl

section

variable {classes : ClassTable}

theorem understood_of_noted (hf : f.Sound p) {t : TypeExpr} {T : ValueType} (ht : t ∈ p.typeExprs)
    (hT : f.notes.typeExpr? t.id = some T) : Understood p t (checkType classes t) f := by
  have hrun := checkType_of_noted classes hT
  refine ⟨?_, ?_, ?_⟩ <;> simp only [value, after, hrun]
  · exact hf.typeExprs t ht T hT
  · exact hT
  · exact .rfl

theorem understood_of_new (hh : p.Hierarchy) (hp : p.ids.Nodup) (hf : f.Sound p) {t : TypeExpr}
    (ht : t ∈ p.typeExprs) (hT : f.notes.typeExpr? t.id = none)
    (hd : ((newMeaning classes t).value f).Denotes p ((newMeaning classes t).after f).arrays
      t.plain)
    (hg : f.Grows p [] ((newMeaning classes t).after f)) :
    Understood p t (checkType classes t) f := by
  have hrun := checkType_of_new classes hT
  refine ⟨?_, ?_, ?_⟩ <;> simp only [value, after, hrun]
  · exact hd
  · exact (typeExpr?_insert _ _ _ _).trans (if_pos rfl)
  · exact hg.trans (grows_noteTypeExpr hh hp (hg.sound hf) ht hd)

/-- What holds of the meaning that a written type gets when it is new holds of it at any time. -/
theorem checkType_of_newMeaning (hh : p.Hierarchy) (hp : p.ids.Nodup) (hf : f.Sound p)
    {t : TypeExpr} (ht : t ∈ p.typeExprs)
    (hnew : Silent (newMeaning classes t) f →
      ((newMeaning classes t).value f).Denotes p ((newMeaning classes t).after f).arrays t.plain ∧
        f.Grows p [] ((newMeaning classes t).after f))
    (hknown : t.plain.Known p → Silent (newMeaning classes t) f) :
    (Silent (checkType classes t) f → Understood p t (checkType classes t) f) ∧
      (t.plain.Known p → Silent (checkType classes t) f) := by
  cases hT : f.notes.typeExpr? t.id with
  | some T =>
      have hrun := checkType_of_noted classes hT
      exact ⟨fun _ => understood_of_noted hf ht hT, fun _ => by simp [Silent, after, hrun]⟩
  | none =>
      have hsilent : Silent (checkType classes t) f ↔ Silent (newMeaning classes t) f := by
        simp only [Silent, after, checkType_of_new classes hT]
        rfl
      rw [hsilent]
      exact ⟨fun hs => understood_of_new hh hp hf ht hT (hnew hs).1 (hnew hs).2, hknown⟩

/-- A written type is silently looked at exactly if all classes in it are declared. -/
theorem checkType_spec (hh : p.Hierarchy) (hclasses : classes = (ClassTable.build p.classes).1)
    (hp : p.ids.Nodup) {t : TypeExpr} : t ∈ p.typeExprs → ∀ {f : Findings}, f.Sound p →
      (Silent (checkType classes t) f → Understood p t (checkType classes t) f) ∧
        (t.plain.Known p → Silent (checkType classes t) f) := by
  induction t with
  | int tag =>
      intro ht f hf
      exact checkType_of_newMeaning hh hp hf ht (fun _ => ⟨.int, .rfl⟩) fun _ => rfl
  | bool tag =>
      intro ht f hf
      exact checkType_of_newMeaning hh hp hf ht (fun _ => ⟨.bool, .rfl⟩) fun _ => rfl
  | named tag name =>
      intro ht f hf
      apply checkType_of_newMeaning hh hp hf ht <;> simp only [newMeaning] <;>
        cases hc : classes.find? name.name with
      | none =>
          rw [hclasses, ClassTable.find?_build_eq_none hh] at hc
          intro h
          first | exact (hc h).elim | simp at h
      | some c =>
          rw [hclasses, ClassTable.find?_build hh] at hc
          intro _
          first | exact ⟨.object hc.1 hc.2, .rfl⟩ | rfl
  | array tag component ih =>
      intro ht f hf
      obtain ⟨hsound, hcomplete⟩ := ih (p.mem_typeExprs_of_array ht) hf
      have hsilent : Silent (newMeaning classes (.array tag component)) f ↔
          Silent (checkType classes component) f := by
        simp [newMeaning, silent_bind]
      refine checkType_of_newMeaning hh hp hf ht (fun h => ?_) fun h => hsilent.2 (hcomplete h)
      have hc := hsound (hsilent.1 h)
      obtain ⟨hd, hg⟩ := arrayOf_spec hh (hc.grows.sound hf) hc.denotes component.plain_ne_null
      exact ⟨hd, hc.grows.trans hg⟩

end

end Check
end ObjectLang
