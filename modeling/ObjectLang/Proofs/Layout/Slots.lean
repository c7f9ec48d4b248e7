import Mathlib.Tactic
import ObjectLang.Layout.Basic
import ObjectLang.Proofs.Analysis.FollowPrograms
import ObjectLang.Proofs.Parsing.Words

/-!
# Slots of any classes

The slots of an object, whatever is wrong with its class: those of one class after the other from
the top downwards, and of each class one for every name that it declares. So the slots of a class
are the first ones of every class below it.
-/
namespace ObjectLang

variable {p : Program} {notes : Notes}

/-- The slot of a field of a class. -/
def slotOf (notes : Notes) (owner : String) (d : VarDecl) : FieldSlot :=
  ⟨owner, d.name.name, (notes.typeExpr? d.type.id).getD .any⟩

/-- The slots that a class adds to those of its superclass. -/
def Program.ownSlots (p : Program) (notes : Notes) (c : ClassRef) : List FieldSlot :=
  (firsts (·.name.name) (p.classDecl c).fields).map (slotOf notes c.name)

theorem foldl_addSlot_firsts {owner : String} {slots : List FieldSlot}
    (h : ∀ s ∈ slots, s.owner ≠ owner)
    (fields : List VarDecl) : fields.foldl (addSlot notes owner) slots =
      slots ++ (firsts (·.name.name) fields).map (slotOf notes owner) := by
  have hstep : ∀ fields found : List VarDecl,
      fields.foldl (addSlot notes owner) (slots ++ found.map (slotOf notes owner)) =
        slots ++ (fields.foldl (fun found x =>
          if found.any (·.name.name == x.name.name) then found else found ++ [x]) found).map
            (slotOf notes owner) := by
    intro fields
    induction fields with
    | nil => exact fun _ => rfl
    | cons d fields ih =>
        intro found
        have htaken : ((slots ++ found.map (slotOf notes owner)).any fun slot =>
            slot.owner == owner && slot.name == d.name.name) =
              found.any (·.name.name == d.name.name) := by
          have hnone : (slots.any fun slot => slot.owner == owner && slot.name == d.name.name) =
              false := by
            rw [List.any_eq_false]
            intro s hs
            simp [h s hs]
          rw [List.any_append, hnone, Bool.false_or, List.any_map]
          simp [slotOf, Function.comp_def]
        rw [List.foldl_cons, List.foldl_cons, addSlot, htaken]
        split_ifs
        · exact ih found
        · have hmore := ih (found ++ [d])
          rw [List.map_append, ← List.append_assoc] at hmore
          exact hmore
  simpa [firsts] using hstep fields []

namespace Program

/-- The slots of a class are those that its ancestors add, from the top downwards. -/
theorem slots_eq {c : ClassRef} (h : (c.ancestors.map ClassRef.name).Nodup) :
    p.slots notes c = c.ancestors.reverse.flatMap (p.ownSlots notes) := by
  induction c with
  | root name decl =>
      rw [slots, foldl_addSlot_firsts (by simp)]
      simp [ClassRef.ancestors, ownSlots, ClassRef.name]
  | derived name decl superclass ih =>
      rw [ClassRef.ancestors, List.map_cons, List.nodup_cons] at h
      rw [slots, ih h.2, foldl_addSlot_firsts]
      · simp [ClassRef.ancestors, ownSlots, ClassRef.name]
      · intro s hs
        obtain ⟨d, hd, hs⟩ := List.mem_flatMap.1 hs
        obtain ⟨x, _, rfl⟩ := List.mem_map.1 hs
        exact fun heq => h.1 (List.mem_map.2 ⟨d, List.mem_reverse.1 hd, heq⟩)

theorem slots_prefix {c d : ClassRef} (h : (c.ancestors.map ClassRef.name).Nodup)
    (hd : d ∈ c.ancestors) : p.slots notes d <+: p.slots notes c := by
  obtain ⟨below, hbelow⟩ := ClassRef.suffix_ancestors hd
  have hd' : (d.ancestors.map ClassRef.name).Nodup :=
    h.sublist ((ClassRef.suffix_ancestors hd).sublist.map _)
  rw [slots_eq h, slots_eq hd', ← hbelow, List.reverse_append, List.flatMap_append]
  exact List.prefix_append _ _

/-- No two slots of a class belong to fields of one name of one class. -/
theorem nodup_keys {c : ClassRef} (h : (c.ancestors.map ClassRef.name).Nodup) :
    ((p.slots notes c).map fun s => (s.owner, s.name)).Nodup := by
  rw [slots_eq h, List.map_flatMap, List.nodup_flatMap]
  have hkeys : ∀ d : ClassRef, (p.ownSlots notes d).map (fun s => (s.owner, s.name)) =
      ((firsts (·.name.name) (p.classDecl d).fields).map (·.name.name)).map (Prod.mk d.name) := by
    intro d
    rw [ownSlots, List.map_map, List.map_map]
    rfl
  constructor
  · intro d _
    rw [hkeys]
    exact (nodup_firsts _ _).map (Prod.mk_right_injective _)
  · rw [List.pairwise_reverse]
    refine (List.pairwise_map.1 h).imp fun {c d} hne => ?_
    rintro ⟨owner, name⟩ hd hc
    simp only [hkeys] at hc hd
    obtain ⟨_, _, hc⟩ := List.mem_map.1 hc
    obtain ⟨_, _, hd⟩ := List.mem_map.1 hd
    exact hne ((Prod.mk.inj hc).1.trans (Prod.mk.inj hd).1.symm)

/-- A field that an ancestor declares has a slot, for the first declaration of its name. -/
theorem slotOf_mem {c d : ClassRef} (h : (c.ancestors.map ClassRef.name).Nodup)
    (hd : d ∈ c.ancestors) {name : String} {decl : VarDecl}
    (hdecl : (p.classDecl d).field? name = some decl) :
    slotOf notes d.name decl ∈ p.slots notes c := by
  rw [slots_eq h, List.mem_flatMap]
  refine ⟨d, List.mem_reverse.2 hd, List.mem_map_of_mem ?_⟩
  rw [ClassDecl.field?, ← find?_firsts (fun d : VarDecl => d.name.name)] at hdecl
  exact List.mem_of_find?_eq_some hdecl

end Program

section names

variable {slots more : List FieldSlot}

/-- The name of a slot that has some slots before it. -/
def FieldSlot.nameBehind (before : List FieldSlot) (slot : FieldSlot) : String :=
  if before.any (·.name == slot.name) then slot.owner ++ "." ++ slot.name else slot.name

theorem getElem?_slotNames (slots : List FieldSlot) (i : Nat) :
    (slotNames slots)[i]? = slots[i]?.map fun slot => slot.nameBehind (slots.take i) := by
  rw [slotNames, List.getElem?_map, List.getElem?_zipIdx, Option.map_map, Nat.zero_add]
  rfl

theorem length_slotNames (slots : List FieldSlot) : (slotNames slots).length = slots.length := by
  rw [slotNames, List.length_map, List.length_zipIdx]

/-- The first slots keep their names. -/
theorem slotNames_prefix (h : slots <+: more) : slotNames slots <+: slotNames more := by
  obtain ⟨rest, rfl⟩ := h
  rw [List.prefix_iff_getElem?]
  intro i hi
  rw [length_slotNames] at hi
  rw [← List.getElem?_eq_getElem, getElem?_slotNames, getElem?_slotNames,
    List.getElem?_append_left hi, List.take_append_of_le_length hi.le]

theorem IsWord.not_mem_dot {name : String} (h : IsWord name) : '.' ∉ name.toList := by
  intro hmem
  have hdot := h '.' hmem
  revert hdot
  decide

/-- A slot is known from its name. -/
theorem nodup_slotNames (hkeys : (slots.map fun s => (s.owner, s.name)).Nodup)
    (hwords : ∀ s ∈ slots, IsWord s.owner ∧ IsWord s.name) : (slotNames slots).Nodup := by
  refine List.pairwise_iff_getElem.2 fun i j hi hj hij hname => ?_
  have hi' : i < slots.length := length_slotNames slots ▸ hi
  have hj' : j < slots.length := length_slotNames slots ▸ hj
  have hget : ∀ (k : Nat) (hk : k < (slotNames slots).length) (hk' : k < slots.length),
      (slotNames slots)[k] = slots[k].nameBehind (slots.take k) := by
    intro k hk hk'
    have h := getElem?_slotNames slots k
    rw [List.getElem?_eq_getElem hk, List.getElem?_eq_getElem hk'] at h
    exact Option.some.inj h
  rw [hget i hi hi', hget j hj hj'] at hname
  have hne := List.pairwise_iff_getElem.1 (List.pairwise_map.1 hkeys) i j hi' hj' hij
  have hbefore : slots[i] ∈ slots.take j :=
    List.mem_take_iff_getElem.2 ⟨i, by simp only [lt_inf_iff]; exact ⟨hij, hi'⟩, rfl⟩
  obtain ⟨howner, hword⟩ := hwords _ (List.getElem_mem hi')
  obtain ⟨howner', hword'⟩ := hwords _ (List.getElem_mem hj')
  have hdot : ∀ s : FieldSlot, (s.owner ++ "." ++ s.name).toList =
      s.owner.toList ++ '.' :: s.name.toList := by
    intro s
    simp
  simp only [FieldSlot.nameBehind] at hname
  split_ifs at hname with hearlier hearlier' hearlier'
  · have hsplit := congrArg String.toList hname
    rw [hdot, hdot, List.append_cons_inj_of_notMem howner.not_mem_dot hword.not_mem_dot] at hsplit
    exact hne (Prod.ext (String.toList_inj.1 hsplit.1) (String.toList_inj.1 hsplit.2.2))
  · refine hword'.not_mem_dot ?_
    rw [← hname, hdot]
    simp
  · refine hword.not_mem_dot ?_
    rw [hname, hdot]
    simp
  · exact hearlier' (List.any_eq_true.2 ⟨_, hbefore, by simp [hname]⟩)

end names
end ObjectLang
