import Mathlib.Tactic
import ObjectLang.Proofs.Analysis.Hierarchy
import ObjectLang.Proofs.Machine.Offsets
import ObjectLang.Proofs.Semantics.Evaluation

/-!
# The fields of objects

The fields of a class start with those of its superclass, so a field has the same position in the
objects of all classes below. A field is known by the class that declares it and its name, and a
position by the bytes that stand before it.
-/
namespace ObjectLang

open ClassRef

variable {p : Program}

namespace Program

/-- A declared class as the class table has it. -/
theorem Hierarchy.exists_faithful (hh : p.Hierarchy) {name : String} (h : p.Declares name) :
    ∃ c : ClassRef, c.Faithful p ∧ c.name = name := by
  obtain ⟨d, hd, rfl⟩ := h
  obtain ⟨c, hc, rfl⟩ := ClassTable.exists_mem_build hh hd
  have hf := ClassTable.faithful_of_mem_build hh hc
  exact ⟨c, hf, hf.classDecl_name.symm⟩

theorem declares_of_below {c d : String} (h : p.Below c d) : c = d ∨ p.Declares c := by
  cases Relation.ReflTransGen.cases_head h with
  | inl h => exact .inl h
  | inr h =>
      obtain ⟨_, ⟨decl, hd, hn, _⟩, _⟩ := h
      exact .inr ⟨decl, hd, hn⟩

/-- The classes above a class are also above those below it. -/
theorem Hierarchy.suffix_lineage (hh : p.Hierarchy) {c d : String} (h : p.Below c d) :
    p.lineage d <:+ p.lineage c := by
  rcases declares_of_below h with rfl | hdeclares
  · exact List.suffix_rfl
  · obtain ⟨sub, hsub, rfl⟩ := hh.exists_faithful hdeclares
    obtain ⟨super, hsuper, rfl⟩ := (hsub.below_iff hh d).1 h
    rw [hsub.lineage hh, (hsub.of_mem_ancestors hsuper).lineage hh]
    obtain ⟨front, hfront⟩ := suffix_ancestors hsuper
    exact ⟨front.map p.classDecl, by rw [← hfront, List.map_append]⟩

/-- The fields of a class come first in the objects of the classes below it. -/
theorem Hierarchy.prefix_fieldsOf (hh : p.Hierarchy) {c d : String} (h : p.Below c d) :
    p.fieldsOf d <+: p.fieldsOf c := by
  obtain ⟨front, hfront⟩ := hh.suffix_lineage h
  rw [fieldsOf, fieldsOf, ← hfront, List.reverse_append, List.flatMap_append]
  exact List.prefix_append _ _

theorem lineageWithin_names {steps : Nat} {name : String} {c : ClassDecl}
    (h : c ∈ p.lineageWithin steps name) : c ∈ p.classes := by
  induction steps generalizing name with
  | zero => cases h
  | succ steps ih =>
      rw [lineageWithin] at h
      cases hc : p.class? name with
      | none =>
          rw [hc] at h
          cases h
      | some d =>
          rw [hc] at h
          rcases List.mem_cons.1 h with rfl | h
          · exact (class?_eq_some hc).1
          · cases hs : d.superclass with
            | none => simp [hs] at h
            | some s =>
                rw [hs] at h
                exact ih h

theorem mem_classes_of_mem_lineage {name : String} {c : ClassDecl} (h : c ∈ p.lineage name) :
    c ∈ p.classes :=
  lineageWithin_names h

theorem lineage_of_not_declares {name : String} (h : ¬ p.Declares name) : p.lineage name = [] := by
  have hnone : p.class? name = none := by
    by_contra hsome
    obtain ⟨c, hc⟩ := Option.ne_none_iff_exists'.1 hsome
    exact h (declares_iff.2 ⟨c, hc⟩)
  rw [lineage]
  cases p.classes.length with
  | zero => rfl
  | succ steps => rw [lineageWithin, hnone]

/-- No class occurs twice in a lineage. -/
theorem Hierarchy.nodup_lineage (hh : p.Hierarchy) (name : String) :
    ((p.lineage name).map (·.name.name)).Nodup := by
  by_cases h : p.Declares name
  · obtain ⟨c, hc, rfl⟩ := hh.exists_faithful h
    have hnames : (p.lineage c.name).map (·.name.name) = c.ancestors.map ClassRef.name := by
      rw [hc.lineage hh, List.map_map]
      exact List.map_congr_left fun d hd => (hc.of_mem_ancestors hd).classDecl_name
    rw [hnames]
    exact hc.nodup_ancestors hh
  · rw [lineage_of_not_declares h]
    exact List.nodup_nil

/-- What a field of an object is known by. -/
def fieldKey (x : String × VarDecl) : String × String :=
  (x.1, x.2.name.name)

/-- Fields with one class and name are one. -/
theorem Hierarchy.nodup_fieldsOf (hh : p.Hierarchy)
    (hf : ∀ c ∈ p.classes, (c.fields.map (·.name.name)).Nodup) (name : String) :
    ((p.fieldsOf name).map fieldKey).Nodup := by
  rw [fieldsOf, List.map_flatMap, List.nodup_flatMap]
  constructor
  · intro c hc
    have hmem := mem_classes_of_mem_lineage (List.mem_reverse.1 hc)
    have hmap : ((c.fields.map fun d => (c.name.name, d)).map fieldKey) =
        (c.fields.map (·.name.name)).map (Prod.mk c.name.name) := by
      rw [List.map_map, List.map_map]
      rfl
    rw [hmap]
    exact (hf c hmem).map (Prod.mk_right_injective _)
  · have hnames := List.nodup_reverse.2 (hh.nodup_lineage name)
    rw [← List.map_reverse, List.Nodup, List.pairwise_map] at hnames
    refine hnames.imp fun {c d} hne x hx hy => hne ?_
    simp only [List.mem_map] at hx hy
    obtain ⟨_, ⟨_, _, rfl⟩, rfl⟩ := hx
    obtain ⟨_, ⟨_, _, rfl⟩, heq⟩ := hy
    exact (congrArg Prod.fst heq).symm

/-- The classes of a lineage are above the one that it starts with. -/
theorem Hierarchy.below_of_mem_lineage (hh : p.Hierarchy) {cls : String} {owner : ClassDecl}
    (h : owner ∈ p.lineage cls) : p.Below cls owner.name.name := by
  have hdeclares : p.Declares cls := by
    by_contra hnone
    rw [lineage_of_not_declares hnone] at h
    cases h
  obtain ⟨c, hc, rfl⟩ := hh.exists_faithful hdeclares
  rw [hc.lineage hh] at h
  obtain ⟨d, hd, rfl⟩ := List.mem_map.1 h
  rw [(hc.of_mem_ancestors hd).classDecl_name]
  exact (hc.below_iff hh _).2 ⟨d, hd, rfl⟩

theorem field?_eq_some {cls name : String} {owner : ClassDecl} {d : VarDecl}
    (h : p.field? cls name = some (owner, d)) : owner ∈ p.lineage cls ∧ d ∈ owner.fields := by
  rw [field?] at h
  obtain ⟨c, hc, hsome⟩ := List.exists_of_findSome?_eq_some h
  obtain ⟨d', hd, heq⟩ := Option.map_eq_some_iff.1 hsome
  cases heq
  exact ⟨hc, List.mem_of_find?_eq_some hd⟩

theorem method?_eq_some {cls name : String} {owner : ClassDecl} {f : FunctionDecl}
    (h : p.method? cls name = some (owner, f)) : owner ∈ p.lineage cls ∧ f ∈ owner.methods := by
  rw [method?] at h
  obtain ⟨c, hc, hsome⟩ := List.exists_of_findSome?_eq_some h
  obtain ⟨f', hf, heq⟩ := Option.map_eq_some_iff.1 hsome
  cases heq
  exact ⟨hc, List.mem_of_find?_eq_some hf⟩

theorem mem_fieldsOf {cls : String} {owner : ClassDecl} {d : VarDecl}
    (ho : owner ∈ p.lineage cls) (hd : d ∈ owner.fields) :
    (owner.name.name, d) ∈ p.fieldsOf cls :=
  List.mem_flatMap.2 ⟨owner, List.mem_reverse.2 ho, List.mem_map.2 ⟨d, hd, rfl⟩⟩

/-- The fields of a class are among those of its objects. -/
theorem Hierarchy.mem_fieldsOf_self (hh : p.Hierarchy) {c : ClassRef} (hc : c.Faithful p)
    {d : VarDecl} (hd : d ∈ (p.classDecl c).fields) : (c.name, d) ∈ p.fieldsOf c.name := by
  rw [← hc.classDecl_name]
  refine mem_fieldsOf ?_ hd
  rw [hc.classDecl_name, hc.lineage hh]
  exact List.mem_map.2 ⟨c, mem_ancestors_self c, rfl⟩

/-- How many bytes of an object of a class stand before its field at a position. -/
def offsetAt (p : Program) (cls : String) (k : Nat) : Nat :=
  (((p.fieldsOf cls).map fun x => x.2.plain.size).take k).sum

section offsets

variable {cls owner : String} {d : VarDecl} {j k : Nat}

theorem offsetAt_add_le (h : (p.fieldsOf cls)[k]? = some (owner, d)) :
    p.offsetAt cls k + d.plain.size ≤ p.objectSize cls := by
  obtain ⟨hk, hget⟩ := List.getElem?_eq_some_iff.1 h
  have hle := sum_take_add_le_sum (l := (p.fieldsOf cls).map fun x => x.2.plain.size) (j := k)
    (by simpa using hk)
  rwa [List.getElem_map, hget] at hle

theorem offsetAt_lt_of_lt (h : (p.fieldsOf cls)[j]? = some (owner, d)) (hjk : j < k) :
    p.offsetAt cls j < p.offsetAt cls k := by
  obtain ⟨hj, hget⟩ := List.getElem?_eq_some_iff.1 h
  have hle := sum_take_add_le (l := (p.fieldsOf cls).map fun x => x.2.plain.size) (j := j)
    (by simpa using hj) hjk
  rw [List.getElem_map, hget] at hle
  exact Nat.lt_of_lt_of_le (Nat.lt_add_of_pos_right d.plain.size_pos) hle

theorem le_offsetAt (h : k ≤ (p.fieldsOf cls).length) : k ≤ p.offsetAt cls k := by
  induction k with
  | zero => exact Nat.zero_le _
  | succ k ih =>
      obtain ⟨⟨owner, d⟩, hget⟩ : ∃ x, (p.fieldsOf cls)[k]? = some x :=
        ⟨_, List.getElem?_eq_getElem (Nat.lt_of_succ_le h)⟩
      have hlt := offsetAt_lt_of_lt hget (Nat.lt_add_one k)
      have := ih (Nat.le_of_succ_le h)
      omega

/-- Two fields of an object at one place are one. -/
theorem eq_of_offsetAt_eq {owner' : String} {d' : VarDecl}
    (hj : (p.fieldsOf cls)[j]? = some (owner, d)) (hk : (p.fieldsOf cls)[k]? = some (owner', d'))
    (h : p.offsetAt cls j = p.offsetAt cls k) : j = k := by
  rcases Nat.lt_trichotomy j k with hlt | heq | hlt
  · exact (Nat.ne_of_lt (offsetAt_lt_of_lt hj hlt) h).elim
  · exact heq
  · exact (Nat.ne_of_gt (offsetAt_lt_of_lt hk hlt) h).elim

/-- A field stands at one place in the objects of all classes below. -/
theorem Hierarchy.offsetAt_eq (hh : p.Hierarchy) {sub : String} (hb : p.Below sub cls)
    (hk : k ≤ (p.fieldsOf cls).length) : p.offsetAt sub k = p.offsetAt cls k := by
  obtain ⟨rest, hrest⟩ := hh.prefix_fieldsOf hb
  rw [offsetAt, offsetAt, ← hrest, List.map_append,
    List.take_append_of_le_length (by simpa using hk)]

end offsets

end Program
end ObjectLang
