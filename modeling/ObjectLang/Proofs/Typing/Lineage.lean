import Mathlib.Data.List.Nodup
import Mathlib.Tactic
import ObjectLang.Analysis.Members
import ObjectLang.Proofs.Typing.Rules

/-!
# Classes with their ancestors

A class of the analysis carries its superclasses. It is faithful to a program if it has the name and
the superclass that its declaration says, and so on upwards. In a hierarchy without cycles there is
one faithful class for each declared name, and its ancestors are the lineage of the rules.
-/
namespace ObjectLang

/-- A class says what the declarations of a program say. -/
def ClassRef.Faithful (p : Program) : ClassRef → Prop
  | .root name decl =>
    ∃ d, p.classes[decl]? = some d ∧ d.name.name = name ∧ d.superclass = none
  | .derived name decl superclass =>
    ∃ d, p.classes[decl]? = some d ∧ d.name.name = name ∧
      (∃ s, d.superclass = some s ∧ s.name = superclass.name) ∧ superclass.Faithful p

namespace Program

variable {p : Program}

theorem class?_eq_some {name : String} {c : ClassDecl} (h : p.class? name = some c) :
    c ∈ p.classes ∧ c.name.name = name :=
  ⟨List.mem_of_find?_eq_some h, by simpa using List.find?_some h⟩

theorem declares_iff {name : String} : p.Declares name ↔ ∃ c, p.class? name = some c := by
  constructor
  · rintro ⟨c, hc, rfl⟩
    have h : (p.class? c.name.name).isSome := List.find?_isSome.2 ⟨c, hc, by simp⟩
    exact Option.isSome_iff_exists.1 h
  · rintro ⟨c, hc⟩
    exact ⟨c, class?_eq_some hc⟩

/-- Two classes of one name are one class. -/
theorem Hierarchy.eq_of_name (h : p.Hierarchy) {c d : ClassDecl} (hc : c ∈ p.classes)
    (hd : d ∈ p.classes) (hn : c.name.name = d.name.name) : c = d :=
  List.inj_on_of_nodup_map h.names hc hd hn

theorem Hierarchy.class?_eq (h : p.Hierarchy) {c : ClassDecl} (hc : c ∈ p.classes) :
    p.class? c.name.name = some c := by
  obtain ⟨d, hd⟩ := declares_iff.1 ⟨c, hc, rfl⟩
  have := class?_eq_some hd
  rw [hd, h.eq_of_name this.1 hc this.2]

/-- A position of a class is known from its name. -/
theorem Hierarchy.index_eq (h : p.Hierarchy) {i j : Nat} {c d : ClassDecl}
    (hc : p.classes[i]? = some c) (hd : p.classes[j]? = some d)
    (hn : c.name.name = d.name.name) : i = j := by
  have hi : i < (p.classes.map (·.name.name)).length := by
    simpa using (List.getElem?_eq_some_iff.1 hc).1
  refine (List.getElem?_inj hi h.names).1 ?_
  rw [List.getElem?_map, List.getElem?_map, hc, hd, Option.map_some, Option.map_some, hn]

theorem extends_iff (h : p.Hierarchy) {c : ClassDecl} (hc : c ∈ p.classes) {d : String} :
    p.Extends c.name.name d ↔ ∃ s, c.superclass = some s ∧ s.name = d := by
  constructor
  · rintro ⟨c', hc', hn, hs⟩
    rwa [← h.eq_of_name hc' hc hn]
  · intro hs
    exact ⟨c, hc, rfl, hs⟩

end Program

namespace ClassRef

variable {p : Program} {c d : ClassRef}

theorem Faithful.decl_eq (hc : c.Faithful p) :
    ∃ decl, p.classes[c.decl]? = some decl ∧ p.classDecl c = decl ∧ decl.name.name = c.name := by
  cases c with
  | root name i =>
      obtain ⟨decl, hd, hn, _⟩ := hc
      exact ⟨decl, hd, by simp [Program.classDecl, ClassRef.decl, hd], hn⟩
  | derived name i superclass =>
      obtain ⟨decl, hd, hn, _⟩ := hc
      exact ⟨decl, hd, by simp [Program.classDecl, ClassRef.decl, hd], hn⟩

theorem Faithful.mem (hc : c.Faithful p) : p.classDecl c ∈ p.classes := by
  obtain ⟨decl, hd, rfl, _⟩ := hc.decl_eq
  exact List.mem_of_getElem? hd

theorem Faithful.classDecl_name (hc : c.Faithful p) : (p.classDecl c).name.name = c.name := by
  obtain ⟨decl, _, rfl, hn⟩ := hc.decl_eq
  exact hn

theorem Faithful.declares (hc : c.Faithful p) : p.Declares c.name :=
  ⟨p.classDecl c, hc.mem, hc.classDecl_name⟩

theorem Faithful.class? (hc : c.Faithful p) (h : p.Hierarchy) :
    p.class? c.name = some (p.classDecl c) := by
  rw [← hc.classDecl_name]
  exact h.class?_eq hc.mem

/-- The superclass of a faithful class is the one that its declaration names. -/
theorem Faithful.superclass (hc : c.Faithful p) :
    (p.classDecl c).superclass.map (·.name) = c.superclass?.map ClassRef.name := by
  cases c with
  | root name i =>
      obtain ⟨decl, hd, _, hs⟩ := hc
      simp [Program.classDecl, ClassRef.decl, hd, hs, superclass?]
  | derived name i superclass =>
      obtain ⟨decl, hd, _, ⟨s, hs, hn⟩, _⟩ := hc
      simp [Program.classDecl, ClassRef.decl, hd, hs, superclass?, hn]

theorem Faithful.of_superclass (hc : c.Faithful p) (hd : c.superclass? = some d) :
    d.Faithful p := by
  cases c with
  | root name i => simp [superclass?] at hd
  | derived name i superclass =>
      cases hd
      obtain ⟨_, _, _, _, hs⟩ := hc
      exact hs

/-- Classes that are faithful and have one name are the same, with all their ancestors. -/
theorem Faithful.unique (h : p.Hierarchy) : ∀ {c d : ClassRef}, c.Faithful p → d.Faithful p →
    c.name = d.name → c = d := by
  intro c
  induction c with
  | root name i =>
      rintro d ⟨decl, hc, hn, hs⟩ hd hname
      cases d with
      | root name' j =>
          obtain ⟨decl', hd, hn', _⟩ := hd
          simp only [ClassRef.name] at hname
          rw [h.index_eq hc hd (by rw [hn, hn', hname]), hname]
      | derived name' j superclass =>
          obtain ⟨decl', hd, hn', ⟨s, hs', _⟩, _⟩ := hd
          simp only [ClassRef.name] at hname
          have := h.index_eq hc hd (by rw [hn, hn', hname])
          subst this
          rw [hc] at hd
          cases hd
          simp [hs] at hs'
  | derived name i superclass ih =>
      rintro d ⟨decl, hc, hn, ⟨s, hs, hsn⟩, hf⟩ hd hname
      cases d with
      | root name' j =>
          obtain ⟨decl', hd, hn', hs'⟩ := hd
          simp only [ClassRef.name] at hname
          have := h.index_eq hc hd (by rw [hn, hn', hname])
          subst this
          rw [hc] at hd
          cases hd
          simp [hs] at hs'
      | derived name' j superclass' =>
          obtain ⟨decl', hd, hn', ⟨s', hs', hsn'⟩, hf'⟩ := hd
          simp only [ClassRef.name] at hname
          have := h.index_eq hc hd (by rw [hn, hn', hname])
          subst this
          rw [hc] at hd
          cases hd
          rw [hs] at hs'
          cases hs'
          rw [hname, ih hf hf' (by rw [← hsn, hsn'])]

theorem mem_ancestors_self (c : ClassRef) : c ∈ c.ancestors := by
  cases c <;> simp [ancestors]

theorem suffix_ancestors (h : d ∈ c.ancestors) :
    d.ancestors <:+ c.ancestors := by
  induction c with
  | root name i =>
      rw [List.mem_singleton.1 h]
  | derived name i superclass ih =>
      rcases List.mem_cons.1 h with rfl | h
      · exact List.suffix_rfl
      · exact (ih h).trans (List.suffix_cons _ _)

theorem Faithful.of_mem_ancestors : ∀ {c : ClassRef}, c.Faithful p → d ∈ c.ancestors →
    d.Faithful p := by
  intro c
  induction c with
  | root name i =>
      intro hc hd
      simp only [ancestors, List.mem_singleton] at hd
      rwa [hd]
  | derived name i superclass ih =>
      intro hc hd
      rcases List.mem_cons.1 hd with rfl | hd
      · exact hc
      · exact ih (hc.of_superclass rfl) hd

theorem Faithful.extends (hc : c.Faithful p) (hd : c.superclass? = some d) :
    p.Extends c.name d.name := by
  refine ⟨p.classDecl c, hc.mem, hc.classDecl_name, ?_⟩
  have := hc.superclass
  rw [hd] at this
  obtain ⟨s, hs, hn⟩ := Option.map_eq_some_iff.1 this
  exact ⟨s, hs, hn⟩

/-- The ancestors of a faithful class are the classes that it is below of. -/
theorem Faithful.below_iff (h : p.Hierarchy) : ∀ {c : ClassRef}, c.Faithful p →
    ∀ name, p.Below c.name name ↔ ∃ d ∈ c.ancestors, d.name = name := by
  intro c
  induction c with
  | root name i =>
      intro hc other
      simp only [ancestors, List.mem_singleton, exists_eq_left]
      constructor
      · intro hb
        rcases Relation.ReflTransGen.cases_head hb with heq | ⟨d, hcd, _⟩
        · exact heq
        · rw [← hc.classDecl_name, Program.extends_iff h hc.mem] at hcd
          obtain ⟨s, hs, _⟩ := hcd
          have := hc.superclass
          simp [hs, superclass?] at this
      · rintro rfl
        exact .refl
  | derived name i superclass ih =>
      intro hc other
      have hs := hc.of_superclass (d := superclass) rfl
      simp only [ancestors, List.mem_cons, exists_eq_or_imp, ← ih hs other]
      constructor
      · intro hb
        rcases Relation.ReflTransGen.cases_head hb with heq | ⟨d, hcd, hdo⟩
        · exact .inl heq
        · rw [← hc.classDecl_name, Program.extends_iff h hc.mem] at hcd
          obtain ⟨s, hs', rfl⟩ := hcd
          have := hc.superclass
          simp only [hs', superclass?, Option.map_some, Option.some.injEq] at this
          rw [this] at hdo
          exact .inr hdo
      · rintro (rfl | hb)
        · exact .refl
        · exact .head (hc.extends (d := superclass) rfl) hb

theorem Faithful.isSubclass_iff (h : p.Hierarchy) (hc : c.Faithful p) :
    c.isSubclass d = true ↔ p.Below c.name d.name := by
  simp [isSubclass, hc.below_iff h, List.any_eq_true, ClassRef.same]

/-- No name occurs twice among the ancestors of a class. -/
theorem Faithful.nodup_ancestors (h : p.Hierarchy) : ∀ {c : ClassRef}, c.Faithful p →
    (c.ancestors.map ClassRef.name).Nodup := by
  intro c
  induction c with
  | root name i =>
      intro _
      exact List.nodup_singleton name
  | derived name i superclass ih =>
      intro hc
      have hs := hc.of_superclass (d := superclass) rfl
      refine List.nodup_cons.2 ⟨?_, ih hs⟩
      intro hmem
      obtain ⟨d, hd, hn⟩ := List.mem_map.1 hmem
      have hb : p.Below superclass.name name := (hs.below_iff h name).2 ⟨d, hd, hn⟩
      exact h.acyclic name (Relation.TransGen.head' (hc.extends (d := superclass) rfl) hb)

theorem Faithful.length_ancestors (h : p.Hierarchy) (hc : c.Faithful p) :
    c.ancestors.length ≤ p.classes.length := by
  have hsub : c.ancestors.map ClassRef.name ⊆ p.classes.map (·.name.name) := by
    intro name hn
    obtain ⟨d, hd, rfl⟩ := List.mem_map.1 hn
    have hd := hc.of_mem_ancestors hd
    exact List.mem_map.2 ⟨p.classDecl d, hd.mem, hd.classDecl_name⟩
  simpa using ((hc.nodup_ancestors h).subperm hsub).length_le

theorem Faithful.lineageWithin (h : p.Hierarchy) : ∀ {c : ClassRef} {steps : Nat},
    c.Faithful p → c.ancestors.length ≤ steps →
    p.lineageWithin steps c.name = c.ancestors.map p.classDecl := by
  intro c
  induction c with
  | root name i =>
      intro steps hc hl
      obtain ⟨steps, rfl⟩ := Nat.exists_eq_add_of_le' hl
      have hs : (p.classDecl (.root name i)).superclass = none := by
        simpa [superclass?] using hc.superclass
      simp [Program.lineageWithin, hc.class? h, hs, ancestors]
  | derived name i superclass ih =>
      intro steps hc hl
      cases steps with
      | zero => simp [ancestors] at hl
      | succ steps =>
          have hs := hc.superclass
          obtain ⟨s, hs, hn⟩ := Option.map_eq_some_iff.1 hs
          have hrest := @ih steps (hc.of_superclass rfl) (by simpa [ancestors] using hl)
          simp [Program.lineageWithin, hc.class? h, hs, ancestors, hn, hrest]

/-- The lineage of a class by the rules is the one that the class carries. -/
theorem Faithful.lineage (h : p.Hierarchy) (hc : c.Faithful p) :
    p.lineage c.name = c.ancestors.map p.classDecl :=
  hc.lineageWithin h (hc.length_ancestors h)

end ClassRef
end ObjectLang
