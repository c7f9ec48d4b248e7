import Mathlib.Tactic
import ObjectLang.Analysis.Members
import ObjectLang.Proofs.Analysis.Hierarchy
import ObjectLang.Proofs.Typing.Outline

/-!
# Class tables of any classes

Whatever is wrong with the classes of a program, their table is closed: no two of its classes have
one name, and it has the ancestors of its classes. Cutting a cycle makes the way upwards end from
where the cycle was found, and edges that are gone do not come back, so in the end the way upwards
from each accepted class ends.
-/
namespace ObjectLang.ClassTable

variable {decls : List ClassDecl} {e : Edges}

section accepted

theorem mem_accepted {d : ClassDecl} {i : Nat} :
    (d, i) ∈ accepted decls ↔ decls[i]? = some d ∧ firstOf? decls d.name.name = some i := by
  rw [accepted, List.mem_filter, List.mk_mem_zipIdx_iff_getElem?, isFirst, beq_iff_eq]

/-- The first class of a name is accepted. -/
theorem exists_mem_accepted {name : String} {i : Nat} (h : firstOf? decls name = some i) :
    ∃ d, (d, i) ∈ accepted decls ∧ d.name.name = name := by
  obtain ⟨d, hd, rfl⟩ := firstOf?_eq_some h
  exact ⟨d, mem_accepted.2 ⟨hd, h⟩, rfl⟩

theorem lt_of_mem_accepted {d : ClassDecl} {i : Nat} (h : (d, i) ∈ accepted decls) :
    i < decls.length :=
  (List.getElem?_eq_some_iff.1 (mem_accepted.1 h).1).1

theorem nodup_accepted : ((accepted decls).map (·.1.name.name)).Nodup := by
  have hnodup : (accepted decls).Nodup := by
    refine List.Nodup.filter _ (List.Nodup.of_map Prod.snd ?_)
    rw [List.zipIdx_map_snd]
    exact List.nodup_range'
  refine hnodup.map_on ?_
  rintro ⟨d, i⟩ hd ⟨d', j⟩ hd' hname
  obtain ⟨hd, hi⟩ := mem_accepted.1 hd
  obtain ⟨hd', hj⟩ := mem_accepted.1 hd'
  simp only at hname
  rw [hname] at hi
  obtain rfl := Option.some.inj (hi.symm.trans hj)
  rw [Option.some.inj (hd.symm.trans hd')]

theorem edge_edges {i j : Nat} : edge (edges decls) i = some j ↔
    ∃ d s, (d, i) ∈ accepted decls ∧ d.superclass = some s ∧ firstOf? decls s.name = some j := by
  simp only [edge, edges, List.getElem?_toArray, List.getElem?_map, List.getElem?_zipIdx,
    mem_accepted]
  cases hd : decls[i]? with
  | none => simp
  | some d =>
      by_cases hfirst : firstOf? decls d.name.name = some i <;>
        simp [edgeOf, isFirst, hfirst, Option.bind_eq_some_iff]

/-- Edges lead to accepted classes. -/
theorem Up.mem_accepted {i j : Nat} (h : Up (edges decls) i j) : ∃ d, (d, j) ∈ accepted decls := by
  obtain ⟨_, s, _, _, hj⟩ := edge_edges.1 h
  obtain ⟨d, hd, _⟩ := exists_mem_accepted hj
  exact ⟨d, hd⟩

end accepted

section cutting

/-- The way upwards from a class ends. -/
def Ends (e : Edges) (i : Nat) : Prop :=
  Acc (fun j i => Up e i j) i

theorem edge_cut {members : List Nat} {i : Nat} :
    edge (cut e members) i = if i ∈ members then none else edge e i := by
  induction members generalizing e with
  | nil => rfl
  | cons m members ih =>
      rw [cut, List.foldl_cons, ← cut, ih]
      by_cases hmem : i ∈ members
      · simp [hmem]
      · simp only [hmem, if_false, List.mem_cons, or_false, edge, Array.getElem?_setIfInBounds]
        by_cases him : m = i
        · subst him
          by_cases hlt : m < e.size <;> simp [hlt]
        · simp [him, Ne.symm him]

theorem Up.of_cut {members : List Nat} {i j : Nat} (h : Up (cut e members) i j) : Up e i j := by
  rw [Up, edge_cut] at h
  split_ifs at h
  exact h

theorem Ends.mono {e' : Edges} {i : Nat} (h : Ends e i) (he : ∀ i j, Up e' i j → Up e i j) :
    Ends e' i :=
  Subrelation.accessible (fun hup => he _ _ hup) h

/-- Where the walk upwards finds a cycle, cutting it makes the way end. -/
theorem ends_cut {n : Nat} (hclosed : ∀ i j, Up e i j → j < n) :
    ∀ (steps : Nat) (passed : List Nat) (i : Nat), passed.Nodup → (∀ j ∈ passed, j < n) → i < n →
      n + 1 ≤ steps + passed.length → Ends (cut e (cycleFrom e steps passed i)) i := by
  intro steps
  induction steps with
  | zero =>
      intro passed i hd hn _ hl
      have := length_le_of_nodup hd hn
      omega
  | succ steps ih =>
      intro passed i hd hn hi hl
      rw [cycleFrom]
      split_ifs with hmem
      · refine Acc.intro _ fun j hj => ?_
        rw [Up, edge_cut, if_pos (by simp)] at hj
        cases hj
      · split
        · next next hnext =>
          refine Acc.intro _ fun j hj => ?_
          obtain rfl := Option.some.inj (hj.of_cut.symm.trans hnext)
          refine ih (i :: passed) j (List.nodup_cons.2 ⟨hmem, hd⟩) ?_ (hclosed i j hnext) ?_
          · exact List.forall_mem_cons.2 ⟨hi, hn⟩
          · rw [List.length_cons]
            omega
        · next hnone =>
          refine Acc.intro _ fun j hj => ?_
          cases hnone.symm.trans hj.of_cut

/-- Behind the search for cycles the way upwards ends from each start, and there are no new
edges. -/
theorem ends_cutFrom (starts : List (ClassDecl × Nat))
    (hstarts : ∀ x ∈ starts, x.2 < decls.length) :
    ∀ (e : Edges) (found : List Diagnostic), (∀ i j, Up e i j → j < decls.length) →
      (∀ i j, Up (cutFrom decls (e, found) starts).1 i j → Up e i j) ∧
        ∀ x ∈ starts, Ends (cutFrom decls (e, found) starts).1 x.2 := by
  induction starts with
  | nil => exact fun _ _ _ => ⟨fun _ _ h => h, by simp⟩
  | cons start starts ih =>
      intro e found hclosed
      obtain ⟨hstart, hstarts⟩ := List.forall_mem_cons.1 hstarts
      obtain ⟨members, hmembers⟩ :
          ∃ members, members = cycleFrom e (decls.length + 1) [] start.2 := ⟨_, rfl⟩
      have hrun : cutFrom decls (e, found) (start :: starts) =
          cutFrom decls (cut e members, found ++ cycleDiagnostics decls members) starts := by
        rw [hmembers]
        rfl
      obtain ⟨hup, hends⟩ := ih hstarts (cut e members)
        (found ++ cycleDiagnostics decls members) fun i j h => hclosed i j h.of_cut
      rw [hrun]
      refine ⟨fun i j h => (hup i j h).of_cut, List.forall_mem_cons.2 ⟨?_, hends⟩⟩
      rw [hmembers] at hup ⊢
      exact (ends_cut hclosed _ [] start.2 List.nodup_nil (by simp) hstart (by simp)).mono hup

/-- The edges that are left when all cycles are cut. -/
def edgesLeft (decls : List ClassDecl) : Edges :=
  (cutCycles decls (edges decls)).1

theorem Up.of_left {i j : Nat} (h : Up (edgesLeft decls) i j) : Up (edges decls) i j :=
  (ends_cutFrom (accepted decls) (fun _ hx => lt_of_mem_accepted hx) (edges decls) []
    fun _ _ h => by
      obtain ⟨_, hd⟩ := h.mem_accepted
      exact lt_of_mem_accepted hd).1 i j h

theorem ends_left {d : ClassDecl} {i : Nat} (h : (d, i) ∈ accepted decls) :
    Ends (edgesLeft decls) i :=
  (ends_cutFrom (accepted decls) (fun _ hx => lt_of_mem_accepted hx) (edges decls) []
    fun _ _ h => by
      obtain ⟨_, hd⟩ := h.mem_accepted
      exact lt_of_mem_accepted hd).2 _ h

end cutting

section chains

/-- A class with all its superclasses, as the edges say. -/
inductive IsChain (decls : List ClassDecl) (e : Edges) : Nat → ClassRef → Prop
  | root {i : Nat} : edge e i = none → IsChain decls e i (.root (decls[i]?.elim "" (·.name.name)) i)
  | derived {i j : Nat} {c : ClassRef} : edge e i = some j → IsChain decls e j c →
      IsChain decls e i (.derived (decls[i]?.elim "" (·.name.name)) i c)

namespace IsChain

variable {i : Nat} {c d : ClassRef}

theorem decl (h : IsChain decls e i c) : c.decl = i := by
  cases h <;> rfl

theorem name (h : IsChain decls e i c) : c.name = decls[i]?.elim "" (·.name.name) := by
  cases h <;> rfl

theorem functional (h : IsChain decls e i c) : IsChain decls e i d → c = d := by
  induction h generalizing d with
  | root hi =>
      intro h
      cases h with
      | root => rfl
      | derived hi' _ => exact nomatch hi.symm.trans hi'
  | derived hi _ ih =>
      intro h
      cases h with
      | root hi' => exact nomatch hi.symm.trans hi'
      | derived hi' h =>
          obtain rfl := Option.some.inj (hi.symm.trans hi')
          rw [ih h]

theorem exists_of_ends (h : Ends e i) : ∃ c, IsChain decls e i c := by
  induction h with
  | intro i _ ih =>
      cases hi : edge e i with
      | none => exact ⟨_, .root hi⟩
      | some j =>
          obtain ⟨c, hc⟩ := ih j hi
          exact ⟨_, .derived hi hc⟩

/-- The ancestors of a class are found on the way upwards, each with its own ancestors. -/
theorem of_mem_ancestors (h : IsChain decls e i c) (hd : d ∈ c.ancestors) :
    IsChain decls e d.decl d ∧ Relation.ReflTransGen (Up e) i d.decl := by
  induction h with
  | root hi =>
      rw [ClassRef.ancestors, List.mem_singleton] at hd
      subst hd
      exact ⟨.root hi, .refl⟩
  | derived hi hc ih =>
      rcases List.mem_cons.1 hd with rfl | hd
      · exact ⟨.derived hi hc, .refl⟩
      · obtain ⟨hchain, hway⟩ := ih hd
        exact ⟨hchain, .head hi hway⟩

theorem nodup_ancestors (h : IsChain decls e i c) (hi : Ends e i) :
    (c.ancestors.map ClassRef.decl).Nodup := by
  induction h with
  | root => exact List.nodup_singleton _
  | @derived i j c hij hc ih =>
      refine List.nodup_cons.2 ⟨fun hmem => ?_, ih (hi.inv hij)⟩
      obtain ⟨d, hd, hdecl⟩ := List.mem_map.1 hmem
      have hway := (hc.of_mem_ancestors hd).2
      rw [hdecl] at hway
      -- A way that ends does not come back to where it starts.
      have hloop : Relation.TransGen (Up e) i i := .head' hij hway
      have hswap : Relation.TransGen (fun j i => Up e i j) i i := Relation.transGen_swap.2 hloop
      exact (irrefl_of_acc hi.transGen hswap)
where
  irrefl_of_acc {r : Nat → Nat → Prop} {x : Nat} (h : Acc r x) : ¬ r x x := by
    induction h with
    | intro x _ ih => exact fun hx => ih x hx hx

theorem chain_eq (h : IsChain decls e i c) :
    ∀ steps, c.ancestors.length ≤ steps + 1 → chain decls e steps i = c := by
  induction h with
  | root hi =>
      rintro (_ | steps) _
      · rfl
      · simp [chain, hi]
  | @derived i j c hij hc ih =>
      rintro (_ | steps) hl
      · cases c <;> simp [ClassRef.ancestors] at hl
      · simp only [ClassRef.ancestors, List.length_cons] at hl
        simp [chain, hij, ih steps (by omega)]

end IsChain

theorem chain_left {d : ClassDecl} {i : Nat} (h : (d, i) ∈ accepted decls) :
    IsChain decls (edgesLeft decls) i (chain decls (edgesLeft decls) decls.length i) := by
  obtain ⟨c, hc⟩ : ∃ c, IsChain decls _ _ c := IsChain.exists_of_ends (ends_left h)
  have hlength : c.ancestors.length ≤ decls.length := by
    have hlt : ∀ j ∈ c.ancestors.map ClassRef.decl, j < decls.length := by
      intro j hj
      obtain ⟨x, hx, rfl⟩ := List.mem_map.1 hj
      rcases Relation.ReflTransGen.cases_tail (hc.of_mem_ancestors hx).2 with heq | ⟨k, _, hk⟩
      · rw [heq]
        exact lt_of_mem_accepted h
      · obtain ⟨_, hd⟩ := hk.of_left.mem_accepted
        exact lt_of_mem_accepted hd
    simpa using length_le_of_nodup (hc.nodup_ancestors (ends_left h)) hlt
  rw [hc.chain_eq _ (by omega)]
  exact hc

end chains

theorem classes_build : (build decls).1.classes =
    (accepted decls).map fun (_, i) => chain decls (edgesLeft decls) decls.length i :=
  rfl

/-- The classes of a table are the accepted ones, each with its way upwards. -/
theorem mem_build {c : ClassRef} : c ∈ (build decls).1.classes ↔
    ∃ d i, (d, i) ∈ accepted decls ∧ IsChain decls (edgesLeft decls) i c := by
  rw [classes_build, List.mem_map]
  constructor
  · rintro ⟨⟨d, i⟩, hd, rfl⟩
    exact ⟨d, i, hd, chain_left hd⟩
  · rintro ⟨d, i, hd, hc⟩
    exact ⟨(d, i), hd, (chain_left hd).functional hc⟩

theorem closed_build : (build decls).1.Closed := by
  constructor
  · have hnames : (build decls).1.classes.map ClassRef.name =
        (accepted decls).map (·.1.name.name) := by
      rw [classes_build, List.map_map]
      refine List.map_congr_left fun x hx => ?_
      obtain ⟨d, i⟩ := x
      have hd := (mem_accepted.1 hx).1
      simpa [hd] using (chain_left hx).name
    rw [hnames]
    exact nodup_accepted
  · intro c hc x hx
    obtain ⟨d, i, hd, hchain⟩ := mem_build.1 hc
    obtain ⟨hx', hway⟩ := hchain.of_mem_ancestors hx
    rcases Relation.ReflTransGen.cases_tail hway with heq | ⟨k, _, hk⟩
    · exact mem_build.2 ⟨d, i, hd, heq ▸ hx'⟩
    · obtain ⟨d', hd'⟩ := hk.of_left.mem_accepted
      exact mem_build.2 ⟨d', _, hd', hx'⟩

/-- A class of a table has the name of its declaration. -/
theorem classDecl_build {p : Program} {c : ClassRef} (hc : c ∈ (build p.classes).1.classes) :
    p.classes[c.decl]? = some (p.classDecl c) ∧ (p.classDecl c).name.name = c.name := by
  obtain ⟨d, i, hd, hchain⟩ := mem_build.1 hc
  have hget := (mem_accepted.1 hd).1
  rw [Program.classDecl, hchain.decl, hget]
  refine ⟨rfl, ?_⟩
  rw [hchain.name, hget]
  rfl

/-- No two ancestors of a class have one name. -/
theorem Closed.nodup_ancestors {t : ClassTable} {c : ClassRef} (h : t.Closed) (hc : c ∈ t.classes)
    (hnodup : c.ancestors.Nodup) : (c.ancestors.map ClassRef.name).Nodup :=
  hnodup.map_on fun _ hx _ hy hn =>
    h.eq_of_name (h.ancestors c hc _ hx) (h.ancestors c hc _ hy) hn

theorem nodup_ancestors_build {c : ClassRef} (hc : c ∈ (build decls).1.classes) :
    (c.ancestors.map ClassRef.name).Nodup := by
  obtain ⟨d, i, hd, hchain⟩ := mem_build.1 hc
  exact closed_build.nodup_ancestors hc (hchain.nodup_ancestors (ends_left hd)).of_map

end ObjectLang.ClassTable
