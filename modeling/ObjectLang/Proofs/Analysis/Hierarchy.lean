import Mathlib.Data.List.Nodup
import Mathlib.Logic.Relation
import Mathlib.Tactic
import ObjectLang.Analysis.ClassTable
import ObjectLang.Proofs.Typing.Lineage

/-!
# The class table of a hierarchy

Making the class table reports nothing exactly if class names differ, superclasses are declared and
there is no cycle. The table then has one faithful class for each declaration, in order. The walk
upwards passes every class at most once before it meets a cycle, so as many steps as there are
classes are enough.
-/
namespace ObjectLang.ClassTable

variable {p : Program} {decls : List ClassDecl} {e : Edges}

/-- Some positions that differ and lie below `n` are at most `n`. -/
theorem length_le_of_nodup {n : Nat} {passed : List Nat} (hd : passed.Nodup)
    (hn : ∀ i ∈ passed, i < n) : passed.length ≤ n := by
  have hsub : passed ⊆ List.range n := fun i hi => List.mem_range.2 (hn i hi)
  simpa using (hd.subperm hsub).length_le

/-- A class finds its superclass at a position. -/
def Up (e : Edges) (i j : Nat) : Prop :=
  edge e i = some j

theorem cycleFrom_eq_nil (hacyclic : ∀ i, ¬ Relation.TransGen (Up e) i i) :
    ∀ (steps : Nat) (passed : List Nat) (i : Nat),
      (∀ j ∈ passed, Relation.TransGen (Up e) j i) → cycleFrom e steps passed i = [] := by
  intro steps
  induction steps with
  | zero => intros; rfl
  | succ steps ih =>
      intro passed i hp
      rw [cycleFrom]
      split_ifs with hi
      · exact (hacyclic i (hp i hi)).elim
      · split
        · next next hnext =>
          refine ih _ _ ?_
          intro j hj
          rcases List.mem_cons.1 hj with rfl | hj
          · exact .single hnext
          · exact (hp j hj).tail hnext
        · rfl

/-- On a way that never ends the walk meets a cycle before its steps are used up. -/
theorem cycleFrom_ne_nil {n : Nat} :
    ∀ (steps : Nat) (passed : List Nat) (i : Nat), passed.Nodup → (∀ j ∈ passed, j < n) →
      (∀ k, Relation.ReflTransGen (Up e) i k → k < n ∧ ∃ j, Up e k j) →
      n + 1 ≤ steps + passed.length → cycleFrom e steps passed i ≠ [] := by
  intro steps
  induction steps with
  | zero =>
      intro passed i hd hn _ hl
      have := length_le_of_nodup hd hn
      omega
  | succ steps ih =>
      intro passed i hd hn hway hl
      rw [cycleFrom]
      split_ifs with hi
      · simp
      · obtain ⟨hin, j, hj⟩ := hway i .refl
        rw [show edge e i = some j from hj]
        refine ih _ _ (List.nodup_cons.2 ⟨hi, hd⟩) ?_ ?_ ?_
        · intro k hk
          rcases List.mem_cons.1 hk with rfl | hk
          · exact hin
          · exact hn k hk
        · exact fun k hk => hway k (.head hj hk)
        · simp only [List.length_cons]
          omega

theorem mem_cycleFrom {n : Nat} (hclosed : ∀ i j, Up e i j → j < n) :
    ∀ (steps : Nat) (passed : List Nat) (i : Nat), (∀ j ∈ passed, j < n) → i < n →
      ∀ k ∈ cycleFrom e steps passed i, k < n := by
  intro steps
  induction steps with
  | zero => intro _ _ _ _ k hk; simp [cycleFrom] at hk
  | succ steps ih =>
      intro passed i hp hi k hk
      rw [cycleFrom] at hk
      split_ifs at hk with hmem
      · simp only [List.reverse_append, List.reverse_singleton, List.singleton_append,
          List.mem_cons, List.mem_reverse] at hk
        rcases hk with rfl | hk
        · exact hi
        · exact hp k (List.takeWhile_subset _ hk)
      · split at hk
        · next next hnext =>
          refine ih _ _ ?_ (hclosed i next hnext) k hk
          intro j hj
          rcases List.mem_cons.1 hj with rfl | hj
          · exact hi
          · exact hp j hj
        · simp at hk

/-- What is found of the cycles from some starts on, over edges that lose those of each cycle. -/
def cutFrom (decls : List ClassDecl) (acc : Edges × List Diagnostic)
    (starts : List (ClassDecl × Nat)) : Edges × List Diagnostic :=
  starts.foldl
    (fun (e, found) (_, start) =>
      let members := cycleFrom e (decls.length + 1) [] start
      (cut e members, found ++ cycleDiagnostics decls members)) acc

theorem cutFrom_acyclic (hacyclic : ∀ i, ¬ Relation.TransGen (Up e) i i)
    (starts : List (ClassDecl × Nat)) (found : List Diagnostic) :
    cutFrom decls (e, found) starts = (e, found) := by
  induction starts with
  | nil => rfl
  | cons start starts ih =>
      have hnil := cycleFrom_eq_nil hacyclic (decls.length + 1) [] start.2 (by simp)
      simp only [cutFrom, List.foldl_cons, hnil, cut, List.foldl_nil, cycleDiagnostics,
        List.filterMap_nil, List.map_nil, List.append_nil]
      exact ih

theorem cutFrom_found (starts : List (ClassDecl × Nat)) (acc : Edges × List Diagnostic)
    (h : acc.2 ≠ []) : (cutFrom decls acc starts).2 ≠ [] := by
  induction starts generalizing acc with
  | nil => exact h
  | cons start starts ih =>
      refine ih _ ?_
      simp only [ne_eq, List.append_eq_nil_iff, not_and]
      exact fun hnil => (h hnil).elim

theorem cycleDiagnostics_ne_nil {members : List Nat} (hne : members ≠ [])
    (hlt : ∀ k ∈ members, k < decls.length) : cycleDiagnostics decls members ≠ [] := by
  obtain ⟨k, members, rfl⟩ := List.exists_cons_of_ne_nil hne
  have hk := hlt k (by simp)
  simp [cycleDiagnostics, List.getElem?_eq_getElem hk]

/-- A cycle that some start reaches is found. -/
theorem cutFrom_cycle (hclosed : ∀ i j, Up e i j → j < decls.length) {c : ClassDecl} {i : Nat}
    (hway : ∀ k, Relation.ReflTransGen (Up e) i k → k < decls.length ∧ ∃ j, Up e k j)
    (starts : List (ClassDecl × Nat)) (hmem : (c, i) ∈ starts)
    (hstarts : ∀ start ∈ starts, start.2 < decls.length) :
    (cutFrom decls (e, []) starts).2 ≠ [] := by
  induction starts with
  | nil => simp at hmem
  | cons start starts ih =>
      by_cases hnil : cycleFrom e (decls.length + 1) [] start.2 = []
      · have hrest : (c, i) ∈ starts := by
          rcases List.mem_cons.1 hmem with rfl | h
          · exact (cycleFrom_ne_nil _ [] i List.nodup_nil (by simp) hway (by simp) hnil).elim
          · exact h
        have := ih hrest fun s hs => hstarts s (List.mem_cons_of_mem _ hs)
        simpa [cutFrom, List.foldl_cons, hnil, cut, cycleDiagnostics] using this
      · refine cutFrom_found starts _ ?_
        have hlt := mem_cycleFrom hclosed (decls.length + 1) [] start.2 (by simp)
          (hstarts start (by simp))
        simpa using cycleDiagnostics_ne_nil hnil hlt

theorem firstOf?_eq_some {name : String} {i : Nat} (h : firstOf? decls name = some i) :
    ∃ d, decls[i]? = some d ∧ d.name.name = name := by
  obtain ⟨hi, hn, _⟩ := List.findIdx?_eq_some_iff_getElem.1 h
  exact ⟨decls[i], List.getElem?_eq_getElem hi, by simpa using hn⟩

theorem firstOf?_eq_none {name : String} :
    firstOf? decls name = none ↔ ∀ d ∈ decls, d.name.name ≠ name := by
  simp [firstOf?, List.findIdx?_eq_none_iff]

theorem declares_iff {name : String} :
    p.Declares name ↔ ∃ i, firstOf? p.classes name = some i := by
  rw [← Option.isSome_iff_exists, ← Option.ne_none_iff_isSome, ne_eq, firstOf?_eq_none]
  simp [Program.Declares]

theorem isFirst_iff {d : ClassDecl} {i : Nat} (hd : decls[i]? = some d) :
    isFirst decls (d, i) = true ↔ ∀ j c, decls[j]? = some c →
    c.name.name = d.name.name → i ≤ j := by
  obtain ⟨hi, hdi⟩ := List.getElem?_eq_some_iff.1 hd
  simp only [isFirst, firstOf?, beq_iff_eq, List.findIdx?_eq_some_iff_getElem]
  constructor
  · rintro ⟨_, _, hfirst⟩ j c hc hn
    obtain ⟨hj, hcj⟩ := List.getElem?_eq_some_iff.1 hc
    by_contra hlt
    have := hfirst j (by omega)
    simp [hcj, hn] at this
  · intro hfirst
    refine ⟨hi, by simp [hdi], ?_⟩
    intro j hj hn
    have := hfirst j decls[j] (List.getElem?_eq_getElem (by omega)) (by simpa using hn)
    omega

/-- Every class is the first of its name exactly if the names differ. -/
theorem forall_isFirst_iff :
    (∀ x ∈ decls.zipIdx, isFirst decls x = true) ↔ (decls.map (·.name.name)).Nodup := by
  rw [List.nodup_iff_injective_getElem]
  constructor
  · intro h i j hij
    have hi : i.1 < decls.length := by simpa using i.2
    have hj : j.1 < decls.length := by simpa using j.2
    have hmem {k : Nat} (hk : k < decls.length) : (decls[k], k) ∈ decls.zipIdx :=
      List.mk_mem_zipIdx_iff_getElem?.2 (List.getElem?_eq_getElem hk)
    have hle := (isFirst_iff (List.getElem?_eq_getElem hi)).1 (h _ (hmem hi)) j _
      (List.getElem?_eq_getElem hj) (by simpa using hij.symm)
    have hge := (isFirst_iff (List.getElem?_eq_getElem hj)).1 (h _ (hmem hj)) i _
      (List.getElem?_eq_getElem hi) (by simpa using hij)
    exact Fin.ext (by omega)
  · rintro h ⟨d, i⟩ hmem
    have hd := List.mk_mem_zipIdx_iff_getElem?.1 hmem
    refine (isFirst_iff hd).2 fun j c hc hn => ?_
    obtain ⟨hi, hdi⟩ := List.getElem?_eq_some_iff.1 hd
    obtain ⟨hj, hcj⟩ := List.getElem?_eq_some_iff.1 hc
    have := @h ⟨i, by simpa using hi⟩ ⟨j, by simpa using hj⟩ (by simp [hdi, hcj, hn])
    simp only [Fin.mk.injEq] at this
    omega

theorem duplicates_eq_nil : duplicates decls = [] ↔ (decls.map (·.name.name)).Nodup := by
  simp [← forall_isFirst_iff, duplicates, List.filter_eq_nil_iff]

section

variable (hn : (decls.map (·.name.name)).Nodup)

include hn

theorem accepted_eq : accepted decls = decls.zipIdx :=
  List.filter_eq_self.2 (forall_isFirst_iff.2 hn)

theorem up_iff {i j : Nat} : Up (edges decls) i j ↔
    ∃ c s, decls[i]? = some c ∧ c.superclass = some s ∧ firstOf? decls s.name = some j := by
  have hfirst := forall_isFirst_iff.2 hn
  simp only [Up, edge, edges, List.getElem?_toArray, List.getElem?_map, List.getElem?_zipIdx]
  cases hc : decls[i]? with
  | none => simp
  | some c =>
      have := hfirst (c, i) (List.mk_mem_zipIdx_iff_getElem?.2 hc)
      simp [edgeOf, this, Option.bind_eq_some_iff]

theorem undeclared_eq_nil : undeclared decls = [] ↔
    ∀ c ∈ decls, ∀ s, c.superclass = some s → ∃ i, firstOf? decls s.name = some i := by
  simp only [undeclared, accepted_eq hn, List.filterMap_eq_nil_iff]
  constructor
  · intro h c hc s hs
    obtain ⟨i, hi⟩ := List.mem_iff_getElem?.1 hc
    have := h (c, i) (List.mk_mem_zipIdx_iff_getElem?.2 hi)
    cases hf : firstOf? decls s.name with
    | none => simp [hs, hf] at this
    | some j => exact ⟨j, rfl⟩
  · rintro h ⟨c, i⟩ hc
    have hc := List.mem_of_getElem? (List.mk_mem_zipIdx_iff_getElem?.1 hc)
    cases hs : c.superclass with
    | none => simp
    | some s =>
        obtain ⟨j, hj⟩ := h c hc s hs
        simp [hj]

end

/-- Positions and names have the same ways upwards. -/
theorem transGen_up_iff (hn : (p.classes.map (·.name.name)).Nodup)
    (hs : ∀ c ∈ p.classes, ∀ s, c.superclass = some s → p.Declares s.name) :
    (∀ i, ¬ Relation.TransGen (Up (edges p.classes)) i i) ↔
      ∀ c, ¬ Relation.TransGen p.Extends c c := by
  have name_of {i j : Nat} (h : Up (edges p.classes) i j) : ∃ c d, p.classes[i]? = some c ∧
      p.classes[j]? = some d ∧ p.Extends c.name.name d.name.name := by
    obtain ⟨c, s, hc, hsup, hf⟩ := (up_iff hn).1 h
    obtain ⟨d, hd, hdn⟩ := firstOf?_eq_some hf
    exact ⟨c, d, hc, hd, c, List.mem_of_getElem? hc, rfl, s, hsup, hdn.symm⟩
  have up_of {c d : String} (h : p.Extends c d) : ∃ i j, firstOf? p.classes c = some i ∧
      firstOf? p.classes d = some j ∧ Up (edges p.classes) i j := by
    obtain ⟨decl, hdecl, rfl, s, hsup, rfl⟩ := h
    obtain ⟨i, hi⟩ := declares_iff.1 ⟨decl, hdecl, rfl⟩
    obtain ⟨j, hj⟩ := declares_iff.1 (hs decl hdecl s hsup)
    obtain ⟨decl', hd', hn'⟩ := firstOf?_eq_some hi
    have := List.inj_on_of_nodup_map hn (List.mem_of_getElem? hd') hdecl hn'
    subst this
    exact ⟨i, j, hi, hj, (up_iff hn).2 ⟨decl', s, hd', hsup, hj⟩⟩
  constructor
  · intro h c hc
    obtain ⟨d, hcd, hdc⟩ := Relation.TransGen.head'_iff.1 hc
    obtain ⟨i, j, hi, hj, hup⟩ := up_of hcd
    have key : ∀ x y, Relation.ReflTransGen p.Extends x y → ∀ k, firstOf? p.classes x = some k →
        ∃ l, firstOf? p.classes y = some l ∧
          Relation.ReflTransGen (Up (edges p.classes)) k l := by
      intro x y hxy
      induction hxy with
      | refl => exact fun k hk => ⟨k, hk, .refl⟩
      | tail _ hyz ih =>
          intro k hk
          obtain ⟨l, hl, hkl⟩ := ih k hk
          obtain ⟨l', m, hl', hm, hup⟩ := up_of hyz
          rw [hl] at hl'
          cases hl'
          exact ⟨m, hm, hkl.tail hup⟩
    obtain ⟨l, hl, hjl⟩ := key d c hdc j hj
    rw [hi] at hl
    cases hl
    exact h i (.head' hup hjl)
  · intro h i hi
    have key : ∀ x y, Relation.TransGen (Up (edges p.classes)) x y → ∃ c d,
        p.classes[x]? = some c ∧ p.classes[y]? = some d ∧
          Relation.TransGen p.Extends c.name.name d.name.name := by
      intro x y hxy
      induction hxy with
      | single hxy =>
          obtain ⟨c, d, hc, hd, hcd⟩ := name_of hxy
          exact ⟨c, d, hc, hd, .single hcd⟩
      | tail _ hyz ih =>
          obtain ⟨c, d, hc, hd, hcd⟩ := ih
          obtain ⟨d', e, hd', he, hde⟩ := name_of hyz
          rw [hd] at hd'
          cases hd'
          exact ⟨c, e, hc, he, hcd.tail hde⟩
    obtain ⟨c, d, hc, hd, hcd⟩ := key i i hi
    rw [hc] at hd
    cases hd
    exact h _ hcd

theorem up_lt {i j : Nat} (hn : (decls.map (·.name.name)).Nodup) (h : Up (edges decls) i j) :
    i < decls.length ∧ j < decls.length := by
  obtain ⟨c, s, hc, _, hf⟩ := (up_iff hn).1 h
  obtain ⟨d, hd, _⟩ := firstOf?_eq_some hf
  exact ⟨(List.getElem?_eq_some_iff.1 hc).1, (List.getElem?_eq_some_iff.1 hd).1⟩

/-- No cycle is reported exactly if there is none. -/
theorem cutCycles_eq_nil (hn : (decls.map (·.name.name)).Nodup) :
    (cutCycles decls (edges decls)).2 = [] ↔
      ∀ i, ¬ Relation.TransGen (Up (edges decls)) i i := by
  have heq : cutCycles decls (edges decls) = cutFrom decls (edges decls, []) decls.zipIdx := by
    rw [cutCycles, accepted_eq hn]
    rfl
  rw [heq]
  constructor
  · intro hnil i hi
    have hlt : i < decls.length := by
      obtain ⟨j, hij, _⟩ := Relation.TransGen.head'_iff.1 hi
      exact (up_lt hn hij).1
    refine cutFrom_cycle (fun _ _ h => (up_lt hn h).2) ?_ decls.zipIdx
      (List.mk_mem_zipIdx_iff_getElem?.2 (List.getElem?_eq_getElem hlt)) ?_ hnil
    · -- A way from a class of a cycle goes on for ever, because edges lead to one class only.
      have hback : ∀ k, Relation.ReflTransGen (Up (edges decls)) i k →
          Relation.TransGen (Up (edges decls)) k i := by
        intro k hk
        induction hk with
        | refl => exact hi
        | tail _ hkl ih =>
            obtain ⟨l, hl, hrest⟩ := Relation.TransGen.head'_iff.1 ih
            have : l = _ := Option.some.inj (hl.symm.trans hkl)
            subst this
            rcases Relation.ReflTransGen.cases_head hrest with rfl | ⟨m, hlm, hmi⟩
            · exact hi
            · exact .head' hlm hmi
      intro k hk
      obtain ⟨j, hkj, _⟩ := Relation.TransGen.head'_iff.1 (hback k hk)
      exact ⟨(up_lt hn hkj).1, j, hkj⟩
    · rintro ⟨d, k⟩ hk
      exact (List.getElem?_eq_some_iff.1 (List.mk_mem_zipIdx_iff_getElem?.1 hk)).1
  · intro hacyclic
    rw [cutFrom_acyclic hacyclic]

/-- Nothing is reported of a hierarchy, and of nothing else. -/
theorem build_eq_nil : (build p.classes).2 = [] ↔ p.Hierarchy := by
  have hsplit : (build p.classes).2 = [] ↔ duplicates p.classes = [] ∧
      undeclared p.classes = [] ∧ (cutCycles p.classes (edges p.classes)).2 = [] := by
    simp [build]
  rw [hsplit, duplicates_eq_nil]
  constructor
  · rintro ⟨hn, hu, hc⟩
    have hs := fun c hc s hs => declares_iff.2 ((undeclared_eq_nil hn).1 hu c hc s hs)
    exact ⟨hn, hs, (transGen_up_iff hn hs).1 ((cutCycles_eq_nil hn).1 hc)⟩
  · rintro ⟨hn, hs, ha⟩
    refine ⟨hn, (undeclared_eq_nil hn).2 fun c hc s h => declares_iff.1 (hs c hc s h), ?_⟩
    exact (cutCycles_eq_nil hn).2 ((transGen_up_iff hn hs).2 ha)

/-- A class of the table is faithful: the steps are enough, because no class is met twice. -/
theorem faithful_chain (h : p.Hierarchy) : ∀ (steps : Nat) (passed : List Nat) (i : Nat),
    passed.Nodup → (∀ j ∈ passed, Relation.TransGen (Up (edges p.classes)) j i) →
      i < p.classes.length → p.classes.length ≤ steps + passed.length →
      (chain p.classes (edges p.classes) steps i).Faithful p := by
  have hacyclic := (transGen_up_iff h.names h.superclasses).2 h.acyclic
  have hlt : ∀ {j i}, Relation.TransGen (Up (edges p.classes)) j i → j < p.classes.length := by
    intro j i hji
    obtain ⟨k, hjk, _⟩ := Relation.TransGen.head'_iff.1 hji
    exact (up_lt h.names hjk).1
  intro steps
  induction steps with
  | zero =>
      intro passed i hd hp hi hl
      have hnot : i ∉ passed := fun hmem => hacyclic i (hp i hmem)
      have := length_le_of_nodup (List.nodup_cons.2 ⟨hnot, hd⟩) (n := p.classes.length) (by
        intro j hj
        rcases List.mem_cons.1 hj with rfl | hj
        · exact hi
        · exact hlt (hp j hj))
      simp only [List.length_cons] at this
      omega
  | succ steps ih =>
      intro passed i hd hp hi hl
      have hc := List.getElem?_eq_getElem hi
      rw [chain]
      simp only [hc, Option.elim_some]
      split
      · next j hj =>
        obtain ⟨c, s, hc', hsup, hf⟩ := (up_iff h.names).1 hj
        obtain ⟨d, hdecl, hdn⟩ := firstOf?_eq_some hf
        rw [hc] at hc'
        cases hc'
        refine ⟨_, hc, rfl, ⟨s, hsup, ?_⟩, ?_⟩
        · cases steps with
          | zero => simp [chain, ClassRef.name, hdecl, hdn]
          | succ steps =>
              rw [chain]
              split <;> simp [ClassRef.name, hdecl, hdn]
        · have hnot : i ∉ passed := fun hmem => hacyclic i (hp i hmem)
          refine ih (i :: passed) j (List.nodup_cons.2 ⟨hnot, hd⟩) ?_ (up_lt h.names hj).2 ?_
          · intro k hk
            rcases List.mem_cons.1 hk with rfl | hk
            · exact .single hj
            · exact (hp k hk).tail hj
          · simp only [List.length_cons]
            omega
      · next hnone =>
        refine ⟨_, hc, rfl, ?_⟩
        cases hsup : p.classes[i].superclass with
        | none => rfl
        | some s =>
            obtain ⟨j, hj⟩ := declares_iff.1 (h.superclasses _ (List.getElem_mem hi) s hsup)
            have : Up (edges p.classes) i j := (up_iff h.names).2 ⟨_, s, hc, hsup, hj⟩
            rw [Up, hnone] at this
            cases this

theorem build_classes (h : p.Hierarchy) : (build p.classes).1.classes =
    p.classes.zipIdx.map fun (_, i) => chain p.classes (edges p.classes) p.classes.length i := by
  have hacyclic := (transGen_up_iff h.names h.superclasses).2 h.acyclic
  have heq : cutCycles p.classes (edges p.classes) = (edges p.classes, []) := by
    rw [cutCycles, accepted_eq h.names]
    exact cutFrom_acyclic hacyclic p.classes.zipIdx []
  simp only [build, heq, accepted_eq h.names]

theorem faithful_of_mem_build (h : p.Hierarchy) {c : ClassRef}
    (hc : c ∈ (build p.classes).1.classes) : c.Faithful p := by
  rw [build_classes h] at hc
  obtain ⟨⟨d, i⟩, hmem, rfl⟩ := List.mem_map.1 hc
  have hi := (List.getElem?_eq_some_iff.1 (List.mk_mem_zipIdx_iff_getElem?.1 hmem)).1
  exact faithful_chain h _ [] i List.nodup_nil (by simp) hi (by simp)

/-- The table has one class for each declaration, in the order of the text. -/
theorem map_classDecl_build (h : p.Hierarchy) :
    (build p.classes).1.classes.map p.classDecl = p.classes := by
  rw [build_classes h, List.map_map]
  refine List.ext_getElem? fun i => ?_
  simp only [List.getElem?_map, List.getElem?_zipIdx]
  cases hc : p.classes[i]? with
  | none => rfl
  | some c =>
      have hdecl : ∀ steps, (chain p.classes (edges p.classes) steps i).decl = i := by
        intro steps
        cases steps with
        | zero => rfl
        | succ steps =>
            rw [chain]
            split <;> rfl
      simp [Program.classDecl, hdecl, hc]

theorem exists_mem_build (h : p.Hierarchy) {d : ClassDecl} (hd : d ∈ p.classes) :
    ∃ c ∈ (build p.classes).1.classes, p.classDecl c = d := by
  rw [← map_classDecl_build h] at hd
  exact List.mem_map.1 hd

theorem find?_build (h : p.Hierarchy) {name : String} {c : ClassRef} :
    (build p.classes).1.find? name = some c ↔ c.Faithful p ∧ c.name = name := by
  constructor
  · intro hc
    exact ⟨faithful_of_mem_build h (List.mem_of_find?_eq_some hc),
      by simpa using List.find?_some hc⟩
  · rintro ⟨hc, rfl⟩
    obtain ⟨c', hmem, hdecl⟩ := exists_mem_build h hc.mem
    have hf := faithful_of_mem_build h hmem
    have hname : c'.name = c.name := by
      rw [← hf.classDecl_name, hdecl, hc.classDecl_name]
    cases hfind : (build p.classes).1.find? c.name with
    | none =>
        have := List.find?_eq_none.1 hfind c' hmem
        simp [hname] at this
    | some d =>
        have hd := faithful_of_mem_build h (List.mem_of_find?_eq_some hfind)
        have hdn : d.name = c.name := by simpa using List.find?_some hfind
        rw [hd.unique h hc hdn]

theorem find?_build_eq_none (h : p.Hierarchy) {name : String} :
    (build p.classes).1.find? name = none ↔ ¬ p.Declares name := by
  rw [← not_iff_not, not_not, ← ne_eq, Option.ne_none_iff_exists']
  constructor
  · rintro ⟨c, hc⟩
    obtain ⟨hf, rfl⟩ := (find?_build h).1 hc
    exact hf.declares
  · rintro ⟨d, hd, rfl⟩
    obtain ⟨c, hmem, rfl⟩ := exists_mem_build h hd
    have hf := faithful_of_mem_build h hmem
    exact ⟨c, (find?_build h).2 ⟨hf, hf.classDecl_name.symm⟩⟩

end ObjectLang.ClassTable
