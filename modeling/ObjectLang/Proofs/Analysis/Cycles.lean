import Mathlib.Tactic
import ObjectLang.Proofs.Analysis.Chains

/-!
# The class table is exact

The walk upwards from each class loses the edges of the cycle that it meets, so later walks go over
edges of which some are gone. What is gone at any time are the edges of whole cycles, and no class
is in two of them. As every walk ends once its cycle is cut, in the end just the edges of all cycles
are gone, and each class of a cycle was reported once.
-/
namespace ObjectLang.ClassTable

variable {decls : List ClassDecl}

section rules

/-- A position has the first class of a name. -/
def StandsFirst (decls : List ClassDecl) (name : String) (i : Nat) : Prop :=
  ∃ d, decls[i]? = some d ∧ d.name.name = name ∧
    ∀ j c, decls[j]? = some c → c.name.name = name → i ≤ j

/-- A class is the first of its name and extends the first class of another name. -/
def Resolves (decls : List ClassDecl) (i j : Nat) : Prop :=
  ∃ d s, decls[i]? = some d ∧ StandsFirst decls d.name.name i ∧ d.superclass = some s ∧
    StandsFirst decls s.name j

/-- Some classes are all those of a cycle, each before the one that it extends. -/
def IsCycle (r : Nat → Nat → Prop) : List Nat → Prop
  | [] => False
  | i :: l => (i :: l).Nodup ∧ (i :: (l ++ [i])).IsChain r

/-- What is wrong with the class at a position: another class has its name before it, the class that
it extends is not declared, or it extends itself through the classes of a cycle. -/
inductive Complaint (decls : List ClassDecl) : Nat → Diagnostic → Prop
  | duplicate {i : Nat} {d : ClassDecl} : decls[i]? = some d → ¬ StandsFirst decls d.name.name i →
      Complaint decls i (.duplicateClass d.name.name d.name.span)
  | undeclared {i : Nat} {d : ClassDecl} {s : Ident} : decls[i]? = some d →
      StandsFirst decls d.name.name i → d.superclass = some s →
      (∀ c ∈ decls, c.name.name ≠ s.name) →
      Complaint decls i (.undeclaredSuperclass d.name.name s.name s.span)
  | cyclic {i : Nat} {d : ClassDecl} {members : List Nat} : decls[i]? = some d →
      IsCycle (Resolves decls) members → i ∈ members →
      Complaint decls i (.cyclicInheritance d.name.name
        ((members.filterMap (decls[·]?)).map (·.name.name)) d.name.span)

/-- A class table has the first class of each name, in order, with the superclass that it names,
unless that is not declared or the class lies on a cycle. No chain of superclasses comes back to
where it was, and one complaint is found about each position that there is one about. -/
structure Exact (decls : List ClassDecl) (t : ClassTable) (found : List Diagnostic) : Prop where
  sorted : (t.classes.map ClassRef.decl).Pairwise (· < ·)
  names : ∀ name i, StandsFirst decls name i ↔ ∃ c ∈ t.classes, c.decl = i ∧ c.name = name
  superclass : ∀ c ∈ t.classes, ∀ j, c.superclass?.map ClassRef.decl = some j ↔
    Resolves decls c.decl j ∧ ¬ Relation.TransGen (Resolves decls) c.decl c.decl
  superclasses : ∀ c ∈ t.classes, ∀ s, c.superclass? = some s → s ∈ t.classes
  finite : WellFounded fun j i => ∃ c ∈ t.classes, c.decl = i ∧
    c.superclass?.map ClassRef.decl = some j
  found : ∃ about : List Nat, about.Nodup ∧ List.Forall₂ (Complaint decls) about found ∧
    ∀ i d, Complaint decls i d → i ∈ about

theorem firstOf?_iff {name : String} {i : Nat} :
    firstOf? decls name = some i ↔ StandsFirst decls name i := by
  constructor
  · intro h
    obtain ⟨d, hd, hname⟩ := firstOf?_eq_some h
    have hfirst : isFirst decls (d, i) = true := by rw [isFirst, hname, h, beq_self_eq_true]
    exact ⟨d, hd, hname, fun j c hc hn => (isFirst_iff hd).1 hfirst j c hc (hn.trans hname.symm)⟩
  · rintro ⟨d, hd, rfl, hle⟩
    exact beq_iff_eq.1 ((isFirst_iff hd).2 hle)

theorem up_edges_iff {i j : Nat} : Up (edges decls) i j ↔ Resolves decls i j := by
  rw [Up, edge_edges]
  simp only [mem_accepted, firstOf?_iff, Resolves, and_assoc]

end rules

section cycles

variable {r s : Nat → Nat → Prop} {members : List Nat} {i j : Nat}

namespace IsCycle

theorem mono (h : IsCycle r members) (hrs : ∀ i j, r i j → s i j) : IsCycle s members := by
  cases members with
  | nil => exact h
  | cons i l => exact ⟨h.1, h.2.imp fun i j => hrs i j⟩

theorem nodup (h : IsCycle r members) : members.Nodup := by
  cases members with
  | nil => exact h.elim
  | cons i l => exact h.1

/-- Each class of a cycle extends one of the cycle. -/
theorem exists_next (h : IsCycle r members) (hi : i ∈ members) : ∃ j ∈ members, r i j := by
  cases members with
  | nil => exact h.elim
  | cons start l =>
      have hchain := h.2
      obtain ⟨before, behind, hsplit⟩ := List.append_of_mem hi
      have hway : start :: (l ++ [start]) = before ++ i :: (behind ++ [start]) := by
        rw [← List.cons_append, hsplit, List.append_assoc, List.cons_append]
      rw [hway] at hchain
      cases behind with
      | nil =>
          refine ⟨start, List.mem_cons_self .., ?_⟩
          exact (List.isChain_append.1 hchain).2.1.rel
      | cons j behind =>
          refine ⟨j, ?_, (List.isChain_append.1 hchain).2.1.rel⟩
          rw [hsplit]
          simp

/-- From each class of a cycle there is a way back to it. -/
theorem transGen (h : IsCycle r members) (hi : i ∈ members) : Relation.TransGen r i i := by
  cases members with
  | nil => exact h.elim
  | cons start l =>
      have hpairs : (start :: (l ++ [start])).Pairwise (Relation.TransGen r) :=
        List.isChain_iff_pairwise.1 (h.2.imp fun _ _ => Relation.TransGen.single)
      rw [List.pairwise_cons, List.pairwise_append] at hpairs
      obtain ⟨hstart, _, _, hend⟩ := hpairs
      rcases List.mem_cons.1 hi with rfl | hi
      · exact hstart _ (by simp)
      · exact (hend i hi start (by simp)).trans (hstart i (by simp [hi]))

end IsCycle

variable {e : Edges}

/-- A way from a class of a cycle stays in the cycle. -/
theorem IsCycle.mem_of_way (h : IsCycle (Up e) members) (hi : i ∈ members)
    (hway : Relation.ReflTransGen (Up e) i j) : j ∈ members := by
  induction hway with
  | refl => exact hi
  | tail _ hup ih =>
      obtain ⟨k, hk, hup'⟩ := h.exists_next ih
      rwa [Option.some.inj (hup.symm.trans hup')]

/-- If a way leads back to where it starts, then from all classes on it, because edges lead to one
class only. -/
theorem way_back (h : Relation.TransGen (Up e) i i) (hway : Relation.ReflTransGen (Up e) i j) :
    Relation.TransGen (Up e) j i := by
  induction hway with
  | refl => exact h
  | tail _ hup ih =>
      obtain ⟨k, hk, hrest⟩ := Relation.TransGen.head'_iff.1 ih
      obtain rfl := Option.some.inj (hup.symm.trans hk)
      rcases Relation.ReflTransGen.cases_head hrest with rfl | ⟨l, hkl, hli⟩
      · exact h
      · exact .head' hkl hli

/-- What the walk upwards finds is a cycle or nothing. -/
theorem cycleFrom_isCycle : ∀ (steps : Nat) (passed : List Nat) (i : Nat), passed.Nodup →
    (i :: passed).IsChain (fun j i => Up e i j) → cycleFrom e steps passed i ≠ [] →
      IsCycle (Up e) (cycleFrom e steps passed i) := by
  intro steps
  induction steps with
  | zero => exact fun _ _ _ _ h => (h rfl).elim
  | succ steps ih =>
      intro passed i hnodup hchain hne
      rw [cycleFrom] at hne ⊢
      split_ifs at hne ⊢ with hmem
      · -- The classes passed since `i` was met first, latest first.
        obtain ⟨since, earlier, hsplit, hnot⟩ := List.eq_append_cons_of_mem hmem
        have htake : passed.takeWhile (· ≠ i) = since := by
          rw [hsplit, List.takeWhile_append_of_pos, List.takeWhile_cons_of_neg, List.append_nil]
          · simp
          · exact fun j hj => decide_eq_true fun heq => hnot (heq ▸ hj)
        have hback : (i :: (since ++ [i])).IsChain (fun j i => Up e i j) := by
          refine hchain.prefix ⟨earlier, ?_⟩
          rw [hsplit]
          simp
        rw [htake, List.reverse_append, List.reverse_singleton, List.singleton_append]
        refine ⟨?_, ?_⟩
        · rw [hsplit] at hnodup
          have := (List.nodup_append'.1 hnodup).1
          exact List.nodup_cons.2 ⟨by simpa using hnot, List.nodup_reverse.2 this⟩
        · have hreverse : i :: (since.reverse ++ [i]) = (i :: (since ++ [i])).reverse := by simp
          rw [hreverse]
          exact List.isChain_reverse.2 hback
      · split at hne
        · next next hnext =>
          refine ih (i :: passed) next (List.nodup_cons.2 ⟨hmem, hnodup⟩) ?_ hne
          exact List.isChain_cons_cons.2 ⟨hnext, hchain⟩
        · exact (hne rfl).elim

end cycles

section cutting

variable {e : Edges} {cycles : List (List Nat)} {i j : Nat}

/-- What is left of the edges when all those of some cycles are cut, no two of which have a class in
common. -/
structure Cut (decls : List ClassDecl) (e : Edges) (cycles : List (List Nat)) : Prop where
  edge_eq : ∀ i, edge e i = if i ∈ cycles.flatten then none else edge (edges decls) i
  cycle : ∀ members ∈ cycles, IsCycle (Up (edges decls)) members
  nodup : cycles.flatten.Nodup

namespace Cut

theorem up_iff (h : Cut decls e cycles) :
    Up e i j ↔ i ∉ cycles.flatten ∧ Up (edges decls) i j := by
  rw [Up, h.edge_eq]
  split_ifs with hi
  · simp [hi]
  · simp [hi, Up]

/-- A cycle of the edges that are left has none of the classes whose edges are cut. -/
theorem push {members : List Nat} (h : Cut decls e cycles) (hm : IsCycle (Up e) members) :
    Cut decls (cut e members) (cycles ++ [members]) := by
  have hdisjoint : ∀ i ∈ members, i ∉ cycles.flatten := by
    intro i hi
    obtain ⟨j, _, hup⟩ := hm.exists_next hi
    exact (h.up_iff.1 hup).1
  refine ⟨fun i => ?_, fun l hl => ?_, ?_⟩
  · rw [edge_cut, h.edge_eq]
    by_cases hi : i ∈ members <;> simp [hi]
  · rcases List.mem_append.1 hl with hl | hl
    · exact h.cycle l hl
    · rw [List.mem_singleton.1 hl]
      exact hm.mono fun i j hup => (h.up_iff.1 hup).2
  · rw [List.flatten_append, List.flatten_singleton]
    exact h.nodup.append hm.nodup fun i hi hi' => hdisjoint i hi' hi

/-- One walk finds one cycle more, or none. -/
theorem step (h : Cut decls e cycles) (steps start : Nat) :
    ∃ more : List (List Nat), Cut decls (cut e (cycleFrom e steps [] start)) (cycles ++ more) ∧
      cycleDiagnostics decls (cycleFrom e steps [] start) =
        more.flatMap (cycleDiagnostics decls) := by
  by_cases hnil : cycleFrom e steps [] start = []
  · refine ⟨[], ?_, ?_⟩
    · rwa [hnil, List.append_nil]
    · rw [hnil]
      rfl
  · refine ⟨[cycleFrom e steps [] start], h.push ?_, (List.flatMap_singleton ..).symm⟩
    exact cycleFrom_isCycle steps [] start List.nodup_nil (List.isChain_singleton _) hnil

theorem run (starts : List (ClassDecl × Nat)) (h : Cut decls e cycles) :
    ∃ all, Cut decls (cutFrom decls (e, cycles.flatMap (cycleDiagnostics decls)) starts).1 all ∧
      (cutFrom decls (e, cycles.flatMap (cycleDiagnostics decls)) starts).2 =
        all.flatMap (cycleDiagnostics decls) := by
  induction starts generalizing e cycles with
  | nil => exact ⟨cycles, h, rfl⟩
  | cons start starts ih =>
      obtain ⟨more, hcut, hfound⟩ := h.step (decls.length + 1) start.2
      have := ih hcut
      rw [List.flatMap_append, ← hfound] at this
      exact this

theorem start (decls : List ClassDecl) : Cut decls (edges decls) [] := by
  refine ⟨fun i => ?_, List.forall_mem_nil _, List.nodup_nil⟩
  rw [List.flatten_nil, if_neg List.not_mem_nil]

end Cut

/-- What is cut in the end is exactly what lies on cycles: a way around a cycle that is not cut
would be left, but all ways that are left end. -/
theorem Cut.mem_iff (h : Cut decls (edgesLeft decls) cycles) :
    i ∈ cycles.flatten ↔ Relation.TransGen (Up (edges decls)) i i := by
  constructor
  · intro hi
    obtain ⟨members, hl, hi⟩ := List.mem_flatten.1 hi
    exact (h.cycle members hl).transGen hi
  · intro hloop
    by_contra hi
    have hnot : ∀ j, Relation.ReflTransGen (Up (edges decls)) i j → j ∉ cycles.flatten := by
      intro j hway hj
      obtain ⟨members, hl, hj⟩ := List.mem_flatten.1 hj
      exact hi (List.mem_flatten.2
        ⟨members, hl, (h.cycle members hl).mem_of_way hj (way_back hloop hway).to_reflTransGen⟩)
    have hleft : ∀ j, Relation.ReflTransGen (Up (edges decls)) i j →
        Relation.ReflTransGen (Up (edgesLeft decls)) i j := by
      intro j hway
      induction hway with
      | refl => exact .refl
      | tail hway hup ih => exact ih.tail (h.up_iff.2 ⟨hnot _ hway, hup⟩)
    obtain ⟨j, hway, hup⟩ := Relation.TransGen.tail'_iff.1 hloop
    have hends : Ends (edgesLeft decls) i := by
      obtain ⟨d, hd⟩ := hup.mem_accepted
      exact ends_left hd
    exact IsChain.nodup_ancestors.irrefl_of_acc hends.transGen
      (Relation.transGen_swap.2 (.tail' (hleft j hway) (h.up_iff.2 ⟨hnot j hway, hup⟩)))

theorem exists_cut (decls : List ClassDecl) : ∃ cycles, Cut decls (edgesLeft decls) cycles ∧
    (cutCycles decls (edges decls)).2 = cycles.flatMap (cycleDiagnostics decls) :=
  (Cut.start decls).run (accepted decls)

end cutting

section complaints

/-- Complaints that are made in turn about some of the classes. -/
theorem complaints_of {l : List (ClassDecl × Nat)} (hl : l.Sublist decls.zipIdx)
    {f : ClassDecl × Nat → Option Diagnostic}
    (h : ∀ x ∈ l, ∀ d, f x = some d → Complaint decls x.2 d) : ∃ about : List Nat, about.Nodup ∧
      List.Forall₂ (Complaint decls) about (l.filterMap f) ∧
      ∀ i, i ∈ about ↔ ∃ x ∈ l, (f x).isSome ∧ x.2 = i := by
  refine ⟨(l.filter fun x => (f x).isSome).map Prod.snd, ?_, ?_, fun i => ?_⟩
  · refine List.Nodup.sublist (List.Sublist.map Prod.snd (List.filter_sublist.trans hl)) ?_
    rw [List.zipIdx_map_snd]
    exact List.nodup_range'
  · clear hl
    induction l with
    | nil => exact .nil
    | cons x l ih =>
        obtain ⟨hx, hl⟩ := List.forall_mem_cons.1 h
        cases hf : f x with
        | none => simpa [hf] using ih hl
        | some d =>
            rw [List.filter_cons_of_pos (by simp [hf]), List.map_cons,
              List.filterMap_cons_some hf]
            exact .cons (hx d hf) (ih hl)
  · simp only [List.mem_map, List.mem_filter, and_assoc]

/-- One complaint about each class of a cycle. -/
theorem forall₂_cycleDiagnostics {members : List Nat}
    (h : IsCycle (Up (edges decls)) members) :
    List.Forall₂ (Complaint decls) members (cycleDiagnostics decls members) := by
  have hcycle : IsCycle (Resolves decls) members := h.mono fun i j => up_edges_iff.1
  obtain ⟨names, hnames⟩ :
      ∃ names, names = (members.filterMap (decls[·]?)).map (·.name.name) := ⟨_, rfl⟩
  have hall : ∀ l ⊆ members, List.Forall₂ (Complaint decls) l
      ((l.filterMap (decls[·]?)).map fun decl =>
        .cyclicInheritance decl.name.name names decl.name.span) := by
    intro l hl
    induction l with
    | nil => exact .nil
    | cons i l ih =>
        rw [List.cons_subset] at hl
        obtain ⟨j, _, d, _, hd, _⟩ := hcycle.exists_next hl.1
        rw [List.filterMap_cons_some hd, List.map_cons, hnames]
        exact .cons (.cyclic hd hcycle hl.1) (hnames ▸ ih hl.2)
  rw [cycleDiagnostics, ← hnames]
  exact hall members fun _ hi => hi

theorem duplicates_found (decls : List ClassDecl) : ∃ about : List Nat, about.Nodup ∧
    List.Forall₂ (Complaint decls) about (duplicates decls) ∧
    ∀ i, i ∈ about ↔ ∃ d, decls[i]? = some d ∧ ¬ StandsFirst decls d.name.name i := by
  have hmem : ∀ x : ClassDecl × Nat, x ∈ decls.zipIdx.filter (fun x => !isFirst decls x) ↔
      decls[x.2]? = some x.1 ∧ ¬ StandsFirst decls x.1.name.name x.2 := by
    intro x
    rw [List.mem_filter, List.mem_zipIdx_iff_getElem?, ← firstOf?_iff, isFirst,
      Bool.not_eq_true', beq_eq_false_iff_ne]
  have hsub : (decls.zipIdx.filter fun x => !isFirst decls x).Sublist decls.zipIdx :=
    List.filter_sublist
  obtain ⟨about, hnodup, hfound, habout⟩ := complaints_of hsub
    (f := fun x => some (.duplicateClass x.1.name.name x.1.name.span)) fun x hx d hd => by
      obtain rfl := Option.some.inj hd
      exact .duplicate ((hmem x).1 hx).1 ((hmem x).1 hx).2
  refine ⟨about, hnodup, ?_, fun i => (habout i).trans ?_⟩
  · rwa [List.filterMap_eq_map'] at hfound
  · constructor
    · rintro ⟨x, hx, _, rfl⟩
      exact ⟨x.1, (hmem x).1 hx⟩
    · rintro ⟨d, hd⟩
      exact ⟨(d, i), (hmem (d, i)).2 hd, rfl, rfl⟩

theorem undeclared_found (decls : List ClassDecl) : ∃ about : List Nat, about.Nodup ∧
    List.Forall₂ (Complaint decls) about (undeclared decls) ∧
    ∀ i, i ∈ about ↔ ∃ d s, decls[i]? = some d ∧ StandsFirst decls d.name.name i ∧
      d.superclass = some s ∧ ∀ c ∈ decls, c.name.name ≠ s.name := by
  obtain ⟨f, hf⟩ : ∃ f, f = fun x : ClassDecl × Nat => x.1.superclass.bind fun name =>
    (firstOf? decls name.name).elim
      (some (Diagnostic.undeclaredSuperclass x.1.name.name name.name name.span))
      fun _ => none := ⟨_, rfl⟩
  have hsome : ∀ x d, f x = some d ↔ ∃ s, x.1.superclass = some s ∧
      (∀ c ∈ decls, c.name.name ≠ s.name) ∧
        d = .undeclaredSuperclass x.1.name.name s.name s.span := by
    intro x d
    rw [hf, Option.bind_eq_some_iff]
    refine exists_congr fun s => and_congr_right fun _ => ?_
    rw [← firstOf?_eq_none]
    cases firstOf? decls s.name with
    | none => simp [eq_comm]
    | some j => simp
  have hundeclared : undeclared decls = (accepted decls).filterMap f := by
    rw [hf, undeclared]
    refine congrArg (List.filterMap · _) (funext fun x => ?_)
    refine congrArg x.1.superclass.bind (funext fun name => ?_)
    cases firstOf? decls name.name <;> rfl
  obtain ⟨about, hnodup, hfound, habout⟩ := complaints_of List.filter_sublist (f := f)
    fun x hx d hd => by
      obtain ⟨hget, hfirst⟩ := mem_accepted.1 hx
      obtain ⟨s, hs, hnone, rfl⟩ := (hsome x d).1 hd
      exact .undeclared hget (firstOf?_iff.1 hfirst) hs hnone
  refine ⟨about, hnodup, hundeclared ▸ hfound, fun i => (habout i).trans ?_⟩
  simp only [Option.isSome_iff_exists, hsome]
  constructor
  · rintro ⟨x, hx, ⟨_, s, hs, hnone, _⟩, rfl⟩
    obtain ⟨hget, hfirst⟩ := mem_accepted.1 hx
    exact ⟨x.1, s, hget, firstOf?_iff.1 hfirst, hs, hnone⟩
  · rintro ⟨d, s, hget, hfirst, hs, hnone⟩
    exact ⟨(d, i), mem_accepted.2 ⟨hget, firstOf?_iff.2 hfirst⟩, ⟨_, s, hs, hnone, rfl⟩, rfl⟩

theorem cycles_found (decls : List ClassDecl) : ∃ about : List Nat, about.Nodup ∧
    List.Forall₂ (Complaint decls) about (cutCycles decls (edges decls)).2 ∧
    ∀ i, i ∈ about ↔ Relation.TransGen (Resolves decls) i i := by
  obtain ⟨cycles, hcut, hfound⟩ := exists_cut decls
  have hup : Up (edges decls) = Resolves decls := by
    funext i j
    exact propext up_edges_iff
  refine ⟨cycles.flatten, hcut.nodup, ?_, fun i => hup ▸ hcut.mem_iff⟩
  rw [hfound, List.flatMap_def]
  refine List.rel_flatten ?_
  rw [List.forall₂_map_right_iff, List.forall₂_same]
  exact fun members hl => forall₂_cycleDiagnostics (hcut.cycle members hl)

/-- Of each position that there is a complaint about, one is found. -/
theorem found_build (decls : List ClassDecl) : ∃ about : List Nat, about.Nodup ∧
    List.Forall₂ (Complaint decls) about (build decls).2 ∧
    ∀ i d, Complaint decls i d → i ∈ about := by
  obtain ⟨doubled, hdoubled, hfound₁, hmem₁⟩ := duplicates_found decls
  obtain ⟨dangling, hdangling, hfound₂, hmem₂⟩ := undeclared_found decls
  obtain ⟨cyclic, hcyclic, hfound₃, hmem₃⟩ := cycles_found decls
  -- A class on a cycle is the first of its name and has a superclass.
  have hresolves : ∀ i ∈ cyclic, ∃ j, Resolves decls i j := by
    intro i hi
    obtain ⟨j, hij, _⟩ := Relation.TransGen.head'_iff.1 ((hmem₃ i).1 hi)
    exact ⟨j, hij⟩
  refine ⟨doubled ++ dangling ++ cyclic, ?_, List.rel_append (List.rel_append hfound₁ hfound₂)
    hfound₃, fun i d h => ?_⟩
  · refine (hdoubled.append hdangling fun i hi hi' => ?_).append hcyclic fun i hi hi' => ?_
    · obtain ⟨d, hd, hnot⟩ := (hmem₁ i).1 hi
      obtain ⟨d', _, hd', hfirst, _⟩ := (hmem₂ i).1 hi'
      obtain rfl := Option.some.inj (hd.symm.trans hd')
      exact hnot hfirst
    · obtain ⟨j, d, s, hd, hfirst, hs, c, hc, hname, _⟩ := hresolves i hi'
      rcases List.mem_append.1 hi with hi | hi
      · obtain ⟨d', hd', hnot⟩ := (hmem₁ i).1 hi
        obtain rfl := Option.some.inj (hd.symm.trans hd')
        exact hnot hfirst
      · obtain ⟨d', s', hd', _, hs', hnone⟩ := (hmem₂ i).1 hi
        obtain rfl := Option.some.inj (hd.symm.trans hd')
        obtain rfl := Option.some.inj (hs.symm.trans hs')
        exact hnone c (List.mem_of_getElem? hc) hname
  · rw [List.mem_append, List.mem_append]
    cases h with
    | duplicate hd hnot => exact .inl (.inl ((hmem₁ i).2 ⟨_, hd, hnot⟩))
    | undeclared hd hfirst hs hnone =>
        exact .inl (.inr ((hmem₂ i).2 ⟨_, _, hd, hfirst, hs, hnone⟩))
    | cyclic _ hcycle hi => exact .inr ((hmem₃ i).2 (hcycle.transGen hi))

end complaints

section table

variable {c : ClassRef}

/-- The superclass that is left to a class. -/
theorem edge_left_iff {i j : Nat} : edge (edgesLeft decls) i = some j ↔
    Resolves decls i j ∧ ¬ Relation.TransGen (Resolves decls) i i := by
  obtain ⟨cycles, hcut, _⟩ := exists_cut decls
  have hup : Up (edges decls) = Resolves decls := by
    funext i j
    exact propext up_edges_iff
  have h := hcut.up_iff (i := i) (j := j)
  rw [hcut.mem_iff, hup, and_comm] at h
  exact h

theorem IsChain.superclass_decl {e : Edges} {i : Nat} (h : IsChain decls e i c) :
    c.superclass?.map ClassRef.decl = edge e i := by
  cases h with
  | root hi => exact hi.symm
  | derived hi h => rw [hi, ClassRef.superclass?, Option.map_some, h.decl]

theorem map_decl_build : (build decls).1.classes.map ClassRef.decl =
    (accepted decls).map Prod.snd := by
  rw [classes_build, List.map_map]
  exact List.map_congr_left fun x hx => (chain_left hx).decl

/-- Making the class table of any classes is exact. -/
theorem build_exact (decls : List ClassDecl) : Exact decls (build decls).1 (build decls).2 where
  sorted := by
    rw [map_decl_build]
    refine List.Pairwise.sublist (List.filter_sublist.map Prod.snd) ?_
    rw [List.zipIdx_map_snd]
    exact List.pairwise_lt_range'
  names name i := by
    rw [← firstOf?_iff]
    constructor
    · intro h
      obtain ⟨d, hd, hname⟩ := exists_mem_accepted h
      refine ⟨_, mem_build.2 ⟨d, i, hd, chain_left hd⟩, (chain_left hd).decl, ?_⟩
      rw [(chain_left hd).name, (mem_accepted.1 hd).1]
      exact hname
    · rintro ⟨c, hc, rfl, rfl⟩
      obtain ⟨d, i, hd, hchain⟩ := mem_build.1 hc
      obtain ⟨hget, hfirst⟩ := mem_accepted.1 hd
      rw [hchain.name, hget, hchain.decl]
      exact hfirst
  superclass c hc j := by
    obtain ⟨d, i, _, hchain⟩ := mem_build.1 hc
    rw [hchain.superclass_decl, hchain.decl, edge_left_iff]
  superclasses c hc s hs := by
    refine closed_build.ancestors c hc s ?_
    cases c with
    | root => cases hs
    | derived name decl superclass =>
        obtain rfl := Option.some.inj hs
        cases superclass <;> simp [ClassRef.ancestors]
  finite := by
    refine ⟨fun i => Acc.intro i fun j hj => ?_⟩
    obtain ⟨c, hc, rfl, hj⟩ := hj
    obtain ⟨d, i, hd, hchain⟩ := mem_build.1 hc
    rw [hchain.superclass_decl] at hj
    refine Subrelation.accessible ?_ ((ends_left hd).inv hj)
    rintro k l ⟨c, hc, rfl, hk⟩
    obtain ⟨_, l, _, hchain⟩ := mem_build.1 hc
    rw [hchain.superclass_decl] at hk
    rwa [hchain.decl]
  found := found_build decls

end table

end ObjectLang.ClassTable
