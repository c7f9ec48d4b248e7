import Mathlib.Data.List.Rotate
import Mathlib.Tactic
import ObjectLang.Proofs.Analysis.Cycles

/-!
# The order of classes has no part in their table

If classes of different names come in another order, each of them has the superclass and the
ancestors that it had, and the same is said about it. Only a cycle may be told from another class
on, because it is told from the first class on that leads to it.
-/
namespace ObjectLang

section lists

variable {α β γ : Type} {l l' : List α}

/-- Where the elements of a list are in another order of it. -/
theorem exists_places (h : l.Perm l') : ∃ σ : Equiv.Perm Nat, ∀ i, l'[σ i]? = l[i]? := by
  induction h with
  | nil => exact ⟨.refl _, fun _ => rfl⟩
  | cons x _ ih =>
      obtain ⟨σ, hσ⟩ := ih
      refine ⟨⟨@Nat.rec (fun _ => Nat) 0 fun i _ => σ i + 1,
        @Nat.rec (fun _ => Nat) 0 fun i _ => σ.symm i + 1, ?_, ?_⟩, ?_⟩
      · rintro (_ | i)
        · rfl
        · simp
      · rintro (_ | i)
        · rfl
        · simp
      · rintro (_ | i)
        · rfl
        · simpa using hσ i
  | swap x y l =>
      refine ⟨Equiv.swap 0 1, ?_⟩
      rintro (_ | _ | i)
      · simp
      · simp
      · rw [Equiv.swap_apply_of_ne_of_ne (by omega) (by omega)]
        rfl
  | trans _ _ ih ih' =>
      obtain ⟨σ, hσ⟩ := ih
      obtain ⟨τ, hτ⟩ := ih'
      exact ⟨σ.trans τ, fun i => (hτ (σ i)).trans (hσ i)⟩

/-- What two lists have in common with a third one they have in common with each other. -/
theorem forall₂_of_forall₂ {R : α → β → Prop} {S : α → γ → Prop} {T : β → γ → Prop} {l : List α}
    {m : List β} {n : List γ} (h : List.Forall₂ R l m) (h' : List.Forall₂ S l n)
    (hT : ∀ x y z, R x y → S x z → T y z) : List.Forall₂ T m n := by
  induction h generalizing n with
  | nil =>
      cases h'
      exact .nil
  | cons hxy _ ih =>
      cases h' with
      | cons hxz h' => exact .cons (hT _ _ _ hxy hxz) (ih h')

/-- What a list is related to is there for each of its elements. -/
theorem exists_of_forall₂ {R : α → β → Prop} {m : List β} (h : List.Forall₂ R l m) {x : α}
    (hx : x ∈ l) : ∃ y, R x y := by
  induction h with
  | nil => cases hx
  | cons hxy _ ih =>
      rcases List.mem_cons.1 hx with rfl | hx
      · exact ⟨_, hxy⟩
      · exact ih hx

theorem isRotated_filterMap (h : l.IsRotated l') (f : α → Option β) :
    (l.filterMap f).IsRotated (l'.filterMap f) := by
  obtain ⟨n, rfl⟩ := h
  have hsplit : l.filterMap f = (l.take (n % l.length)).filterMap f ++
      (l.drop (n % l.length)).filterMap f := by
    rw [← List.filterMap_append, List.take_append_drop]
  rw [List.rotate_eq_drop_append_take_mod, List.filterMap_append, hsplit]
  exact List.isRotated_append

end lists

/-- Two diagnostics say the same, but a cycle may be told from another of its classes on. -/
inductive Diagnostic.Agrees : Diagnostic → Diagnostic → Prop
  | same (d : Diagnostic) : Agrees d d
  | cyclic (cls : String) {cycle cycle' : List String} (span : Span) : cycle.IsRotated cycle' →
      Agrees (.cyclicInheritance cls cycle span) (.cyclicInheritance cls cycle' span)

/-- The same is reported, in any order. -/
def SameReports (ds ds' : List Diagnostic) : Prop :=
  ∃ es, List.Forall₂ Diagnostic.Agrees ds es ∧ es.Perm ds'

namespace SameReports

variable {ds ds' es es' : List Diagnostic}

theorem of_perm (h : ds.Perm ds') : SameReports ds ds' :=
  ⟨ds, List.forall₂_same.2 fun d _ => .same d, h⟩

theorem append (h : SameReports ds ds') (h' : SameReports es es') :
    SameReports (ds ++ es) (ds' ++ es') := by
  obtain ⟨_, hagrees, hperm⟩ := h
  obtain ⟨_, hagrees', hperm'⟩ := h'
  exact ⟨_, List.rel_append hagrees hagrees', hperm.append hperm'⟩

theorem length_eq (h : SameReports ds ds') : ds.length = ds'.length := by
  obtain ⟨_, hagrees, hperm⟩ := h
  exact hagrees.length_eq.trans hperm.length_eq

end SameReports

namespace ClassTable

section cycles

variable {r : Nat → Nat → Prop} {i j : Nat} {l l' members members' : List Nat}

theorem IsCycle.rotate (h : IsCycle r members) (hi : i ∈ members) :
    ∃ l, members.IsRotated (i :: l) ∧ IsCycle r (i :: l) := by
  obtain ⟨before, behind, rfl⟩ := List.append_of_mem hi
  have hrotated : (before ++ i :: behind).IsRotated (i :: (behind ++ before)) :=
    ⟨before.length, List.rotate_append_length_eq ..⟩
  refine ⟨behind ++ before, hrotated, hrotated.nodup_iff.1 h.nodup, ?_⟩
  cases before with
  | nil =>
      rw [List.append_nil]
      exact h.2
  | cons start before =>
      -- The way to the end of the cycle, and then on from its start.
      have hway : List.IsChain r ((start :: before) ++ i :: (behind ++ [start])) := by
        simpa using h.2
      obtain ⟨hbefore, hbehind, hjoin⟩ := List.isChain_append.1 hway
      have hrest : List.IsChain r (i :: behind ++ start :: (before ++ [i])) := by
        rw [List.isChain_split]
        refine ⟨hbehind, ?_⟩
        rw [← List.cons_append, List.isChain_append]
        refine ⟨hbefore, List.isChain_singleton _, fun x hx y hy => hjoin x hx y ?_⟩
        simpa using hy
      simpa using hrest

/-- Where each class extends one class only, there is one way around from a class. -/
theorem eq_of_ways (hr : ∀ i j k, r i j → r i k → j = k) :
    ∀ (l l' : List Nat) (start : Nat), i ∉ l → i ∉ l' → (start :: (l ++ [i])).IsChain r →
      (start :: (l' ++ [i])).IsChain r → l = l'
  | [], [], _, _, _, _, _ => rfl
  | [], j :: l', start, _, hl', h, h' => by
      have hij : i = j := hr _ _ _ (List.isChain_cons_cons.1 h).1 (List.isChain_cons_cons.1 h').1
      exact (hl' (hij ▸ List.mem_cons_self ..)).elim
  | j :: l, [], start, hl, _, h, h' => by
      have hij : i = j := hr _ _ _ (List.isChain_cons_cons.1 h').1 (List.isChain_cons_cons.1 h).1
      exact (hl (hij ▸ List.mem_cons_self ..)).elim
  | j :: l, k :: l', start, hl, hl', h, h' => by
      obtain ⟨hj, h⟩ := List.isChain_cons_cons.1 h
      obtain ⟨hk, h'⟩ := List.isChain_cons_cons.1 h'
      obtain rfl := hr _ _ _ hj hk
      rw [eq_of_ways hr l l' j (fun hi => hl (List.mem_cons_of_mem _ hi))
        (fun hi => hl' (List.mem_cons_of_mem _ hi)) h h']

/-- Two cycles that have a class in common are one cycle. -/
theorem IsCycle.isRotated (hr : ∀ i j k, r i j → r i k → j = k) (h : IsCycle r members)
    (h' : IsCycle r members') (hi : i ∈ members) (hi' : i ∈ members') :
    members.IsRotated members' := by
  obtain ⟨l, hrotated, hcycle⟩ := h.rotate hi
  obtain ⟨l', hrotated', hcycle'⟩ := h'.rotate hi'
  obtain rfl := eq_of_ways hr l l' i (List.nodup_cons.1 hcycle.nodup).1
    (List.nodup_cons.1 hcycle'.nodup).1 hcycle.2 hcycle'.2
  exact hrotated.trans hrotated'.symm

end cycles

section complaints

variable {decls : List ClassDecl} {i j k : Nat} {d d' : Diagnostic}

theorem resolves_functional (h : Resolves decls i j) (h' : Resolves decls i k) : j = k :=
  Option.some.inj ((up_edges_iff.2 h).symm.trans (up_edges_iff.2 h'))

namespace Complaint

/-- A class that is not the first of its name is reported as such. -/
theorem eq_duplicate {c : ClassDecl} (h : Complaint decls i d) (hc : decls[i]? = some c)
    (hnot : ¬ StandsFirst decls c.name.name i) : d = .duplicateClass c.name.name c.name.span := by
  cases h with
  | duplicate hc' _ =>
      obtain rfl := Option.some.inj (hc.symm.trans hc')
      rfl
  | undeclared hc' hfirst _ _ =>
      obtain rfl := Option.some.inj (hc.symm.trans hc')
      exact (hnot hfirst).elim
  | cyclic hc' hcycle hi =>
      obtain ⟨_, _, _, _, he, hfirst, _⟩ := hcycle.exists_next hi
      obtain rfl := Option.some.inj (hc.symm.trans he)
      exact (hnot hfirst).elim

/-- A class whose superclass is not declared is reported as such. -/
theorem eq_undeclared {c : ClassDecl} {s : Ident} (h : Complaint decls i d)
    (hc : decls[i]? = some c) (hfirst : StandsFirst decls c.name.name i)
    (hs : c.superclass = some s) (hnone : ∀ x ∈ decls, x.name.name ≠ s.name) :
    d = .undeclaredSuperclass c.name.name s.name s.span := by
  cases h with
  | duplicate hc' hnot =>
      obtain rfl := Option.some.inj (hc.symm.trans hc')
      exact (hnot hfirst).elim
  | undeclared hc' _ hs' _ =>
      obtain rfl := Option.some.inj (hc.symm.trans hc')
      obtain rfl := Option.some.inj (hs.symm.trans hs')
      rfl
  | cyclic hc' hcycle hi =>
      obtain ⟨_, _, _, _, he, _, hs', x, hx, hname, _⟩ := hcycle.exists_next hi
      obtain rfl := Option.some.inj (hc.symm.trans he)
      obtain rfl := Option.some.inj (hs.symm.trans hs')
      exact (hnone x (List.mem_of_getElem? hx) hname).elim

/-- A class that has a superclass is reported for a cycle only. -/
theorem exists_cycle (h : Complaint decls i d) (hij : Resolves decls i j) :
    ∃ c members, decls[i]? = some c ∧ IsCycle (Resolves decls) members ∧ i ∈ members ∧
      d = .cyclicInheritance c.name.name ((members.filterMap (decls[·]?)).map (·.name.name))
        c.name.span := by
  obtain ⟨_, _, hc, hfirst, hs, x, hx, hname, _⟩ := hij
  cases h with
  | duplicate hc' hnot =>
      obtain rfl := Option.some.inj (hc.symm.trans hc')
      exact (hnot hfirst).elim
  | undeclared hc' _ hs' hnone =>
      obtain rfl := Option.some.inj (hc.symm.trans hc')
      obtain rfl := Option.some.inj (hs.symm.trans hs')
      exact (hnone x (List.mem_of_getElem? hx) hname).elim
  | cyclic hc' hcycle hi => exact ⟨_, _, hc', hcycle, hi, rfl⟩

/-- There is one complaint about a class at most. -/
theorem agrees (h : Complaint decls i d) (h' : Complaint decls i d') : d.Agrees d' := by
  cases h with
  | duplicate hc hnot => exact h'.eq_duplicate hc hnot ▸ .same _
  | undeclared hc hfirst hs hnone => exact h'.eq_undeclared hc hfirst hs hnone ▸ .same _
  | cyclic hc hcycle hi =>
      obtain ⟨_, _, hij⟩ := hcycle.exists_next hi
      obtain ⟨_, _, hc', hcycle', hi', rfl⟩ := h'.exists_cycle hij
      obtain rfl := Option.some.inj (hc.symm.trans hc')
      have hone : ∀ i j k, Resolves decls i j → Resolves decls i k → j = k :=
        fun _ _ _ => resolves_functional
      have hrotated := hcycle.isRotated hone hcycle' hi hi'
      exact .cyclic _ _ ((isRotated_filterMap hrotated _).map _)

end Complaint

end complaints

/-- Classes of different names, and the same ones where `σ` moves them. -/
structure Moved (σ : Equiv.Perm Nat) (decls decls' : List ClassDecl) : Prop where
  nodup : (decls.map (·.name.name)).Nodup
  perm : decls.Perm decls'
  get : ∀ i, decls'[σ i]? = decls[i]?

theorem exists_moved {decls decls' : List ClassDecl} (hn : (decls.map (·.name.name)).Nodup)
    (h : decls.Perm decls') : ∃ σ, Moved σ decls decls' := by
  obtain ⟨σ, hσ⟩ := exists_places h
  exact ⟨σ, hn, h, hσ⟩

namespace Moved

variable {σ : Equiv.Perm Nat} {decls decls' : List ClassDecl} (h : Moved σ decls decls')
include h

theorem symm : Moved σ.symm decls' decls where
  nodup := (h.perm.map _).nodup_iff.1 h.nodup
  perm := h.perm.symm
  get i := by rw [← h.get, σ.apply_symm_apply]

theorem standsFirst {name : String} {i : Nat} (hi : StandsFirst decls name i) :
    StandsFirst decls' name (σ i) := by
  obtain ⟨c, hc, rfl, _⟩ := hi
  refine ⟨c, (h.get i).trans hc, rfl, fun j c' hc' hname => ?_⟩
  -- There is no other class of the name.
  have hname' : (decls'.map (·.name.name))[j]? = (decls'.map (·.name.name))[σ i]? := by
    rw [List.getElem?_map, List.getElem?_map, hc', h.get, hc, Option.map_some, hname,
      Option.map_some]
  have hj : j < (decls'.map (·.name.name)).length := by
    simpa using (List.getElem?_eq_some_iff.1 hc').1
  exact ((List.getElem?_inj hj h.symm.nodup).1 hname').ge

theorem standsFirst_iff {name : String} {i : Nat} :
    StandsFirst decls' name (σ i) ↔ StandsFirst decls name i := by
  refine ⟨fun hi => ?_, h.standsFirst⟩
  rw [← σ.symm_apply_apply i]
  exact h.symm.standsFirst hi

theorem resolves {i j : Nat} (hij : Resolves decls i j) : Resolves decls' (σ i) (σ j) := by
  obtain ⟨c, s, hc, hfirst, hs, hj⟩ := hij
  exact ⟨c, s, (h.get i).trans hc, h.standsFirst hfirst, hs, h.standsFirst hj⟩

theorem isCycle {members : List Nat} (hm : IsCycle (Resolves decls) members) :
    IsCycle (Resolves decls') (members.map σ) := by
  cases members with
  | nil => exact hm
  | cons start l =>
      refine ⟨hm.1.map σ.injective, ?_⟩
      rw [← List.map_singleton, ← List.map_append, ← List.map_cons, List.isChain_map]
      exact hm.2.imp fun _ _ => h.resolves

theorem complaint {i : Nat} {d : Diagnostic} (hd : Complaint decls i d) :
    Complaint decls' (σ i) d := by
  cases hd with
  | duplicate hc hnot => exact .duplicate ((h.get i).trans hc) (mt h.standsFirst_iff.1 hnot)
  | undeclared hc hfirst hs hnone =>
      exact .undeclared ((h.get i).trans hc) (h.standsFirst hfirst) hs fun x hx =>
        hnone x (h.perm.mem_iff.2 hx)
  | @cyclic c members hc hcycle hi =>
      have hnames : (members.map σ).filterMap (decls'[·]?) = members.filterMap (decls[·]?) := by
        rw [List.filterMap_map]
        exact congrArg (List.filterMap · members) (funext h.get)
      rw [← hnames]
      exact .cyclic ((h.get i).trans hc) (h.isCycle hcycle) (List.mem_map_of_mem hi)

/-- The same is wrong with the classes. -/
theorem sameReports : SameReports (build decls).2 (build decls').2 := by
  obtain ⟨about, hnodup, hfound, hall⟩ := found_build decls
  obtain ⟨about', hnodup', hfound', hall'⟩ := found_build decls'
  have hperm : (about.map σ).Perm about' := by
    refine (List.perm_ext_iff_of_nodup (hnodup.map σ.injective) hnodup').2 fun i => ?_
    constructor
    · intro hi
      obtain ⟨j, hj, rfl⟩ := List.mem_map.1 hi
      obtain ⟨d, hd⟩ := exists_of_forall₂ hfound hj
      exact hall' _ d (h.complaint hd)
    · intro hi
      obtain ⟨d, hd⟩ := exists_of_forall₂ hfound' hi
      exact List.mem_map.2 ⟨σ.symm i, hall _ d (h.symm.complaint hd), σ.apply_symm_apply i⟩
  obtain ⟨es, hes, heperm⟩ := List.perm_comp_forall₂ hperm hfound'
  refine ⟨es, forall₂_of_forall₂ hfound (List.forall₂_map_left_iff.1 hes) fun i d e hd he => ?_,
    heperm⟩
  exact (h.complaint hd).agrees he

theorem edge_left (i : Nat) : edge (edgesLeft decls') (σ i) = (edge (edgesLeft decls) i).map σ := by
  have hloop : Relation.TransGen (Resolves decls') (σ i) (σ i) ↔
      Relation.TransGen (Resolves decls) i i := by
    refine ⟨fun hi => ?_, fun hi => hi.lift σ fun _ _ => h.resolves⟩
    have hi' := hi.lift σ.symm fun _ _ => h.symm.resolves
    rwa [Function.onFun, σ.symm_apply_apply] at hi'
  refine Option.ext fun k => ?_
  rw [edge_left_iff, hloop, Option.map_eq_some_iff]
  constructor
  · rintro ⟨hik, hnot⟩
    have hik' := h.symm.resolves hik
    rw [σ.symm_apply_apply] at hik'
    exact ⟨σ.symm k, edge_left_iff.2 ⟨hik', hnot⟩, σ.apply_symm_apply k⟩
  · rintro ⟨j, hij, rfl⟩
    obtain ⟨hij, hnot⟩ := edge_left_iff.1 hij
    exact ⟨h.resolves hij, hnot⟩

/-- A class has the ancestors that it had. -/
theorem ancestors_eq {i : Nat} {c c' : ClassRef} (hc : IsChain decls (edgesLeft decls) i c)
    (hc' : IsChain decls' (edgesLeft decls') (σ i) c') :
    c'.ancestors.map ClassRef.name = c.ancestors.map ClassRef.name := by
  have hedge := h.edge_left
  induction hc generalizing c' with
  | @root i hi =>
      have hi' := hedge i
      rw [hi, Option.map_none] at hi'
      cases hc' with
      | root => simp [ClassRef.ancestors, ClassRef.name, h.get]
      | derived hi'' _ => cases hi'.symm.trans hi''
  | @derived i j c hi _ ih =>
      have hi' := hedge i
      rw [hi, Option.map_some] at hi'
      cases hc' with
      | root hi'' => cases hi'.symm.trans hi''
      | derived hi'' hc' =>
          obtain rfl := Option.some.inj (hi'.symm.trans hi'')
          rw [ClassRef.ancestors, ClassRef.ancestors, List.map_cons, List.map_cons, ih hc']
          simp [ClassRef.name, h.get]

/-- Each class of the one table is in the other one, with its ancestors. -/
theorem exists_class {c : ClassRef} (hc : c ∈ (build decls).1.classes) :
    ∃ c' ∈ (build decls').1.classes, c'.name = c.name ∧
      c'.ancestors.map ClassRef.name = c.ancestors.map ClassRef.name := by
  obtain ⟨d, i, hd, hchain⟩ := mem_build.1 hc
  obtain ⟨hget, hfirst⟩ := mem_accepted.1 hd
  have hfirst' := firstOf?_iff.2 (h.standsFirst (firstOf?_iff.1 hfirst))
  have hget' := (h.get i).trans hget
  have hchain' := chain_left (mem_accepted.2 ⟨hget', hfirst'⟩)
  refine ⟨_, mem_build.2 ⟨d, σ i, mem_accepted.2 ⟨hget', hfirst'⟩, hchain'⟩, ?_,
    h.ancestors_eq hchain hchain'⟩
  rw [hchain'.name, hchain.name, h.get]

theorem find?_build {name : String} {names : List String}
    (hfind : ((build decls).1.find? name).map (fun c => c.ancestors.map ClassRef.name) =
      some names) :
    ((build decls').1.find? name).map (fun c => c.ancestors.map ClassRef.name) = some names := by
  obtain ⟨c, hc, rfl⟩ := Option.map_eq_some_iff.1 hfind
  have hname : c.name = name := by simpa using List.find?_some hc
  obtain ⟨c', hc', hname', hancestors⟩ := h.exists_class (List.mem_of_find?_eq_some hc)
  rw [← hname, ← hname', closed_build.find?_eq hc', Option.map_some, hancestors]

end Moved

end ClassTable
end ObjectLang
