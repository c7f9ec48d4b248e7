import Mathlib.Tactic
import ObjectLang.Proofs.Parsing.Words
import ObjectLang.Proofs.Simulation.Programs

/-!
# Names in the code

The names of constructors, methods and allocators are two names with an underscore between them, and
the names of a program may have underscores themselves, so a method and a function may come to one
name. If classes and functions are called so that the two parts can be told apart, no two procedures
and no two structs have the same name, and each procedure is found under its own.
-/
namespace ObjectLang

open IR

/-- What the names of the code are put together from can be told apart in them. -/
structure Program.Separable (p : Program) : Prop where
  classes : ∀ c ∈ p.classes, '_' ∉ c.name.name.toList ∧ c.name.name ≠ "newArray"
  methods : ∀ c ∈ p.classes, ∀ d ∈ c.methods, d.name.name ≠ "Create_Default"
  functions : ∀ f ∈ p.functions, '_' ∉ f.name.name.toList

instance (p : Program) : Decidable p.Separable :=
  decidable_of_iff ((∀ c ∈ p.classes, '_' ∉ c.name.name.toList ∧ c.name.name ≠ "newArray") ∧
      (∀ c ∈ p.classes, ∀ d ∈ c.methods, d.name.name ≠ "Create_Default") ∧
        ∀ f ∈ p.functions, '_' ∉ f.name.name.toList)
    ⟨fun ⟨hc, hm, hf⟩ => ⟨hc, hm, hf⟩, fun h => ⟨h.classes, h.methods, h.functions⟩⟩

/-- Where a sign stands first, two texts can be taken apart in one way. -/
theorem eq_of_append_cons {α : Type} {c : α} {a b x y : List α} (ha : c ∉ a) (hb : c ∉ b)
    (h : a ++ c :: x = b ++ c :: y) : a = b ∧ x = y := by
  induction a generalizing b with
  | nil =>
      cases b with
      | nil => exact ⟨rfl, List.tail_eq_of_cons_eq h⟩
      | cons d b => exact absurd (List.head_eq_of_cons_eq h) fun heq => hb (heq ▸ .head _)
  | cons d a ih =>
      cases b with
      | nil => exact absurd (List.head_eq_of_cons_eq h) fun heq => ha (heq ▸ .head _)
      | cons e b =>
          obtain ⟨rfl, hrest⟩ := List.cons.inj h
          obtain ⟨rfl, rfl⟩ := ih (fun hm => ha (.tail _ hm)) (fun hm => hb (.tail _ hm)) hrest
          exact ⟨rfl, rfl⟩

theorem eq_of_append_underscore {a b x y : String} (ha : '_' ∉ a.toList) (hb : '_' ∉ b.toList)
    (h : a ++ "_" ++ x = b ++ "_" ++ y) : a = b ∧ x = y := by
  have hlist : a.toList ++ '_' :: x.toList = b.toList ++ '_' :: y.toList := by
    simpa using congrArg String.toList h
  exact (eq_of_append_cons ha hb hlist).imp String.toList_inj.1 String.toList_inj.1

section fragments

variable {p : Program} {a : ArrayTypes} {V U : ValueType} {t u : PlainType}
  (hclasses : ∀ c ∈ p.classes, '_' ∉ c.name.name.toList)
  (hkeywords : ∀ c ∈ p.classes, ∀ k : Keyword, c.name.name ≠ k.text)
include hclasses hkeywords

/-- Types with the same part in a name are the same. -/
theorem ValueType.Denotes.eq_of_fragment (ha : a.Canonical p) (hV : V.Denotes p a t)
    (ht : t ≠ .null) (hU : U.Denotes p a u) (hu : u ≠ .null) (h : V.fragment = U.fragment) :
    t = u := by
  have hname : ∀ {c : ClassRef}, c.Faithful p → '_' ∉ c.name.toList ∧
      c.name ≠ "int" ∧ c.name ≠ "boolean" := by
    intro c hc
    rw [← hc.classDecl_name]
    exact ⟨hclasses _ hc.mem, hkeywords _ hc.mem .intType, hkeywords _ hc.mem .boolType⟩
  have harray : ∀ x name : String, "array_" ++ x = name → '_' ∈ name.toList := by
    rintro x _ rfl
    simp
  induction hV generalizing U u with
  | int =>
      cases hU with
      | int => rfl
      | bool => exact absurd h (by decide)
      | null => exact absurd rfl hu
      | array => exact absurd (congrArg String.toList h) (by simp [fragment])
      | object hc => exact absurd h.symm (hname hc).2.1
  | bool =>
      cases hU with
      | int => exact absurd h (by decide)
      | bool => rfl
      | null => exact absurd rfl hu
      | array => exact absurd (congrArg String.toList h) (by simp [fragment])
      | object hc => exact absurd h.symm (hname hc).2.2
  | null => exact absurd rfl ht
  | array hi hd ih =>
      cases hU with
      | int => exact absurd (congrArg String.toList h) (by simp [fragment])
      | bool => exact absurd (congrArg String.toList h) (by simp [fragment])
      | null => exact absurd rfl hu
      | array hi' hd' =>
          obtain ⟨_, hv, hne⟩ := ha.denotes _ _ hi
          obtain ⟨_, hv', hne'⟩ := ha.denotes _ _ hi'
          rw [hv.functional hd] at hne
          rw [hv'.functional hd'] at hne'
          have hfragment := String.append_right_inj _ |>.1 h
          rw [ih hne hd' hne' hfragment]
      | object hc => exact absurd (harray _ _ h) (hname hc).1
  | object hc hn =>
      cases hU with
      | int => exact absurd h (hname hc).2.1
      | bool => exact absurd h (hname hc).2.2
      | null => exact absurd rfl hu
      | array => exact absurd (harray _ _ h.symm) (hname hc).1
      | object hc' hn' => exact congrArg PlainType.object (hn.symm.trans (Eq.trans h hn'))

end fragments

section structs

variable {p : Program} {a : ArrayTypes} {structs : ClassStructs} {T : Target}

/-- Structs with the same name are the same. -/
theorem Target.Sound.eq_of_name (h : T.Sound p a structs) (ha : a.Canonical p)
    (hclasses : ∀ c ∈ p.classes, '_' ∉ c.name.name.toList)
    (hkeywords : ∀ c ∈ p.classes, ∀ k : Keyword, c.name.name ≠ k.text) {i j : Nat} {s s' : Struct}
    (hs : T.module.structs[i]? = some s) (hs' : T.module.structs[j]? = some s')
    (hname : s.name = s'.name) : i = j := by
  have hplain : ∀ {c : ClassRef} {V : ValueType}, c.Faithful p →
      c.name ≠ "array_" ++ V.fragment := by
    intro c V hc heq
    have hmem : '_' ∈ ("array_" ++ V.fragment).toList := by simp
    rw [← heq, ← hc.classDecl_name] at hmem
    exact hclasses _ hc.mem hmem
  rcases h.named i s hs with ⟨c, hc, hsc, hi⟩ | ⟨V, layout, hm, rfl, hsV⟩ <;>
    rcases h.named j s' hs' with ⟨d, hd, hsd, hj⟩ | ⟨U, layout', hm', rfl, hsU⟩
  · have hcd : c.name = d.name := hsc.symm.trans (hname.trans hsd)
    rw [hcd] at hi
    exact Option.some.inj (hi.symm.trans hj)
  · exact absurd (hsc.symm.trans (hname.trans hsU)) (hplain hc)
  · exact absurd (hsd.symm.trans (hname.symm.trans hsV)) (hplain hd)
  · have hfragment := (String.append_right_inj _).1 (hsV.symm.trans (hname.trans hsU))
    obtain ⟨t, _, ⟨ht, hne⟩, _⟩ := h.struct V layout hm
    obtain ⟨u, _, ⟨hu, hne'⟩, _⟩ := h.struct U layout' hm'
    obtain rfl := ht.eq_of_fragment hclasses hkeywords ha hne hu hne' hfragment
    rw [h.unique _ _ _ _ _ hm hm' ht hu]

end structs

section procedures

variable {p : Program} {body : Body} {routines : List (Routine × Signature)} {s : LowerState}

/-- The procedures whose names have two parts: a constructor, a method, or one that makes arrays. -/
inductive Compound (p : Program) (body : Body) (routines : List (Routine × Signature))
    (s : LowerState) : Nat → String → String → Prop
  | constructor {c : ClassRef} {l : ClassLayout} : c.Faithful p →
      body.layouts.class? c.name = some l →
        Compound p body routines s l.constructor c.name "Create_Default"
  | method {c : ClassRef} {d : FunctionDecl} {sg : Signature} : c.Faithful p →
      d ∈ (p.classDecl c).methods → (⟨some c, d⟩, sg) ∈ routines →
        Compound p body routines s sg.procedure c.name d.name.name
  | allocator {x : ValueType × Nat} : x ∈ s.allocators →
      Compound p body routines s x.2 "newArray" x.1.fragment

/-- No component has two allocators. -/
theorem LowerState.Distinct.eq {arrays : ArrayTypes} {t : PlainType} (h : s.Distinct)
    (hh : p.Hierarchy) (ha : arrays.Canonical p) {x y : ValueType × Nat} (hx : x ∈ s.allocators)
    (hy : y ∈ s.allocators) (ht : x.1.Denotes p arrays t) (hu : y.1.Denotes p arrays t) :
    x = y := by
  rw [LowerState.Distinct] at h
  generalize s.allocators = allocators at h hx hy
  induction h with
  | nil => cases hx
  | @cons z rest hz _ ih =>
      have hsame : ∀ w ∈ rest, ¬ (z.1.Denotes p arrays t ∧ w.1.Denotes p arrays t) :=
        fun w hw hd => Bool.false_ne_true ((hz w hw).symm.trans ((hd.1.same_iff hh ha hd.2).2 rfl))
      rcases List.mem_cons.1 hx with rfl | hx' <;> rcases List.mem_cons.1 hy with rfl | hy'
      · rfl
      · exact (hsame _ hy' ⟨ht, hu⟩).elim
      · exact (hsame _ hx' ⟨hu, ht⟩).elim
      · exact ih hx' hy'

variable (h : p.Compiled body routines s)
include h

/-- The name of a procedure has two parts, or is that of a function. -/
theorem Program.Compiled.name_cases {id : Nat} {q : Procedure}
    (hq : s.target.module.procedures[id]? = some q) :
    (∃ first second, Compound p body routines s id first second ∧
      q.name = first ++ "_" ++ second) ∨
    ∃ d sg, d ∈ p.functions ∧ (⟨none, d⟩, sg) ∈ routines ∧ sg.procedure = id ∧
      q.name = d.name.name := by
  cases h.hasProcedure hq with
  | constructor hc hl _ _ =>
      refine .inl ⟨_, _, .constructor hc hl, ?_⟩
      rw [String.append_assoc]
      rfl
  | @routine x _ hx hbelongs hcoded _ =>
      obtain ⟨⟨owner, d⟩, sg⟩ := x
      cases owner with
      | some c => exact .inl ⟨_, _, .method hbelongs.1 hbelongs.2 hx, hcoded.name hq⟩
      | none => exact .inr ⟨d, sg, hbelongs, hx, rfl, hcoded.name hq⟩
  | allocator hx _ _ =>
      rw [allocatorCode_eq]
      exact .inl ⟨_, _, .allocator hx, rfl⟩

variable (hseparable : p.Separable)
include hseparable

omit h in
theorem Compound.first {id : Nat} {first second : String}
    (hc : Compound p body routines s id first second) : '_' ∉ first.toList := by
  cases hc with
  | constructor hc _ | method hc _ _ =>
      rw [← hc.classDecl_name]
      exact (hseparable.classes _ hc.mem).1
  | allocator => decide

/-- Procedures whose names have the same parts are the same. -/
theorem Compound.eq (hkeywords : ∀ c ∈ p.classes, ∀ k : Keyword, c.name.name ≠ k.text)
    {i j : Nat} {first second : String} (hi : Compound p body routines s i first second)
    (hj : Compound p body routines s j first second) : i = j := by
  obtain ⟨T₀, h₀⟩ := h.built
  have ha := h.prepared.accepted
  have hh := ha.wellFormed.hierarchy
  have hclass : ∀ {c : ClassRef}, c.Faithful p → c.name ≠ "newArray" := by
    intro c hc
    rw [← hc.classDecl_name]
    exact (hseparable.classes _ hc.mem).2
  have hmethod : ∀ {c : ClassRef} {d : FunctionDecl}, c.Faithful p →
      d ∈ (p.classDecl c).methods → d.name.name ≠ "Create_Default" :=
    fun hc hd => hseparable.methods _ hc.mem _ hd
  generalize hfirst : first = first' at hj
  generalize hsecond : second = second' at hj
  cases hi with
  | @constructor c l hc hl =>
      cases hj with
      | @constructor c' l' hc' hl' =>
          rw [hfirst, hl'] at hl
          rw [Option.some.inj hl]
      | method hc' hd _ => exact absurd hsecond.symm (hmethod hc' hd)
      | allocator => exact absurd hfirst (hclass hc)
  | @method c d sg hc hd hx =>
      cases hj with
      | constructor => exact absurd hsecond (hmethod hc hd)
      | @method c' d' sg' hc' hd' hx' =>
          obtain rfl := hc.unique hh hc' hfirst
          obtain rfl := List.inj_on_of_nodup_map (ha.wellFormed.methodNames _ hc.mem) hd hd' hsecond
          exact congrArg (·.2.procedure) (h₀.eq_of_routine h.prepared hx hx' rfl)
      | allocator => exact absurd hfirst (hclass hc)
  | @allocator x hx =>
      cases hj with
      | constructor hc _ | method hc _ _ => exact absurd hfirst.symm (hclass hc)
      | @allocator y hy =>
          obtain ⟨t, _, _, ht, hr, _⟩ := h.done.makes x hx List.not_mem_nil
          obtain ⟨u, _, _, hu, hr', _⟩ := h.done.makes y hy List.not_mem_nil
          obtain rfl := ht.eq_of_fragment (fun c hc => (hseparable.classes c hc).1) hkeywords
            ha.arrays (hr.component_ne_null h.done.target) hu
            (hr'.component_ne_null h.done.target) hsecond
          exact congrArg Prod.snd (h.done.distinct.eq hh ha.arrays hx hy ht hu)

/-- Procedures of one name are the same. -/
theorem Program.Compiled.eq_of_name
    (hkeywords : ∀ c ∈ p.classes, ∀ k : Keyword, c.name.name ≠ k.text) {i j : Nat}
    {q q' : Procedure} (hq : s.target.module.procedures[i]? = some q)
    (hq' : s.target.module.procedures[j]? = some q') (hname : q.name = q'.name) : i = j := by
  obtain ⟨T₀, h₀⟩ := h.built
  have hunderscore : ∀ first second d, d ∈ p.functions →
      first ++ "_" ++ second ≠ d.name.name := by
    intro first second d hd heq
    refine hseparable.functions d hd (heq ▸ ?_)
    simp
  rcases h.name_cases hq with ⟨a, x, hi, hax⟩ | ⟨d, sg, hd, hx, rfl, hdname⟩ <;>
    rcases h.name_cases hq' with ⟨b, y, hj, hby⟩ | ⟨d', sg', hd', hx', rfl, hdname'⟩
  · obtain ⟨rfl, rfl⟩ := eq_of_append_underscore (hi.first hseparable) (hj.first hseparable)
      (hax.symm.trans (hname.trans hby))
    exact hi.eq h hseparable hkeywords hj
  · exact absurd (hax.symm.trans (hname.trans hdname')) (hunderscore a x d' hd')
  · exact absurd (hby.symm.trans (hname.symm.trans hdname)) (hunderscore b y d hd)
  · obtain rfl := List.inj_on_of_nodup_map h.prepared.accepted.wellFormed.functionNames hd hd'
      (hdname.symm.trans (hname.trans hdname'))
    exact congrArg (·.2.procedure) (h₀.eq_of_routine h.prepared hx hx' rfl)

end procedures

section modules

variable {source : String} {options : CompileOptions} {p : Program} {m : Module}

/-- A list has no entry twice if what is found of it at two positions differs. -/
theorem nodup_map_of_getElem? {α β : Type} {f : α → β} {xs : Array α}
    (h : ∀ (i j : Nat) (x y : α), xs[i]? = some x → xs[j]? = some y → f x = f y → i = j) :
    (xs.toList.map f).Nodup := by
  rw [List.nodup_iff_getElem?_ne_getElem?]
  intro i j hij hj heq
  rw [List.length_map, Array.length_toList] at hj
  rw [List.getElem?_map, List.getElem?_map, Array.getElem?_toList, Array.getElem?_toList,
    Array.getElem?_eq_getElem hj, Array.getElem?_eq_getElem (hij.trans hj)] at heq
  exact hij.ne (h i j _ _ (Array.getElem?_eq_getElem _) (Array.getElem?_eq_getElem _)
    (Option.some.inj heq))

/-- If the parts of names can be told apart, all procedures and all structs of a compiled program
have names of their own, and each procedure is found under its name. -/
theorem compile_separatesNames (hp : Program.ofText source = .ok p) (hseparable : p.Separable)
    (h : compile source options = .ok m) :
    (m.procedures.toList.map (·.name)).Nodup ∧ (m.structs.toList.map (·.name)).Nodup ∧
      ∀ (id : Nat) (q : Procedure), m.procedures[id]? = some q →
        m.findProcedure? q.name = some id := by
  obtain ⟨p', body, routines, s, hp', _, _, hcompiled, rfl⟩ := exists_of_compile h
  obtain rfl := Except.ok.inj (hp.symm.trans hp')
  have hkeywords := Program.ne_keyword_ofText hp
  have hprocedures : ∀ (i j : Nat) (q q' : Procedure), s.target.module.procedures[i]? = some q →
      s.target.module.procedures[j]? = some q' → q.name = q'.name → i = j :=
    fun _ _ _ _ hq hq' hname => hcompiled.eq_of_name hseparable hkeywords hq hq' hname
  refine ⟨nodup_map_of_getElem? hprocedures, nodup_map_of_getElem? fun i j s s' hs hs' hname => ?_,
    fun id q hq => ?_⟩
  · exact hcompiled.done.target.eq_of_name hcompiled.prepared.accepted.arrays
      (fun c hc => (hseparable.classes c hc).1) hkeywords hs hs' hname
  · exact findProcedure?_eq hq fun i q' hq' hname => hprocedures i id q' q hq' hq hname

/-- A program with a constructor, a method, a function and arrays of objects. -/
def objectsText : String :=
  "class A { int b() { return 1; } } int main() { A[] a; a = new A[2]; return 0; }"

theorem compile_separatesNames_objects : ∃ m, compile objectsText {} = .ok m ∧
    (m.procedures.toList.map (·.name)).Nodup ∧ (m.structs.toList.map (·.name)).Nodup ∧
      ∀ (id : Nat) (q : Procedure), m.procedures[id]? = some q →
        m.findProcedure? q.name = some id := by
  obtain ⟨p, hp, hseparable⟩ := exists_ok_of_any (r := Program.ofText objectsText)
    (f := fun p => decide p.Separable) (by decide +kernel)
  obtain ⟨m, hm, -⟩ := exists_ok_of_any (r := compile objectsText {}) (f := fun _ => true)
    (by decide +kernel)
  exact ⟨m, hm, compile_separatesNames hp (of_decide_eq_true hseparable) hm⟩

/-- A program whose method and function get one name. -/
def sharingText : String :=
  "class A { int b() { return 1; } } int A_b() { return 2; } int main() { return 0; }"

/-- A method `b` of a class `A` and a function `A_b` get one name, and only the last of the two
procedures is found. -/
theorem compile_sharesName : ∃ m, compile sharingText {} = .ok m ∧
    m.procedures[1]?.map (·.name) = some "A_b" ∧
      m.procedures[2]?.map (·.name) = some "A_b" ∧ m.findProcedure? "A_b" = some 2 := by
  obtain ⟨m, hm, hshared⟩ := exists_ok_of_any (r := compile sharingText {}) (f := fun m =>
    decide (m.procedures[1]?.map (·.name) = some "A_b" ∧
      m.procedures[2]?.map (·.name) = some "A_b" ∧ m.findProcedure? "A_b" = some 2))
    (by decide +kernel)
  exact ⟨m, hm, of_decide_eq_true hshared⟩

end modules

end ObjectLang
