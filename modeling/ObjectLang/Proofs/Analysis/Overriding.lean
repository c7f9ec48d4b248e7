import ObjectLang.Proofs.Analysis.Acceptance

/-!
# Overriding at any distance

Analysis compares a method with the nearest one of its name further up, and with no other. In an
accepted program no type is left open, so subtyping is transitive, and the methods of one name stand
in for each other along the whole way upwards from a class: whatever class a value is of, the method
that a call finds there can stand in for the one that was found for the static type.
-/
namespace ObjectLang

variable {p : Program} {printName : String}

section rules

theorem Program.Subtype.trans {t u v : PlainType} (htu : p.Subtype t u) (huv : p.Subtype u v) :
    p.Subtype t v := by
  cases htu with
  | refl => exact huv
  | nullArray =>
      cases huv
      exact .nullArray _
  | nullObject =>
      cases huv with
      | refl => exact .nullObject _
      | object => exact .nullObject _
  | object hcd =>
      cases huv with
      | refl => exact .object hcd
      | object hde => exact .object (hcd.trans hde)

theorem FunctionDecl.Overrides.refl (f : FunctionDecl) : f.Overrides p f :=
  ⟨rfl, .refl _⟩

theorem FunctionDecl.Overrides.trans {f g h : FunctionDecl} (hfg : f.Overrides p g)
    (hgh : g.Overrides p h) : f.Overrides p h :=
  ⟨hfg.params.trans hgh.params, hfg.returnType.trans hgh.returnType⟩

variable {c d : ClassRef} {name : String}

/-- A class finds its own method of a name, or else what its superclass finds. -/
theorem ClassRef.Faithful.method?_eq (hh : p.Hierarchy) (hc : c.Faithful p) :
    p.method? c.name name = (((p.classDecl c).method? name).map fun f => (p.classDecl c, f)).or
      (c.superclass?.bind fun s => p.method? s.name name) := by
  rw [Program.method?, hc.lineage hh]
  cases c with
  | root => rw [ancestors, List.map_singleton, List.findSome?_singleton, superclass?,
      Option.bind_none, Option.or_none]
  | derived other decl s =>
      have hs : p.lineage s.name = s.ancestors.map p.classDecl :=
        (hc.of_superclass rfl).lineage hh
      rw [ancestors, List.map_cons, List.findSome?_cons, superclass?, Option.bind_some,
        Program.method?, hs]
      cases (p.classDecl (.derived other decl s)).method? name <;> rfl

/-- What a class finds can stand in for what its ancestors find, by induction on the way upwards. -/
theorem Program.WellFormed.overrides_ancestor (h : p.WellFormed printName) :
    ∀ {c : ClassRef}, c.Faithful p → d ∈ c.ancestors → ∀ owner g,
      p.method? d.name name = some (owner, g) →
        ∃ owner' f, p.method? c.name name = some (owner', f) ∧ f.Overrides p g := by
  intro c
  induction c with
  | root other decl =>
      intro _ hd owner g hg
      rw [ClassRef.ancestors, List.mem_singleton] at hd
      exact ⟨owner, g, hd ▸ hg, .refl g⟩
  | derived other decl superclass ih =>
      intro hc hd owner g hg
      rcases List.mem_cons.1 hd with rfl | hd
      · exact ⟨owner, g, hg, .refl g⟩
      obtain ⟨owner', f, hf, hfg⟩ := ih (hc.of_superclass rfl) hd owner g hg
      rw [hc.method?_eq h.hierarchy, ClassRef.superclass?, Option.bind_some, hf]
      cases hown : (p.classDecl (.derived other decl superclass)).method? name with
      | none => exact ⟨owner', f, rfl, hfg⟩
      | some f' =>
          refine ⟨_, f', rfl, FunctionDecl.Overrides.trans ?_ hfg⟩
          have hname : f'.name.name = name := by simpa using List.find?_some hown
          obtain ⟨s, hs, hsname⟩ := Option.map_eq_some_iff.1 hc.superclass
          refine h.overriding _ hc.mem f' (List.mem_of_find?_eq_some hown) s hs owner' f ?_
          rw [hsname, hname]
          exact hf

theorem Program.WellFormed.own_method? (h : p.WellFormed printName) (hc : c.Faithful p)
    {f : FunctionDecl} (hf : f ∈ (p.classDecl c).methods) :
    (p.classDecl c).method? f.name.name = some f := by
  cases hfound : (p.classDecl c).method? f.name.name with
  | none => simpa using List.find?_eq_none.1 hfound f hf
  | some g =>
      have hname : g.name.name = f.name.name := by simpa using List.find?_some hfound
      rw [List.inj_on_of_nodup_map (h.methodNames _ hc.mem) (List.mem_of_find?_eq_some hfound) hf
        hname]

/-- A method that a class declares is what the class finds. -/
theorem Program.WellFormed.method?_of_mem (h : p.WellFormed printName) (hc : c.Faithful p)
    {f : FunctionDecl} (hf : f ∈ (p.classDecl c).methods) :
    p.method? c.name f.name.name = some (p.classDecl c, f) := by
  rw [hc.method?_eq h.hierarchy, h.own_method? hc hf]
  rfl

end rules

/-- A method with its types can stand in for another one: it has as many parameters, of the same
types, and a result of a subtype. -/
structure TypedMethod.StandsInFor (m n : TypedMethod) : Prop where
  params : List.Forall₂ (fun T U => T.same U = true) m.params n.params
  returnType : m.returnType.isSubtype n.returnType = true

theorem DenoteAll.same (hh : p.Hierarchy) {a : ArrayTypes} (ha : a.Canonical p)
    {Ts Us : List ValueType} {ds es : List VarDecl} (hT : DenoteAll p a Ts ds)
    (hU : DenoteAll p a Us es) (h : ds.map VarDecl.plain = es.map VarDecl.plain) :
    List.Forall₂ (fun T U => T.same U = true) Ts Us := by
  induction hT generalizing Us es with
  | nil =>
      cases hU with
      | nil => exact .nil
      | cons => cases h
  | cons hd _ ih =>
      cases hU with
      | nil => cases h
      | cons he hes =>
          obtain ⟨hde, h⟩ := List.cons.inj h
          exact .cons ((hd.same_iff hh ha he).2 hde) (ih hes h)

theorem TypedMethod.Stands.standsInFor (hh : p.Hierarchy) {a : ArrayTypes} (ha : a.Canonical p)
    {m n : TypedMethod} {f g : FunctionDecl} (hm : m.Stands p a f) (hn : n.Stands p a g)
    (hfg : f.Overrides p g) : m.StandsInFor n :=
  ⟨hm.params.same hh ha hn.params hfg.params,
    (hm.returnType.isSubtype_iff hh ha hn.returnType).2 hfg.returnType⟩

/-- Methods of one name can stand in for each other along the way upwards from each class, those
that classes declare and those that they find. -/
structure Analysis.OverridesConsistently (p : Program) (a : Analysis) : Prop where
  declared : ∀ c ∈ a.classes.classes, ∀ d ∈ c.ancestors, ∀ f ∈ (p.classDecl c).methods,
    ∀ g ∈ (p.classDecl d).methods, f.name.name = g.name.name → ∃ m n,
      (a.members.of? c).bind (·.method? f.name.name) = some m ∧ m.decl = f ∧
      (a.members.of? d).bind (·.method? g.name.name) = some n ∧ n.decl = g ∧ m.StandsInFor n
  found : ∀ c ∈ a.classes.classes, ∀ d ∈ c.ancestors, ∀ name owner n,
    a.members.method? d name = some (owner, n) →
      ∃ owner' m, a.members.method? c name = some (owner', m) ∧ m.StandsInFor n

theorem Program.WellFormed.exists_method? (h : p.WellFormed printName) {t : MemberTable}
    {a : ArrayTypes} (ht : t.Stands p a) {c : ClassRef} (hc : c.Faithful p) {f : FunctionDecl}
    (hf : f ∈ (p.classDecl c).methods) :
    ∃ m, (t.of? c).bind (·.method? f.name.name) = some m ∧ m.Stands p a f := by
  obtain ⟨ms, hms, hstands⟩ := ht c hc
  rw [hms, Option.bind_some]
  have hrel := hstands.rel_method? f.name.name
  rw [h.own_method? hc hf] at hrel
  generalize ms.method? f.name.name = found at hrel ⊢
  cases hrel with
  | some hm => exact ⟨_, rfl, hm⟩

/-- In an accepted program overriding is consistent at any distance. -/
theorem Program.ofText_overridesConsistently {source : String}
    (h : Program.ofText source = .ok p) (ha : (p.analyze printName).isAccepted = true) :
    (p.analyze printName).OverridesConsistently p := by
  obtain ⟨hw, _, hclasses, _, harrays, hmembers, _⟩ := Program.accepted h ha
  have hfaithful : ∀ c ∈ (p.analyze printName).classes.classes, c.Faithful p := by
    rw [hclasses]
    exact fun c hc => ClassTable.faithful_of_mem_build hw.hierarchy hc
  constructor
  · intro c hc d hd f hf g hg hname
    have hcf := hfaithful c hc
    have hdf := hcf.of_mem_ancestors hd
    obtain ⟨m, hm, hmf⟩ := hw.exists_method? hmembers hcf hf
    obtain ⟨n, hn, hng⟩ := hw.exists_method? hmembers hdf hg
    refine ⟨m, n, hm, hmf.decl, hn, hng.decl, hmf.standsInFor hw.hierarchy harrays hng ?_⟩
    obtain ⟨owner, f', hf', hfg⟩ :=
      hw.overrides_ancestor hcf hd _ g (hw.method?_of_mem hdf hg)
    rw [← hname, hw.method?_of_mem hcf hf] at hf'
    cases hf'
    exact hfg
  · intro c hc d hd name owner n hn
    have hcf := hfaithful c hc
    have hrel := hmembers.rel_method? hw.hierarchy (hcf.of_mem_ancestors hd) name
    rw [hn] at hrel
    generalize hg : p.method? d.name name = g at hrel
    cases hrel with
    | some hng =>
        obtain ⟨owner', f, hf, hfg⟩ := hw.overrides_ancestor hcf hd _ _ hg
        have hrel := hmembers.rel_method? hw.hierarchy hcf name
        rw [hf] at hrel
        generalize (p.analyze printName).members.method? c name = m at hrel ⊢
        cases hrel with
        | some hmf =>
            exact ⟨_, _, rfl, hmf.2.2.standsInFor hw.hierarchy harrays hng.2.2 hfg⟩

/-- A method that is declared again two classes further down, with a narrower result. -/
def narrowingText : String :=
  "int main() { return 0; } " ++
  "class A { A copy(int n) { return this; } } " ++
  "class B extends A { } " ++
  "class C extends B { C copy(int k) { return this; } }"

theorem Program.ofText_overridesConsistently_narrowing : ∃ p, Program.ofText narrowingText = .ok p ∧
    (p.analyze "printInt").isAccepted = true ∧ (p.analyze "printInt").OverridesConsistently p := by
  obtain ⟨p, hp, ha⟩ := exists_ok_of_any (r := Program.ofText narrowingText)
    (f := fun p => (p.analyze "printInt").isAccepted) (by decide +kernel)
  exact ⟨p, hp, ha, Program.ofText_overridesConsistently hp ha⟩

end ObjectLang
