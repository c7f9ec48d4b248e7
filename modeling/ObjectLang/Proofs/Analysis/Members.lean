import ObjectLang.Proofs.Analysis.Declarations

/-!
# Members are declared by the rules

The members of a class are silently declared exactly if no two fields and no two methods have one
name and all their types are known. The table of all members then stands for the classes of the
program, and overriding is reported exactly where it breaks the rules.
-/
namespace ObjectLang

variable {p : Program}

namespace Check

open Findings

variable {classes : ClassTable} {f : Findings}

theorem recorded_of_understood {t : TypeExpr} {m : Check ValueType}
    (h : Understood p t m f) : t.Recorded (m.after f).arrays (m.after f).notes p :=
  ⟨_, h.noted, h.denotes⟩

/-- The first fields of a class are declared. -/
def FieldsDeclared (p : Program) (c : ClassRef) (a : ArrayTypes) (m : ClassMembers)
    (fields : List VarDecl) : Prop :=
  m.cls = c ∧ m.methods = [] ∧ List.Forall₂ (TypedVar.Stands p a) m.fields fields

/-- All fields of a class and the first methods are declared. -/
def MethodsDeclared (p : Program) (c : ClassRef) (fields : List VarDecl) (a : ArrayTypes)
    (m : ClassMembers) (methods : List FunctionDecl) : Prop :=
  m.cls = c ∧ List.Forall₂ (TypedVar.Stands p a) m.fields fields ∧
    List.Forall₂ (TypedMethod.Stands p a) m.methods methods

section

variable (hh : p.Hierarchy) (hclasses : classes = (ClassTable.build p.classes).1)
  (hp : p.ids.Nodup)
include hh hclasses hp

theorem declares_field {c : ClassRef} {m : ClassMembers} {earlier : List VarDecl} {d : VarDecl}
    (hd : d.type ∈ p.typeExprs) (hf : f.Sound p) (hm : FieldsDeclared p c f.arrays m earlier) :
    Declares p (·.name.name) (FieldsDeclared p c) (fun d => d.plain.Known p)
      (fun a n d => d.type.Recorded a n p) earlier d (declareField classes m d) f := by
  obtain ⟨hc, hmethods, hfields⟩ := hm
  have hname : (m.field? d.name.name).isSome = false ↔ ∀ x ∈ earlier, x.name.name ≠ d.name.name :=
    isSome_find?_iff (fun x : TypedVar => x.decl.name.name) (fun x : VarDecl => x.name.name)
      (fun _ _ hx => by rw [hx.decl]) hfields _
  obtain ⟨hsound, hcomplete⟩ := checkType_spec hh hclasses hp hd hf
  have heq : declareField classes m d = (do
      let type ← checkType classes d.type
      if (m.field? d.name.name).isSome then do
        report (.duplicateField d.name.name m.cls.name d.name.span)
        return m
      else return { m with fields := m.fields ++ [⟨d, type⟩] }) := by
    unfold declareField ClassMembers.addField?
    congr
    funext type
    simp only
    split_ifs <;> rfl
  rw [heq]
  constructor
  · intro h
    rw [silent_bind] at h
    have ht := hsound h.1
    by_cases hn : (m.field? d.name.name).isSome
    · have h := h.2
      simp [hn] at h
    · rw [Bool.not_eq_true] at hn
      refine ⟨hname.1 hn, ht.denotes.known, ?_, ?_, ?_⟩ <;>
        simp only [hn, Bool.false_eq_true, if_false, after_bind, value_bind, after_pure, value_pure]
      · refine ⟨hc, hmethods, List.rel_append
          (hfields.imp fun _ _ hx => hx.mono ht.grows.arrays) ?_⟩
        exact .cons ⟨rfl, ht.denotes⟩ .nil
      · exact recorded_of_understood ht
      · exact ht.grows
  · intro hnew hk
    simp [hname.2 hnew, hcomplete hk]

theorem declares_method {c : ClassRef} {fields : List VarDecl} {m : ClassMembers}
    {earlier : List FunctionDecl} {d : FunctionDecl}
    (hparams : ∀ x ∈ d.params, x.type ∈ p.typeExprs) (hreturn : d.returnType ∈ p.typeExprs)
    (hf : f.Sound p) (hm : MethodsDeclared p c fields f.arrays m earlier) :
    Declares p (·.name.name) (MethodsDeclared p c fields) (SignatureKnown p) (SignatureRecorded p)
      earlier d (declareMethod classes m d) f := by
  obtain ⟨hc, hfields, hmethods⟩ := hm
  have hname : (m.method? d.name.name).isSome = false ↔
      ∀ x ∈ earlier, x.name.name ≠ d.name.name :=
    isSome_find?_iff (fun m : TypedMethod => m.decl.name.name)
      (fun m : FunctionDecl => m.name.name) (fun _ _ hx => by rw [hx.decl]) hmethods _
  obtain ⟨hsound, hcomplete⟩ := signatureOf_spec hh hclasses hp hparams hreturn hf
  have heq : declareMethod classes m d = (do
      let s ← signatureOf classes d
      if (m.method? d.name.name).isSome then do
        report (.duplicateMethod d.name.name m.cls.name d.name.span)
        return m
      else return { m with methods := m.methods ++ [⟨d, s.1, s.2⟩] }) := by
    unfold declareMethod ClassMembers.addMethod? signatureOf
    simp only [bind_assoc, pure_bind]
    congr
    funext params
    congr
    funext type
    split_ifs <;> rfl
  rw [heq]
  constructor
  · intro h
    rw [silent_bind] at h
    obtain ⟨hds, hr, hrec, hg⟩ := hsound h.1
    by_cases hn : (m.method? d.name.name).isSome
    · have h := h.2
      simp [hn] at h
    · rw [Bool.not_eq_true] at hn
      have hknown : SignatureKnown p d := by
        refine ⟨fun x hx => ?_, hr.known⟩
        obtain ⟨T, _, hT⟩ := hrec.1 x hx
        exact hT.known
      refine ⟨hname.1 hn, hknown, ?_, ?_, ?_⟩ <;>
        simp only [hn, Bool.false_eq_true, if_false, after_bind, value_bind, after_pure, value_pure]
      · refine ⟨hc, hfields.imp fun _ _ hx => hx.mono hg.arrays,
          List.rel_append (hmethods.imp fun _ _ hx => hx.mono hg.arrays) ?_⟩
        exact .cons ⟨rfl, hds, hr⟩ .nil
      · exact hrec
      · exact hg
  · intro hnew hk
    simp [hname.2 hnew, hcomplete hk]

/-- What is right with the members that a class declares. -/
structure MembersRight (p : Program) (c : ClassDecl) : Prop where
  fieldNames : (c.fields.map (·.name.name)).Nodup
  methodNames : (c.methods.map (·.name.name)).Nodup
  fieldTypes : ∀ x ∈ c.fields, x.plain.Known p
  signatures : ∀ m ∈ c.methods, SignatureKnown p m

/-- What is noted of the members that a class declares. -/
structure MembersRecorded (p : Program) (a : ArrayTypes) (n : Notes) (c : ClassDecl) : Prop where
  fields : ∀ x ∈ c.fields, x.type.Recorded a n p
  methods : ∀ m ∈ c.methods, SignatureRecorded p a n m

theorem declareMembers_spec {c : ClassRef} (hc : c.Faithful p) (hf : f.Sound p) :
    (Silent (declareMembers classes c (p.classDecl c)) f → MembersRight p (p.classDecl c) ∧
      ((declareMembers classes c (p.classDecl c)).value f).cls = c ∧
      ((declareMembers classes c (p.classDecl c)).value f).Stands p
        ((declareMembers classes c (p.classDecl c)).after f).arrays (p.classDecl c) ∧
      MembersRecorded p ((declareMembers classes c (p.classDecl c)).after f).arrays
        ((declareMembers classes c (p.classDecl c)).after f).notes (p.classDecl c) ∧
      f.Grows p [] ((declareMembers classes c (p.classDecl c)).after f)) ∧
    (MembersRight p (p.classDecl c) →
      Silent (declareMembers classes c (p.classDecl c)) f) := by
  have hfieldTypes : ∀ x ∈ (p.classDecl c).fields, x.type ∈ p.typeExprs := fun x hx =>
    Program.mem_typeExprs_of_class hc.mem (List.mem_append_left _ (List.mem_map_of_mem hx))
  have hmethodTypes : ∀ m ∈ (p.classDecl c).methods, ∀ t ∈ m.written, t ∈ p.typeExprs :=
    fun m hm t ht => Program.mem_typeExprs_of_class hc.mem
      (List.mem_append_right _ (List.mem_flatMap.2 ⟨m, hm, ht⟩))
  have hfields := foldlM_spec (p := p) (fun x : VarDecl => x.name.name) (FieldsDeclared p c)
    (fun d => d.plain.Known p) (fun a n d => d.type.Recorded a n p)
    (g := declareField classes) (fun _ _ _ hg h => h.mono hg.arrays hg.typeExprs)
    (fun d hd _ _ _ hf hm => declares_field hh hclasses hp (hfieldTypes d hd) hf hm)
    (s := { cls := c }) [] hf ⟨rfl, rfl, .nil⟩ List.nodup_nil
  obtain ⟨hsound, hcomplete⟩ := hfields
  rw [List.nil_append] at hsound hcomplete
  have hmethods := fun h => foldlM_spec (p := p) (fun m : FunctionDecl => m.name.name)
    (MethodsDeclared p c (p.classDecl c).fields) (SignatureKnown p) (SignatureRecorded p)
    (g := declareMethod classes) (fun _ _ _ hg h => h.grow hg)
    (fun d hd _ _ _ hf hm => declares_method hh hclasses hp
      (fun x hx => hmethodTypes d hd _
        (List.mem_cons_of_mem _ (List.mem_append_left _ (List.mem_map_of_mem hx))))
      (hmethodTypes d hd _ List.mem_cons_self) hf hm)
    [] ((hsound h).2.2.2.2.sound hf)
    ⟨(hsound h).2.2.1.1, (hsound h).2.2.1.2.2, by rw [(hsound h).2.2.1.2.1]; exact .nil⟩
    List.nodup_nil
  rw [declareMembers, silent_bind]
  simp only [after_bind, value_bind]
  constructor
  · rintro ⟨h, h'⟩
    obtain ⟨hnames, hok, _, hrec, hg⟩ := hsound h
    obtain ⟨hnames', hok', ⟨hcls, hfs, hms⟩, hrec', hg'⟩ := (hmethods h).1 h'
    refine ⟨⟨hnames, hnames', hok, hok'⟩, hcls, ⟨hfs, hms⟩, ⟨fun x hx => ?_, hrec'⟩, hg.trans hg'⟩
    exact (hrec x hx).mono hg'.arrays hg'.typeExprs
  · rintro ⟨hnames, hnames', hok, hok'⟩
    have h := hcomplete hnames hok
    exact ⟨h, (hmethods h).2 hnames' hok'⟩

/-- The classes with their members, silently declared one after the other. -/
theorem declareAll_spec {cs : List ClassRef} (hcs : ∀ c ∈ cs, c.Faithful p) :
    ∀ {f : Findings}, f.Sound p →
      (Silent (cs.mapM fun c => declareMembers classes c (p.classDecl c)) f →
        (∀ c ∈ cs, MembersRight p (p.classDecl c)) ∧
        List.Forall₂ (fun m c => m.cls = c ∧ m.Stands p
            (Check.after (cs.mapM fun c => declareMembers classes c (p.classDecl c)) f).arrays
            (p.classDecl c))
          (Check.value (cs.mapM fun c => declareMembers classes c (p.classDecl c)) f) cs ∧
        (∀ c ∈ cs, MembersRecorded p
          (Check.after (cs.mapM fun c => declareMembers classes c (p.classDecl c)) f).arrays
          (Check.after (cs.mapM fun c => declareMembers classes c (p.classDecl c)) f).notes
          (p.classDecl c)) ∧
        f.Grows p [] (Check.after (cs.mapM fun c => declareMembers classes c (p.classDecl c)) f)) ∧
      ((∀ c ∈ cs, MembersRight p (p.classDecl c)) →
        Silent (cs.mapM fun c => declareMembers classes c (p.classDecl c)) f) := by
  induction cs with
  | nil => exact fun _ => ⟨fun _ => ⟨by simp, .nil, by simp, .rfl⟩, fun _ => rfl⟩
  | cons c cs ih =>
      intro f hf
      rw [List.forall_mem_cons] at hcs
      obtain ⟨hsound, hcomplete⟩ := declareMembers_spec hh hclasses hp hcs.1 hf
      have hrest := fun h => ih hcs.2 ((hsound h).2.2.2.2.sound hf)
      rw [List.mapM_cons]
      simp only [silent_bind, silent_pure, and_true, after_bind, value_bind, after_pure, value_pure]
      constructor
      · rintro ⟨h, h'⟩
        obtain ⟨hright, hcls, hstands, hrec, hg⟩ := hsound h
        obtain ⟨hrights, hall, hrecs, hgs⟩ := (hrest h).1 h'
        refine ⟨List.forall_mem_cons.2 ⟨hright, hrights⟩,
          .cons ⟨hcls, hstands.mono hgs.arrays⟩ hall,
          List.forall_mem_cons.2 ⟨?_, hrecs⟩, hg.trans hgs⟩
        exact ⟨fun x hx => (hrec.fields x hx).mono hgs.arrays hgs.typeExprs,
          fun m hm => (hrec.methods m hm).grow hgs⟩
      · intro hright
        rw [List.forall_mem_cons] at hright
        have h := hcomplete hright.1
        exact ⟨h, (hrest h).2 hright.2⟩

end

/-- A table of the members of all classes stands for them. -/
theorem memberTable_stands (hh : p.Hierarchy) {ms : List ClassMembers} {a : ArrayTypes}
    (hms : List.Forall₂ (fun m c => m.cls = c ∧ m.Stands p a (p.classDecl c)) ms
      (ClassTable.build p.classes).1.classes) : MemberTable.Stands p a ⟨ms⟩ := by
  intro c hc
  have hfind : (ClassTable.build p.classes).1.find? c.name = some c :=
    (ClassTable.find?_build hh).2 ⟨hc, rfl⟩
  have hrel : Option.Rel _ (MemberTable.of? ⟨ms⟩ c) ((ClassTable.build p.classes).1.find? c.name) :=
    rel_find? (fun m d hm => by rw [hm.1, ClassRef.same]) hms
  rw [hfind] at hrel
  generalize MemberTable.of? ⟨ms⟩ c = found at hrel ⊢
  cases hrel with
  | some h => exact ⟨_, rfl, h.2⟩

end Check

/-- Types that are subtypes of each other are the same. -/
theorem Program.Subtype.antisymm (hh : p.Hierarchy) {t u : PlainType} (htu : p.Subtype t u)
    (hut : p.Subtype u t) : t = u := by
  cases htu with
  | refl => rfl
  | nullArray => cases hut
  | nullObject => cases hut
  | @object c d hcd =>
      have hdc : p.Below d c := by
        cases hut with
        | refl => exact .refl
        | object h => exact h
      rcases Relation.reflTransGen_iff_eq_or_transGen.1 hcd with heq | htrans
      · rw [heq]
      · exact (hh.acyclic c (htrans.trans_left hdc)).elim

theorem isEquivalent_iff (hh : p.Hierarchy) {a : ArrayTypes} (ha : a.Canonical p)
    {T U : ValueType} {t u : PlainType} (hT : T.Denotes p a t) (hU : U.Denotes p a u) :
    T.isEquivalent U = true ↔ t = u := by
  rw [ValueType.isEquivalent, Bool.and_eq_true, hT.isSubtype_iff hh ha hU,
    hU.isSubtype_iff hh ha hT]
  constructor
  · rintro ⟨h, h'⟩
    exact h.antisymm hh h'
  · rintro rfl
    exact ⟨.refl t, .refl t⟩

/-- Nothing is reported of the types of parameters exactly if they are the same. -/
theorem changed_eq_nil (hh : p.Hierarchy) {a : ArrayTypes} (ha : a.Canonical p)
    {Ts Us : List ValueType} {ds es : List VarDecl} (hT : DenoteAll p a Ts ds)
    (hU : DenoteAll p a Us es) (hl : Ts.length = Us.length) :
    ((ds.zip (Ts.zip Us)).filter fun (_, T, U) => !T.isEquivalent U) = [] ↔
      ds.map VarDecl.plain = es.map VarDecl.plain := by
  induction hT generalizing Us es with
  | nil =>
      cases hU with
      | nil => simp
      | cons => simp at hl
  | cons hd hds ih =>
      cases hU with
      | nil => simp at hl
      | cons he hes =>
          have ih := ih hes (by simpa using hl)
          have hiff := isEquivalent_iff hh ha hd he
          simp only [List.zip_cons_cons, List.map_cons, List.cons.injEq, ← ih, ← hiff]
          rw [List.filter_cons]
          split_ifs with h
          · simp_all
          · simp_all

theorem overrideDiagnostics_eq_nil (hh : p.Hierarchy) {a : ArrayTypes} (ha : a.Canonical p)
    {m n : TypedMethod} {d e : FunctionDecl} (hm : m.Stands p a d) (hn : n.Stands p a e) :
    overrideDiagnostics m n = [] ↔ d.Overrides p e := by
  have hlm := hm.params.length_eq
  have hln := hn.params.length_eq
  rw [overrideDiagnostics]
  by_cases hl : m.params.length = n.params.length
  · have hchanged := changed_eq_nil hh ha hm.params hn.params hl
    have hsub := hm.returnType.isSubtype_iff hh ha hn.returnType
    simp only [hl, if_true, List.append_eq_nil_iff, List.map_eq_nil_iff]
    rw [hm.decl, hchanged]
    constructor
    · rintro ⟨hp, hr⟩
      refine ⟨hp, hsub.1 ?_⟩
      by_contra h
      simp [h] at hr
    · rintro ⟨hp, hr⟩
      exact ⟨hp, by simp [hsub.2 hr]⟩
  · simp only [hl, if_false, List.cons_ne_nil, false_iff]
    rintro ⟨hp, _⟩
    have := congrArg List.length hp
    simp only [List.length_map] at this
    omega

/-- All entries of related lists have related properties. -/
theorem forall_mem_iff {α β : Type} {R : α → β → Prop} {P : α → Prop} {Q : β → Prop}
    (hPQ : ∀ x y, R x y → (P x ↔ Q y)) {xs : List α} {ys : List β} (h : List.Forall₂ R xs ys) :
    (∀ x ∈ xs, P x) ↔ ∀ y ∈ ys, Q y := by
  induction h with
  | nil => simp
  | cons hxy _ ih => rw [List.forall_mem_cons, List.forall_mem_cons, ih, hPQ _ _ hxy]

/-- Nothing is reported of the overriding in a class exactly if each of its methods can stand in
for the nearest one of its name further up. -/
theorem classOverrides_eq_nil (hh : p.Hierarchy) {a : ArrayTypes} (ha : a.Canonical p)
    {t : MemberTable} (ht : t.Stands p a) {c : ClassRef} (hc : c.Faithful p) :
    classOverrides t c = [] ↔ ∀ f ∈ (p.classDecl c).methods, ∀ s,
      (p.classDecl c).superclass = some s → ∀ owner g,
        p.method? s.name f.name.name = some (owner, g) → f.Overrides p g := by
  obtain ⟨m, hm, hs⟩ := ht c hc
  have hsuper := hc.superclass
  rw [classOverrides, hm]
  cases hd : c.superclass? with
  | none =>
      rw [hd, Option.map_none, Option.map_eq_none_iff] at hsuper
      simp [hsuper]
  | some d =>
      rw [hd] at hsuper
      obtain ⟨s, hs', hn⟩ := Option.map_eq_some_iff.1 hsuper
      have hdf := hc.of_superclass hd
      simp only [List.flatMap_eq_nil_iff, hs', Option.some.injEq, forall_eq']
      refine forall_mem_iff (fun x y hxy => ?_) hs.methods
      have hfound := ht.rel_method? hh hdf y.name.name
      rw [hxy.decl, hn]
      generalize t.method? d y.name.name = found, p.method? d.name y.name.name = found' at hfound ⊢
      cases hfound with
      | none => simp
      | @some found found' h =>
          rw [overrideDiagnostics_eq_nil hh ha hxy h.2.2]
          constructor
          · rintro h owner g ⟨⟩
            exact h
          · exact fun h => h found'.1 found'.2 rfl

end ObjectLang
