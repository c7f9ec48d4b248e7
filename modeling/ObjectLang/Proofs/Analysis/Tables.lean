import Mathlib.Data.List.Forall2
import Mathlib.Data.Option.Basic
import Mathlib.Tactic
import ObjectLang.Analysis.Basic
import ObjectLang.Proofs.Analysis.Hierarchy
import ObjectLang.Proofs.Analysis.Recorded
import ObjectLang.Proofs.Typing.Denotation

/-!
# What the tables of the analysis stand for

The tables that bodies are checked against stand for the declarations of the program: each class has
its members with what their types mean, and the variables of a scope are those of the place. So
looking up a name in a table finds what the rules find in the tree.
-/
namespace ObjectLang

variable {p : Program} {a b : ArrayTypes}

/-- A variable of the analysis is a declared one with what its type means. -/
structure TypedVar.Stands (p : Program) (a : ArrayTypes) (v : TypedVar) (d : VarDecl) : Prop where
  decl : v.decl = d
  type : v.type.Denotes p a d.plain

/-- Types of the analysis are what the types of some declarations mean. -/
def DenoteAll (p : Program) (a : ArrayTypes) (Ts : List ValueType) (ds : List VarDecl) : Prop :=
  List.Forall₂ (fun T d => T.Denotes p a d.plain) Ts ds

/-- A method of the analysis is a declared one with what its signature means. -/
structure TypedMethod.Stands (p : Program) (a : ArrayTypes) (m : TypedMethod) (d : FunctionDecl) :
    Prop where
  decl : m.decl = d
  params : DenoteAll p a m.params d.params
  returnType : m.returnType.Denotes p a d.returnType.plain

/-- The members of a class are those that it declares. -/
structure ClassMembers.Stands (p : Program) (a : ArrayTypes) (m : ClassMembers) (c : ClassDecl) :
    Prop where
  fields : List.Forall₂ (TypedVar.Stands p a) m.fields c.fields
  methods : List.Forall₂ (TypedMethod.Stands p a) m.methods c.methods

/-- The members of all classes are those that they declare. -/
def MemberTable.Stands (p : Program) (a : ArrayTypes) (t : MemberTable) : Prop :=
  ∀ c : ClassRef, c.Faithful p → ∃ m, t.of? c = some m ∧ m.Stands p a (p.classDecl c)

theorem TypedVar.Stands.mono {v : TypedVar} {d : VarDecl} (hab : a.Within b)
    (h : v.Stands p a d) : v.Stands p b d :=
  ⟨h.decl, h.type.mono hab⟩

theorem DenoteAll.mono {Ts : List ValueType} {ds : List VarDecl} (hab : a.Within b)
    (h : DenoteAll p a Ts ds) : DenoteAll p b Ts ds :=
  List.Forall₂.imp (fun _ _ hd => hd.mono hab) h

theorem TypedMethod.Stands.mono {m : TypedMethod} {d : FunctionDecl} (hab : a.Within b)
    (h : m.Stands p a d) : m.Stands p b d :=
  ⟨h.decl, h.params.mono hab, h.returnType.mono hab⟩

theorem ClassMembers.Stands.mono {m : ClassMembers} {c : ClassDecl} (hab : a.Within b)
    (h : m.Stands p a c) : m.Stands p b c :=
  ⟨h.fields.imp fun _ _ hv => hv.mono hab, h.methods.imp fun _ _ hm => hm.mono hab⟩

theorem MemberTable.Stands.mono {t : MemberTable} (hab : a.Within b) (h : t.Stands p a) :
    t.Stands p b := by
  intro c hc
  obtain ⟨m, hm, hs⟩ := h c hc
  exact ⟨m, hm, hs.mono hab⟩

/-- The types of some declarations are silently looked at exactly if all classes in them are
declared. -/
theorem Check.checkTypes_spec (hh : p.Hierarchy) {classes : ClassTable}
    (hclasses : classes = (ClassTable.build p.classes).1) (hp : p.ids.Nodup) {ds : List VarDecl}
    (hds : ∀ d ∈ ds, d.type ∈ p.typeExprs) : ∀ {f : Findings}, f.Sound p →
      (Check.Silent (ds.mapM fun d => checkType classes d.type) f →
        DenoteAll p (Check.after (ds.mapM fun d => checkType classes d.type) f).arrays
          (Check.value (ds.mapM fun d => checkType classes d.type) f) ds ∧
        (∀ d ∈ ds, ∃ T, (Check.after (ds.mapM fun d => checkType classes d.type) f).notes.typeExpr?
          d.type.id = some T) ∧
        f.Grows p [] (Check.after (ds.mapM fun d => checkType classes d.type) f)) ∧
      ((∀ d ∈ ds, d.plain.Known p) →
        Check.Silent (ds.mapM fun d => checkType classes d.type) f) := by
  induction ds with
  | nil => exact fun _ => ⟨fun _ => ⟨.nil, by simp, .rfl⟩, fun _ => rfl⟩
  | cons d ds ih =>
      intro f hf
      rw [List.forall_mem_cons] at hds
      have hhead := Check.checkType_spec hh hclasses hp hds.1 hf
      have htail := fun h => ih hds.2 ((hhead.1 h).grows.sound hf)
      have hsilent : Check.Silent ((d :: ds).mapM fun d => checkType classes d.type) f ↔
          Check.Silent (checkType classes d.type) f ∧
            Check.Silent (ds.mapM fun d => checkType classes d.type)
              ((checkType classes d.type).after f) := by
        simp only [List.mapM_cons, Check.silent_bind, Check.silent_pure, and_true]
      rw [hsilent, List.mapM_cons]
      simp only [Check.after_bind, Check.value_bind, Check.after_pure, Check.value_pure]
      constructor
      · rintro ⟨h, h'⟩
        have hd := hhead.1 h
        obtain ⟨hds, hnoted, hg⟩ := (htail h).1 h'
        refine ⟨.cons (hd.denotes.mono hg.arrays) hds, ?_, hd.grows.trans hg⟩
        exact List.forall_mem_cons.2 ⟨⟨_, hg.typeExprs _ _ hd.noted⟩, hnoted⟩
      · intro hknown
        rw [List.forall_mem_cons] at hknown
        have h := hhead.2 hknown.1
        exact ⟨h, (htail h).2 hknown.2⟩

/-- All types in the signature of a function are known. -/
def SignatureKnown (p : Program) (d : FunctionDecl) : Prop :=
  (∀ x ∈ d.params, x.plain.Known p) ∧ d.returnType.plain.Known p

/-- The signature of a function is noted. -/
def SignatureRecorded (p : Program) (a : ArrayTypes) (n : Notes) (d : FunctionDecl) : Prop :=
  (∀ x ∈ d.params, x.type.Recorded a n p) ∧ d.returnType.Recorded a n p

theorem SignatureRecorded.grow {f g : Findings} {ids : List Nat} {d : FunctionDecl}
    (hfg : f.Grows p ids g) (h : SignatureRecorded p f.arrays f.notes d) :
    SignatureRecorded p g.arrays g.notes d :=
  ⟨fun x hx => (h.1 x hx).mono hfg.arrays hfg.typeExprs, h.2.mono hfg.arrays hfg.typeExprs⟩

/-- The types in a signature are silently looked at exactly if they are known. -/
theorem Check.signatureOf_spec (hh : p.Hierarchy) {classes : ClassTable}
    (hclasses : classes = (ClassTable.build p.classes).1) (hp : p.ids.Nodup) {d : FunctionDecl}
    (hparams : ∀ x ∈ d.params, x.type ∈ p.typeExprs) (hreturn : d.returnType ∈ p.typeExprs)
    {f : Findings} (hf : f.Sound p) :
    (Check.Silent (signatureOf classes d) f →
      DenoteAll p ((signatureOf classes d).after f).arrays ((signatureOf classes d).value f).1
        d.params ∧
      ((signatureOf classes d).value f).2.Denotes p ((signatureOf classes d).after f).arrays
        d.returnType.plain ∧
      SignatureRecorded p ((signatureOf classes d).after f).arrays
        ((signatureOf classes d).after f).notes d ∧
      f.Grows p [] ((signatureOf classes d).after f)) ∧
    (SignatureKnown p d → Check.Silent (signatureOf classes d) f) := by
  obtain ⟨hsound, hcomplete⟩ := checkTypes_spec hh hclasses hp hparams hf
  have hrest := fun h => checkType_spec hh hclasses hp hreturn ((hsound h).2.2.sound hf)
  simp only [signatureOf, silent_bind, silent_pure, and_true, after_bind, value_bind, after_pure,
    value_pure]
  constructor
  · rintro ⟨h, h'⟩
    obtain ⟨hds, hnoted, hg⟩ := hsound h
    have hr := (hrest h).1 h'
    refine ⟨hds.mono hr.grows.arrays, hr.denotes, ⟨fun x hx => ?_, ?_⟩, hg.trans hr.grows⟩
    · obtain ⟨T, hT⟩ := hnoted x hx
      exact ⟨T, hr.grows.typeExprs _ _ hT,
        (hr.grows.sound (hg.sound hf)).typeExprs _ (hparams x hx) _ (hr.grows.typeExprs _ _ hT)⟩
    · exact ⟨_, hr.noted, hr.denotes⟩
  · rintro ⟨hk, hk'⟩
    exact ⟨hcomplete hk, (hrest (hcomplete hk)).2 hk'⟩

/-- Looking for the first entry with a property finds related entries in related lists. -/
theorem rel_find? {α β : Type} {R : α → β → Prop} {q : α → Bool} {r : β → Bool}
    (hqr : ∀ x y, R x y → q x = r y) {xs : List α} {ys : List β} (h : List.Forall₂ R xs ys) :
    Option.Rel R (xs.find? q) (ys.find? r) := by
  induction h with
  | nil => exact .none
  | cons hxy _ ih =>
      rw [List.find?_cons, List.find?_cons, hqr _ _ hxy]
      split
      · exact .some hxy
      · exact ih

theorem ClassMembers.Stands.rel_field? {m : ClassMembers} {c : ClassDecl} (h : m.Stands p a c)
    (name : String) : Option.Rel (TypedVar.Stands p a) (m.field? name) (c.field? name) :=
  rel_find? (fun _ _ hv => by rw [hv.decl]) h.fields

theorem ClassMembers.Stands.rel_method? {m : ClassMembers} {c : ClassDecl} (h : m.Stands p a c)
    (name : String) : Option.Rel (TypedMethod.Stands p a) (m.method? name) (c.method? name) :=
  rel_find? (fun _ _ hm => by rw [hm.decl]) h.methods

/-- A member with its class, found in a table and in the tree. -/
def Owned {α β : Type} (p : Program) (R : α → β → Prop) (x : ClassRef × α) (y : ClassDecl × β) :
    Prop :=
  x.1.Faithful p ∧ p.classDecl x.1 = y.1 ∧ R x.2 y.2

/-- Looking upwards for a member finds the same class in a table and in the tree. -/
theorem rel_findSome? {α β : Type} {R : α → β → Prop} {look : ClassRef → Option α}
    {look' : ClassDecl → Option β}
    (hlook : ∀ c : ClassRef, c.Faithful p → Option.Rel R (look c) (look' (p.classDecl c)))
    {cs : List ClassRef} (hcs : ∀ c ∈ cs, c.Faithful p) :
    Option.Rel (Owned p R) (cs.findSome? fun c => (look c).map fun x => (c, x))
      ((cs.map p.classDecl).findSome? fun c => (look' c).map fun y => (c, y)) := by
  induction cs with
  | nil => exact .none
  | cons c cs ih =>
      have hc := hcs c List.mem_cons_self
      have ih := ih fun d hd => hcs d (List.mem_cons_of_mem c hd)
      rw [List.map_cons, List.findSome?_cons, List.findSome?_cons]
      have hfound := hlook c hc
      generalize look c = x, look' (p.classDecl c) = y at hfound ⊢
      cases hfound with
      | some hxy => exact .some ⟨hc, rfl, hxy⟩
      | none => exact ih

theorem MemberTable.Stands.rel_field? (hh : p.Hierarchy) {t : MemberTable} (h : t.Stands p a)
    {c : ClassRef} (hc : c.Faithful p) (name : String) :
    Option.Rel (Owned p (TypedVar.Stands p a)) (t.field? c name) (p.field? c.name name) := by
  rw [Program.field?, hc.lineage hh, MemberTable.field?]
  refine rel_findSome? (fun d hd => ?_) fun d hd => hc.of_mem_ancestors hd
  obtain ⟨m, hm, hs⟩ := h d hd
  rw [hm]
  exact hs.rel_field? name

theorem MemberTable.Stands.rel_method? (hh : p.Hierarchy) {t : MemberTable} (h : t.Stands p a)
    {c : ClassRef} (hc : c.Faithful p) (name : String) :
    Option.Rel (Owned p (TypedMethod.Stands p a)) (t.method? c name) (p.method? c.name name) := by
  rw [Program.method?, hc.lineage hh, MemberTable.method?]
  refine rel_findSome? (fun d hd => ?_) fun d hd => hc.of_mem_ancestors hd
  obtain ⟨m, hm, hs⟩ := h d hd
  rw [hm]
  exact hs.rel_method? name

/-- The surroundings of a body and its variables are those of a place. -/
structure Surroundings.Stands (env : Surroundings) (a : ArrayTypes) (Γ : Context) : Prop where
  classes : env.classes = (ClassTable.build Γ.program.classes).1
  functions : ∀ name, env.functions.find? name =
    if name = Γ.printName then some .print else (Γ.program.function? name).map .declared
  members : env.members.Stands Γ.program a
  current : Option.Rel (fun c name => c.Faithful Γ.program ∧ c.name = name) env.current Γ.current

def Scope.Stands (scope : Scope) (a : ArrayTypes) (Γ : Context) : Prop :=
  List.Forall₂ (TypedVar.Stands Γ.program a) scope.vars Γ.locals

theorem Surroundings.Stands.mono {env : Surroundings} {Γ : Context} (hab : a.Within b)
    (h : env.Stands a Γ) : env.Stands b Γ :=
  ⟨h.classes, h.functions, h.members.mono hab, h.current⟩

theorem Scope.Stands.mono {scope : Scope} {Γ : Context} (hab : a.Within b)
    (h : scope.Stands a Γ) : scope.Stands b Γ :=
  List.Forall₂.imp (fun _ _ hv => hv.mono hab) h

theorem Scope.Stands.rel_find? {scope : Scope} {Γ : Context} (h : scope.Stands a Γ)
    (name : String) :
    Option.Rel (TypedVar.Stands Γ.program a) (scope.find? name) (Γ.local? name) :=
  ObjectLang.rel_find? (fun _ _ hv => by rw [hv.decl]) h

theorem Scope.Stands.declare {scope : Scope} {Γ : Context} (h : scope.Stands a Γ) {d : VarDecl}
    {T : ValueType} (hT : T.Denotes Γ.program a d.plain) :
    (scope.declare d T).Stands a (Γ.declare d) :=
  .cons ⟨rfl, hT⟩ h

end ObjectLang
