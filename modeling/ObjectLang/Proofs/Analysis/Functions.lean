import ObjectLang.Proofs.Analysis.Declarations
import ObjectLang.Proofs.Analysis.Statements

/-!
# Functions are checked by the rules

A function is silently checked exactly if its signature and its body keep the rules. The functions
of a program and the methods of its classes are checked one after the other, and what is noted of
each of them stays.
-/
namespace ObjectLang

namespace Check

open Findings

variable {Γ : Context} {env : Surroundings} {f : Findings}

/-- A function can be checked, as one of a place without variables. -/
structure ReadyFor (Γ : Context) (env : Surroundings) (f : Findings) : Prop where
  sound : f.Sound Γ.program
  env : env.Stands f.arrays Γ

theorem ReadyFor.grow {ids : List Nat} {g : Findings} (h : ReadyFor Γ env f)
    (hfg : f.Grows Γ.program ids g) : ReadyFor Γ env g :=
  ⟨hfg.sound h.sound, h.env.mono hfg.arrays⟩

/-- The rules that a function keeps, apart from those on returning. -/
structure FunctionTyped (Γ : Context) (d : FunctionDecl) : Prop where
  signature : SignatureKnown Γ.program d
  paramNames : (d.params.map (·.name.name)).Nodup
  body : BodyWellTyped d.returnType.plain { Γ with locals := d.params.reverse } d.body

/-- A check is silent exactly if something is right, and then it is noted. -/
structure Checks (p : Program) (right : Prop) (recorded : ArrayTypes → Notes → Prop)
    (ids : List Nat) (m : Check Unit) (f : Findings) : Prop where
  sound : Silent m f → right ∧ recorded (m.after f).arrays (m.after f).notes ∧
    f.Grows p ids (m.after f)
  complete : SignaturesKnown p → right → Silent m f

/-- The scope holds the first parameters. -/
def ParamsDeclared (Γ : Context) (name : String) (returnType : ValueType) (a : ArrayTypes)
    (scope : Scope) (params : List VarDecl) : Prop :=
  scope.function = name ∧ scope.returnType = returnType ∧
    scope.Stands a { Γ with locals := params.reverse }

theorem declares_param (hh : Γ.program.Hierarchy) (hp : Γ.program.ids.Nodup)
    (hclasses : env.classes = (ClassTable.build Γ.program.classes).1) {name : String}
    {returnType : ValueType} {scope : Scope} {earlier : List VarDecl} {d : VarDecl}
    (hd : d.type ∈ Γ.program.typeExprs) (hf : f.Sound Γ.program)
    (hscope : ParamsDeclared Γ name returnType f.arrays scope earlier) :
    Declares Γ.program (·.name.name) (ParamsDeclared Γ name returnType)
      (fun d => d.plain.Known Γ.program) (fun a n d => d.type.Recorded a n Γ.program) earlier d
      (do
        require (scope.find? d.name.name).isNone (.duplicateParameter d.name.name d.name.span)
        return scope.declare d (← checkType env.classes d.type)) f := by
  obtain ⟨hname, hreturn, hstands⟩ := hscope
  have hfree : (scope.find? d.name.name).isNone = true ↔
      ∀ x ∈ earlier, x.name.name ≠ d.name.name := by
    have h := isSome_find?_iff (fun x : TypedVar => x.decl.name.name)
      (fun x : VarDecl => x.name.name) (fun _ _ hx => by rw [hx.decl]) hstands d.name.name
    simpa [Scope.find?] using h
  obtain ⟨hsound, hcomplete⟩ := checkType_spec hh hclasses hp hd hf
  constructor
  · intro h
    rw [silent_bind, silent_require] at h
    obtain ⟨hnone, h⟩ := h
    rw [after_require, if_pos hnone] at h
    have ht := hsound (by simpa using h)
    refine ⟨hfree.1 hnone, ht.denotes.known, ?_, ?_, ?_⟩ <;>
      simp only [after_bind, value_bind, after_pure, value_pure, after_require, hnone, if_true]
    · refine ⟨hname, hreturn, ?_⟩
      have hmono := hstands.mono ht.grows.arrays
      rw [Scope.Stands, List.reverse_append]
      exact .cons ⟨rfl, ht.denotes⟩ hmono
    · exact ⟨_, ht.noted, ht.denotes⟩
    · exact ht.grows
  · intro hnew hk
    have hnone := hfree.2 hnew
    simp [silent_bind, hnone, hcomplete hk]

/-- The parameters of a function are silently declared exactly if they have different names and
known types. -/
theorem declareParameters_spec (hh : Γ.program.Hierarchy) (hp : Γ.program.ids.Nodup)
    (hf : ReadyFor Γ env f) {params : List VarDecl}
    (hparams : ∀ x ∈ params, x.type ∈ Γ.program.typeExprs) (name : String)
    (returnType : ValueType) :
    (Silent (declareParameters env ⟨name, returnType, []⟩ params) f →
      (params.map (·.name.name)).Nodup ∧ (∀ x ∈ params, x.plain.Known Γ.program) ∧
      ParamsDeclared Γ name returnType
        ((declareParameters env ⟨name, returnType, []⟩ params).after f).arrays
        ((declareParameters env ⟨name, returnType, []⟩ params).value f) params ∧
      (∀ x ∈ params, x.type.Recorded
        ((declareParameters env ⟨name, returnType, []⟩ params).after f).arrays
        ((declareParameters env ⟨name, returnType, []⟩ params).after f).notes Γ.program) ∧
      f.Grows Γ.program [] ((declareParameters env ⟨name, returnType, []⟩ params).after f)) ∧
    ((params.map (·.name.name)).Nodup → (∀ x ∈ params, x.plain.Known Γ.program) →
      Silent (declareParameters env ⟨name, returnType, []⟩ params) f) :=
  foldlM_spec (p := Γ.program) (fun x : VarDecl => x.name.name) (ParamsDeclared Γ name returnType)
    (fun d => d.plain.Known Γ.program)
    (fun a n d => d.type.Recorded a n Γ.program)
    (fun _ _ _ hg h => h.mono hg.arrays hg.typeExprs)
    (fun x hx _ _ _ hf' hs => declares_param hh hp hf.env.classes (hparams x hx) hf' hs)
    (s := ⟨name, returnType, []⟩) [] hf.sound ⟨rfl, rfl, .nil⟩ List.nodup_nil

/-- A function is silently checked exactly if it keeps the rules, apart from those on returning. -/
theorem checkFunction_spec (hh : Γ.program.Hierarchy) (hp : Γ.program.ids.Nodup)
    {d : FunctionDecl} (hids : d.ids.Nodup) (hw : ∀ t ∈ d.written, t ∈ Γ.program.typeExprs)
    (hf : ReadyFor Γ env f) :
    Checks Γ.program (FunctionTyped Γ d) (fun a n => d.Recorded a n Γ) d.ids
      (checkFunction env d) f := by
  rw [FunctionDecl.written, List.forall_mem_cons, List.forall_mem_append] at hw
  obtain ⟨hreturn, hparams, hbody⟩ := hw
  have hparams : ∀ x ∈ d.params, x.type ∈ Γ.program.typeExprs := fun x hx =>
    hparams _ (List.mem_map_of_mem hx)
  have hbodyIds : (idsOfBody d.body).Nodup := by
    rw [FunctionDecl.ids, List.nodup_cons, List.nodup_append', List.nodup_append'] at hids
    exact hids.2.2.1.2.1
  obtain ⟨hr, hr'⟩ := checkType_spec hh hf.env.classes hp hreturn hf.sound
  have hps := fun h => declareParameters_spec hh hp (hf.grow (hr h).grows) hparams d.name.name
    ((checkType env.classes d.returnType).value f)
  let Δ : Context := { Γ with locals := d.params.reverse }
  have hready {scope : Scope} {g : Findings} (hg : ReadyFor Γ env g)
      (hs : scope.Stands g.arrays Δ) : Ready Δ env scope g :=
    ⟨hg.sound, ⟨hg.env.classes, hg.env.functions, hg.env.members, hg.env.current⟩, hs⟩
  have hspec : BodyDecided env d.returnType.plain d.body := decided_body hbodyIds
  have hstmts := fun h h' => by
    obtain ⟨_, _, ⟨_, hret, hstands⟩, _, hg⟩ := (hps h).1 h'
    refine hspec Δ _ _
      (hready ((hf.grow (hr h).grows).grow hg) hstands) ?_ hh hp hbody
    rw [hret]
    exact (hr h).denotes.mono hg.arrays
  rw [checkFunction]
  constructor
  · intro h
    simp only [silent_bind] at h
    obtain ⟨h, h', h''⟩ := h
    have hreturn := hr h
    obtain ⟨hnames, hknown, _, hrec, hg⟩ := (hps h).1 h'
    obtain ⟨ht, hbrec, hbg⟩ := (hstmts h h').1 h''
    have hrest := hg.trans hbg
    refine ⟨⟨⟨hknown, hreturn.denotes.known⟩, hnames, ht⟩, ⟨?_, fun x hx => ?_, hbrec⟩, ?_⟩
    · exact ⟨_, hrest.typeExprs _ _ hreturn.noted, hreturn.denotes.mono hrest.arrays⟩
    · exact (hrec x hx).mono hbg.arrays hbg.typeExprs
    · refine (hreturn.grows.trans hrest).mono fun id hid => ?_
      simp only [FunctionDecl.ids, List.mem_cons, List.mem_append]
      exact .inr (.inr (.inr hid))
  · rintro hk ⟨⟨hknown, hkr⟩, hnames, ht⟩
    have h := hr' hkr
    have h' := (hps h).2 hnames hknown
    simp only [silent_bind]
    exact ⟨h, h', (hstmts h h').2 hk ht⟩

/-- What is checked one after the other is checked as each part is. -/
theorem forM_spec {p : Program} {α : Type} {g : α → Check Unit} [∀ x, Adds (g x)]
    (right : α → Prop) (recorded : α → ArrayTypes → Notes → Prop) (ids : α → List Nat)
    (hrecorded : ∀ x (f h : Findings) is, f.Grows p is h → (ids x).Disjoint is →
      recorded x f.arrays f.notes → recorded x h.arrays h.notes)
    {ready : Findings → Prop} (hready : ∀ f h is, ready f → f.Grows p is h → ready h)
    {xs : List α} (hg : ∀ x ∈ xs, ∀ f, ready f → Checks p (right x) (recorded x) (ids x) (g x) f)
    (hids : (xs.flatMap ids).Nodup) : ∀ {f : Findings}, ready f →
      Checks p (∀ x ∈ xs, right x) (fun a n => ∀ x ∈ xs, recorded x a n) (xs.flatMap ids)
        (xs.forM g) f := by
  induction xs with
  | nil => exact fun _ => ⟨fun _ => ⟨by simp, by simp, .rfl⟩, fun _ _ => rfl⟩
  | cons x xs ih =>
      intro f hf
      rw [List.forall_mem_cons] at hg
      rw [List.flatMap_cons, List.nodup_append'] at hids
      obtain ⟨hsound, hcomplete⟩ := hg.1 f hf
      have hrest := fun h => ih hg.2 hids.2.1 (hready _ _ _ hf (hsound h).2.2)
      have hsilent : Silent ((x :: xs).forM g) f ↔
          Silent (g x) f ∧ Silent (xs.forM g) ((g x).after f) :=
        silent_bind (g x) (fun _ => xs.forM g) f
      constructor
      · intro h
        obtain ⟨h, h'⟩ := hsilent.1 h
        obtain ⟨hr, hrec, hgrow⟩ := hsound h
        obtain ⟨hrs, hrecs, hgrows⟩ := (hrest h).sound h'
        refine ⟨List.forall_mem_cons.2 ⟨hr, hrs⟩, List.forall_mem_cons.2 ⟨?_, hrecs⟩,
          hgrow.trans hgrows⟩
        exact hrecorded x _ _ _ hgrows hids.2.2 hrec
      · intro hk hright
        rw [List.forall_mem_cons] at hright
        have h := hcomplete hk hright.1
        exact hsilent.2 ⟨h, (hrest h).complete hk hright.2⟩

theorem recordedFunction_grow {d : FunctionDecl} {g : Findings} {is : List Nat}
    (hfg : f.Grows Γ.program is g) (hd : d.ids.Disjoint is)
    (h : d.Recorded f.arrays f.notes Γ) : d.Recorded g.arrays g.notes Γ := by
  refine ⟨h.returnType.mono hfg.arrays hfg.typeExprs,
    fun x hx => (h.params x hx).mono hfg.arrays hfg.typeExprs,
    h.body.mono hfg.arrays hfg.typeExprs fun id hid => hfg.same id fun hid' => ?_⟩
  refine hd ?_ hid'
  simp only [FunctionDecl.ids, List.mem_cons, List.mem_append]
  exact .inr (.inr (.inr hid))

/-- The functions of a place are silently checked exactly if all keep the rules. -/
theorem checkFunctions_spec (hh : Γ.program.Hierarchy) (hp : Γ.program.ids.Nodup)
    {ds : List FunctionDecl} (hids : (ds.flatMap FunctionDecl.ids).Nodup)
    (hw : ∀ d ∈ ds, ∀ t ∈ d.written, t ∈ Γ.program.typeExprs) (hf : ReadyFor Γ env f) :
    Checks Γ.program (∀ d ∈ ds, FunctionTyped Γ d) (fun a n => ∀ d ∈ ds, d.Recorded a n Γ)
      (ds.flatMap FunctionDecl.ids) (ds.forM (checkFunction env)) f := by
  refine forM_spec (FunctionTyped Γ) (fun d a n => d.Recorded a n Γ) FunctionDecl.ids
    (fun d _ _ _ hg hd h => recordedFunction_grow hg hd h) (fun _ _ _ h hg => ReadyFor.grow h hg)
    (fun d hd f hf => checkFunction_spec hh hp ?_ (hw d hd) hf) hids hf
  exact (List.nodup_flatMap.1 hids).1 d hd

end Check
end ObjectLang
