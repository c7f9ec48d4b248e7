import Mathlib.Tactic
import ObjectLang.Proofs.Analysis.Chains
import ObjectLang.Proofs.Analysis.Progress
import ObjectLang.Proofs.Analysis.Verdict

/-!
# Analysis follows verdicts

A part of the analysis follows a verdict if it finds what has the outline that the verdict says, and
reports just what the events of the verdict amount to. Of the types that were written, an undeclared
class is reported when the analysis first comes to it. What was known before has no other say in
what is found.
-/
namespace ObjectLang

/-- A written type without its brackets. -/
def TypeExpr.leaf : TypeExpr → TypeExpr
  | .int tag => .int tag
  | .bool tag => .bool tag
  | .named tag name => .named tag name
  | .array _ component => component.leaf

/-- The written types that some events came to, the latest first, before those known earlier. -/
def Event.known (known : List TypeExpr) : List Event → List TypeExpr
  | [] => known
  | .report _ :: events => Event.known known events
  | .resolve t :: events => Event.known (t :: known) events

namespace Setting

/-- What is wrong with a written type. -/
def undeclared (S : Setting) : TypeExpr → List Diagnostic
  | .int _ | .bool _ => []
  | .named _ name =>
    if S.declares name.name then [] else [.undeclaredClass name.name name.span]
  | .array _ component => S.undeclared component

/-- What is reported at some events, if some written types are known already. -/
def reports (S : Setting) (known : List TypeExpr) : List Event → List Diagnostic
  | [] => []
  | .report d :: events => d :: S.reports known events
  | .resolve t :: events =>
    (if known.any (·.leaf.id == t.leaf.id) then [] else S.undeclared t)
      ++ S.reports (t :: known) events

theorem reports_append (S : Setting) (known : List TypeExpr) (events events' : List Event) :
    S.reports known (events ++ events') =
      S.reports known events ++ S.reports (Event.known known events) events' := by
  induction events generalizing known with
  | nil => rfl
  | cons e events ih =>
      cases e with
      | report d => exact congrArg (d :: ·) (ih known)
      | resolve t => simp only [List.cons_append, reports, ih, List.append_assoc, Event.known]

end Setting

theorem Event.known_append (known : List TypeExpr) (events events' : List Event) :
    Event.known known (events ++ events') = Event.known (Event.known known events) events' := by
  induction events generalizing known with
  | nil => rfl
  | cons e events ih => cases e <;> exact ih _

theorem Event.mem_known {known : List TypeExpr} {events : List Event} {t : TypeExpr} :
    t ∈ Event.known known events ↔ t ∈ known ∨ .resolve t ∈ events := by
  induction events generalizing known with
  | nil => simp [Event.known]
  | cons e events ih =>
      cases e with
      | report d => simp [Event.known, ih]
      | resolve u => simp [Event.known, ih, or_assoc, or_left_comm]

/-- A value type of the analysis that has an outline. -/
structure ValueType.Matches (t : ClassTable) (a : ArrayTypes) (V : ValueType) (o : Outline) :
    Prop where
  belongs : V.Belongs t a
  outline : V.outline = o

/-- All that was noted of written types is as it should be, and the analysis came to those that are
known. -/
structure Findings.Knows (p : Program) (S : Setting) (known : List TypeExpr) (f : Findings) :
    Prop where
  arrays : f.arrays.Regular p.classTable
  meanings : ∀ t ∈ p.typeExprs, ∀ V, f.notes.typeExpr? t.id = some V →
    V.Matches p.classTable f.arrays (S.outline t) ∧ ∃ u ∈ known, u.leaf.id = t.leaf.id
  known : ∀ t ∈ known, (f.notes.typeExpr? t.id).isSome ∧ (f.notes.typeExpr? t.leaf.id).isSome

/-- What came to be known at some events. -/
structure Findings.Follows (p : Program) (S : Setting) (known : List TypeExpr)
    (events : List Event) (f g : Findings) : Prop where
  knows : g.Knows p S (Event.known known events)
  arrays : f.arrays.Within g.arrays
  diagnostics : g.diagnostics.toList = f.diagnostics.toList ++ S.reports known events

/-- A part of the analysis follows a verdict, where `a` are array types that there are already. -/
def Check.Follows {α β : Type} (p : Program) (S : Setting) (a : ArrayTypes) (m : Check α)
    (v : Verdict β) (R : ArrayTypes → α → β → Prop) : Prop :=
  ∀ (known : List TypeExpr) (f : Findings), f.Knows p S known → a.Within f.arrays →
    f.Follows p S known v.events (m.after f) ∧ R (m.after f).arrays (m.value f) v.value

variable {p : Program} {S : Setting} {a b : ArrayTypes}

theorem ValueType.Matches.mono {t : ClassTable} {V : ValueType} {o : Outline}
    (h : V.Matches t a o) (hab : a.Within b) : V.Matches t b o :=
  ⟨h.belongs.mono hab, h.outline⟩

theorem Program.leaf_mem_typeExprs {t : TypeExpr} (ht : t ∈ p.typeExprs) :
    t.leaf ∈ p.typeExprs := by
  induction t with
  | array tag c ih => exact ih (Program.mem_typeExprs_of_array ht)
  | _ => exact ht

theorem Findings.Knows.of_eq {known : List TypeExpr} {f g : Findings} (h : f.Knows p S known)
    (harrays : g.arrays = f.arrays)
    (hnotes : ∀ id, g.notes.typeExpr? id = f.notes.typeExpr? id) : g.Knows p S known := by
  refine ⟨harrays ▸ h.arrays, fun t ht V hV => ?_, fun t ht => ?_⟩
  · rw [hnotes] at hV
    rw [harrays]
    exact h.meanings t ht V hV
  · rw [hnotes, hnotes]
    exact h.known t ht

theorem Findings.Knows.drop {known : List TypeExpr} {f : Findings} {t u : TypeExpr}
    (h : f.Knows p S (t :: u :: known)) (hleaf : t.leaf.id = u.leaf.id) :
    f.Knows p S (t :: known) := by
  refine ⟨h.arrays, fun w hw V hV => ?_, fun w hw => h.known w ?_⟩
  · obtain ⟨hm, x, hx, hid⟩ := h.meanings w hw V hV
    refine ⟨hm, ?_⟩
    rcases List.mem_cons.1 hx with rfl | hx
    · exact ⟨x, List.mem_cons_self .., hid⟩
    · rcases List.mem_cons.1 hx with rfl | hx
      · exact ⟨t, List.mem_cons_self .., hleaf.trans hid⟩
      · exact ⟨x, List.mem_cons_of_mem _ hx, hid⟩
  · rcases List.mem_cons.1 hw with rfl | hw
    · exact List.mem_cons_self ..
    · exact List.mem_cons_of_mem _ (List.mem_cons_of_mem _ hw)

theorem Findings.Knows.any_eq_true {known : List TypeExpr} {f : Findings} {t : TypeExpr}
    {V : ValueType} (h : f.Knows p S known) (ht : t ∈ p.typeExprs)
    (hV : f.notes.typeExpr? t.id = some V) :
    (known.any (·.leaf.id == t.leaf.id)) = true := by
  obtain ⟨_, u, hu, hid⟩ := h.meanings t ht V hV
  exact List.any_eq_true.2 ⟨u, hu, by simp [hid]⟩

theorem Findings.Knows.any_eq_false {known : List TypeExpr} {f : Findings} {t : TypeExpr}
    (h : f.Knows p S known) (hleaf : t.leaf = t) (ht : f.notes.typeExpr? t.id = none) :
    (known.any (·.leaf.id == t.leaf.id)) = false := by
  rw [Bool.eq_false_iff]
  intro hany
  obtain ⟨u, hu, hid⟩ := List.any_eq_true.1 hany
  have hsome := (h.known u hu).2
  rw [beq_iff_eq.1 hid, hleaf, ht] at hsome
  exact Bool.noConfusion hsome

namespace Check

variable {α β γ δ : Type} {R : ArrayTypes → α → β → Prop} {Q : ArrayTypes → γ → δ → Prop}
  {m : Check α} {v : Verdict β}

theorem Follows.mono {R' : ArrayTypes → α → β → Prop} (h : Follows p S a m v R)
    (hR : ∀ b x y, a.Within b → b.Regular p.classTable → R b x y → R' b x y) :
    Follows p S a m v R' := by
  intro known f hf ha
  obtain ⟨hg, hx⟩ := h known f hf ha
  exact ⟨hg, hR _ _ _ (ha.trans hg.arrays) hg.knows.arrays hx⟩

theorem Follows.weaken (h : Follows p S a m v R) (hab : a.Within b) : Follows p S b m v R :=
  fun known f hf hb => h known f hf (hab.trans hb)

theorem follows_pure {x : α} {y : β}
    (h : ∀ b, a.Within b → b.Regular p.classTable → R b x y) :
    Follows p S a (pure x) (pure y) R := by
  intro known f hf ha
  exact ⟨⟨hf, .rfl, (List.append_nil _).symm⟩, h _ ha hf.arrays⟩

theorem Follows.bind {k : α → Check γ} {w : β → Verdict δ} (h : Follows p S a m v R)
    (hk : ∀ b x y, a.Within b → b.Regular p.classTable → R b x y →
      Follows p S b (k x) (w y) Q) : Follows p S a (m >>= k) (v >>= w) Q := by
  intro known f hf ha
  obtain ⟨hg, hx⟩ := h known f hf ha
  obtain ⟨hg', hz⟩ := hk _ _ _ (ha.trans hg.arrays) hg.knows.arrays hx _ _ hg.knows .rfl
  refine ⟨⟨?_, hg.arrays.trans hg'.arrays, ?_⟩, hz⟩
  · rw [Verdict.events_bind, Event.known_append]
    exact hg'.knows
  · rw [Verdict.events_bind, S.reports_append, ← List.append_assoc, ← hg.diagnostics]
    exact hg'.diagnostics

theorem follows_report (d : Diagnostic) :
    Follows p S a (report d) (Verdict.report d) fun _ _ _ => True := by
  intro known f hf _
  exact ⟨⟨hf.of_eq rfl fun _ => rfl, .rfl, Array.toList_push⟩, trivial⟩

theorem follows_require {c c' : Bool} {d : Diagnostic}
    (h : ∀ b, a.Within b → b.Regular p.classTable → c = c') :
    Follows p S a (require c d) (Verdict.require c' d) fun _ _ _ => True := by
  intro known f hf ha
  obtain rfl := h _ ha hf.arrays
  cases c with
  | true =>
      exact follows_pure (x := ()) (y := ()) (R := fun _ _ _ => True) (fun _ _ _ => trivial)
        known f hf ha
  | false => exact follows_report d known f hf ha

/-- Something is noted that is not the meaning of a written type. -/
theorem follows_note {m : Check Unit} (harrays : ∀ f, (m.after f).arrays = f.arrays)
    (hdiagnostics : ∀ f, (m.after f).diagnostics = f.diagnostics)
    (hnotes : ∀ f id, (m.after f).notes.typeExpr? id = f.notes.typeExpr? id) :
    Follows p S a m (pure ()) fun _ _ _ => True := by
  intro known f hf _
  refine ⟨⟨hf.of_eq (harrays f) (hnotes f), ?_, ?_⟩, trivial⟩
  · rw [harrays]
    exact .rfl
  · rw [hdiagnostics]
    exact (List.append_nil _).symm

/-- What is noted goes without events. -/
theorem Follows.note {m : Check Unit} {k : Check α}
    (hm : Follows p S a m (pure ()) fun _ _ _ => True) (hk : Follows p S a k v R) :
    Follows p S a (do m; k) v R := by
  have h := hm.bind (k := fun _ => k) (w := fun _ => v) fun b _ _ hb _ _ => hk.weaken hb
  rwa [pure_bind] at h

theorem follows_noteType (id : Nat) (V : ValueType) :
    Follows p S a (noteType id V) (pure ()) fun _ _ _ => True :=
  follows_note (fun _ => rfl) (fun _ => rfl) fun _ _ => rfl

theorem follows_noteBinding (id : Nat) (x : Binding) :
    Follows p S a (noteBinding id x) (pure ()) fun _ _ _ => True :=
  follows_note (fun _ => rfl) (fun _ => rfl) fun _ _ => rfl

theorem follows_noteCall (id : Nat) (x : CallTarget) :
    Follows p S a (noteCall id x) (pure ()) fun _ _ _ => True :=
  follows_note (fun _ => rfl) (fun _ => rfl) fun _ _ => rfl

theorem follows_arrayOf {V : ValueType} {o : Outline} (h : V.Matches p.classTable a o) :
    Follows p S a (arrayOf V) (pure (.array o)) fun b => ValueType.Matches p.classTable b := by
  intro known f hf ha
  obtain ⟨hwithin, hregular, hbelongs, houtline⟩ :=
    ArrayTypes.arrayOf_regular ClassTable.closed_build hf.arrays (h.mono ha).belongs
  refine ⟨⟨⟨hregular, fun t ht U hU => ?_, hf.known⟩, hwithin, (List.append_nil _).symm⟩,
    hbelongs, houtline.trans (congrArg Outline.array h.outline)⟩
  obtain ⟨hU, hknown⟩ := hf.meanings t ht U hU
  exact ⟨hU.mono hwithin, hknown⟩

section lists

variable {ι κ : Type}

theorem follows_forM {k : ι → Check PUnit} {k' : κ → Verdict PUnit} {l : List ι} {l' : List κ}
    (h : List.Forall₂ (fun x y => ∀ b, a.Within b →
      Follows p S b (k x) (k' y) fun _ _ _ => True) l l') :
    Follows p S a (l.forM k) (l'.forM k') fun _ _ _ => True := by
  suffices hsuf : ∀ b, a.Within b → Follows p S b (l.forM k) (l'.forM k') fun _ _ _ => True from
    hsuf a .rfl
  induction h with
  | nil => exact fun _ _ => follows_pure fun _ _ _ => trivial
  | cons hx _ ih =>
      exact fun b hb => (hx b hb).bind fun c _ _ hc _ _ => ih c (hb.trans hc)

theorem follows_mapM {k : ι → Check α} {k' : κ → Verdict β} {l : List ι} {l' : List κ}
    (hR : ∀ b c x y, b.Within c → R b x y → R c x y)
    (h : List.Forall₂ (fun x y => ∀ b, a.Within b → Follows p S b (k x) (k' y) R) l l') :
    Follows p S a (l.mapM k) (l'.mapM k') fun b => List.Forall₂ (R b) := by
  suffices hsuf : ∀ b, a.Within b →
      Follows p S b (l.mapM k) (l'.mapM k') fun b => List.Forall₂ (R b) from hsuf a .rfl
  induction h with
  | nil =>
      intro b _
      rw [List.mapM_nil, List.mapM_nil]
      exact follows_pure fun _ _ _ => .nil
  | cons hx _ ih =>
      intro b hb
      rw [List.mapM_cons, List.mapM_cons]
      refine (hx b hb).bind fun c x y hc _ hxy => ?_
      refine (ih c (hb.trans hc)).bind fun d xs ys hd _ hxys => ?_
      exact follows_pure fun e he _ =>
        .cons (hR _ _ _ _ (hd.trans he) hxy) (hxys.imp fun _ _ => hR _ _ _ _ he)

theorem follows_foldlM {k : α → ι → Check α} {k' : β → κ → Verdict β} {l : List ι} {l' : List κ}
    (h : List.Forall₂ (fun i j => ∀ b x y, a.Within b → R b x y →
      Follows p S b (k x i) (k' y j) R) l l')
    {x : α} {y : β} (hR : ∀ b c x y, b.Within c → R b x y → R c x y) (hxy : R a x y) :
    Follows p S a (l.foldlM k x) (l'.foldlM k' y) R := by
  suffices hsuf : ∀ b x y, a.Within b → R b x y →
      Follows p S b (l.foldlM k x) (l'.foldlM k' y) R from hsuf a x y .rfl hxy
  clear hxy
  induction h with
  | nil => exact fun b x y _ hxy => follows_pure fun c hc _ => hR _ _ _ _ hc hxy
  | cons hi _ ih =>
      intro b x y hb hxy
      rw [List.foldlM_cons, List.foldlM_cons]
      exact (hi b x y hb hxy).bind fun c x y hc _ hxy => ih c x y (hb.trans hc) hxy

end lists

section types

variable (hS : S.ancestors? = p.ancestors?)
include hS

theorem isSubclass_eq (c d : String) : S.isSubclass c d = p.classTable.isSubclass c d := by
  rw [Setting.isSubclass, hS, Program.ancestors?, ClassTable.isSubclass, Option.any_map]
  simp only [List.any_map]
  rfl

/-- Whether a value type is a subtype of another one is seen from their outlines. -/
theorem isSubtype_eq (ha : a.Regular p.classTable) {V W : ValueType} {o o' : Outline}
    (hV : V.Matches p.classTable a o) (hW : W.Matches p.classTable a o') :
    V.isSubtype W = S.isSubtype o o' := by
  rw [hV.belongs.isSubtype_eq ClassTable.closed_build ha hW.belongs, hV.outline, hW.outline,
    Setting.isSubtype, funext fun c => funext fun d => isSubclass_eq hS c d]
  rfl

theorem declares_eq (name : String) : S.declares name = (p.classTable.find? name).isSome := by
  rw [Setting.declares, hS, Program.ancestors?, Option.isSome_map]

end types

theorem matches_class {name : String} {c : ClassRef} (hc : p.classTable.find? name = some c) :
    (ValueType.object c).Matches p.classTable a (.object name) := by
  refine ⟨.object (List.mem_of_find?_eq_some hc), congrArg Outline.object ?_⟩
  simpa using List.find?_some hc

/-- What is noted of a written type that was not looked at before. -/
theorem follows_noteTypeExpr (hp : p.ids.Nodup) {t : TypeExpr} (ht : t ∈ p.typeExprs)
    {known : List TypeExpr} {f : Findings} {V : ValueType} (hf : f.Knows p S known)
    (hV : V.Matches p.classTable f.arrays (S.outline t))
    (hleaf : t = t.leaf ∨ (f.notes.typeExpr? t.leaf.id).isSome) :
    ((noteTypeExpr t.id V).after f).Knows p S (t :: known) := by
  have hget : ∀ id, ((noteTypeExpr t.id V).after f).notes.typeExpr? id =
    if id = t.id then some V else f.notes.typeExpr? id := typeExpr?_insert f t.id V
  refine ⟨hf.arrays, fun u hu U hU => ?_, fun u hu => ?_⟩
  · rw [hget] at hU
    split_ifs at hU with h
    · obtain rfl := p.typeExpr_unique hp hu ht h
      obtain rfl := Option.some.inj hU
      exact ⟨hV, u, List.mem_cons_self .., rfl⟩
    · obtain ⟨hm, w, hw, hid⟩ := hf.meanings u hu U hU
      exact ⟨hm, w, List.mem_cons_of_mem _ hw, hid⟩
  · have hkeeps : ∀ id, (f.notes.typeExpr? id).isSome →
        (((noteTypeExpr t.id V).after f).notes.typeExpr? id).isSome := by
      intro id hid
      rw [hget]
      split_ifs
      · rfl
      · exact hid
    have hself : (((noteTypeExpr t.id V).after f).notes.typeExpr? t.id).isSome := by
      rw [hget, if_pos rfl]
      rfl
    rcases List.mem_cons.1 hu with rfl | hu
    · exact ⟨hself, hleaf.elim (fun h => h ▸ hself) fun h => hkeeps _ h⟩
    · exact ⟨hkeeps _ (hf.known u hu).1, hkeeps _ (hf.known u hu).2⟩


/-- A written type that was looked at before. -/
theorem follows_of_noted {known : List TypeExpr} {f : Findings} {t : TypeExpr} {V : ValueType}
    (hf : f.Knows p S known) (ht : t ∈ p.typeExprs) (hV : f.notes.typeExpr? t.id = some V) :
    f.Follows p S known [.resolve t] f := by
  have hany := hf.any_eq_true ht hV
  refine ⟨⟨hf.arrays, fun u hu U hU => ?_, fun u hu => ?_⟩, .rfl, ?_⟩
  · obtain ⟨hm, w, hw, hid⟩ := hf.meanings u hu U hU
    exact ⟨hm, w, List.mem_cons_of_mem _ hw, hid⟩
  · rcases List.mem_cons.1 hu with rfl | hu
    · obtain ⟨_, w, hw, hid⟩ := hf.meanings u ht V hV
      refine ⟨by rw [hV]; rfl, ?_⟩
      rw [← hid]
      exact (hf.known w hw).2
    · exact hf.known u hu
  · simp [Setting.reports, hany]

/-- What the meaning of a written type was found out to be, before it is noted. -/
structure Meant (p : Program) (S : Setting) (known : List TypeExpr) (t : TypeExpr)
    (m : Check ValueType) (f : Findings) : Prop where
  knows : ∃ known', (m.after f).Knows p S known' ∧
    (known' = known ∨ ∃ u, known' = u :: known ∧ t.leaf.id = u.leaf.id)
  arrays : f.arrays.Within (m.after f).arrays
  diagnostics : (m.after f).diagnostics.toList =
    f.diagnostics.toList ++ S.reports known [.resolve t]
  meaning : (m.value f).Matches p.classTable (m.after f).arrays (S.outline t)
  leaf : t = t.leaf ∨ ((m.after f).notes.typeExpr? t.leaf.id).isSome

/-- A written type that was not looked at before. -/
theorem Meant.follows (hp : p.ids.Nodup) {known : List TypeExpr} {f : Findings} {t : TypeExpr}
    (ht : t ∈ p.typeExprs) (hT : f.notes.typeExpr? t.id = none)
    (h : Meant p S known t (newMeaning p.classTable t) f) :
    f.Follows p S known [.resolve t] ((checkType p.classTable t).after f) ∧
      ((checkType p.classTable t).value f).Matches p.classTable
        ((checkType p.classTable t).after f).arrays (S.outline t) := by
  have hrun := checkType_of_new p.classTable hT
  obtain ⟨known', hknows, hknown'⟩ := h.knows
  simp only [value, after, hrun]
  refine ⟨⟨?_, h.arrays, h.diagnostics⟩, h.meaning⟩
  have hnoted := follows_noteTypeExpr hp ht hknows h.meaning h.leaf
  obtain rfl | ⟨u, rfl, hid⟩ := hknown'
  · exact hnoted
  · exact hnoted.drop hid

/-- A written type without brackets: nothing but an undeclared class is reported. -/
theorem meant_leaf {known : List TypeExpr} {f : Findings} {t : TypeExpr} (hleaf : t.leaf = t)
    (hf : f.Knows p S known) (hT : f.notes.typeExpr? t.id = none) {m : Check ValueType}
    (hm : Follows p S f.arrays m ⟨S.outline t, (S.undeclared t).map .report⟩
      fun b => ValueType.Matches p.classTable b) : Meant p S known t m f := by
  obtain ⟨hg, hV⟩ := hm known f hf .rfl
  have hknown : Event.known known ((S.undeclared t).map .report) = known := by
    induction S.undeclared t with
    | nil => rfl
    | cons d ds ih => exact ih
  have hreports : S.reports known ((S.undeclared t).map .report) = S.undeclared t := by
    induction S.undeclared t with
    | nil => rfl
    | cons d ds ih => exact congrArg (d :: ·) ih
  refine ⟨⟨known, hknown ▸ hg.knows, .inl rfl⟩, hg.arrays, ?_, hV, .inl hleaf.symm⟩
  rw [hg.diagnostics, hreports, Setting.reports, hf.any_eq_false hleaf hT]
  simp [Setting.reports]

theorem follows_of_meant (hp : p.ids.Nodup) {t : TypeExpr} (ht : t ∈ p.typeExprs)
    (h : ∀ known (f : Findings), f.Knows p S known → f.notes.typeExpr? t.id = none →
      Meant p S known t (newMeaning p.classTable t) f) :
    Follows p S a (checkType p.classTable t) (S.resolve t)
      fun b => ValueType.Matches p.classTable b := by
  intro known f hf _
  cases hT : f.notes.typeExpr? t.id with
  | some V =>
      have hrun := checkType_of_noted p.classTable hT
      simp only [value, after, hrun]
      exact ⟨follows_of_noted hf ht hT, (hf.meanings t ht V hT).1⟩
  | none => exact (h known f hf hT).follows hp ht hT

/-- A written type is looked at: it means what it should, and an undeclared class in it is reported
unless it was before. -/
theorem follows_checkType (hS : S.ancestors? = p.ancestors?) (hp : p.ids.Nodup) {t : TypeExpr}
    (ht : t ∈ p.typeExprs) : Follows p S a (checkType p.classTable t) (S.resolve t)
      fun b => ValueType.Matches p.classTable b := by
  induction t generalizing a with
  | int tag =>
      exact follows_of_meant hp ht fun known f hf hT =>
        meant_leaf rfl hf hT (follows_pure fun _ _ _ => ⟨.int, rfl⟩)
  | bool tag =>
      exact follows_of_meant hp ht fun known f hf hT =>
        meant_leaf rfl hf hT (follows_pure fun _ _ _ => ⟨.bool, rfl⟩)
  | named tag name =>
      refine follows_of_meant hp ht fun known f hf hT => meant_leaf rfl hf hT ?_
      have hdeclares := declares_eq hS name.name
      simp only [newMeaning, Setting.outline, TypeExpr.outline, Setting.undeclared, hdeclares]
      cases hc : p.classTable.find? name.name with
      | some c => exact follows_pure fun _ _ _ => matches_class hc
      | none =>
          exact (follows_report _).bind fun _ _ _ _ _ _ => follows_pure fun _ _ _ => ⟨.any, rfl⟩
  | array tag c ih =>
      refine follows_of_meant hp ht fun known f hf hT => ?_
      have hc := p.mem_typeExprs_of_array ht
      obtain ⟨hg, hV⟩ := ih (a := f.arrays) hc known f hf .rfl
      obtain ⟨hg', hV'⟩ := follows_arrayOf hV _ _ hg.knows .rfl
      refine ⟨⟨_, hg'.knows, .inr ⟨c, rfl, rfl⟩⟩, hg.arrays.trans hg'.arrays,
        (hg'.diagnostics.trans (List.append_nil _)).trans hg.diagnostics, hV', .inr ?_⟩
      exact (hg'.knows.known c (List.mem_cons_self ..)).2

end Check
end ObjectLang
