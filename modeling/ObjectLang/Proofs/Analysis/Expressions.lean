import ObjectLang.Proofs.Analysis.Recorded
import ObjectLang.Proofs.Analysis.Tables

/-!
# Expressions are checked by the rules

An expression is silently checked exactly if it has a type by the rules. The type that is found then
means that type, and all nodes of the expression are noted as they are. What could not be determined
never gets in the way: before anything is absorbed by it, a diagnostic was left.
-/
namespace ObjectLang

namespace Program.Subtype

variable {p : Program} {t : PlainType}

theorem to_primitive {u : PlainType} (hu : u = .int ∨ u = .bool) : p.Subtype t u ↔ t = u := by
  constructor
  · intro h
    rcases hu with rfl | rfl <;> cases h <;> rfl
  · rintro rfl
    exact .refl _

end Program.Subtype

/-- The type of the operand of an operator, and of its result. -/
def UnaryOp.plain : UnaryOp → PlainType
  | .neg => .int
  | .not => .bool

/-- The type of the operands of an operator other than equality. -/
def BinaryOp.operands : BinaryOp → PlainType
  | .and => .bool
  | _ => .int

def BinaryOp.result : BinaryOp → PlainType
  | .and | .equal | .less => .bool
  | _ => .int

section

variable {Γ : Context} {tag : Tag} {t : PlainType}

theorem HasType.unary_iff {op : UnaryOp} {e : Expr} :
    HasType Γ (.unary tag op e) t ↔ t = op.plain ∧ HasType Γ e op.plain := by
  constructor
  · rintro (h | h) <;> exact ⟨rfl, h⟩
  · rintro ⟨rfl, h⟩
    cases op with
    | neg => exact .neg h
    | not => exact .not h

theorem HasType.binary_iff {op : BinaryOp} (hop : op ≠ .equal) {l r : Expr} :
    HasType Γ (.binary tag op l r) t ↔
      t = op.result ∧ HasType Γ l op.operands ∧ HasType Γ r op.operands := by
  constructor
  · intro h
    cases h with
    | and hl hr => exact ⟨rfl, hl, hr⟩
    | equal => exact (hop rfl).elim
    | less hl hr => exact ⟨rfl, hl, hr⟩
    | arithmetic ha hl hr => cases op <;> first | exact ⟨rfl, hl, hr⟩ | cases ha
  · rintro ⟨rfl, hl, hr⟩
    cases op with
    | and => exact .and hl hr
    | equal => exact (hop rfl).elim
    | less => exact .less hl hr
    | _ => exact .arithmetic rfl hl hr

end

namespace Check

open Findings

/-- A body can be checked at a place. -/
structure Ready (Γ : Context) (env : Surroundings) (scope : Scope) (f : Findings) : Prop where
  sound : f.Sound Γ.program
  env : env.Stands f.arrays Γ
  scope : scope.Stands f.arrays Γ

/-- The types in the signatures of all functions are known. -/
def SignaturesKnown (p : Program) : Prop :=
  ∀ d ∈ p.functions, SignatureKnown p d

/-- What a silent check finds out about an expression. -/
structure Types (p : Program) (typed : PlainType → Prop) (recorded : ArrayTypes → Notes → Prop)
    (ids : List Nat) (m : Check ValueType) (f : Findings) : Prop where
  type : ∃ t, typed t ∧ (m.value f).Denotes p (m.after f).arrays t
  recorded : recorded (m.after f).arrays (m.after f).notes
  grows : f.Grows p ids (m.after f)

/-- A check is silent exactly if there is a type, and then finds it out. -/
structure Decides (p : Program) (typed : PlainType → Prop)
    (recorded : ArrayTypes → Notes → Prop) (ids : List Nat) (m : Check ValueType)
    (f : Findings) : Prop where
  sound : Silent m f → Types p typed recorded ids m f
  complete : SignaturesKnown p → ∀ t, typed t → Silent m f

variable {Γ : Context} {env : Surroundings} {scope : Scope} {f : Findings}

theorem Ready.grow {ids : List Nat} {g : Findings} (h : Ready Γ env scope f)
    (hfg : f.Grows Γ.program ids g) : Ready Γ env scope g :=
  ⟨hfg.sound h.sound, h.env.mono hfg.arrays, h.scope.mono hfg.arrays⟩

/-- Noting the type of a node after it was found. -/
theorem decides_noting {typed : PlainType → Prop} {recorded : ArrayTypes → Notes → Prop}
    (parts : ArrayTypes → Notes → Prop) {ids : List Nat} {id : Nat} {m : Check ValueType} [Adds m]
    (hid : id ∉ ids)
    (hsound : Silent m f → Types Γ.program typed parts (id :: ids) m f)
    (hcomplete : SignaturesKnown Γ.program → ∀ t, typed t → Silent m f)
    (hrecorded : ∀ a n k, (∀ i ∈ ids, n.SameAt k i) → k.call? id = n.call? id →
      k.binding? id = n.binding? id → parts a n → TypeRecorded a k Γ id typed → recorded a k) :
    Decides Γ.program typed recorded (id :: ids) (noting id m) f where
  sound h := by
    have hm : Silent m f := by simpa [noting, silent_bind] using h
    obtain ⟨⟨t, ht, hd⟩, hparts, hg⟩ := hsound hm
    have hn := grows_noteType (p := Γ.program) (f := m.after f) id (m.value f)
    refine ⟨⟨t, ht, hd⟩, ?_, (hg.trans hn).mono (by simp)⟩
    refine hrecorded _ _ _ (fun i hi => hn.same i ?_) rfl rfl hparts ⟨t, ht, m.value f, ?_, hd⟩
    · intro hmem
      rw [List.mem_singleton.1 hmem] at hi
      exact hid hi
    · exact (type?_insert _ _ _ _).trans (if_pos rfl)
  complete hk t ht := by simpa [noting, silent_bind] using hcomplete hk t ht

/-- A node without parts, with the type that it always has. -/
theorem decides_leaf {typed : PlainType → Prop} {id : Nat} {m : Check ValueType} [Adds m]
    (hsound : Silent m f → m.after f = f ∧ ∃ t, typed t ∧ (m.value f).Denotes Γ.program f.arrays t)
    (hcomplete : ∀ t, typed t → Silent m f) :
    Decides Γ.program typed (fun a n => TypeRecorded a n Γ id typed) [id] (noting id m) f := by
  refine decides_noting (fun _ _ => True) List.not_mem_nil (fun h => ?_)
    (fun _ => hcomplete)
    fun _ _ _ _ _ _ _ ht => ht
  obtain ⟨hafter, t, ht, hd⟩ := hsound h
  rw [← hafter] at hd
  refine ⟨⟨t, ht, ?_⟩, trivial, ?_⟩
  · simpa [hafter] using hd
  · rw [hafter]
    exact .rfl

/-- What the check of an expression has to do, wherever it comes. -/
def ExprDecided (Γ : Context) (env : Surroundings) (scope : Scope) (e : Expr) : Prop :=
  ∀ f, Ready Γ env scope f → Decides Γ.program (HasType Γ e) (fun a n => e.Recorded a n Γ) e.ids
    (checkExpr env scope e) f

def LocationDecided (Γ : Context) (env : Surroundings) (scope : Scope) (l : Location) : Prop :=
  ∀ f, Ready Γ env scope f → Decides Γ.program (l.HasType Γ) (fun a n => l.Recorded a n Γ) l.ids
    (checkLocation env scope l) f

/-- What is found out first stays, while something is found out about other nodes. -/
theorem recorded_grow {e : Expr} {ids : List Nat} {f g : Findings}
    (h : e.Recorded f.arrays f.notes Γ) (hfg : f.Grows Γ.program ids g)
    (hd : e.ids.Disjoint ids) : e.Recorded g.arrays g.notes Γ :=
  h.mono hfg.arrays fun id hid => hfg.same id fun h => hd hid h

/-- What a silent check of an operand finds out. -/
structure Fits (Γ : Context) (e : Expr) (u : PlainType) (f g : Findings) : Prop where
  type : ∃ t, HasType Γ e t ∧ Γ.program.Subtype t u
  recorded : e.Recorded g.arrays g.notes Γ
  grows : f.Grows Γ.program e.ids g

theorem operandOf_spec (hh : Γ.program.Hierarchy) {e : Expr} (he : ExprDecided Γ env scope e)
    (hf : Ready Γ env scope f) {T : ValueType} {u : PlainType}
    (hT : T.Denotes Γ.program f.arrays u) (d : ValueType → Diagnostic) :
    (Silent (operandOf env scope T e d) f → Fits Γ e u f ((operandOf env scope T e d).after f)) ∧
      (SignaturesKnown Γ.program → ∀ t, HasType Γ e t → Γ.program.Subtype t u →
        Silent (operandOf env scope T e d) f) := by
  obtain ⟨hsound, hcomplete⟩ := he f hf
  have hsub : Silent (checkExpr env scope e) f → ∃ t, HasType Γ e t ∧
      (((checkExpr env scope e).value f).isSubtype T = true ↔ Γ.program.Subtype t u) := by
    intro h
    obtain ⟨⟨t, ht, hd⟩, _, hg⟩ := hsound h
    exact ⟨t, ht, hd.isSubtype_iff hh (hg.sound hf.sound).arrays (hT.mono hg.arrays)⟩
  simp only [operandOf, silent_bind, silent_require, after_bind]
  constructor
  · rintro ⟨h, hs⟩
    obtain ⟨t, ht, hiff⟩ := hsub h
    obtain ⟨_, hr, hg⟩ := hsound h
    rw [after_require, if_pos hs]
    exact ⟨⟨t, ht, hiff.1 hs⟩, hr, hg⟩
  · intro hk t ht hs
    have h := hcomplete hk t ht
    obtain ⟨t', ht', hiff⟩ := hsub h
    rw [ht.unique ht'] at hs
    exact ⟨h, hiff.2 hs⟩

/-- An operand whose type is the one that is asked for. -/
theorem operandOf_primitive (hh : Γ.program.Hierarchy) {e : Expr}
    (he : ExprDecided Γ env scope e) (hf : Ready Γ env scope f) {T : ValueType} {u : PlainType}
    (hT : T.Denotes Γ.program f.arrays u) (hu : u = .int ∨ u = .bool)
    (d : ValueType → Diagnostic) :
    (Silent (operandOf env scope T e d) f → HasType Γ e u ∧
      e.Recorded ((operandOf env scope T e d).after f).arrays
        ((operandOf env scope T e d).after f).notes Γ ∧
      f.Grows Γ.program e.ids ((operandOf env scope T e d).after f)) ∧
    (SignaturesKnown Γ.program → HasType Γ e u → Silent (operandOf env scope T e d) f) := by
  obtain ⟨hsound, hcomplete⟩ := operandOf_spec hh he hf hT d
  constructor
  · intro h
    obtain ⟨⟨t, ht, hs⟩, hr, hg⟩ := hsound h
    rw [(Program.Subtype.to_primitive hu).1 hs] at ht
    exact ⟨ht, hr, hg⟩
  · intro hk ht
    exact hcomplete hk u ht (.refl u)

section

variable {p : Program} {a : ArrayTypes} {V : ValueType}

theorem silent_requireArray {t : PlainType} (hd : V.Denotes p a t) (span : Span) (f : Findings) :
    Silent (requireArray V span) f ↔ ∃ u, t = .array u := by
  cases hd <;> simp [requireArray]

theorem after_requireArray {span : Span} {f : Findings} (h : Silent (requireArray V span) f) :
    (requireArray V span).after f = f := by
  cases V <;> first | rfl | simp [requireArray] at h

theorem silent_requireObject {t : PlainType} (hd : V.Denotes p a t) (span : Span) (f : Findings) :
    Silent (requireObject V span) f ↔ ∃ c, t = .object c := by
  cases hd <;> simp [requireObject]

theorem denotes_array {t : PlainType} (hd : V.Denotes p a (.array t)) :
    ∃ id T, V = .array id T ∧ T.Denotes p a t := by
  cases hd with
  | array _ hT => exact ⟨_, _, rfl, hT⟩

theorem denotes_object {name : String} (hd : V.Denotes p a (.object name)) :
    ∃ c, V = .object c ∧ c.Faithful p ∧ c.name = name := by
  cases hd with
  | object hc hn => exact ⟨_, rfl, hc, hn⟩

end

section

variable (hh : Γ.program.Hierarchy) {tag : Tag}
include hh

theorem decided_unary {op : UnaryOp} {operand : Expr}
    (hids : (Expr.unary tag op operand).ids.Nodup) (ih : ExprDecided Γ env scope operand) :
    ExprDecided Γ env scope (.unary tag op operand) := by
  intro f hf
  have hT : (unaryType op).Denotes Γ.program f.arrays op.plain := by
    cases op <;> constructor
  have hu : op.plain = .int ∨ op.plain = .bool := by
    cases op <;> simp [UnaryOp.plain]
  obtain ⟨hsound, hcomplete⟩ := operandOf_primitive hh ih hf hT hu
    (mismatch (unaryType op) operand)
  rw [checkExpr_unary]
  refine decides_noting (fun a n => operand.Recorded a n Γ) (List.nodup_cons.1 hids).1
    (fun h => ?_) (fun hk t ht => ?_) fun a n k hs _ _ hr ht => ⟨ht, hr.mono .rfl hs⟩
  · obtain ⟨hop, hr, hg⟩ := hsound (by simpa using h)
    exact ⟨⟨op.plain, HasType.unary_iff.2 ⟨rfl, hop⟩, hT.mono hg.arrays⟩, hr, hg.mono (by simp)⟩
  · simpa using hcomplete hk (HasType.unary_iff.1 ht).2

theorem decided_binary {op : BinaryOp} (hop : op ≠ .equal) {left right : Expr}
    (hids : (Expr.binary tag op left right).ids.Nodup) (ihl : ExprDecided Γ env scope left)
    (ihr : ExprDecided Γ env scope right) :
    ExprDecided Γ env scope (.binary tag op left right) := by
  intro f hf
  have hT : ∀ a, (operandType op).Denotes Γ.program a op.operands := by
    intro a
    cases op <;> first | exact (hop rfl).elim | constructor
  have hR : ∀ a, (resultType op).Denotes Γ.program a op.result := by
    intro a
    cases op <;> constructor
  have hu : op.operands = .int ∨ op.operands = .bool := by
    cases op <;> simp [BinaryOp.operands]
  obtain ⟨hid, hids⟩ := List.nodup_cons.1 hids
  obtain ⟨_, _, hdisjoint⟩ := List.nodup_append'.1 hids
  obtain ⟨hleft, hleft'⟩ := operandOf_primitive hh ihl hf (hT _) hu
    (mismatch (operandType op) left)
  have hright := fun h => operandOf_primitive hh ihr (hf.grow (hleft h).2.2) (hT _) hu
    (mismatch (operandType op) right)
  have hsilent : Silent (do
      operandOf env scope (operandType op) left (mismatch (operandType op) left)
      operandOf env scope (operandType op) right (mismatch (operandType op) right)
      pure (resultType op)) f ↔
      Silent (operandOf env scope (operandType op) left (mismatch (operandType op) left)) f ∧
        Silent (operandOf env scope (operandType op) right (mismatch (operandType op) right))
          ((operandOf env scope (operandType op) left (mismatch (operandType op) left)).after
            f) := by
    simp [silent_bind]
  rw [checkExpr_binary hop]
  refine decides_noting (fun a n => left.Recorded a n Γ ∧ right.Recorded a n Γ) hid
    (fun h => ?_) (fun hk t ht => ?_) fun a n k hs _ _ hr ht => ?_
  · rw [hsilent] at h
    obtain ⟨hl, hlr, hlg⟩ := hleft h.1
    obtain ⟨hr, hrr, hrg⟩ := (hright h.1).1 h.2
    exact ⟨⟨op.result, (HasType.binary_iff hop).2 ⟨rfl, hl, hr⟩, hR _⟩,
      ⟨recorded_grow hlr hrg hdisjoint, hrr⟩, (hlg.trans hrg).mono (by simp)⟩
  · obtain ⟨_, hl, hr⟩ := (HasType.binary_iff hop).1 ht
    have h := hleft' hk hl
    exact hsilent.2 ⟨h, (hright h).2 hk hr⟩
  · rw [List.forall_mem_append] at hs
    exact ⟨ht, hr.1.mono .rfl hs.1, hr.2.mono .rfl hs.2⟩

theorem decided_equal {left right : Expr} (hids : (Expr.binary tag .equal left right).ids.Nodup)
    (ihl : ExprDecided Γ env scope left) (ihr : ExprDecided Γ env scope right) :
    ExprDecided Γ env scope (.binary tag .equal left right) := by
  intro f hf
  obtain ⟨hid, hids⟩ := List.nodup_cons.1 hids
  obtain ⟨_, _, hdisjoint⟩ := List.nodup_append'.1 hids
  obtain ⟨hleft, hleft'⟩ := ihl f hf
  have hright := fun h => ihr _ (hf.grow (hleft h).grows)
  have hsub : ∀ (h : Silent (checkExpr env scope left) f)
      (h' : Silent (checkExpr env scope right) ((checkExpr env scope left).after f)) {t u},
      HasType Γ left t → HasType Γ right u →
      ((((checkExpr env scope left).value f).isSubtype ((checkExpr env scope right).value
          ((checkExpr env scope left).after f)) ||
        ((checkExpr env scope right).value ((checkExpr env scope left).after f)).isSubtype
          ((checkExpr env scope left).value f)) = true ↔
        Γ.program.Subtype t u ∨ Γ.program.Subtype u t) := by
    intro h h' t u ht hu
    obtain ⟨⟨t', ht', hdt⟩, _, hlg⟩ := hleft h
    obtain ⟨⟨u', hu', hdu⟩, _, hrg⟩ := (hright h).sound h'
    have ha := (hrg.sound (hlg.sound hf.sound)).arrays
    have hdt := hdt.mono hrg.arrays
    rw [Bool.or_eq_true, hdt.isSubtype_iff hh ha hdu, hdu.isSubtype_iff hh ha hdt,
      ht.unique ht', hu.unique hu']
  have hsilent : Silent (do
      let l ← checkExpr env scope left
      let r ← checkExpr env scope right
      require (l.isSubtype r || r.isSubtype l) (.incomparableTypes l.text r.text tag.span)
      pure ValueType.bool) f ↔ Silent (checkExpr env scope left) f ∧
        Silent (checkExpr env scope right) ((checkExpr env scope left).after f) ∧
          (((checkExpr env scope left).value f).isSubtype ((checkExpr env scope right).value
              ((checkExpr env scope left).after f)) ||
            ((checkExpr env scope right).value ((checkExpr env scope left).after f)).isSubtype
              ((checkExpr env scope left).value f)) = true := by
    simp [silent_bind]
  rw [checkExpr_equal]
  refine decides_noting (fun a n => left.Recorded a n Γ ∧ right.Recorded a n Γ) hid
    (fun h => ?_) (fun hk t ht => ?_) fun a n k hs _ _ hr ht => ?_
  · rw [hsilent] at h
    obtain ⟨hl, hr, hcomparable⟩ := h
    obtain ⟨⟨t, ht, _⟩, hlr, hlg⟩ := hleft hl
    obtain ⟨⟨u, hu, _⟩, hrr, hrg⟩ := (hright hl).sound hr
    have hs := (hsub hl hr ht hu).1 hcomparable
    refine ⟨⟨.bool, .equal ht hu hs, .bool⟩, ?_, ?_⟩ <;>
      simp only [after_bind, after_pure, after_require, hcomparable, if_true]
    · exact ⟨recorded_grow hlr hrg hdisjoint, hrr⟩
    · exact (hlg.trans hrg).mono (by simp)
  · cases ht with
    | equal ht hu hs =>
        have h := hleft' hk _ ht
        have h' := (hright h).complete hk _ hu
        exact hsilent.2 ⟨h, h', (hsub h h' ht hu).2 hs⟩
    | arithmetic hop => cases hop
  · rw [List.forall_mem_append] at hs
    exact ⟨ht, hr.1.mono .rfl hs.1, hr.2.mono .rfl hs.2⟩

omit hh in
theorem decided_number {value : Nat} : ExprDecided Γ env scope (.number tag value) := by
  intro f _
  rw [checkExpr_number]
  refine decides_leaf (fun _ => ⟨rfl, .int, .number, .int⟩) fun _ _ => rfl

omit hh in
theorem decided_bool {value : Bool} : ExprDecided Γ env scope (.bool tag value) := by
  intro f _
  rw [checkExpr_bool]
  refine decides_leaf (fun _ => ⟨rfl, .bool, .bool, .bool⟩) fun _ _ => rfl

omit hh in
theorem decided_null : ExprDecided Γ env scope (.null tag) := by
  intro f _
  rw [checkExpr_null]
  refine decides_leaf (fun _ => ⟨rfl, .null, .null, .null⟩) fun _ _ => rfl

omit hh in
theorem decided_this : ExprDecided Γ env scope (.this tag) := by
  intro f hf
  rw [checkExpr_this]
  have hcurrent := hf.env.current
  generalize env.current = current, hΓ : Γ.current = current' at hcurrent ⊢
  cases hcurrent with
  | some hc =>
      obtain ⟨hc, rfl⟩ := hc
      exact decides_leaf (fun _ => ⟨rfl, _, .this hΓ, .object hc rfl⟩) fun _ _ => rfl
  | none =>
      refine decides_leaf (fun h => ?_) fun t ht => ?_
      · simp at h
      · cases ht with
        | this hc => simp [hΓ] at hc

theorem decided_newObject {cls : Ident} : ExprDecided Γ env scope (.newObject tag cls) := by
  intro f hf
  rw [checkExpr_newObject, checkNewObject, hf.env.classes]
  cases hc : (ClassTable.build Γ.program.classes).1.find? cls.name with
  | none =>
      rw [ClassTable.find?_build_eq_none hh] at hc
      refine decides_leaf (fun h => ?_) fun t ht => ?_
      · simp at h
      · cases ht with
        | newObject hd => exact (hc hd).elim
  | some c =>
      rw [ClassTable.find?_build hh] at hc
      refine decides_leaf (fun _ => ⟨rfl, _, .newObject ?_, .object hc.1 hc.2⟩) fun _ _ => rfl
      exact hc.2 ▸ hc.1.declares

omit hh in
theorem decided_read {l : Location} (hids : (Expr.read tag l).ids.Nodup)
    (ih : LocationDecided Γ env scope l) : ExprDecided Γ env scope (.read tag l) := by
  intro f hf
  obtain ⟨hsound, hcomplete⟩ := ih f hf
  rw [checkExpr_read]
  refine decides_noting (fun a n => l.Recorded a n Γ) (List.nodup_cons.1 hids).1
    (fun h => ?_) (fun hk t ht => ?_) fun a n k hs _ _ hr ht => ⟨ht, hr.mono .rfl hs⟩
  · obtain ⟨⟨t, ht, hd⟩, hr, hg⟩ := hsound h
    exact ⟨⟨t, .read ht, hd⟩, hr, hg.mono (by simp)⟩
  · cases ht with
    | read ht => exact hcomplete hk t ht

omit hh in
theorem decided_arrayLength {array : Expr} (hids : (Expr.arrayLength tag array).ids.Nodup)
    (ih : ExprDecided Γ env scope array) : ExprDecided Γ env scope (.arrayLength tag array) := by
  intro f hf
  obtain ⟨hsound, hcomplete⟩ := ih f hf
  have hsilent : Silent (do
      let found ← checkExpr env scope array
      let _ ← requireArray found array.span
      pure ValueType.int) f ↔ Silent (checkExpr env scope array) f ∧
        Silent (requireArray ((checkExpr env scope array).value f) array.span)
          ((checkExpr env scope array).after f) := by
    simp [silent_bind]
  rw [checkExpr_arrayLength]
  refine decides_noting (fun a n => array.Recorded a n Γ) (List.nodup_cons.1 hids).1
    (fun h => ?_) (fun hk t ht => ?_) fun a n k hs _ _ hr ht => ⟨ht, hr.mono .rfl hs⟩
  · obtain ⟨h, h'⟩ := hsilent.1 h
    obtain ⟨⟨t, ht, hd⟩, hr, hg⟩ := hsound h
    obtain ⟨u, rfl⟩ := (silent_requireArray hd _ _).1 h'
    obtain ⟨id, T, hV, _⟩ := denotes_array hd
    refine ⟨⟨.int, .arrayLength ht, .int⟩, ?_, ?_⟩ <;>
      simp only [after_bind, after_pure, hV, requireArray]
    · exact hr
    · exact hg.mono (by simp)
  · cases ht with
    | arrayLength ht =>
        have h := hcomplete hk _ ht
        obtain ⟨⟨t, ht', hd⟩, _, _⟩ := hsound h
        exact hsilent.2 ⟨h, (silent_requireArray hd _ _).2 ⟨_, ht'.unique ht⟩⟩

theorem decided_newArray (hp : Γ.program.ids.Nodup) {element : TypeExpr} {size : Expr}
    (hids : (Expr.newArray tag element size).ids.Nodup) (hmem : element ∈ Γ.program.typeExprs)
    (ih : ExprDecided Γ env scope size) :
    ExprDecided Γ env scope (.newArray tag element size) := by
  intro f hf
  obtain ⟨hid, _⟩ := List.nodup_cons.1 hids
  obtain ⟨hsound, hcomplete⟩ := operandOf_primitive hh ih hf .int (.inl rfl)
    (mismatch .int size)
  have htype := fun h =>
    checkType_spec hh hf.env.classes hp hmem (hf.grow (hsound h).2.2).sound
  have hsilent : Silent (do
      operandOf env scope .int size (mismatch .int size)
      let component ← checkType env.classes element
      arrayOf component) f ↔ Silent (operandOf env scope .int size (mismatch .int size)) f ∧
        Silent (checkType env.classes element)
          ((operandOf env scope .int size (mismatch .int size)).after f) := by
    simp [silent_bind]
  rw [checkExpr_newArray]
  refine decides_noting (fun a n => size.Recorded a n Γ)
    hid (fun h => ?_) (fun hk t ht => ?_) fun a n k hs _ _ hr ht => ?_
  · obtain ⟨h, h'⟩ := hsilent.1 h
    obtain ⟨hsize, hr, hg⟩ := hsound h
    have hc := (htype h).1 h'
    obtain ⟨hd, hg'⟩ := arrayOf_spec hh (hc.grows.sound (hg.sound hf.sound)) hc.denotes
      element.plain_ne_null
    have hrest := hc.grows.trans hg'
    refine ⟨⟨_, .newArray hc.denotes.known hsize, hd⟩, ?_, ?_⟩
    · exact recorded_grow hr hrest (List.disjoint_nil_right _)
    · exact (hg.trans hrest).mono (by simp)
  · cases ht with
    | newArray hknown hsize =>
        have h := hcomplete hk hsize
        exact hsilent.2 ⟨h, (htype h).2 hknown⟩
  · rw [List.forall_mem_append] at hs
    exact ⟨ht, hr.mono .rfl hs.2⟩

theorem decided_index {array index : Expr} (hids : (Location.index tag array index).ids.Nodup)
    (iha : ExprDecided Γ env scope array) (ihi : ExprDecided Γ env scope index) :
    LocationDecided Γ env scope (.index tag array index) := by
  intro f hf
  obtain ⟨hid, hids⟩ := List.nodup_cons.1 hids
  obtain ⟨_, _, hdisjoint⟩ := List.nodup_append'.1 hids
  obtain ⟨hsound, hcomplete⟩ := iha f hf
  have hindex := fun h => operandOf_primitive hh ihi (hf.grow (hsound h).grows) .int (.inl rfl)
    (mismatch .int index)
  have hsilent : Silent (do
      let found ← checkExpr env scope array
      let arrayType ← requireArray found array.span
      operandOf env scope .int index (mismatch .int index)
      pure (arrayType.component?.getD .any)) f ↔ Silent (checkExpr env scope array) f ∧
        Silent (requireArray ((checkExpr env scope array).value f) array.span)
          ((checkExpr env scope array).after f) ∧
        Silent (operandOf env scope .int index (mismatch .int index))
          ((checkExpr env scope array).after f) := by
    simp only [silent_bind, silent_pure, and_true]
    exact and_congr_right fun _ => and_congr_right fun h => by rw [after_requireArray h]
  rw [checkLocation_index]
  refine decides_noting (fun a n => array.Recorded a n Γ ∧ index.Recorded a n Γ) hid
    (fun h => ?_) (fun hk t ht => ?_) fun a n k hs _ _ hr ht => ?_
  · obtain ⟨h, h', h''⟩ := hsilent.1 h
    obtain ⟨⟨t, ht, hd⟩, har, hag⟩ := hsound h
    obtain ⟨u, rfl⟩ := (silent_requireArray hd _ _).1 h'
    obtain ⟨id, T, hV, hT⟩ := denotes_array hd
    obtain ⟨hi, hir, hig⟩ := (hindex h).1 h''
    refine ⟨⟨u, .index ht hi, ?_⟩, ?_, ?_⟩ <;>
      simp only [after_bind, after_pure, value_bind, value_pure, hV, requireArray]
    · exact hT.mono hig.arrays
    · exact ⟨recorded_grow har hig hdisjoint, hir⟩
    · exact (hag.trans hig).mono (by simp)
  · cases ht with
    | index ha hi =>
        have h := hcomplete hk _ ha
        obtain ⟨⟨t, ht', hd⟩, _, _⟩ := hsound h
        exact hsilent.2 ⟨h, (silent_requireArray hd _ _).2 ⟨_, ht'.unique ha⟩, (hindex h).2 hk hi⟩
  · rw [List.forall_mem_append] at hs
    exact ⟨ht, hr.1.mono .rfl hs.1, hr.2.mono .rfl hs.2⟩

end

/-- A variable is silently bound exactly if there is one, and then to that one. -/
structure Binds (Γ : Context) (id : Nat) (v? : Option Variable) (m : Check ValueType)
    (f : Findings) : Prop where
  sound : Silent m f → ∃ v, v? = some v ∧
    (m.value f).Denotes Γ.program (m.after f).arrays v.type ∧
      BindingRecorded (m.after f).notes Γ id v? ∧ f.Grows Γ.program [id] (m.after f)
  complete : ∀ v, v? = some v → Silent m f

theorem binds_bindField (hh : Γ.program.Hierarchy) (hf : Ready Γ env scope f) {c : ClassRef}
    (hc : c.Faithful Γ.program) (id : Nat) (name : String) (d : Diagnostic) :
    Binds Γ id (Γ.field? c.name name) (bindField env id c name d) f := by
  have hfound := hf.env.members.rel_field? hh hc name
  unfold bindField Context.field?
  generalize env.members.field? c name = found, Γ.program.field? c.name name = found' at hfound ⊢
  cases hfound with
  | none => exact ⟨fun h => by simp at h, fun _ hv => by cases hv⟩
  | some h =>
      next x y =>
      obtain ⟨hc, ho, hd⟩ := h
      refine ⟨fun _ => ⟨_, rfl, ?_, ⟨_, rfl, .field x.1 x.2.decl, ?_, ?_⟩, ?_⟩, fun _ _ => rfl⟩
      · exact hd.type
      · exact (binding?_insert _ _ _ _).trans (if_pos rfl)
      · exact ⟨hc, by rw [← hc.classDecl_name, ho], hd.decl⟩
      · exact grows_noteBinding _ _

theorem binds_bindVariable (hh : Γ.program.Hierarchy) (hf : Ready Γ env scope f) (id : Nat)
    (name : Ident) :
    Binds Γ id (Γ.resolve? name.name) (bindVariable env scope id name) f := by
  have hfound := hf.scope.rel_find? name.name
  have hcurrent := hf.env.current
  unfold bindVariable Context.resolve?
  generalize scope.find? name.name = found, Γ.local? name.name = found' at hfound ⊢
  cases hfound with
  | some hd =>
      refine ⟨fun _ => ⟨_, rfl, hd.type, ⟨_, rfl, .variable _, ?_, hd.decl⟩, ?_⟩, fun _ _ => rfl⟩
      · exact (binding?_insert _ _ _ _).trans (if_pos rfl)
      · exact grows_noteBinding _ _
  | none =>
      simp only
      generalize env.current = current, Γ.current = current' at hcurrent ⊢
      cases hcurrent with
      | some hc =>
          obtain ⟨hc, rfl⟩ := hc
          exact binds_bindField hh hf hc id name.name _
      | none => exact ⟨fun h => by simp at h, fun _ hv => by cases hv⟩

section

variable (hh : Γ.program.Hierarchy) {tag : Tag}
include hh

theorem decided_var {x : Ident} : LocationDecided Γ env scope (.var tag x) := by
  intro f hf
  obtain ⟨hsound, hcomplete⟩ := binds_bindVariable hh hf tag.id x
  rw [checkLocation_var]
  refine decides_noting (fun _ n => BindingRecorded n Γ tag.id (Γ.resolve? x.name))
    List.not_mem_nil (fun h => ?_) (fun hk t ht => ?_) fun a n k _ _ hs hb ht => ⟨ht, ?_⟩
  · obtain ⟨v, hv, hd, hb, hg⟩ := hsound h
    exact ⟨⟨v.type, .var hv, hd⟩, hb, hg⟩
  · cases ht with
    | var hv => exact hcomplete _ hv
  · obtain ⟨v, hv, b, hb, hm⟩ := hb
    exact ⟨v, hv, b, hs.trans hb, hm⟩

omit hh in
theorem objectOf_spec {e : Expr} (he : ExprDecided Γ env scope e) (hf : Ready Γ env scope f) :
    (Silent (objectOf env scope e) f → ∃ c : ClassRef, (objectOf env scope e).value f = some c ∧
      c.Faithful Γ.program ∧ HasType Γ e (.object c.name) ∧
      e.Recorded ((objectOf env scope e).after f).arrays ((objectOf env scope e).after f).notes Γ ∧
      f.Grows Γ.program e.ids ((objectOf env scope e).after f)) ∧
    (SignaturesKnown Γ.program → ∀ name, HasType Γ e (.object name) →
      Silent (objectOf env scope e) f) := by
  obtain ⟨hsound, hcomplete⟩ := he f hf
  simp only [objectOf, silent_bind, after_bind, value_bind]
  constructor
  · rintro ⟨h, h'⟩
    obtain ⟨⟨t, ht, hd⟩, hr, hg⟩ := hsound h
    obtain ⟨name, rfl⟩ := (silent_requireObject hd _ _).1 h'
    obtain ⟨c, hV, hc, rfl⟩ := denotes_object hd
    rw [hV]
    exact ⟨c, rfl, hc, ht, hr, hg⟩
  · intro hk name ht
    have h := hcomplete hk _ ht
    obtain ⟨⟨t, ht', hd⟩, _, _⟩ := hsound h
    exact ⟨h, (silent_requireObject hd _ _).2 ⟨name, ht'.unique ht⟩⟩

theorem decided_field {receiver : Expr} {x : Ident}
    (hids : (Location.field tag receiver x).ids.Nodup) (ih : ExprDecided Γ env scope receiver) :
    LocationDecided Γ env scope (.field tag receiver x) := by
  intro f hf
  obtain ⟨hid, _⟩ := List.nodup_cons.1 hids
  obtain ⟨hsound, hcomplete⟩ := objectOf_spec ih hf
  rw [checkLocation_field]
  refine decides_noting (fun a n => receiver.Recorded a n Γ ∧
    ∃ c, HasType Γ receiver (.object c) ∧ BindingRecorded n Γ tag.id (Γ.field? c x.name)) hid
    (fun h => ?_) (fun hk t ht => ?_) fun a n k hs _ hb hr ht => ?_
  · rw [silent_bind] at h
    obtain ⟨c, hV, hc, ht, hr, hg⟩ := hsound h.1
    rw [hV] at h
    obtain ⟨v, hv, hd, hb, hg'⟩ := (binds_bindField hh (hf.grow hg) hc _ _ _).sound h.2
    refine ⟨⟨v.type, .field ht hv, ?_⟩, ?_, ?_⟩ <;> simp only [after_bind, value_bind, hV]
    · exact hd
    · exact ⟨recorded_grow hr hg' (by simpa using hid), c.name, ht, hb⟩
    · exact (hg.trans hg').mono (by simp)
  · cases ht with
    | field ht hv =>
        have h := hcomplete hk _ ht
        obtain ⟨c, hV, hc, ht', _, hg⟩ := hsound h
        cases ht.unique ht'
        rw [silent_bind, hV]
        exact ⟨h, (binds_bindField hh (hf.grow hg) hc _ _ _).complete _ hv⟩
  · obtain ⟨hr, c, hc, v, hv, b, hn, hm⟩ := hr
    exact ⟨ht, ⟨c, hc, v, hv, b, hb.trans hn, hm⟩, hr.mono .rfl hs⟩

end

/-- What was found for a call is what the rules say. -/
structure CalleeStands (Γ : Context) (a : ArrayTypes) (c : Callee) (c' : Callable) : Prop where
  params : List.Forall₂ (ValueType.Denotes Γ.program a) c.params c'.params
  target : c'.Matches Γ.program c.target
  returnType : c.returnType.Denotes Γ.program a c'.returnType

theorem rel_methodCallee? (hh : Γ.program.Hierarchy) (hf : Ready Γ env scope f) {c : ClassRef}
    (hc : c.Faithful Γ.program) (name : String) :
    Option.Rel (CalleeStands Γ f.arrays) (methodCallee? env c name) (Γ.method? c.name name) := by
  have hfound := hf.env.members.rel_method? hh hc name
  unfold methodCallee? Context.method?
  generalize env.members.method? c name = found, Γ.program.method? c.name name = found' at hfound ⊢
  cases hfound with
  | none => exact .none
  | some h =>
      obtain ⟨hc, ho, hm⟩ := h
      refine .some ⟨?_, ⟨hc, by rw [← hc.classDecl_name, ho], hm.decl⟩, hm.returnType⟩
      exact List.forall₂_map_right_iff.2 hm.params

/-- A global function is silently found with its signature exactly if this is known. -/
theorem functionCallee_spec (hh : Γ.program.Hierarchy) (hp : Γ.program.ids.Nodup)
    (hf : Ready Γ env scope f) {d : FunctionDecl} (hd : d ∈ Γ.program.functions) :
    (Silent (functionCallee env d) f → ∃ c, (functionCallee env d).value f = some c ∧
      CalleeStands Γ ((functionCallee env d).after f).arrays c (.function d) ∧
      f.Grows Γ.program [] ((functionCallee env d).after f)) ∧
    (SignaturesKnown Γ.program → Silent (functionCallee env d) f) := by
  have hmem : ∀ x ∈ d.params, x.type ∈ Γ.program.typeExprs := fun x hx =>
    Program.mem_typeExprs_of_function hd
      (List.mem_cons_of_mem _ (List.mem_append_left _ (List.mem_map_of_mem hx)))
  have hret : d.returnType ∈ Γ.program.typeExprs :=
    Program.mem_typeExprs_of_function hd List.mem_cons_self
  obtain ⟨hsound, hcomplete⟩ := signatureOf_spec hh hf.env.classes hp hmem hret hf.sound
  simp only [functionCallee, silent_bind, silent_pure, and_true, after_bind, value_bind,
    after_pure, value_pure]
  constructor
  · intro h
    obtain ⟨hds, hr, _, hg⟩ := hsound h
    exact ⟨_, rfl, ⟨List.forall₂_map_right_iff.2 hds, rfl, hr⟩, hg⟩
  · exact fun hknown => hcomplete (hknown d hd)

theorem callee?_spec (hh : Γ.program.Hierarchy) (hp : Γ.program.ids.Nodup)
    (hf : Ready Γ env scope f) (name : Ident) :
    (Silent (callee? env name) f → ∃ c c', (callee? env name).value f = some c ∧
      Γ.callable? name.name = some c' ∧
      CalleeStands Γ ((callee? env name).after f).arrays c c' ∧
      f.Grows Γ.program [] ((callee? env name).after f)) ∧
    (SignaturesKnown Γ.program → ∀ c', Γ.callable? name.name = some c' →
      Silent (callee? env name) f) := by
  have hmethod : Option.Rel (CalleeStands Γ f.arrays)
      (env.current.bind fun cls => methodCallee? env cls name.name)
      (Γ.current.bind fun cls => Γ.method? cls name.name) := by
    have hcurrent := hf.env.current
    generalize env.current = current, Γ.current = current' at hcurrent ⊢
    cases hcurrent with
    | none => exact .none
    | some hc =>
        obtain ⟨hc, rfl⟩ := hc
        exact rel_methodCallee? hh hf hc name.name
  unfold Context.callable?
  rw [callee?_eq]
  generalize env.current.bind _ = found, Γ.current.bind _ = found' at hmethod ⊢
  cases hmethod with
  | some hc => exact ⟨fun _ => ⟨_, _, rfl, rfl, hc, .rfl⟩, fun _ _ _ => rfl⟩
  | none =>
      simp only [Option.elim, hf.env.functions]
      split_ifs with hprint
      · exact ⟨fun _ => ⟨_, _, rfl, rfl, ⟨.cons .int .nil, trivial, .int⟩, .rfl⟩, fun _ _ _ => rfl⟩
      · cases hd : Γ.program.function? name.name with
        | none => exact ⟨fun h => by simp at h, fun _ _ h => by cases h⟩
        | some d =>
            obtain ⟨hsound, hcomplete⟩ :=
              functionCallee_spec hh hp hf (List.mem_of_find?_eq_some hd)
            refine ⟨fun h => ?_, fun hknown _ _ => hcomplete hknown⟩
            obtain ⟨c, hc, hs, hg⟩ := hsound h
            exact ⟨c, _, hc, rfl, hs, hg⟩

/-- What the check of arguments has to do, wherever they come. -/
def ArgumentsDecided (Γ : Context) (env : Surroundings) (scope : Scope) (es : List Expr) : Prop :=
  ∀ f, Ready Γ env scope f → ∀ Ts us, List.Forall₂ (ValueType.Denotes Γ.program f.arrays) Ts us →
    (es.length = us.length → Silent (checkArguments env scope es Ts) f → HaveTypes Γ es us ∧
      ArgumentsRecorded ((checkArguments env scope es Ts).after f).arrays
        ((checkArguments env scope es Ts).after f).notes Γ es ∧
      f.Grows Γ.program (idsOfArguments es) ((checkArguments env scope es Ts).after f)) ∧
    (SignaturesKnown Γ.program → HaveTypes Γ es us → Silent (checkArguments env scope es Ts) f)

theorem decided_nil : ArgumentsDecided Γ env scope [] := by
  intro f _ Ts us hTs
  have hnil : checkArguments env scope [] Ts = pure () := by
    cases hTs <;> rfl
  rw [hnil]
  refine ⟨fun hl _ => ?_, fun _ _ => rfl⟩
  cases us with
  | nil => exact ⟨.nil, trivial, .rfl⟩
  | cons => simp at hl

theorem decided_cons (hh : Γ.program.Hierarchy) {e : Expr} {es : List Expr}
    (hids : (idsOfArguments (e :: es)).Nodup) (ihe : ExprDecided Γ env scope e)
    (ihes : ArgumentsDecided Γ env scope es) : ArgumentsDecided Γ env scope (e :: es) := by
  intro f hf Ts us hTs
  obtain ⟨_, _, hdisjoint⟩ := List.nodup_append'.1 hids
  cases hTs with
  | nil => exact ⟨fun hl => by simp at hl, fun _ h => by cases h⟩
  | cons hT hTs =>
      obtain ⟨hsound, hcomplete⟩ := operandOf_spec hh ihe hf hT (mismatch _ e)
      have hrest := fun h => ihes _ (hf.grow (hsound h).grows) _ _
        (hTs.imp fun _ _ hd => hd.mono (hsound h).grows.arrays)
      rw [checkArguments_cons, silent_bind]
      simp only [after_bind]
      constructor
      · rintro hl ⟨h, h'⟩
        obtain ⟨⟨t, ht, hs⟩, hr, hg⟩ := hsound h
        obtain ⟨hts, hrs, hgs⟩ := (hrest h).1 (by simpa using hl) h'
        exact ⟨.cons ht hs hts, ⟨recorded_grow hr hgs hdisjoint, hrs⟩, hg.trans hgs⟩
      · intro hk ht
        cases ht with
        | cons ht hs hts =>
            have h := hcomplete hk _ ht hs
            exact ⟨h, (hrest h).2 hk hts⟩

theorem silent_checkArity {expected found : Nat} {span : Span} {f : Findings} :
    Silent (checkArity expected found span) f ↔ found = expected := by
  unfold checkArity
  split_ifs <;> simp <;> omega

theorem checkArity_eq (n : Nat) (span : Span) : checkArity n n span = pure true := by
  simp [checkArity]

/-- A call is silently applied exactly if its arguments fit. -/
theorem applied_spec {args : List Expr} (hargs : ArgumentsDecided Γ env scope args)
    (hf : Ready Γ env scope f) {tag : Tag} (hid : tag.id ∉ idsOfArguments args) {c : Callee}
    {c' : Callable} (hc : CalleeStands Γ f.arrays c c') :
    (Silent (applied env scope tag args c) f → HaveTypes Γ args c'.params ∧
      ((applied env scope tag args c).value f).Denotes Γ.program
        ((applied env scope tag args c).after f).arrays c'.returnType ∧
      ArgumentsRecorded ((applied env scope tag args c).after f).arrays
        ((applied env scope tag args c).after f).notes Γ args ∧
      CallRecorded ((applied env scope tag args c).after f).notes Γ tag.id (some c') ∧
      f.Grows Γ.program (tag.id :: idsOfArguments args) ((applied env scope tag args c).after f)) ∧
    (SignaturesKnown Γ.program → HaveTypes Γ args c'.params →
      Silent (applied env scope tag args c) f) := by
  obtain ⟨hsound, hcomplete⟩ := hargs f hf _ _ hc.params
  have hlength := hc.params.length_eq
  by_cases hl : args.length = c.params.length
  · simp only [applied, hl, checkArity_eq, pure_bind, if_true, silent_bind, silent_noteCall,
      silent_pure, and_true, after_bind, value_bind, after_pure, value_pure]
    refine ⟨fun h => ?_, hcomplete⟩
    obtain ⟨ht, hr, hg⟩ := hsound (hl.trans hlength) h
    have hn := grows_noteCall (p := Γ.program)
      (f := (checkArguments env scope args c.params).after f) tag.id c.target
    refine ⟨ht, hc.returnType.mono hg.arrays, ?_, ⟨c', rfl, c.target, ?_, hc.target⟩, ?_⟩
    · refine hr.mono .rfl fun id hid' => hn.same id ?_
      rintro hmem
      rw [List.mem_singleton.1 hmem] at hid'
      exact hid hid'
    · exact (call?_insert _ _ _ _).trans (if_pos rfl)
    · exact (hg.trans hn).mono (by simp)
  · constructor
    · intro h
      rw [applied, silent_bind, silent_checkArity] at h
      exact (hl h.1).elim
    · intro _ ht
      exact (hl (ht.length.trans hlength.symm)).elim

section

variable (hh : Γ.program.Hierarchy) {tag : Tag} {name : Ident} {args : List Expr}
include hh

theorem decided_call (hp : Γ.program.ids.Nodup)
    (hids : (Expr.call tag name args).ids.Nodup) (ih : ArgumentsDecided Γ env scope args) :
    ExprDecided Γ env scope (.call tag name args) := by
  intro f hf
  obtain ⟨hid, _⟩ := List.nodup_cons.1 hids
  obtain ⟨hsound, hcomplete⟩ := callee?_spec hh hp hf name
  rw [checkExpr_call]
  refine decides_noting (fun a n => ArgumentsRecorded a n Γ args ∧
    CallRecorded n Γ tag.id (Γ.callable? name.name)) hid (fun h => ?_) (fun hk t ht => ?_)
    fun a n k hs hc _ hr ht => ?_
  · rw [silent_bind] at h
    obtain ⟨c, c', hV, hc', hc, hg⟩ := hsound h.1
    rw [hV] at h
    obtain ⟨ht, hd, hr, hcall, hg'⟩ := (applied_spec ih (hf.grow hg) hid hc).1 h.2
    refine ⟨⟨c'.returnType, .call hc' ht, ?_⟩, ?_, ?_⟩ <;> simp only [after_bind, value_bind, hV]
    · exact hd
    · exact ⟨hr, hc' ▸ hcall⟩
    · exact (hg.trans hg').mono (by simp)
  · cases ht with
    | call hc' ht =>
        have h := hcomplete hk _ hc'
        obtain ⟨c, d, hV, hd, hc, hg⟩ := hsound h
        cases hc'.symm.trans hd
        rw [silent_bind, hV]
        exact ⟨h, (applied_spec ih (hf.grow hg) hid hc).2 hk ht⟩
  · obtain ⟨hr, c, hc', target, hn, hm⟩ := hr
    exact ⟨ht, ⟨c, hc', target, hc.trans hn, hm⟩, hr.mono .rfl hs⟩

theorem decided_methodCall {receiver : Expr}
    (hids : (Expr.methodCall tag receiver name args).ids.Nodup)
    (ihr : ExprDecided Γ env scope receiver) (ih : ArgumentsDecided Γ env scope args) :
    ExprDecided Γ env scope (.methodCall tag receiver name args) := by
  intro f hf
  obtain ⟨hid, hids⟩ := List.nodup_cons.1 hids
  obtain ⟨_, _, hdisjoint⟩ := List.nodup_append'.1 hids
  obtain ⟨hreceiver, hargs⟩ := not_or.1 (List.mem_append.not.1 hid)
  obtain ⟨hsound, hcomplete⟩ := objectOf_spec ihr hf
  rw [checkExpr_methodCall]
  refine decides_noting (fun a n => receiver.Recorded a n Γ ∧
    ArgumentsRecorded a n Γ args ∧
    ∃ c, HasType Γ receiver (.object c) ∧ CallRecorded n Γ tag.id (Γ.method? c name.name)) hid
    (fun h => ?_) (fun hk t ht => ?_) fun a n k hs hc _ hr ht => ?_
  · rw [silent_bind] at h
    obtain ⟨cls, hV, hcls, ht, hr, hg⟩ := hsound h.1
    rw [hV, Option.elim, methodApplied] at h
    have hfound := rel_methodCallee? hh (hf.grow hg) hcls name.name
    generalize hcallee : methodCallee? env cls name.name = found,
      hm : Γ.method? cls.name name.name = found' at hfound h
    cases hfound with
    | none => simp at h
    | some hc =>
        obtain ⟨hts, hd, hrs, hcall, hg'⟩ := (applied_spec ih (hf.grow hg) hargs hc).1 h.2
        refine ⟨⟨_, .methodCall ht hm hts, ?_⟩, ?_, ?_⟩ <;>
          simp only [after_bind, value_bind, hV, Option.elim, methodApplied, hcallee]
        · exact hd
        · refine ⟨recorded_grow hr hg' ?_, hrs, cls.name, ht, hm ▸ hcall⟩
          exact List.disjoint_cons_right.2 ⟨hreceiver, hdisjoint⟩
        · refine (hg.trans hg').mono ?_
          simp
  · cases ht with
    | methodCall ht hm hts =>
        have h := hcomplete hk _ ht
        obtain ⟨cls, hV, hcls, ht', _, hg⟩ := hsound h
        cases ht.unique ht'
        rw [silent_bind, hV]
        refine ⟨h, ?_⟩
        have hfound := rel_methodCallee? hh (hf.grow hg) hcls name.name
        rw [hm] at hfound
        simp only [Option.elim, methodApplied]
        generalize methodCallee? env cls name.name = found at hfound ⊢
        cases hfound with
        | some hc => exact (applied_spec ih (hf.grow hg) hargs hc).2 hk hts
  · obtain ⟨hr, hrs, cls, hcls, c, hc', target, hn, hm⟩ := hr
    rw [List.forall_mem_append] at hs
    exact ⟨ht, ⟨cls, hcls, c, hc', target, hc.trans hn, hm⟩, hr.mono .rfl hs.1, hrs.mono .rfl hs.2⟩

end

section

mutual

/-- An expression of the program is silently checked exactly if it has a type. -/
theorem decided_expr (hh : Γ.program.Hierarchy) (hp : Γ.program.ids.Nodup) (env : Surroundings)
    (scope : Scope) : ∀ {e : Expr}, e.ids.Nodup → (∀ t ∈ e.written, t ∈ Γ.program.typeExprs) →
    ExprDecided Γ env scope e
  | .unary tag op operand, hids, hw =>
      decided_unary hh hids (decided_expr hh hp env scope (List.nodup_cons.1 hids).2 hw)
  | .binary tag op left right, hids, hw => by
      obtain ⟨hl, hr, _⟩ := List.nodup_append'.1 (List.nodup_cons.1 hids).2
      rw [Expr.written, List.forall_mem_append] at hw
      by_cases hop : op = .equal
      · subst hop
        exact decided_equal hh hids (decided_expr hh hp env scope hl hw.1)
          (decided_expr hh hp env scope hr hw.2)
      · exact decided_binary hh hop hids (decided_expr hh hp env scope hl hw.1)
          (decided_expr hh hp env scope hr hw.2)
  | .number _ _, _, _ => decided_number
  | .bool _ _, _, _ => decided_bool
  | .null _, _, _ => decided_null
  | .this _, _, _ => decided_this
  | .read tag l, hids, hw =>
    decided_read hids (decided_location hh hp env scope (List.nodup_cons.1 hids).2 hw)
  | .arrayLength tag array, hids, hw =>
      decided_arrayLength hids (decided_expr hh hp env scope (List.nodup_cons.1 hids).2 hw)
  | .newObject _ _, _, _ => decided_newObject hh
  | .newArray tag element size, hids, hw => by
      obtain ⟨_, hsize, _⟩ := List.nodup_append'.1 (List.nodup_cons.1 hids).2
      rw [Expr.written, List.forall_mem_cons] at hw
      exact decided_newArray hh hp hids hw.1 (decided_expr hh hp env scope hsize hw.2)
  | .call tag name args, hids, hw =>
      decided_call hh hp hids (decided_arguments hh hp env scope (List.nodup_cons.1 hids).2 hw)
  | .methodCall tag receiver name args, hids, hw => by
      obtain ⟨hr, hargs, _⟩ := List.nodup_append'.1 (List.nodup_cons.1 hids).2
      rw [Expr.written, List.forall_mem_append] at hw
      exact decided_methodCall hh hids (decided_expr hh hp env scope hr hw.1)
        (decided_arguments hh hp env scope hargs hw.2)
termination_by structural e => e

theorem decided_location (hh : Γ.program.Hierarchy) (hp : Γ.program.ids.Nodup) (env : Surroundings)
    (scope : Scope) : ∀ {l : Location}, l.ids.Nodup →
    (∀ t ∈ l.written, t ∈ Γ.program.typeExprs) → LocationDecided Γ env scope l
  | .var _ _, _, _ => decided_var hh
  | .field tag receiver x, hids, hw =>
      decided_field hh hids (decided_expr hh hp env scope (List.nodup_cons.1 hids).2 hw)
  | .index tag array index, hids, hw => by
      obtain ⟨ha, hi, _⟩ := List.nodup_append'.1 (List.nodup_cons.1 hids).2
      rw [Location.written, List.forall_mem_append] at hw
      exact decided_index hh hids (decided_expr hh hp env scope ha hw.1)
        (decided_expr hh hp env scope hi hw.2)
termination_by structural l => l

theorem decided_arguments (hh : Γ.program.Hierarchy) (hp : Γ.program.ids.Nodup) (env : Surroundings)
    (scope : Scope) : ∀ {es : List Expr}, (idsOfArguments es).Nodup →
    (∀ t ∈ writtenInArguments es, t ∈ Γ.program.typeExprs) → ArgumentsDecided Γ env scope es
  | [], _, _ => decided_nil
  | e :: es, hids, hw => by
      obtain ⟨he, hes, _⟩ := List.nodup_append'.1 hids
      rw [writtenInArguments, List.forall_mem_append] at hw
      exact decided_cons hh hids (decided_expr hh hp env scope he hw.1)
        (decided_arguments hh hp env scope hes hw.2)
termination_by structural es => es

end

end

end Check
end ObjectLang
