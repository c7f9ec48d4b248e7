import Mathlib.Tactic
import ObjectLang.Proofs.Lowering.Paired
import ObjectLang.Proofs.Machine.Alike
import ObjectLang.Proofs.Simulation.Programs

/-!
# Programs that become code that is alike

The code of a program and that of a counterpart of it go together procedure by procedure: functions
and methods, constructors, and the procedures that make arrays. So both programs show the same when
they run, whatever names and numbers their procedures and structs have.
-/
namespace ObjectLang

open IR Machine

section starting

variable {p : Program} {body : Body} {r : Routine} {s s' : LowerState}

/-- The types of the receiver and of the parameters. -/
def Routine.plains (r : Routine) : List PlainType :=
  (r.owner.toList.map fun c => .object c.name) ++ r.decl.params.map VarDecl.plain

/-- The first temporaries of a procedure are for the receiver and the parameters. -/
theorem Routine.Made.typed_temp (h : r.Made p body s s') {i : Nat} {t : PlainType}
    (ht : r.plains[i]? = some t) : (r.job p body).Typed s (.temp i) t := by
  have hparam : ∀ (k : Nat) (d : VarDecl), r.decl.params[k]? = some d →
      (r.job p body).Typed s (.temp (r.owner.toList.length + k)) d.plain := by
    intro k d hd
    have hk := (List.getElem?_eq_some_iff.1 hd).1
    refine h.typed (r.owner.toList.length + k, d) (List.mem_iff_getElem?.2 ⟨k, ?_⟩)
    rw [List.getElem?_zip_eq_some, Routine.temps, List.getElem?_range' hk, Nat.one_mul]
    exact ⟨rfl, hd⟩
  rw [Routine.plains] at ht
  cases howner : r.owner with
  | none =>
      rw [howner, Option.toList_none, List.map_nil, List.nil_append, List.getElem?_map] at ht
      obtain ⟨d, hd, rfl⟩ := Option.map_eq_some_iff.1 ht
      have htyped := hparam i d hd
      rwa [howner, Option.toList_none, List.length_nil, Nat.zero_add] at htyped
  | some c =>
      rw [howner, Option.toList_some, List.map_singleton, List.singleton_append] at ht
      cases i with
      | zero =>
          obtain rfl := Option.some.inj ht
          obtain ⟨x, hx, htyped⟩ :=
            h.stage.receiver c.name (by simp [Routine.job, Routine.current, howner])
          have hthis : r.owner.map (fun _ => 0) = some x := hx
          rw [howner] at hthis
          obtain rfl : 0 = x := Option.some.inj hthis
          exact htyped
      | succ i =>
          rw [List.getElem?_cons_succ, List.getElem?_map] at ht
          obtain ⟨d, hd, rfl⟩ := Option.map_eq_some_iff.1 ht
          have htyped := hparam i d hd
          rwa [howner, Option.toList_some, List.length_singleton, Nat.add_comm] at htyped

/-- What there was when the code of a routine was made. -/
theorem Routine.Made.stock (h : r.Made p body s s') : s.stock.Stands p body :=
  ⟨h.stage.target, h.stage.layouts, fun x hx => (h.stage.allocators x hx).imp fun _ hx => hx.1⟩

/-- A compiled program has what its code needs. -/
theorem Program.Compiled.stock {routines : List (Routine × Signature)}
    (h : p.Compiled body routines s) : s.stock.Stands p body := by
  refine ⟨h.done.target, h.done.layouts, fun x hx => ?_⟩
  obtain ⟨t, _, _, ht, _⟩ := h.done.makes x hx List.not_mem_nil
  exact ⟨t, ht⟩

/-- The procedure of a signature has the code of the function or method. -/
theorem Program.Compiled.coded {routines : List (Routine × Signature)}
    (h : p.Compiled body routines s) (hr : r.Belongs p) {sg : Signature}
    (hsg : body.layouts.signature? r = some sg) : r.Coded p body s sg.procedure := by
  obtain ⟨sg', hsg', hcoded⟩ := h.exists_coded hr
  obtain rfl := Option.some.inj (hsg'.symm.trans hsg)
  exact hcoded

/-- What two programs have when their code is complete. -/
def StockPair.compiled {p p' : Program} {body body' : Body}
    {routines routines' : List (Routine × Signature)} {s s' : LowerState}
    (h : p.Compiled body routines s) (h' : p'.Compiled body' routines' s') :
    StockPair p p' body body' :=
  ⟨s.stock, s'.stock, h.stock, h'.stock⟩

end starting

section constructors

variable {S C : Nat → Nat → Prop} {fields fields' : List Field}

theorem fieldStores_alike (h : List.Forall₂ (fun f f' => f.type.Alike S f'.type) fields fields')
    (k : Nat) : List.Forall₂ (Instruction.Alike S C) (fieldStores k fields)
      (fieldStores k fields') := by
  induction h generalizing k with
  | nil => exact .nil
  | @cons f f' _ _ hf _ ih =>
      rw [fieldStores, fieldStores, hf.defaultValue]
      exact .cons (.same rfl rfl) (.cons (.same rfl rfl) (ih (k + 1)))

theorem Entrywise.toArray {α β : Type} {R : α → β → Prop} {xs : List α} {ys : List β}
    (h : List.Forall₂ R xs ys) : Entrywise R xs.toArray ys.toArray := by
  refine ⟨h.length_eq, fun i x y hx hy => ?_⟩
  rw [List.getElem?_toArray] at hx hy
  obtain ⟨hi, rfl⟩ := List.getElem?_eq_some_iff.1 hx
  obtain ⟨hj, rfl⟩ := List.getElem?_eq_some_iff.1 hy
  exact h.get hi hj

/-- Constructors for related structs are alike. -/
theorem constructorCode_alike {i j : Nat} (hij : S i j)
    (h : List.Forall₂ (fun f f' => f.type.Alike S f'.type) fields fields') (cls cls' : String)
    (size : Nat) :
    (constructorCode cls i size fields).Alike S C (constructorCode cls' j size fields') := by
  refine ⟨.pointer (.struct hij), rfl, Entrywise.toArray (.cons (.pointer .byte)
    (.cons (.pointer (.struct hij)) ?_)), Entrywise.toArray (.cons ⟨?_, rfl⟩ .nil)⟩
  · rw [fieldTemps, fieldTemps, List.forall₂_map_left_iff, List.forall₂_map_right_iff]
    exact h.imp fun _ _ hf => .pointer hf
  · exact .cons (.same rfl rfl) (.cons (.same rfl rfl) (fieldStores_alike h 0))

theorem instructions_allocatorBlocks (layout : ArrayLayout) (elementSize : Nat) :
    ∀ b ∈ allocatorBlocks layout elementSize, ∀ i ∈ b.instructions,
      i = .alloca 7 .int ∨ i.isPlain = true := by
  simp [allocatorBlocks, Instruction.isPlain]

/-- Procedures that make arrays of types that are alike are alike. -/
theorem allocatorCode_alike {returnType returnType' : Ty} {layout layout' : ArrayLayout}
    (hreturn : returnType.Alike S returnType')
    (hpointer : layout.pointerType.Alike S layout'.pointerType)
    (helement : layout.element.Alike S layout'.element) (component component' : ValueType)
    (elementSize : Nat) :
    (allocatorCode component returnType layout elementSize).Alike S C
      (allocatorCode component' returnType' layout' elementSize) := by
  have hblocks : allocatorBlocks layout' elementSize = allocatorBlocks layout elementSize := by
    rw [allocatorBlocks, allocatorBlocks, helement.defaultValue]
  rw [allocatorCode_eq, allocatorCode_eq, hblocks]
  refine ⟨hreturn, rfl, Entrywise.toArray ?_,
    Entrywise.toArray (List.forall₂_same.2 fun b hb => ⟨List.forall₂_same.2 fun i hi => ?_, rfl⟩)⟩
  · simp only [allocatorTemps, List.forall₂_cons, List.Forall₂.nil, and_true]
    exact ⟨.int, .bool, .int, .int, .pointer .byte, hpointer, .pointer .int, .pointer .int, .int,
      .bool, .int, .pointer helement, .int⟩
  · rcases instructions_allocatorBlocks layout elementSize b hb i hi with rfl | hplain
    · exact .alloca .int
    · exact alike_of_isPlain hplain

end constructors

namespace Twins

variable {ρ : String → String} {p p' : Program} {body body' : Body} (H : Twins ρ p p' body body')
include H

section routines

variable {r r' : Routine} (hr : r.Paired ρ p p' r')
include hr

omit H in
theorem decl_eq : r'.decl = r.decl.relabel (.rename ρ) := by
  cases hr <;> rfl

omit H in
theorem current_eq : r'.current = r.current.map ρ := by
  cases hr with
  | function => rfl
  | method hc => exact congrArg some hc.name

omit H in
theorem isSome_owner_eq : r'.owner.isSome = r.owner.isSome := by
  cases hr <;> rfl

omit H in
theorem plains_eq : r'.plains = r.plains.map (PlainType.rename ρ) := by
  have hparams : ∀ f : FunctionDecl, (f.relabel (.rename ρ)).params.map VarDecl.plain =
      (f.params.map VarDecl.plain).map (PlainType.rename ρ) := by
    intro f
    rw [FunctionDecl.relabel, List.map_map, List.map_map]
    exact List.map_congr_left fun d _ => d.plain_rename
  cases hr with
  | function => exact hparams _
  | @method c c' f hc _ =>
      have hobject : PlainType.object c'.name = (PlainType.object c.name).rename ρ :=
        congrArg PlainType.object hc.name
      exact congrArg₂ List.cons hobject (hparams f)

omit hr in
/-- A method of a class is a method of the class of the new name. -/
theorem mem_methods {c c' : ClassRef} {f : FunctionDecl} (hc : c.Paired ρ p p' c')
    (hf : f ∈ (p.classDecl c).methods) : f.relabel (.rename ρ) ∈ (p'.classDecl c').methods := by
  rw [H.classDecl hc]
  exact List.mem_map_of_mem hf

omit hr in
theorem mem_functions {f : FunctionDecl} (hf : f ∈ p.functions) :
    f.relabel (.rename ρ) ∈ p'.functions :=
  H.counterpart.functions.mem_iff.1 (List.mem_map_of_mem hf)

/-- Both routines are routines of their programs. -/
theorem belongs : r.Belongs p ∧ r'.Belongs p' := by
  cases hr with
  | function hf => exact ⟨hf, H.mem_functions hf⟩
  | method hc hf => exact ⟨⟨hc.left, hf⟩, hc.right, H.mem_methods hc hf⟩

/-- What is noted of both routines is true of them. -/
theorem recorded : r.decl.Recorded body.analysis.arrays body.analysis.notes
      (p.place body.options.printFunction r.current) ∧
    r'.decl.Recorded body'.analysis.arrays body'.analysis.notes
      (p'.place body'.options.printFunction r'.current) := by
  cases hr with
  | function hf =>
      exact ⟨H.left.accepted.recorded.functions _ hf,
        H.right.accepted.recorded.functions _ (H.mem_functions hf)⟩
  | @method c c' f hc hf =>
      have hcurrent : ∀ {p : Program} {c : ClassRef} {f : FunctionDecl}, c.Faithful p →
          (Routine.mk (some c) f).current = some (p.classDecl c).name.name :=
        fun hc => congrArg some hc.classDecl_name.symm
      rw [hcurrent hc.left, hcurrent hc.right]
      exact ⟨H.left.accepted.recorded.methods _ hc.left.mem _ hf,
        H.right.accepted.recorded.methods _ hc.right.mem _ (H.mem_methods hc hf)⟩

variable {s₁ s₂ s₁' s₂' : LowerState} (h : r.Made p body s₁ s₂) (h' : r'.Made p' body' s₁' s₂')
include h h'

omit H in
/-- The procedures of both routines start alike. -/
theorem start_alike {w : StockPair p p' body body'} (hw : w = ⟨_, _, h.stock, h'.stock⟩) :
    s₁.builder.Alike (w.Structs ρ) (w.Callees ρ) s₁'.builder := by
  subst hw
  obtain ⟨q, types, returnType, hq, hlength, hstart⟩ := h.start
  obtain ⟨q', types', returnType', hq', hlength', hstart'⟩ := h'.start
  have hcount : types.length = types'.length := by
    have hplains := congrArg List.length (plains_eq hr)
    simp only [Routine.plains, List.length_map, List.length_append] at hplains
    omega
  have hsize := hq.size
  have hsize' := hq'.size
  have hparams := hq.params
  have hparams' := hq'.params
  have hentry : ∀ {r : Routine} {q : Procedure} {p : Program} {body : Body}
      {s s' : LowerState} {i : Nat} {x : Temp} {t : PlainType}, r.Made p body s s' →
      s.builder = Builder.start q "entry" → q.temps[i]? = some x → r.plains[i]? = some t →
      Represents p body.analysis.arrays body.layouts.structs s.target t x.type := by
    intro r q p body s s' i x t hmade hstart hx ht
    obtain ⟨ty, hty, hr⟩ := hmade.typed_temp ht
    have htype : s.builder.procedure.typeOf? (.temp i) = q.temps[i]?.map Temp.type := by
      rw [hstart]
      rfl
    rw [htype, hx] at hty
    exact Option.some.inj hty ▸ hr
  have hresult := h.stage.result
  have hresult' := h'.stage.result
  rw [hstart] at hresult ⊢
  rw [hstart'] at hresult' ⊢
  refine Builder.Alike.start ⟨?_, ?_, ⟨?_, fun i x y hx hy => ?_⟩, ?_⟩ "entry"
  · have hdecl : (r'.job p' body').result = (r.job p body).result.rename ρ := by
      rw [Routine.job, decl_eq hr]
      exact TypeExpr.plain_rename _
    exact StockPair.alike_of_represents hresult (hdecl ▸ hresult')
  · rw [hparams, hparams', hcount]
  · rw [hsize, hsize', hcount]
  · have hlt : i < r.plains.length := by
      have := (Array.getElem?_eq_some_iff.1 hx).1
      simp only [Routine.plains, List.length_map, List.length_append]
      omega
    have ht := List.getElem?_eq_getElem hlt
    have ht' : r'.plains[i]? = some (r.plains[i].rename ρ) := by
      rw [plains_eq hr, List.getElem?_map, ht, Option.map_some]
    exact StockPair.alike_of_represents (hentry h hstart hx ht)
      (hentry h' hstart' hy ht')
  · rw [hq.blocks, hq'.blocks]
    exact .empty

/-- The code of both routines is alike. -/
theorem made_alike : ∃ v : StockPair p p' body body', v.left = s₂.stock ∧ v.right = s₂'.stock ∧
    s₂.builder.procedure.Alike (v.Structs ρ) (v.Callees ρ) s₂'.builder.procedure := by
  obtain ⟨hleft, hright⟩ := H.recorded hr
  let w : StockPair p p' body body' := ⟨_, _, h.stock, h'.stock⟩
  let Γ : Context := { p.place body.options.printFunction r.current with
    locals := r.decl.params.reverse }
  let Γ' : Context := { p'.place body'.options.printFunction r'.current with
    locals := r'.decl.params.reverse }
  have hΓ : Γ.Paired ρ p p' Γ' := by
    refine ⟨⟨H.counterpart, H.printName, current_eq hr, ?_⟩, rfl, rfl⟩
    have hparams : r'.decl.params = r.decl.params.map (·.relabel (.rename ρ)) := by
      rw [decl_eq hr]
      rfl
    simp only [Γ, Γ', hparams, List.map_reverse]
  have hbody : r'.decl.body = relabelBody (.rename ρ) r.decl.body := by
    rw [decl_eq hr]
    rfl
  have hright := hright.body
  rw [hbody] at hright
  have hparallel := parallel_lowerBody H.operations H.related r.owner.isSome (f := r.decl) (w := w)
    (bodyLocals _ hΓ hleft.body hright) (H.bodyNodes w _ hΓ hleft.body hright)
  have hran' := h'.ran
  rw [isSome_owner_eq hr, decl_eq hr] at hran'
  obtain ⟨v, _, _, hstock, hbuilder⟩ := hparallel _ _ _ _ _ _
    ⟨⟨rfl, rfl⟩, start_alike hr h h' rfl⟩ h.ran hran'
  exact ⟨v, hstock.1.symm, hstock.2.symm, hbuilder.procedure⟩

end routines

section modules

variable {routines routines' : List (Routine × Signature)} {s s' : LowerState}
  (h : p.Compiled body routines s) (h' : p'.Compiled body' routines' s')
include h h'

/-- Structs of one type have fields of types that are alike. -/
theorem structs_alike {i j : Nat} (hij : (StockPair.compiled h h').Structs ρ i j) :
    ∃ t t', s.target.module.structs[i]? = some t ∧ s'.target.module.structs[j]? = some t' ∧
      List.Forall₂ (fun f f' => f.type.Alike ((StockPair.compiled h h').Structs ρ) f'.type)
        t.fields t'.fields ∧
        (∀ f ∈ t.fields, f.type.Flat) ∧ ∀ f ∈ t'.fields, f.type.Flat := by
  obtain ⟨t, hi, hj⟩ := hij
  cases t with
  | int | bool | null => cases hi
  | object cls =>
      cases hi with
      | object hi =>
          cases hj with
          | object hj =>
              obtain ⟨c, hc, rfl⟩ := H.distinct.faithful _ _ hi
              obtain ⟨c', hc', hname⟩ := H.distinct'.faithful _ _ hj
              obtain ⟨l, _, hl⟩ := h.done.layouts.classes c hc
              obtain ⟨l', _, hl'⟩ := h'.done.layouts.classes c' hc'
              obtain rfl := Option.some.inj (hl.struct.symm.trans hi)
              obtain rfl := Option.some.inj (hl'.struct.symm.trans (hname ▸ hj))
              obtain ⟨name, fields, hs, hfields⟩ := hl.fields
              obtain ⟨name', fields', hs', hfields'⟩ := hl'.fields
              refine ⟨_, _, hs, hs', ?_, fun f hf => ?_, fun f hf => ?_⟩
              · rw [hname, H.counterpart.fieldsOf, List.forall₂_map_left_iff] at hfields'
                refine forall₂_through hfields hfields' fun x f f' hf hf' => ?_
                exact StockPair.alike_of_represents hf (x.2.plain_rename ▸ hf')
              · obtain ⟨_, _, hr⟩ := exists_of_mem_right hfields hf
                exact hr.flat
              · obtain ⟨_, _, hr⟩ := exists_of_mem_right hfields' hf
                exact hr.flat
  | array t =>
      cases hi with
      | array hm hV =>
          cases hj with
          | array hm' hV' =>
              obtain ⟨u, name, ⟨hu, _⟩, helement, hs⟩ := h.done.target.struct _ _ hm
              obtain ⟨u', name', ⟨hu', _⟩, helement', hs'⟩ := h'.done.target.struct _ _ hm'
              obtain rfl := hu.functional hV
              obtain rfl := hu'.functional hV'
              have hcounter : Ty.Alike ((StockPair.compiled h h').Structs ρ) .int .int := .int
              refine ⟨_, _, hs, hs', .cons hcounter (.cons (.array ?_) .nil),
                ArrayLayout.fields_flat helement.flat, ArrayLayout.fields_flat helement'.flat⟩
              exact StockPair.alike_of_represents helement helement'

/-- The constructors of one class are alike. -/
theorem constructors_alike {c c' : ClassRef} (hc : c.Paired ρ p p' c') {l l' : ClassLayout}
    (hl : body.layouts.class? c.name = some l) (hl' : body'.layouts.class? c'.name = some l') :
    ∃ q q', s.target.module.procedures[l.constructor]? = some q ∧
      s'.target.module.procedures[l'.constructor]? = some q' ∧
        q.Alike ((StockPair.compiled h h').Structs ρ) ((StockPair.compiled h h').Callees ρ) q' := by
  obtain ⟨_, hl₁, hfilled⟩ := h.done.classes c hc.left
  obtain rfl := Option.some.inj (hl.symm.trans hl₁)
  obtain ⟨_, hl₁', hfilled'⟩ := h'.done.classes c' hc.right
  obtain rfl := Option.some.inj (hl'.symm.trans hl₁')
  have hij : (StockPair.compiled h h').Structs ρ l.struct l'.struct :=
    ⟨.object c.name, .object hfilled.struct, .object (hc.name ▸ hfilled'.struct)⟩
  obtain ⟨t, t', ht, ht', hfields, hflat, hflat'⟩ := H.structs_alike h h' hij
  refine ⟨_, _, hfilled.constructor, hfilled'.constructor, ?_⟩
  rw [constructorOf_eq c.name ht, constructorOf_eq c'.name ht', sizeOf_struct ht hflat,
    sizeOf_struct ht' hflat', fieldBytes_alike hfields]
  exact constructorCode_alike hij hfields ..

/-- The procedures of one function or method are alike. -/
theorem routines_alike {r r' : Routine} (hr : r.Paired ρ p p' r') {sg sg' : Signature}
    (hsg : body.layouts.signature? r = some sg) (hsg' : body'.layouts.signature? r' = some sg') :
    ∃ q q', s.target.module.procedures[sg.procedure]? = some q ∧
      s'.target.module.procedures[sg'.procedure]? = some q' ∧
        q.Alike ((StockPair.compiled h h').Structs ρ) ((StockPair.compiled h h').Callees ρ) q' := by
  obtain ⟨hbelongs, hbelongs'⟩ := H.belongs hr
  obtain ⟨s₁, s₂, hmade, hkeeps, _, hallocators, hq⟩ := h.coded hbelongs hsg
  obtain ⟨s₁', s₂', hmade', hkeeps', _, hallocators', hq'⟩ := h'.coded hbelongs' hsg'
  obtain ⟨v, hleft, hright, halike⟩ := H.made_alike hr hmade hmade'
  have hv : v ≤ StockPair.compiled h h' := by
    refine ⟨?_, ?_⟩
    · rw [hleft]
      exact ⟨hkeeps, hallocators.subset⟩
    · rw [hright]
      exact ⟨hkeeps', hallocators'.subset⟩
  exact ⟨_, _, hq, hq', halike.mono (fun _ _ hij => hij.mono hv) fun _ _ hij => hij.mono hv⟩

omit H in
/-- The procedures that make the arrays of one type are alike. -/
theorem allocators_alike {V V' : ValueType} {i j : Nat}
    (hV : V.Paired ρ p p' body.analysis.arrays body'.analysis.arrays V')
    (hi : (V, i) ∈ s.allocators) (hj : (V', j) ∈ s'.allocators) :
    ∃ q q', s.target.module.procedures[i]? = some q ∧ s'.target.module.procedures[j]? = some q' ∧
      q.Alike ((StockPair.compiled h h').Structs ρ) ((StockPair.compiled h h').Callees ρ) q' := by
  obtain ⟨t, ht, ht'⟩ := hV
  obtain ⟨u, layout, _, hu, hpointer, helement, _, hq⟩ := h.done.makes _ hi List.not_mem_nil
  obtain ⟨u', layout', _, hu', hpointer', helement', _, hq'⟩ :=
    h'.done.makes _ hj List.not_mem_nil
  obtain rfl := ht.functional hu
  obtain rfl := ht'.functional hu'
  have helements : layout.element.Alike ((StockPair.compiled h h').Structs ρ) layout'.element :=
    StockPair.alike_of_represents helement helement'
  have hpointers : layout.pointerType.Alike ((StockPair.compiled h h').Structs ρ)
      layout'.pointerType :=
    StockPair.alike_of_represents (t := .array t) hpointer hpointer'
  have hsize : layout.element.size = layout'.element.size :=
    size_alike helements
  refine ⟨_, _, hq, hq', ?_⟩
  rw [sizeOf_flat helement.flat, sizeOf_flat helement'.flat, hsize]
  exact allocatorCode_alike hpointers hpointers helements ..

/-- Procedures that do the same work are alike. -/
theorem procedures_alike {i j : Nat} (hij : (StockPair.compiled h h').Callees ρ i j) :
    ∃ q q', s.target.module.procedures[i]? = some q ∧ s'.target.module.procedures[j]? = some q' ∧
      q.Alike ((StockPair.compiled h h').Structs ρ) ((StockPair.compiled h h').Callees ρ) q' := by
  cases hij with
  | constructor hc hl hl' => exact H.constructors_alike h h' hc hl hl'
  | routine hr hs hs' => exact H.routines_alike h h' hr hs hs'
  | allocator hV hi hj => exact allocators_alike h h' hV hi hj

/-- The modules of both programs are alike. -/
theorem modules_alike : ModulesAlike ((StockPair.compiled h h').Structs ρ)
    ((StockPair.compiled h h').Callees ρ)
    s.target.module s'.target.module :=
  ⟨fun _ _ => H.structs_alike h h', fun _ _ => H.procedures_alike h h'⟩

/-- Both programs show the same when they run, if the function that they start with keeps its
name. -/
theorem execute_eq (hmain : ρ mainName = mainName) (limit : Nat) :
    execute s.target.module mainName limit = execute s'.target.module mainName limit := by
  obtain ⟨T₀, h₀⟩ := h.built
  obtain ⟨T₀', h₀'⟩ := h'.built
  obtain ⟨f, hf, hname, _⟩ := h.prepared.accepted.wellFormed.main
  have hname' : (f.relabel (.rename ρ)).name.name = mainName := by
    rw [f.name_rename, hname, hmain]
  obtain ⟨sg, hx⟩ := h₀.mem_functions hf
  obtain ⟨sg', hx'⟩ := h₀'.mem_functions (H.mem_functions hf)
  have hcallee : (StockPair.compiled h h').Callees ρ sg.procedure sg'.procedure :=
    .routine (.function hf) (h₀.signatures _ hx) (h₀'.signatures _ hx')
  refine (H.modules_alike h h').execute (h.findProcedure? hname hx) (h'.findProcedure? hname' hx')
    hcallee limit fun f hinternal hresult => ?_
  cases h.expected limit hresult <;> cases hinternal

end modules

end Twins

end ObjectLang
