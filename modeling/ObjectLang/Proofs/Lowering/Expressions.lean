import Mathlib.Tactic
import ObjectLang.Proofs.Lowering.Calls

/-!
# The meaning of code for expressions

Code for an expression computes its value, and code for a location its address: by recursion over
the tree, because what is noted of the tree says which of the ways to make code is taken.
-/
namespace ObjectLang

open Machine IR

variable {J : Job} {Γ : Context}

namespace Context

theorem field?_spec (hh : Γ.program.Hierarchy) {cls name : String} {c : ClassRef} {d : VarDecl}
    (hc : c.Faithful Γ.program) (h : Γ.field? cls name = some (.field c.name d)) :
    Γ.program.Below cls c.name ∧ (c.name, d) ∈ Γ.program.fieldsOf cls ∧
      d ∈ (Γ.program.classDecl c).fields := by
  rw [Context.field?, Option.map_eq_some_iff] at h
  obtain ⟨⟨owner, d'⟩, hfield, heq⟩ := h
  obtain ⟨howner, rfl⟩ := Variable.field.inj heq
  obtain ⟨hmem, hd⟩ := Program.field?_eq_some hfield
  rw [← howner, hh.eq_of_name hc.mem (Program.mem_classes_of_mem_lineage hmem)
    (hc.classDecl_name.trans howner.symm)]
  exact ⟨hh.below_of_mem_lineage hmem, Program.mem_fieldsOf hmem hd, hd⟩

theorem method?_spec (hh : Γ.program.Hierarchy) {cls name : String} {c : ClassRef}
    {f : FunctionDecl} (hc : c.Faithful Γ.program)
    (h : Γ.method? cls name = some (.method c.name f)) :
    Γ.program.Below cls c.name ∧ f ∈ (Γ.program.classDecl c).methods := by
  rw [Context.method?, Option.map_eq_some_iff] at h
  obtain ⟨⟨owner, f'⟩, hmethod, heq⟩ := h
  obtain ⟨howner, rfl⟩ := Callable.method.inj heq
  obtain ⟨hmem, hf⟩ := Program.method?_eq_some hmethod
  rw [← howner, hh.eq_of_name hc.mem (Program.mem_classes_of_mem_lineage hmem)
    (hc.classDecl_name.trans howner.symm)]
  exact ⟨hh.below_of_mem_lineage hmem, hf⟩

theorem resolve?_slot {name : String} {d : VarDecl} (h : Γ.resolve? name = some (.slot d)) :
    d ∈ Γ.locals := by
  rw [resolve?] at h
  cases hl : Γ.local? name with
  | some d' =>
      rw [hl] at h
      cases h
      exact List.mem_of_find?_eq_some hl
  | none =>
      simp only [hl, Option.bind_eq_some_iff, Context.field?, Option.map_eq_some_iff] at h
      obtain ⟨_, _, _, _, heq⟩ := h
      cases heq

theorem resolve?_field {name owner : String} {d : VarDecl}
    (h : Γ.resolve? name = some (.field owner d)) :
    ∃ cls, Γ.current = some cls ∧ Γ.field? cls name = some (.field owner d) := by
  rw [resolve?] at h
  cases hl : Γ.local? name with
  | some d' =>
      rw [hl] at h
      cases h
  | none =>
      rw [hl] at h
      exact Option.bind_eq_some_iff.1 h

theorem callable?_function {name : String} {f : FunctionDecl}
    (h : Γ.callable? name = some (.function f)) : f ∈ Γ.program.functions := by
  rw [callable?] at h
  split at h
  · rename_i method hm
    cases h
    obtain ⟨_, _, heq⟩ := Option.bind_eq_some_iff.1 hm
    rw [Context.method?, Option.map_eq_some_iff] at heq
    obtain ⟨_, _, heq⟩ := heq
    cases heq
  · split_ifs at h
    · cases h
    · obtain ⟨f', hf, heq⟩ := Option.map_eq_some_iff.1 h
      cases heq
      exact List.mem_of_find?_eq_some hf

theorem callable?_method {name owner : String} {f : FunctionDecl}
    (h : Γ.callable? name = some (.method owner f)) :
    ∃ cls, Γ.current = some cls ∧ Γ.method? cls name = some (.method owner f) := by
  rw [callable?] at h
  split at h
  · rename_i method hm
    cases h
    exact Option.bind_eq_some_iff.1 hm
  · split_ifs at h
    · cases h
    · obtain ⟨_, _, heq⟩ := Option.map_eq_some_iff.1 h
      cases heq

end Context

section

variable (hΓ : J.Sees Γ) (hh : J.program.Hierarchy)
include hΓ hh

theorem lowers_var {tag : Tag} {x : Ident}
    (h : BindingRecorded J.body.analysis.notes Γ tag.id (Γ.resolve? x.name)) :
    J.LowersLocation Γ (.var tag x) := by
  obtain ⟨v, hv, b, hb, hm⟩ := h
  rw [hΓ.program] at hm
  cases v with
  | slot d =>
      obtain d' | _ := b
      · obtain rfl : d' = d := hm
        exact lowers_slot hΓ hv (Context.resolve?_slot hv) hb
      · exact hm.elim
  | field owner d =>
      obtain _ | ⟨c, d'⟩ := b
      · exact hm.elim
      · obtain ⟨hc, rfl, rfl⟩ := hm
        obtain ⟨cls, hcls, hfield⟩ := Context.resolve?_field hv
        rw [← hΓ.program] at hh hc
        obtain ⟨hbelow, _, hd⟩ := Context.field?_spec hh hc hfield
        rw [hΓ.program] at hc hbelow hd
        exact lowers_ownField hΓ hv (hΓ.current ▸ hcls) hc hbelow hd hb

theorem lowers_fieldOf {tag : Tag} {e : Expr} {x : Ident} {cls : String} (he : J.Lowers Γ e)
    (hnote : TypeRecorded J.body.analysis.arrays J.body.analysis.notes Γ e.id (HasType Γ e))
    (hcls : HasType Γ e (.object cls))
    (h : BindingRecorded J.body.analysis.notes Γ tag.id (Γ.field? cls x.name)) :
    J.LowersLocation Γ (.field tag e x) := by
  obtain ⟨v, hv, b, hb, hm⟩ := h
  obtain ⟨u, hu, T, hT, hd⟩ := hnote
  obtain rfl := hcls.unique hu
  rw [hΓ.program] at hm hd
  cases hd with
  | @object c _ hc hname =>
      subst hname
      cases v with
      | slot d =>
          rw [Context.field?, Option.map_eq_some_iff] at hv
          obtain ⟨_, _, heq⟩ := hv
          cases heq
      | field owner d =>
          obtain _ | ⟨c', d'⟩ := b
          · exact hm.elim
          · obtain ⟨hc', rfl, rfl⟩ := hm
            rw [← hΓ.program] at hh hc'
            obtain ⟨_, hmem, hd⟩ := Context.field?_spec hh hc' hv
            rw [hΓ.program] at hc' hmem hd
            exact lowers_field hΓ he hc hcls hT hv hc' hmem hd hb

theorem lowers_call {tag : Tag} {f : Ident} {args : List Expr} (hargs : J.LowersArguments Γ args)
    (h : CallRecorded J.body.analysis.notes Γ tag.id (Γ.callable? f.name)) :
    J.Lowers Γ (.call tag f args) := by
  obtain ⟨f', hf, target, ht, hm⟩ := h
  rw [hΓ.program] at hm
  cases f' with
  | print =>
      cases target with
      | print => exact lowers_print hargs hf ht
      | _ => exact hm.elim
  | function decl =>
      cases target with
      | function decl' =>
          obtain rfl : decl' = decl := hm
          exact lowers_function hargs hf (hΓ.program ▸ Context.callable?_function hf) ht
      | _ => exact hm.elim
  | method owner decl =>
      cases target with
      | method c decl' =>
          obtain ⟨hc, rfl, rfl⟩ := hm
          obtain ⟨cls, hcls, hmethod⟩ := Context.callable?_method hf
          rw [← hΓ.program] at hh hc
          obtain ⟨hbelow, hmem⟩ := Context.method?_spec hh hc hmethod
          rw [hΓ.program] at hc hbelow hmem
          exact lowers_ownMethod hargs hf (hΓ.current ▸ hcls) hc hbelow hmem ht
      | _ => exact hm.elim

theorem lowers_callOn {tag : Tag} {e : Expr} {f : Ident} {args : List Expr} {cls : String}
    (he : J.Lowers Γ e) (hargs : J.LowersArguments Γ args) (hcls : HasType Γ e (.object cls))
    (h : CallRecorded J.body.analysis.notes Γ tag.id (Γ.method? cls f.name)) :
    J.Lowers Γ (.methodCall tag e f args) := by
  obtain ⟨f', hf, target, ht, hm⟩ := h
  rw [hΓ.program] at hm
  obtain ⟨owner, decl, rfl⟩ : ∃ owner decl, f' = .method owner decl := by
    rw [Context.method?, Option.map_eq_some_iff] at hf
    obtain ⟨⟨owner, decl⟩, _, heq⟩ := hf
    exact ⟨_, _, heq.symm⟩
  cases target with
  | method c decl' =>
      obtain ⟨hc, rfl, rfl⟩ := hm
      rw [← hΓ.program] at hh hc
      obtain ⟨hbelow, hmem⟩ := Context.method?_spec hh hc hf
      rw [hΓ.program] at hc hbelow hmem
      exact lowers_methodCall hargs he hcls hf hc hbelow hmem ht
  | _ => exact hm.elim

omit hh in
mutual

/-- Code for an expression computes its value. -/
theorem lowers_expr (hh : J.program.Hierarchy) : ∀ {e : Expr},
    e.Recorded J.body.analysis.arrays J.body.analysis.notes Γ → J.Lowers Γ e
  | .unary _ .neg _, h => lowers_neg (lowers_expr hh h.2)
  | .unary _ .not _, h => lowers_not (lowers_expr hh h.2)
  | .binary _ .and _ _, h => lowers_and (lowers_expr hh h.2.1) (lowers_expr hh h.2.2)
  | .binary _ .add _ _, h => lowers_add (lowers_expr hh h.2.1) (lowers_expr hh h.2.2)
  | .binary _ .sub _ _, h => lowers_sub (lowers_expr hh h.2.1) (lowers_expr hh h.2.2)
  | .binary _ .mul _ _, h => lowers_mul (lowers_expr hh h.2.1) (lowers_expr hh h.2.2)
  | .binary _ .div _ _, h => lowers_div (lowers_expr hh h.2.1) (lowers_expr hh h.2.2)
  | .binary _ .less _ _, h => lowers_less (lowers_expr hh h.2.1) (lowers_expr hh h.2.2)
  | .binary _ .equal _ _, h => by
      obtain ⟨_, _, T, hT, _⟩ := h.2.1.typed
      obtain ⟨_, _, U, hU, _⟩ := h.2.2.typed
      exact lowers_equal (lowers_expr hh h.2.1) (lowers_expr hh h.2.2) hΓ ⟨T, U, hT, hU⟩
  | .number _ _, _ => lowers_number
  | .bool _ _, _ => lowers_bool
  | .null _, _ => lowers_null
  | .this _, _ => lowers_this hΓ
  | .read _ _, h => lowers_read (lowers_location hh h.2)
  | .arrayLength _ _, h => lowers_arrayLength (lowers_expr hh h.2)
  | .newObject _ _, h => lowers_newObject hΓ h
  | .newArray _ _ _, h => lowers_newArray (lowers_expr hh h.2) hΓ h.1
  | .call _ _ _, h => lowers_call hΓ hh (lowers_arguments hh h.2.2) h.2.1
  | .methodCall _ _ _ _, h => by
      obtain ⟨_, ⟨cls, hcls, hcall⟩, he, hargs⟩ := h
      exact lowers_callOn hΓ hh (lowers_expr hh he) (lowers_arguments hh hargs) hcls hcall
termination_by structural e => e

/-- Code for a location computes its address. -/
theorem lowers_location (hh : J.program.Hierarchy) : ∀ {l : Location},
    l.Recorded J.body.analysis.arrays J.body.analysis.notes Γ → J.LowersLocation Γ l
  | .var _ _, h => lowers_var hΓ hh h.2
  | .field _ _ _, h => by
      obtain ⟨_, ⟨cls, hcls, hbinding⟩, he⟩ := h
      exact lowers_fieldOf hΓ hh (lowers_expr hh he) he.typed hcls hbinding
  | .index _ _ _, h => lowers_index hΓ (lowers_expr hh h.2.1) (lowers_expr hh h.2.2) h.1
termination_by structural l => l

/-- Code for arguments computes their values. -/
theorem lowers_arguments (hh : J.program.Hierarchy) : ∀ {es : List Expr},
    ArgumentsRecorded J.body.analysis.arrays J.body.analysis.notes Γ es → J.LowersArguments Γ es
  | [], _ => lowers_nil
  | _ :: _, h => lowers_cons hΓ (lowers_expr hh h.1) (lowers_arguments hh h.2)
termination_by structural es => es

end

end

end ObjectLang
