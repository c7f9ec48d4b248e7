import Mathlib
import ObjectLang.Proofs.IR.Comments
import ObjectLang.Proofs.Lowering.Parallel
import ObjectLang.Proofs.Lowering.Programs
import ObjectLang.Proofs.Machine.Comments

/-!
# Comments are pure annotation

Code for a program is made twice, with comments and without. At any time the second state is the
first one without its comments, so the second module is the first one without its comments. Since a
comment does nothing when it runs, both modules show the same, if they have steps enough to end.
-/
namespace ObjectLang

open IR

def Target.uncommented (T : Target) : Target :=
  { T with module := T.module.uncommented }

/-- A state, and what it is without the comments in its code. -/
structure LowerState.Uncommented (s s' : LowerState) : Prop where
  tidy : s.builder.procedure.Tidy
  procedures : s.target.module.Tidy
  target : s'.target = s.target.uncommented
  allocators : s'.allocators = s.allocators
  builder : s'.builder = s.builder.uncommented

/-- Nothing is known of two states but that one is the other without comments. -/
abbrev Uncommenting (_ : Unit) (s s' : LowerState) : Prop :=
  s.Uncommented s'

section steps

variable {α : Type}

theorem uncommented_compute {f : Builder → α × Builder}
    (h : ∀ b : Builder, b.procedure.Tidy → (f b).2.procedure.Tidy ∧
      f b.uncommented = ((f b).1, (f b).2.uncommented)) :
    Parallel Uncommenting () (fun _ => Eq) (compute f) (compute f) := by
  rintro s s' _ _ _ _ hs ⟨⟩ ⟨⟩
  obtain ⟨htidy, hf⟩ := h s.builder hs.tidy
  rw [hs.builder, hf]
  exact ⟨(), trivial, rfl, htidy, hs.procedures, hs.target, hs.allocators, rfl⟩

theorem uncommented_perform {f g : Builder → Builder}
    (h : ∀ b : Builder, b.procedure.Tidy → (f b).procedure.Tidy ∧
      g b.uncommented = (f b).uncommented) :
    Parallel Uncommenting () (fun _ _ _ => True) (perform f) (perform g) := by
  rintro s s' _ _ _ _ hs ⟨⟩ ⟨⟩
  obtain ⟨htidy, hf⟩ := h s.builder hs.tidy
  exact ⟨(), trivial, trivial, htidy, hs.procedures, hs.target, hs.allocators,
    (congrArg g hs.builder).trans hf⟩

theorem uncommented_onTarget {build : Build α}
    (h : ∀ T : Target, T.module.Tidy → (build T).2.module.Tidy ∧
      build T.uncommented = ((build T).1, (build T).2.uncommented)) :
    Parallel Uncommenting () (fun _ => Eq) (onTarget build) (onTarget build) := by
  rintro s s' _ _ _ _ hs ⟨⟩ ⟨⟩
  obtain ⟨htidy, hf⟩ := h s.target hs.procedures
  rw [← hs.target] at hf
  exact ⟨(), trivial, (congrArg Prod.fst hf).symm, hs.tidy, htidy, congrArg Prod.snd hf,
    hs.allocators,
    hs.builder⟩

/-- What is read from a state is the same without comments. -/
theorem uncommented_get {f : LowerState → α}
    (h : ∀ s s' : LowerState, s.Uncommented s' → f s = f s') :
    Parallel Uncommenting () (fun _ => Eq) (f <$> get) (f <$> get) := by
  rintro s s' _ _ _ _ hs ⟨⟩ ⟨⟩
  exact ⟨(), trivial, h s s' hs, hs⟩

theorem IR.Instruction.isPlain_not {i : Instruction} (hi : i.isPlain = true) :
    i.isAlloca = false ∧ i.isComment = false := by
  cases i with
  | alloca | call | comment => cases hi
  | _ => exact ⟨rfl, rfl⟩

/-- Whatever the builder does, it does without comments too. -/
theorem uncommented_operations : Operations Uncommenting (fun _ => Eq) fun _ => Eq where
  monoType _ h := h
  monoCallee _ h := h
  int := rfl
  bool := rfl
  byte := rfl
  void := rfl
  pointer _ _ h := congrArg Ty.pointer h
  target _ _ h := h ▸ ⟨rfl, rfl⟩
  eq_iff _ _ _ _ h h' := h ▸ h' ▸ Iff.rfl
  defaultValue _ _ h := congrArg Ty.defaultValue h
  typeOf x := uncommented_get (f := fun s => s.builder.typeOf x) fun s s' hs => by
    rw [hs.builder]
    cases x <;> rfl
  procedure := by
    rintro _ s s' _ _ _ _ hs ⟨⟩ ⟨⟩
    refine ⟨(), trivial, ?_, hs⟩
    simp only [hs.builder]
    exact ⟨rfl, rfl⟩
  newBlock name := uncommented_compute fun b hb =>
    ⟨hb.newBlock name, b.uncommented_newBlock name⟩
  slot t t' ht := ht ▸ uncommented_compute fun _ hb => ⟨hb.slot t, Builder.uncommented_slot hb t⟩
  define t t' f ht hf := ht ▸ uncommented_compute fun b hb =>
    ⟨Builder.tidy_define hb t fun d => (Instruction.isPlain_not (hf d)).1,
      b.uncommented_define t fun d => (Instruction.isPlain_not (hf d)).2⟩
  load x := uncommented_compute fun b hb =>
    ⟨Builder.tidy_define hb _ fun _ => rfl, by
      have htype : b.uncommented.typeOf x = b.typeOf x := by cases x <;> rfl
      rw [Builder.load, htype]
      exact b.uncommented_define _ fun _ => rfl⟩
  call i j xs t t' hij ht := hij ▸ ht ▸ uncommented_compute fun b hb =>
    ⟨Builder.tidy_define hb t fun _ => rfl, b.uncommented_define t fun _ => rfl⟩
  emit i hi := uncommented_perform fun b hb =>
    ⟨Builder.tidy_emit hb (Instruction.isPlain_not hi).1,
      b.uncommented_emit (Instruction.isPlain_not hi).2⟩
  terminate t := uncommented_perform fun b hb => ⟨Builder.tidy_terminate hb t,
    b.uncommented_terminate t⟩
  switchTo i := uncommented_perform fun b hb => ⟨hb, b.uncommented_switchTo i⟩

end steps

section targets

variable {structs : ClassStructs}

theorem uncommented_arrayWith {component : ValueType} {element : Build Ty} {T : Target}
    (h : element T.uncommented = ((element T).1, (element T).2.uncommented)) :
    arrayWith component element T.uncommented =
      ((arrayWith component element T).1, (arrayWith component element T).2.uncommented) := by
  have harray : T.uncommented.array? component = T.array? component := rfl
  rw [arrayWith_eq, arrayWith_eq, harray, h]
  cases T.array? component <;> rfl

/-- Types are the same with and without comments. -/
theorem uncommented_lowerType (structs : ClassStructs) (v : ValueType) (T : Target) :
    lowerType structs v T.uncommented =
      ((lowerType structs v T).1, (lowerType structs v T).2.uncommented) := by
  induction v generalizing T with
  | object c =>
      simp only [lowerType]
      cases structs.find? c.name <;> rfl
  | array id component ih =>
      have hrun : ∀ T, lowerType structs (.array id component) T =
          ((arrayWith component (lowerType structs component) T).1.pointerType,
            (arrayWith component (lowerType structs component) T).2) := fun _ => rfl
      rw [hrun, hrun, uncommented_arrayWith (ih T)]
  | _ => rfl

theorem uncommented_arrayLayout (structs : ClassStructs) (component : ValueType) :
    Parallel Uncommenting () (fun _ => Eq) (onTarget (arrayLayout structs component))
      (onTarget (arrayLayout structs component)) :=
  uncommented_onTarget fun T hT => ⟨by rwa [Module.Tidy, procedures_arrayLayout],
    uncommented_arrayWith (uncommented_lowerType structs component T)⟩

theorem uncommented_addProcedure {q : Procedure} (hq : q.blocks = #[]) :
    Parallel Uncommenting () (fun _ => Eq) (onTarget (modifyGet (·.addProcedure q)))
      (onTarget (modifyGet (·.addProcedure q))) := by
  refine uncommented_onTarget fun T hT => ⟨fun r hr => ?_, ?_⟩
  · rcases Array.mem_push.1 hr with hr | rfl
    · exact hT r hr
    · exact Procedure.tidy_of_empty hq
  · refine Prod.ext Array.size_map ?_
    have hpush : (T.module.procedures.map Procedure.uncommented).push q =
        (T.module.procedures.push q).map Procedure.uncommented := by
      rw [Array.map_push, Procedure.uncommented_of_empty hq]
    exact congrArg (fun qs => (⟨⟨T.module.structs, qs⟩, T.arrays⟩ : Target)) hpush

end targets

/-- What code is made from if no comments are asked for. -/
def Body.withoutComments (body : Body) : Body :=
  { body with options := { body.options with emitComments := false } }

theorem uncommented_allocator (body : Body) (component : ValueType) :
    Parallel Uncommenting () (fun _ => Eq) (allocator body component)
      (allocator body.withoutComments component) := by
  refine Parallel.get.bind fun _ s s' hs => ?_
  rw [hs.allocators]
  split
  · exact .pure rfl
  · refine (uncommented_arrayLayout _ _).bindEq fun _ layout => ?_
    refine (uncommented_addProcedure rfl).bindEq fun _ id => ?_
    refine (parallel_modify fun s s' hs => ?_).bind fun _ _ _ _ => .pure rfl
    exact ⟨hs.tidy, hs.procedures, hs.target, congrArg (· ++ _) hs.allocators, hs.builder⟩

/-- A comment is left out. -/
theorem uncommented_commentOn (body : Body) (s : Stmt) :
    Parallel Uncommenting () (fun _ _ _ => True) (commentOn body s)
      (commentOn body.withoutComments s) := by
  have hnone : commentOn body.withoutComments s = perform fun b => b := rfl
  rw [hnone, commentOn]
  split
  · exact uncommented_perform fun b hb =>
      ⟨Builder.tidy_emit hb rfl, (b.uncommented_comment _).symm⟩
  · exact uncommented_perform (f := fun b => b) fun b hb => ⟨hb, rfl⟩

theorem Body.related_withoutComments (body : Body) : Body.Related Uncommenting
    (fun _ => Eq) (fun _ => Eq) Eq Eq id body body.withoutComments where
  this := rfl
  slots := rfl
  class? v v' h := by
    subst h
    cases hc : v.class? with
    | none => exact .inl ⟨rfl, rfl⟩
    | some c => exact .inr ⟨c, c, rfl, rfl, rfl⟩
  isSubclass c c' d d' hc hd := by rw [hc, hd]
  lower v v' h := h ▸ uncommented_onTarget fun T hT =>
    ⟨by rwa [Module.Tidy, procedures_lowerType], uncommented_lowerType _ v T⟩
  allocator v v' h c hc c' hc' := by
    subst h
    obtain rfl := Option.some.inj (hc.symm.trans hc')
    exact uncommented_allocator body c
  layout c c' h l hl l' hl' := by
    subst h
    obtain rfl := Option.some.inj (hl.symm.trans hl')
    exact fun _ => ⟨rfl, rfl⟩
  comment s := by
    have hs : s.relabel (.rename id) = s := s.relabel_same
    rw [hs]
    exact uncommented_commentOn body s

section programs

variable {body : Body}

/-- What is known of a node is related to itself. -/
theorem related_rfl (N : Notes) (L : Layouts) (n : Node) : n.Related (fun _ : Unit => Eq)
    (fun _ => Eq) Eq Eq N N L L := by
  refine ⟨fun v hv v' hv' => Option.some.inj (hv.symm.trans hv'), fun _ b hb b' hb' => ?_,
    fun _ c hc c' hc' => ?_⟩
  · obtain rfl := Option.some.inj (hb.symm.trans hb')
    cases b with
    | «variable» d => exact .variable rfl
    | field owner d =>
        refine .field rfl (fun v hv v' hv' => Option.some.inj (hv.symm.trans hv')) ?_
        rintro c _ rfl l hl l' hl' i hi j hj
        obtain rfl := Option.some.inj (hl.symm.trans hl')
        exact Option.some.inj (hi.symm.trans hj)
  · obtain rfl := Option.some.inj (hc.symm.trans hc')
    have hsignature : ∀ s : Signature, s.Related (fun _ : Unit => Eq) (fun _ => Eq) s := fun s =>
      ⟨fun _ => rfl, fun _ => List.forall₂_same.2 fun _ _ => rfl, fun _ => rfl⟩
    cases c with
    | print => exact .print
    | function d =>
        refine .function fun s hs s' hs' => ?_
        obtain rfl := Option.some.inj (hs.symm.trans hs')
        exact hsignature s
    | method owner d =>
        refine .method rfl fun l hl l' hl' s hs s' hs' => ?_
        obtain rfl := Option.some.inj (hl.symm.trans hl')
        obtain rfl := Option.some.inj (hs.symm.trans hs')
        exact hsignature s

theorem uncommented_lowerBody (body : Body) (isMethod : Bool) (f : FunctionDecl) :
    Parallel Uncommenting () (fun _ _ _ => True) (lowerBody body isMethod f)
      (lowerBody body.withoutComments isMethod f) := by
  have hbody := parallel_lowerBody uncommented_operations body.related_withoutComments isMethod
    (w := ()) (f := f) (fun d _ v hv v' hv' => ?_) fun n _ => related_rfl _ _ n
  · have hf : f.relabel (.rename id) = f := f.relabel_same
    rwa [hf] at hbody
  · have hd : d.type.relabel (.rename id) = d.type := d.type.relabel_same
    rw [hd] at hv'
    exact Option.some.inj (hv.symm.trans hv')

theorem uncommented_fillProcedure (id : Nat) (entry : String) {build build' : Lower Unit}
    (h : Parallel Uncommenting () (fun _ _ _ => True) build build') :
    Parallel Uncommenting () (fun _ _ _ => True) (fillProcedure id entry build)
      (fillProcedure id entry build') := by
  refine Parallel.get.bind fun _ s s' hs => .known fun q hq q' hq' => ?_
  have hprocedure : q' = q.uncommented := by
    rw [hs.target] at hq'
    have hget : s.target.uncommented.module.procedures[id]? = some q.uncommented :=
      (Array.getElem?_map ..).trans (congrArg _ hq)
    exact Option.some.inj (hq'.symm.trans hget)
  have hq := hs.procedures q (Array.mem_of_getElem? hq)
  refine (parallel_modify fun t t' ht => ?_).bind fun _ _ _ _ => h.bind fun _ _ _ _ =>
    parallel_modify fun t t' ht => ?_
  · exact ⟨Builder.tidy_start hq entry, ht.procedures, ht.target, ht.allocators,
      hprocedure ▸ Builder.uncommented_start q entry⟩
  · refine ⟨ht.tidy, fun r hr => ?_, ?_, ht.allocators, ht.builder⟩
    · rcases Array.mem_or_eq_of_mem_setIfInBounds hr with hr | rfl
      · exact ht.procedures r hr
      · exact ht.tidy
    · have hset : (t.target.module.procedures.map Procedure.uncommented).setIfInBounds id
          t.builder.procedure.uncommented =
            (t.target.module.procedures.setIfInBounds id t.builder.procedure).map
              Procedure.uncommented := (Array.map_setIfInBounds ..).symm
      rw [ht.target, ht.builder]
      exact congrArg (fun qs => (⟨⟨t.target.module.structs, qs⟩, t.target.arrays⟩ : Target)) hset

theorem uncommented_lowerFunction (body : Body) (f : FunctionDecl) :
    Parallel Uncommenting () (fun _ _ _ => True) (lowerFunction body f)
      (lowerFunction body.withoutComments f) := by
  refine .known fun s hs s' hs' => ?_
  obtain rfl := Option.some.inj (hs.symm.trans hs')
  exact uncommented_fillProcedure _ _ (uncommented_lowerBody body false f)

theorem uncommented_lowerMethod (body : Body) (c : ClassRef) (f : FunctionDecl) :
    Parallel Uncommenting () (fun _ _ _ => True) (lowerMethod body c f)
      (lowerMethod body.withoutComments c f) := by
  refine .known fun l hl l' hl' => .known fun s hs s' hs' => ?_
  obtain rfl := Option.some.inj (hl.symm.trans hl')
  obtain rfl := Option.some.inj (hs.symm.trans hs')
  exact uncommented_fillProcedure _ _ (uncommented_lowerBody body true f)

theorem uncommented_lowerAllocator (body : Body) (component : ValueType) (id : Nat) :
    Parallel Uncommenting () (fun _ _ _ => True) (lowerAllocator body component id)
      (lowerAllocator body.withoutComments component id) := by
  refine (uncommented_arrayLayout _ _).bindEq fun _ layout => Parallel.get.bind fun _ s s' hs => ?_
  have hsize : s'.target.module.sizeOf layout.element = s.target.module.sizeOf layout.element := by
    rw [hs.target]
    exact Machine.sizeOf_uncommented _ _
  rw [hsize]
  refine Parallel.get.bind fun _ t t' ht => .known fun q hq q' hq' => ?_
  have hprocedure : q' = q.uncommented := by
    rw [ht.target] at hq'
    have hget : t.target.uncommented.module.procedures[id]? = some q.uncommented :=
      (Array.getElem?_map ..).trans (congrArg _ hq)
    exact Option.some.inj (hq'.symm.trans hget)
  refine .known fun size hsize size' hsize' => ?_
  rw [hprocedure] at hsize'
  obtain rfl := Option.some.inj (hsize.symm.trans hsize')
  exact uncommented_fillProcedure id "init"
    (uncommented_operations.buildAllocator _ _ (fun _ => rfl) fun _ => rfl)

/-- A program gets the same code with and without comments, apart from the comments. -/
theorem uncommented_lowerProgram (body : Body) (p : Program) :
    Parallel Uncommenting () (fun _ _ _ => True) (lowerProgram body p)
      (lowerProgram body.withoutComments p) := by
  refine (Parallel.forM (List.forall₂_same.2 fun f _ _ _ =>
    uncommented_lowerFunction body f)).bind fun _ _ _ _ => ?_
  refine (Parallel.forM (List.forall₂_same.2 fun c _ _ _ =>
    Parallel.forM (List.forall₂_same.2 fun m _ _ _ =>
      uncommented_lowerMethod body c m.decl))).bind fun _ _ _ _ => ?_
  refine (Parallel.forM (List.forall₂_same.2 fun f _ _ _ =>
    uncommented_lowerFunction body f)).bind fun _ _ _ _ => ?_
  refine Parallel.get.bind fun _ s s' hs => ?_
  rw [hs.allocators]
  exact Parallel.forM (List.forall₂_same.2 fun x _ _ _ => uncommented_lowerAllocator body x.1 x.2)

end programs

section start

theorem isPlain_fieldStores (k : Nat) (fields : List Field) :
    ∀ i ∈ fieldStores k fields, i.isPlain = true := by
  induction fields generalizing k with
  | nil => exact nofun
  | cons f fields ih => exact List.forall_mem_cons.2 ⟨rfl, List.forall_mem_cons.2 ⟨rfl, ih _⟩⟩

/-- A constructor takes no slots and has no comments. -/
theorem constructorCode_uncommented (cls : String) (struct size : Nat) (fields : List Field) :
    (constructorCode cls struct size fields).Tidy ∧
      (constructorCode cls struct size fields).uncommented =
        constructorCode cls struct size fields := by
  obtain ⟨code, hcode⟩ : ∃ code, code = Instruction.alloc 0 (.int (Int32.ofNat size)) ::
    .bitcast 1 (.temp 0) :: fieldStores 0 fields := ⟨_, rfl⟩
  have hplain : ∀ i ∈ code, i.isAlloca = false ∧ i.isComment = false := by
    rw [hcode]
    exact List.forall_mem_cons.2 ⟨⟨rfl, rfl⟩, List.forall_mem_cons.2 ⟨⟨rfl, rfl⟩, fun i hi =>
      IR.Instruction.isPlain_not (isPlain_fieldStores 0 fields i hi)⟩⟩
  have hblock : ∀ b ∈ (constructorCode cls struct size fields).blocks,
      b = ⟨"entry", code, some (.ret (.temp 1))⟩ := by
    rw [hcode]
    exact fun b hb => Array.mem_singleton.1 hb
  refine ⟨fun b hb i hi => ?_, ?_⟩
  · rw [hblock b hb] at hi
    exact (hplain i ((List.dropWhile_suffix _).subset hi)).1
  · have hfilter : IR.withoutComments code = code :=
      List.filter_eq_self.2 fun i hi => by rw [(hplain i hi).2]; rfl
    have hblocks : (constructorCode cls struct size fields).blocks.map Block.uncommented =
        (constructorCode cls struct size fields).blocks := by
      refine (Array.map_congr_left fun b hb => ?_).trans (Array.map_id' _)
      rw [hblock b hb, Block.uncommented, hfilter]
    rw [Procedure.uncommented, hblocks]

variable {p : Program} {printName : String} {a : Analysis}

/-- Before any procedure gets its code, there are no slots and no comments. -/
theorem uncommented_layouts (ha : p.Accepted printName a) :
    LowerState.Uncommented { target := (Layouts.build p a {}).2 }
      { target := (Layouts.build p a {}).2 } := by
  obtain ⟨routines, h₀⟩ := builds_layouts ha
  generalize (Layouts.build p a {}).2 = T at h₀ ⊢
  have hall : ∀ q ∈ T.module.procedures, q.Tidy ∧ q.uncommented = q := by
    intro q hq
    obtain ⟨i, hi⟩ := Array.mem_iff_getElem?.1 hq
    have hlt := (Array.getElem?_eq_some_iff.1 hi).1
    rcases Nat.lt_or_ge i a.classes.classes.length with hc | hc
    · obtain ⟨c, layout, hfaithful, hlayout, rfl⟩ := h₀.constructors i hc
      obtain ⟨layout', hlayout', hfilled⟩ := h₀.classes c hfaithful
      obtain rfl := Option.some.inj (hlayout.symm.trans hlayout')
      obtain ⟨fields, hfields, _⟩ := hfilled.fields
      obtain rfl := Option.some.inj (hfilled.constructor.symm.trans hi)
      rw [constructorOf_eq c.name hfields]
      exact constructorCode_uncommented ..
    · have hmem : i ∈ routines.map (·.2.procedure) := by
        rw [h₀.declared.ids, List.mem_range'_1]
        exact ⟨hc, h₀.declared.size ▸ hlt⟩
      obtain ⟨x, hx, rfl⟩ := List.mem_map.1 hmem
      obtain ⟨q', hq', hbare⟩ := (h₀.declared.declared x hx).procedure
      obtain rfl := Option.some.inj (hq'.symm.trans hi)
      exact ⟨Procedure.tidy_of_empty hbare.blocks, Procedure.uncommented_of_empty hbare.blocks⟩
  have hmodule : T.module.procedures.map Procedure.uncommented = T.module.procedures :=
    (Array.map_congr_left fun q hq => (hall q hq).2).trans (Array.map_id' _)
  exact ⟨Procedure.tidy_of_empty rfl, fun q hq => (hall q hq).1,
    congrArg (fun qs => (⟨⟨T.module.structs, qs⟩, T.arrays⟩ : Target)) hmodule.symm, rfl,
    congrArg (Builder.mk · none #[]) (Procedure.uncommented_of_empty rfl).symm⟩

end start

section compiling

variable {p : Program} {options : CompileOptions} {a : Analysis} {m : Module}

/-- The module of a program is what is left of making its code. -/
theorem exists_of_lower (h : p.lower a options = .ok m) : ∃ s,
    lowerProgram { analysis := a, layouts := (Layouts.build p a {}).1, options } p
      { target := (Layouts.build p a {}).2 } = .ok ((), s) ∧ s.target.module = m := by
  have hrun : p.lower a options = (do
      let r ← (lowerProgram { analysis := a, layouts := (Layouts.build p a {}).1, options } p).run
        { target := (Layouts.build p a {}).2 }
      return r.2.target.module) := rfl
  rw [hrun, StateT.run] at h
  cases hs : lowerProgram { analysis := a, layouts := (Layouts.build p a {}).1, options } p
      { target := (Layouts.build p a {}).2 } with
  | error e =>
      rw [hs] at h
      cases h
  | ok r =>
      rw [hs] at h
      exact ⟨r.2, rfl, Except.ok.inj h⟩

/-- The code of an accepted program without its comments is the code that is made without them. -/
theorem Program.Accepted.lower_uncommented {printName : String} (ha : p.Accepted printName a) :
    ∃ m, p.lower a { emitComments := true, printFunction := printName } = .ok m ∧
      p.lower a { emitComments := false, printFunction := printName } = .ok m.uncommented := by
  obtain ⟨_, _, s, _, _, _, hs⟩ :=
    @Program.Accepted.lower p { emitComments := true, printFunction := printName } a ha
  obtain ⟨_, _, s', _, _, _, hs'⟩ :=
    @Program.Accepted.lower p { emitComments := false, printFunction := printName } a ha
  obtain ⟨t, ht, hmodule⟩ := exists_of_lower hs
  obtain ⟨t', ht', hmodule'⟩ := exists_of_lower hs'
  obtain ⟨_, _, -, huncommented⟩ :=
    uncommented_lowerProgram _ p _ _ _ _ _ _ (uncommented_layouts ha) ht ht'
  refine ⟨s.target.module, hs, ?_⟩
  rw [hs', ← hmodule, ← hmodule', huncommented.target]
  rfl

/-- Comments are pure annotation: without them the code of an accepted program is the code that is
made without them, and both show the same if neither is cut short. -/
theorem compile_uncommented {source printName : String} (hp : Program.ofText source = .ok p)
    (ha : (p.analyze printName).isAccepted = true) :
    ∃ m, compile source { emitComments := true, printFunction := printName } = .ok m ∧
      compile source { emitComments := false, printFunction := printName } = .ok m.uncommented ∧
      ∀ limit limit' : Nat,
        (∀ n, (Machine.execute m mainName limit).result ≠ .error (.stepLimit n)) →
        (∀ n, (Machine.execute m.uncommented mainName limit').result ≠ .error (.stepLimit n)) →
        Machine.execute m mainName limit = Machine.execute m.uncommented mainName limit' := by
  obtain ⟨m, hm, hm'⟩ := (Program.accepted hp ha).lower_uncommented
  have hcompile : ∀ emitComments, compile source { emitComments, printFunction := printName } =
      (p.lower (p.analyze printName) { emitComments, printFunction := printName }).mapError
        .incomplete := by
    intro emitComments
    rw [compile, hp]
    exact if_pos ha
  refine ⟨m, ?_, ?_, fun limit limit' h h' => Machine.execute_uncommented m mainName h h'⟩
  · rw [hcompile, hm]
    rfl
  · rw [hcompile, hm']
    rfl

/-- A program with a statement that gets a comment. -/
def annotatedText : String :=
  "int main() { return 0; }"

/-- The comments of the program take steps of its run, and are of no other consequence. -/
theorem compile_uncommented_return :
    ∃ m, compile annotatedText { emitComments := true, printFunction := "printInt" } = .ok m ∧
      m.uncommented ≠ m ∧
      Machine.execute m mainName 3 = Machine.execute m.uncommented mainName 2 := by
  obtain ⟨p, hp, ha⟩ := exists_ok_of_any (r := Program.ofText annotatedText)
    (f := fun p => (p.analyze "printInt").isAccepted) (by decide +kernel)
  have hends : ((compile annotatedText { emitComments := true }).toOption.any fun m =>
      m.uncommented ≠ m ∧ (Machine.execute m mainName 3).result.toOption = some 0 ∧
        (Machine.execute m.uncommented mainName 2).result.toOption = some 0) = true := by
    decide +kernel
  obtain ⟨m, hm, -, hrun⟩ := compile_uncommented hp ha
  rw [hm] at hends
  obtain ⟨hne, h, h'⟩ := of_decide_eq_true hends
  refine ⟨m, hm, hne, hrun 3 2 (fun n heq => ?_) fun n heq => ?_⟩
  · rw [heq] at h
    cases h
  · rw [heq] at h'
    cases h'

end compiling

end ObjectLang
