import Mathlib.Tactic
import ObjectLang.IR.Builder
import ObjectLang.Layout.Types
import ObjectLang.Proofs.IR.Definitions

/-!
# What can be read while a procedure is built

At any time some temporaries are assigned where the builder is, and can be read there; nothing is
asked where instructions are dropped. A block that is made may read what could be read when it was
made, as control gets there only from places where all of that is still assigned. When the builder
is switched to the block, this is what can be read again.
-/
namespace ObjectLang.IR

section dests

variable {p : Procedure}

theorem dests_newBlock (name : String) : (p.newBlock name).2.dests = p.dests := by
  simp [Procedure.newBlock, Procedure.dests, destsOf]

/-- A block that assigns more adds that to what the procedure assigns. -/
theorem perm_dests_modifyBlock {i : Nat} {f : Block → Block} {b : Block} {more : List Nat}
    (hb : p.blocks[i]? = some b)
    (hf : (destsOf (f b).instructions).Perm (destsOf b.instructions ++ more)) :
    (p.modifyBlock i f).dests.Perm (p.dests ++ more) := by
  have hlist : ∀ (l : List Block) (i : Nat), l[i]? = some b →
      ((l.modify i f).flatMap fun b => destsOf b.instructions).Perm
        ((l.flatMap fun b => destsOf b.instructions) ++ more) := by
    intro l
    induction l with
    | nil => exact fun _ hi => by cases hi
    | cons a l ih =>
        intro i hi
        cases i with
        | zero =>
            obtain rfl : a = b := Option.some.inj hi
            rw [List.modify_zero_cons, List.flatMap_cons, List.flatMap_cons]
            refine (hf.append_right _).trans ?_
            rw [List.append_assoc, List.append_assoc]
            exact List.perm_append_comm.append_left _
        | succ i =>
            rw [List.modify_succ_cons, List.flatMap_cons, List.flatMap_cons, List.append_assoc]
            exact (ih i hi).append_left _
  rw [Procedure.dests, Procedure.modifyBlock, Array.toList_modify]
  exact hlist _ i ((Array.getElem?_toList ..).trans hb)

end dests

/-- An operand can be read where some temporaries are assigned. -/
def Operand.In (ts : Set Nat) (x : Operand) : Prop :=
  ∀ t, x = .temp t → t ∈ ts

section operands

variable {ts ts' : Set Nat} {x : Operand} {xs : List Operand}

@[simp]
theorem in_int (n : Int32) : (Operand.int n).In ts :=
  nofun

@[simp]
theorem in_bool (v : Bool) : (Operand.bool v).In ts :=
  nofun

@[simp]
theorem in_null : Operand.null.In ts :=
  nofun

@[simp]
theorem in_defaultValue {type : Ty} : type.defaultValue.In ts := by
  cases type <;> simp [Ty.defaultValue]

theorem in_temp {t : Nat} : (Operand.temp t).In ts ↔ t ∈ ts :=
  ⟨fun h => h t rfl, by rintro h _ ⟨⟩; exact h⟩

theorem Operand.In.mono (h : x.In ts) (hts : ts ⊆ ts') : x.In ts' :=
  fun t ht => hts (h t ht)

theorem tempsOf_subset : tempsOf xs ⊆ ts ↔ ∀ x ∈ xs, x.In ts :=
  ⟨by rintro h _ hx t rfl; exact h hx, fun h t ht => h _ ht t rfl⟩

theorem Instruction.reads_subset {i : Instruction} : i.reads ⊆ ts ↔ ∀ x ∈ i.operands, x.In ts :=
  tempsOf_subset

end operands

/-- What can be read where a builder is, and the blocks that it may still be switched to or jump to,
each with what can be read there. -/
structure Supply where
  temps : Set Nat
  blocks : List (Nat × Set Nat) := []

namespace Supply

/-- Some more temporaries can be read. -/
def add (c : Supply) (ts : Set Nat) : Supply :=
  { c with temps := c.temps ∪ ts }

/-- Some more operands can be read. -/
def putAll (c : Supply) (xs : List Operand) : Supply :=
  c.add (tempsOf xs)

/-- One more operand can be read. -/
def put (c : Supply) (x : Operand) : Supply :=
  c.putAll [x]

/-- Less can be read. -/
structure Le (c d : Supply) : Prop where
  temps : c.temps ⊆ d.temps
  blocks : c.blocks ⊆ d.blocks

variable {c d : Supply} {x y : Operand} {xs : List Operand}

@[simp]
theorem blocks_put : (c.put x).blocks = c.blocks :=
  rfl

@[simp]
theorem blocks_putAll : (c.putAll xs).blocks = c.blocks :=
  rfl

theorem temps_putAll : c.temps ⊆ (c.putAll xs).temps :=
  Set.subset_union_left

theorem temps_put : c.temps ⊆ (c.put x).temps :=
  temps_putAll

@[simp]
theorem subset_put {ts : Set Nat} (h : ts ⊆ c.temps) : ts ⊆ (c.put x).temps :=
  h.trans temps_put

@[simp]
theorem in_putAll : x.In (c.putAll xs).temps ↔ x.In c.temps ∨ x ∈ xs := by
  cases x with
  | temp t => simp only [in_temp, putAll, add, Set.mem_union, tempsOf, Set.mem_ofPred_eq]
  | _ => simp

@[simp]
theorem in_put : x.In (c.put y).temps ↔ x.In c.temps ∨ x = y := by
  rw [put, in_putAll, List.mem_singleton]

theorem Le.rfl : c.Le c :=
  ⟨Set.Subset.rfl, List.Subset.refl _⟩

theorem Le.trans {e : Supply} (h : c.Le d) (h' : d.Le e) : c.Le e :=
  ⟨Set.Subset.trans h.temps h'.temps, List.Subset.trans h.blocks h'.blocks⟩

/-- Operands that can be read there are not more. -/
theorem Le.gather (h : c.Le d) (hxs : ∀ x ∈ xs, x.In d.temps) : (c.putAll xs).Le d :=
  ⟨Set.union_subset h.temps (tempsOf_subset.2 hxs), h.blocks⟩

theorem put_le (hx : x.In c.temps) : (c.put x).Le c :=
  Le.rfl.gather (List.forall_mem_singleton.2 hx)

theorem in_putAll_self : ∀ y ∈ xs, y.In (c.putAll xs).temps :=
  fun _ hy => in_putAll.2 (.inr hy)

theorem Le.moreAll (h : c.Le d) : c.Le (d.putAll xs) :=
  ⟨Set.Subset.trans h.temps temps_putAll, h.blocks⟩

/-- One more operand can be read there. -/
theorem Le.more (h : c.Le d) : c.Le (d.put x) :=
  ⟨h.temps.trans temps_put, h.blocks⟩

/-- One more operand can be read in both. -/
theorem Le.put (h : c.Le d) : (c.put x).Le (d.put x) :=
  ⟨Set.union_subset_union_left _ h.temps, h.blocks⟩

/-- There is one more block there. -/
theorem Le.block {ts : Set Nat} {bs : List (Nat × Set Nat)} {new : Nat × Set Nat}
    (h : c.Le ⟨ts, bs⟩) : c.Le ⟨ts, new :: bs⟩ :=
  ⟨h.temps, List.Subset.trans h.blocks (List.subset_cons_self ..)⟩

end Supply

/-- The procedure that is built assigns before it reads, and so it is with instructions that read
what is told. -/
def Builder.Supplies (b : Builder) (c : Supply) : Prop :=
  ∃ known, b.procedure.Certified known ∧ 0 < b.procedure.blocks.size ∧
    (∀ i, b.current = some i →
      i < b.procedure.blocks.size ∧ c.temps ⊆ b.procedure.atEnd known i) ∧
    ∀ x ∈ c.blocks, x.1 < b.procedure.blocks.size ∧ known x.1 = x.2

namespace Builder.Supplies

variable {b : Builder} {c : Supply}

theorem mono {d : Supply} (h : b.Supplies c) (hd : d.Le c) : b.Supplies d := by
  obtain ⟨known, hcert, hpos, hcurrent, hblocks⟩ := h
  exact ⟨known, hcert, hpos, fun i hi => ⟨(hcurrent i hi).1, hd.temps.trans (hcurrent i hi).2⟩,
    fun x hx => hblocks x (hd.blocks hx)⟩

/-- Where instructions are dropped, all can be read. -/
theorem closed (h : b.Supplies c) (hb : b.current = none) (ts : Set Nat) :
    b.Supplies ⟨ts, c.blocks⟩ := by
  obtain ⟨known, hcert, hpos, _, hblocks⟩ := h
  exact ⟨known, hcert, hpos, fun i hi => by simp [hb] at hi, hblocks⟩

theorem record (h : b.Supplies c) (m : Move) : (b.record m).Supplies c :=
  h

theorem newTemp (h : b.Supplies c) (type : Ty) : (b.newTemp type).2.Supplies c := by
  obtain ⟨known, hcert, hpos, hcurrent, hblocks⟩ := h
  have hsize : (b.newTemp type).2.procedure.temps.size = b.procedure.temps.size + 1 := by
    simp [Builder.procedure_newTemp, Procedure.newTemp]
  refine ⟨known, ⟨hcert.entry, fun t ht => ⟨?_, (hcert.params t ht).2⟩, fun t ht => ?_, hcert.once,
    hcert.slots, hcert.code, hcert.ends⟩, hpos, hcurrent, hblocks⟩
  · exact hsize ▸ Nat.lt_succ_of_lt (hcert.params t ht).1
  · exact hsize ▸ Nat.lt_succ_of_lt (hcert.dests t ht)

/-- A new block may read what can be read where it is made. -/
theorem newBlock (h : b.Supplies c) (name : String) : (b.newBlock name).2.Supplies
    { c with blocks := (b.procedure.blocks.size, c.temps) :: c.blocks } := by
  obtain ⟨known, hcert, hpos, hcurrent, hblocks⟩ := h
  let n := b.procedure.blocks.size
  have hsize : (b.newBlock name).2.procedure.blocks.size = n + 1 := by
    simp [Builder.procedure_newBlock, Procedure.newBlock, n]
  have hget : ∀ (i : Nat) (d : Block), (b.newBlock name).2.procedure.blocks[i]? = some d →
      i < n ∧ b.procedure.blocks[i]? = some d ∨ i = n ∧ d = ⟨name, [], none⟩ := by
    intro i d hd
    simp only [Builder.procedure_newBlock, Procedure.newBlock, Array.getElem?_push] at hd
    split_ifs at hd with hi
    · exact .inr ⟨hi, (Option.some.inj hd).symm⟩
    · exact .inl ⟨(Array.getElem?_eq_some_iff.1 hd).1, hd⟩
  have hslots : (b.newBlock name).2.procedure.slots = b.procedure.slots := by
    refine Procedure.slots_congr ?_
    simp only [Builder.procedure_newBlock, Procedure.newBlock]
    rw [Array.getElem?_push_lt hpos]
    exact (Array.getElem?_eq_getElem hpos).symm
  have hdests : (b.newBlock name).2.procedure.dests = b.procedure.dests := dests_newBlock name
  have hknown : ∀ i < n, Function.update known n c.temps i = known i := fun i hi =>
    Function.update_of_ne (Nat.ne_of_lt hi) ..
  have hstart : ∀ i < n, (b.newBlock name).2.procedure.atStart (Function.update known n c.temps) i =
      b.procedure.atStart known i := by
    intro i hi
    rw [Procedure.atStart, Procedure.atStart, hknown i hi, hslots]
    rfl
  have hend : ∀ i < n, (b.newBlock name).2.procedure.atEnd (Function.update known n c.temps) i =
      b.procedure.atEnd known i := by
    intro i hi
    rw [Procedure.atEnd, Procedure.atEnd, hstart i hi]
    simp only [Builder.procedure_newBlock, Procedure.newBlock, Procedure.code]
    rw [Array.getElem?_push_lt hi, Array.getElem?_eq_getElem hi]
  refine ⟨Function.update known n c.temps, ⟨?_, fun t ht => ?_, fun t ht => ?_, ?_,
    fun i d hd hi => ?_, fun i d hd => ?_, fun i d t hd ht => ?_⟩, ?_, fun i hi => ?_,
    fun x hx => ?_⟩
  · rw [hknown 0 hpos]
    exact hcert.entry
  · rw [hdests]
    exact hcert.params t ht
  · exact hcert.dests t (hdests ▸ ht)
  · rw [hdests]
    exact hcert.once
  · rcases hget i d hd with ⟨_, hd⟩ | ⟨rfl, rfl⟩
    · exact hcert.slots i d hd hi
    · rfl
  · rcases hget i d hd with ⟨hlt, hd⟩ | ⟨rfl, rfl⟩
    · rw [hstart i hlt]
      exact hcert.code i d hd
    · exact ⟨List.forall_mem_nil _, trivial⟩
  · rcases hget i d hd with ⟨hlt, hd⟩ | ⟨rfl, rfl⟩
    · obtain ⟨hreads, htargets⟩ := hcert.ends i d t hd ht
      rw [hend i hlt, hsize]
      refine ⟨hreads, fun target htarget => ?_⟩
      obtain ⟨hlt', hsub⟩ := htargets target htarget
      rw [hknown target hlt']
      exact ⟨Nat.lt_succ_of_lt hlt', hsub⟩
    · cases ht
  · rw [hsize]
    exact Nat.succ_pos n
  · obtain ⟨hlt, hsub⟩ := hcurrent i hi
    rw [hend i hlt, hsize]
    exact ⟨Nat.lt_succ_of_lt hlt, hsub⟩
  · rw [hsize]
    rcases List.mem_cons.1 hx with rfl | hx
    · exact ⟨Nat.lt_succ_self n, Function.update_self ..⟩
    · obtain ⟨hlt, heq⟩ := hblocks x hx
      exact ⟨Nat.lt_succ_of_lt hlt, (hknown x.1 hlt).trans heq⟩

/-- A change of the open block keeps the discipline if the block keeps its slots, its code gets
longer by instructions that read what can be read and assign new temporaries, and it ends with what
can be read as well. -/
theorem modify (h : b.Supplies c) {i : Nat} (hi : b.current = some i) {f : Block → Block}
    {more : List Instruction}
    (hcode : ∀ d : Block, (f d).code = d.code ++ more ∧ (f d).slots = d.slots ∧
      (f d).instructions = d.instructions ++ more)
    (halloca : ∀ j ∈ more, j.isAlloca = false) (hcovered : Covered c.temps more)
    (honce : (destsOf more).Nodup)
    (hfresh : ∀ t ∈ destsOf more,
      t < b.procedure.temps.size ∧ t ∉ b.procedure.params ∧ t ∉ b.procedure.dests)
    (hends : ∀ (d : Block) (t : Terminator), (f d).terminator = some t → d.terminator = some t ∨
      t.reads ⊆ c.temps ∧ ∀ target ∈ t.successors, ∃ ts, (target, ts) ∈ c.blocks ∧ ts ⊆ c.temps)
    (open? : Option Nat) (hopen : ∀ j, open? = some j → j = i) :
    Supplies ⟨b.procedure.modifyBlock i f, open?, b.moves⟩ (c.add {t | t ∈ destsOf more}) := by
  obtain ⟨known, hcert, hpos, hcurrent, hblocks⟩ := h
  obtain ⟨hlt, hsub⟩ := hcurrent i hi
  have hb := Array.getElem?_eq_getElem hlt
  generalize b.procedure.blocks[i] = d₀ at hb
  have hsize : (b.procedure.modifyBlock i f).blocks.size = b.procedure.blocks.size := by
    simp [Procedure.modifyBlock]
  have hget := fun (j : Nat) (d : Block) =>
    Procedure.getElem?_modifyBlock (p := b.procedure) (f := f) (j := j) (d := d) hb
  have hself : (b.procedure.modifyBlock i f).blocks[i]? = some (f d₀) := by
    simp only [Procedure.modifyBlock, Array.getElem?_modify, if_true, hb, Option.map_some]
  have hdests : (b.procedure.modifyBlock i f).dests.Perm (b.procedure.dests ++ destsOf more) := by
    refine perm_dests_modifyBlock hb ?_
    rw [(hcode d₀).2.2, destsOf_append]
  have hstart : ∀ j, (b.procedure.modifyBlock i f).atStart known j =
      b.procedure.atStart known j := by
    intro j
    rw [Procedure.atStart, Procedure.atStart, Procedure.slots_modifyBlock hb (hcode d₀).2.1]
    rfl
  have hendSelf : (b.procedure.modifyBlock i f).atEnd known i =
      b.procedure.atEnd known i ∪ {t | t ∈ destsOf more} := by
    rw [Procedure.atEnd, Procedure.atEnd, hstart, Procedure.code_of_getElem? hself,
      Procedure.code_of_getElem? hb, (hcode d₀).1, destsOf_append, Set.union_assoc]
    congr 1
    ext t
    exact List.mem_append
  have hend : ∀ j, b.procedure.atEnd known j ⊆ (b.procedure.modifyBlock i f).atEnd known j := by
    intro j
    by_cases hj : j = i
    · rw [hj, hendSelf]
      exact Set.subset_union_left
    · rw [Procedure.atEnd, Procedure.atEnd, hstart]
      simp only [Procedure.code, Procedure.modifyBlock, Array.getElem?_modify, if_neg (Ne.symm hj)]
      exact Set.Subset.rfl
  have hreach : c.temps ⊆ (b.procedure.modifyBlock i f).atEnd known i := hsub.trans (hend i)
  refine ⟨known, ⟨hcert.entry, fun t ht => ⟨(hcert.params t ht).1, fun hm => ?_⟩,
    fun t ht => ?_, ?_,
    fun j d hd hj => ?_, fun j d hd => ?_, fun j d t hd ht => ?_⟩, ?_, fun j hj => ?_,
    fun x hx => ?_⟩
  · rcases List.mem_append.1 (hdests.mem_iff.1 hm) with hm | hm
    · exact (hcert.params t ht).2 hm
    · exact (hfresh t hm).2.1 ht
  · rcases List.mem_append.1 (hdests.mem_iff.1 ht) with hm | hm
    · exact hcert.dests t hm
    · exact (hfresh t hm).1
  · refine hdests.nodup_iff.2 (List.nodup_append'.2 ⟨hcert.once, honce, fun t ht hm => ?_⟩)
    exact (hfresh t hm).2.2 ht
  · rcases hget j d hd with ⟨rfl, rfl⟩ | ⟨_, hd⟩
    · exact (hcode d₀).2.1.trans (hcert.slots j d₀ hb hj)
    · exact hcert.slots j d hd hj
  · rw [hstart]
    rcases hget j d hd with ⟨rfl, rfl⟩ | ⟨_, hd⟩
    · obtain ⟨hallocas, hcov⟩ := hcert.code j d₀ hb
      rw [(hcode d₀).1]
      refine ⟨fun k hk => (List.mem_append.1 hk).elim (hallocas k) (halloca k), ?_⟩
      refine covered_append.2 ⟨hcov, hcovered.mono (hsub.trans ?_)⟩
      rw [Procedure.atEnd, Procedure.code_of_getElem? hb]
    · exact hcert.code j d hd
  · have hold : ∀ (e : Block), b.procedure.blocks[j]? = some e → e.terminator = some t →
        t.reads ⊆ (b.procedure.modifyBlock i f).atEnd known j ∧ ∀ target ∈ t.successors,
          target < (b.procedure.modifyBlock i f).blocks.size ∧
            known target ⊆ (b.procedure.modifyBlock i f).atEnd known j := by
      intro e he ht
      obtain ⟨hreads, htargets⟩ := hcert.ends j e t he ht
      rw [hsize]
      exact ⟨hreads.trans (hend j), fun target htarget =>
        ⟨(htargets target htarget).1, (htargets target htarget).2.trans (hend j)⟩⟩
    rcases hget j d hd with ⟨rfl, rfl⟩ | ⟨_, hd⟩
    · rcases hends d₀ t ht with ht | ⟨hreads, htargets⟩
      · exact hold d₀ hb ht
      · refine ⟨hreads.trans hreach, fun target htarget => ?_⟩
        obtain ⟨ts, hmem, hts⟩ := htargets target htarget
        obtain ⟨hlt', heq⟩ := hblocks _ hmem
        rw [hsize]
        exact ⟨hlt', heq.subset.trans (hts.trans hreach)⟩
    · exact hold d hd ht
  · rw [hsize]
    exact hpos
  · obtain rfl := hopen j hj
    rw [hsize, hendSelf]
    exact ⟨hlt, Set.union_subset_union_left _ hsub⟩
  · rw [hsize]
    exact hblocks x hx

/-- An instruction can read what is told, and assign a temporary that nothing assigns yet. -/
theorem emit (h : b.Supplies c) {i : Instruction} (hi : i.isAlloca = false)
    (hreads : ∀ x ∈ i.operands, x.In c.temps) (hfresh : ∀ t, i.dest? = some t →
      t < b.procedure.temps.size ∧ t ∉ b.procedure.params ∧ t ∉ b.procedure.dests) :
    (b.emit i).Supplies (c.putAll (i.dest?.map Operand.temp).toList) := by
  have hdests : ∀ t, t ∈ destsOf [i] ↔ i.dest? = some t := by simp [mem_destsOf]
  rw [Builder.emit]
  refine record ?_ _
  cases hb : b.current with
  | none => exact h.closed hb _
  | some n =>
      have hset : tempsOf (i.dest?.map Operand.temp).toList = {t | t ∈ destsOf [i]} := by
        ext t
        simp [hdests, tempsOf]
      rw [Supply.putAll, hset]
      refine h.modify hb (fun d => ⟨Block.code_push hi, Block.slots_push hi, rfl⟩)
        (List.forall_mem_singleton.2 hi) ⟨tempsOf_subset.2 hreads, trivial⟩ ?_
        (fun t ht => hfresh t ((hdests t).1 ht)) (fun _ _ ht => .inl ht) _
        fun j hj => (Option.some.inj hj).symm
      rw [destsOf, List.filterMap_cons]
      split
      · exact List.nodup_nil
      · exact List.nodup_singleton _

/-- An instruction that assigns nothing. -/
theorem effect (h : b.Supplies c) {i : Instruction} (hdest : i.dest? = none)
    (hreads : ∀ x ∈ i.operands, x.In c.temps) : (b.emit i).Supplies c := by
  have hi : i.isAlloca = false := by
    cases i with
    | alloca dest type => cases hdest
    | _ => rfl
  refine (h.emit hi hreads fun t ht => ?_).mono ⟨Supply.temps_putAll, List.Subset.refl _⟩
  rw [hdest] at ht
  cases ht

/-- A terminator can read what is told, and lead where no more can be read. -/
theorem terminate (h : b.Supplies c) {t : Terminator} (hreads : ∀ x ∈ t.operand?, x.In c.temps)
    (htargets : ∀ target ∈ t.successors, ∃ ts, (target, ts) ∈ c.blocks ∧ ts ⊆ c.temps)
    (ts : Set Nat) : (b.terminate t).Supplies ⟨ts, c.blocks⟩ := by
  have hterminator : t.reads ⊆ c.temps :=
    tempsOf_subset.2 fun x hx => hreads x (Option.mem_toList.1 hx)
  rw [Builder.terminate]
  refine record ?_ _
  cases hb : b.current with
  | none => exact h.closed hb _
  | some n =>
      have hcode : ∀ d : Block, ({ d with terminator := some t } : Block).code = d.code ++ [] ∧
          ({ d with terminator := some t } : Block).slots = d.slots ∧
            d.instructions = d.instructions ++ [] :=
        fun d => ⟨(List.append_nil _).symm, rfl, (List.append_nil _).symm⟩
      have hmodified := h.modify hb hcode nofun trivial List.nodup_nil nofun
        (fun d u hu => .inr (Option.some.inj hu ▸ ⟨hterminator, htargets⟩)) none nofun
      exact hmodified.closed rfl ts

/-- A block that the builder is switched to reads what it may. -/
theorem switchTo (h : b.Supplies c) {n : Nat} {ts : Set Nat} (hn : (n, ts) ∈ c.blocks) :
    (b.switchTo n).Supplies { c with temps := ts } := by
  obtain ⟨known, hcert, hpos, _, hblocks⟩ := h
  refine ⟨known, hcert, hpos, fun i hi => ?_, hblocks⟩
  obtain rfl := Option.some.inj hi
  obtain ⟨hlt, heq⟩ := hblocks _ hn
  exact ⟨hlt, heq.symm.subset.trans (Set.subset_union_left.trans Set.subset_union_left)⟩

/-- A slot can be read everywhere, as it is taken before all else. -/
theorem pushSlot (h : b.Supplies c) {dest : Nat} (type : Ty)
    (hfresh : dest < b.procedure.temps.size ∧ dest ∉ b.procedure.params ∧
      dest ∉ b.procedure.dests) :
    Supplies ⟨b.procedure.modifyBlock 0 (·.pushSlot (.alloca dest type)), b.current, b.moves⟩
      (c.put (.temp dest)) := by
  have hput : c.put (.temp dest) = c.add {dest} := by
    rw [Supply.put, Supply.putAll]
    congr 1
    ext t
    simp [tempsOf]
  rw [hput]
  obtain ⟨known, hcert, hpos, hcurrent, hblocks⟩ := h
  have hb := Array.getElem?_eq_getElem hpos
  generalize b.procedure.blocks[0] = d₀ at hb
  let p := b.procedure.modifyBlock 0 (·.pushSlot (.alloca dest type))
  have hsize : p.blocks.size = b.procedure.blocks.size := by simp [p, Procedure.modifyBlock]
  have hget := fun (j : Nat) (d : Block) => Procedure.getElem?_modifyBlock (p := b.procedure)
    (f := (·.pushSlot (.alloca dest type))) (j := j) (d := d) hb
  have hself : p.blocks[0]? = some (d₀.pushSlot (.alloca dest type)) := by
    simp only [p, Procedure.modifyBlock, Array.getElem?_modify, if_true, hb, Option.map_some]
  have hdests : p.dests.Perm (b.procedure.dests ++ [dest]) := by
    refine perm_dests_modifyBlock hb ?_
    rw [Block.pushSlot_eq, destsOf_append, ← d₀.slots_append_code, destsOf_append,
      List.append_assoc]
    exact (List.perm_append_comm : ([dest] ++ _).Perm _).append_left _
  have hstart : ∀ j, p.atStart known j = b.procedure.atStart known j ∪ {dest} := by
    intro j
    have hslots : p.slots = b.procedure.slots ++ [.alloca dest type] := by
      rw [Procedure.slots_of_getElem? hself, Procedure.slots_of_getElem? hb,
        Block.slots_pushSlot rfl]
    have hdest : destsOf [.alloca dest type] = [dest] := rfl
    have hparams : p.params = b.procedure.params := rfl
    ext t
    simp only [Procedure.atStart, hslots, destsOf_append, hdest, hparams, Set.mem_union,
      Set.mem_ofPred_eq, List.mem_append, Set.mem_singleton_iff, List.mem_singleton, or_assoc]
  have hcode : ∀ j, p.code j = b.procedure.code j := by
    intro j
    by_cases hj : j = 0
    · subst hj
      rw [Procedure.code_of_getElem? hself, Procedure.code_of_getElem? hb, Block.code_pushSlot rfl]
    · simp only [p, Procedure.code, Procedure.modifyBlock, Array.getElem?_modify,
        if_neg (Ne.symm hj)]
  have hend : ∀ j, p.atEnd known j = b.procedure.atEnd known j ∪ {dest} := by
    intro j
    rw [Procedure.atEnd, Procedure.atEnd, hstart, hcode, Set.union_right_comm]
  have hsub : ∀ j, b.procedure.atEnd known j ⊆ p.atEnd known j := fun j =>
    (hend j).symm ▸ Set.subset_union_left
  have hold : ∀ (j : Nat) (d : Block), p.blocks[j]? = some d →
      ∃ e, b.procedure.blocks[j]? = some e ∧
      d.code = e.code ∧ d.terminator = e.terminator ∧ (j ≠ 0 → d = e) := by
    intro j d hd
    rcases hget j d hd with ⟨rfl, rfl⟩ | ⟨_, hd⟩
    · exact ⟨d₀, hb, Block.code_pushSlot rfl, by rw [Block.pushSlot_eq], fun h => (h rfl).elim⟩
    · exact ⟨d, hd, rfl, rfl, fun _ => rfl⟩
  refine ⟨known, ⟨hcert.entry, fun t ht => ⟨(hcert.params t ht).1, fun hm => ?_⟩,
    fun t ht => ?_, ?_,
    fun j d hd hj => ?_, fun j d hd => ?_, fun j d t hd ht => ?_⟩, hsize.symm ▸ hpos,
    fun j hj => ?_, fun x hx => hsize.symm ▸ hblocks x hx⟩
  · rcases List.mem_append.1 (hdests.mem_iff.1 hm) with hm | hm
    · exact (hcert.params t ht).2 hm
    · exact hfresh.2.1 (List.mem_singleton.1 hm ▸ ht)
  · rcases List.mem_append.1 (hdests.mem_iff.1 ht) with hm | hm
    · exact hcert.dests t hm
    · exact List.mem_singleton.1 hm ▸ hfresh.1
  · refine hdests.nodup_iff.2 (List.nodup_append'.2 ⟨hcert.once, List.nodup_singleton dest, ?_⟩)
    exact List.disjoint_singleton.2 hfresh.2.2
  · obtain ⟨e, he, _, _, hsame⟩ := hold j d hd
    rw [hsame hj]
    exact hcert.slots j e he hj
  · obtain ⟨e, he, hcode, _⟩ := hold j d hd
    obtain ⟨hallocas, hcovered⟩ := hcert.code j e he
    rw [hcode]
    exact ⟨hallocas, hcovered.mono (hstart j ▸ Set.subset_union_left)⟩
  · obtain ⟨e, he, _, hterminator, _⟩ := hold j d hd
    obtain ⟨hreads, htargets⟩ := hcert.ends j e t he (hterminator ▸ ht)
    exact ⟨hreads.trans (hsub j), fun target htarget =>
      ⟨hsize.symm ▸ (htargets target htarget).1, (htargets target htarget).2.trans (hsub j)⟩⟩
  · obtain ⟨hlt, hts⟩ := hcurrent j hj
    refine ⟨hsize.symm ▸ hlt, ?_⟩
    rw [hend]
    exact Set.union_subset_union_left _ hts

/-- The next temporary is not assigned yet. -/
theorem fresh_newTemp (h : b.Supplies c) (type : Ty) :
    b.procedure.temps.size < (b.newTemp type).2.procedure.temps.size ∧
      b.procedure.temps.size ∉ (b.newTemp type).2.procedure.params ∧
      b.procedure.temps.size ∉ (b.newTemp type).2.procedure.dests := by
  obtain ⟨known, hcert, _⟩ := h
  refine ⟨by simp [Builder.procedure_newTemp, Procedure.newTemp], fun hm => ?_, fun hm => ?_⟩
  · exact Nat.lt_irrefl _ (hcert.params _ hm).1
  · exact Nat.lt_irrefl _ (hcert.dests _ hm)

/-- What an instruction computes can be read behind it. -/
theorem define (h : b.Supplies c) (type : Ty) {f : Nat → Instruction}
    (hi : (f b.procedure.temps.size).isAlloca = false)
    (hdest : (f b.procedure.temps.size).dest? = some b.procedure.temps.size)
    (hreads : ∀ x ∈ (f b.procedure.temps.size).operands, x.In c.temps) :
    (b.define type f).2.Supplies (c.put (b.define type f).1) := by
  have hput : c.put (b.define type f).1 =
      c.putAll ((f b.procedure.temps.size).dest?.map Operand.temp).toList := by
    rw [hdest]
    rfl
  rw [hput]
  refine (h.newTemp type).emit hi hreads fun t ht => ?_
  obtain rfl := Option.some.inj (hdest.symm.trans ht)
  exact h.fresh_newTemp type

/-- A new slot can be read. -/
theorem slot (h : b.Supplies c) (type : Ty) :
    (b.slot type).2.Supplies (c.put (.temp (b.slot type).1)) :=
  (h.newTemp (.pointer type)).pushSlot type (h.fresh_newTemp _)

/-- At the start of a procedure its parameters can be read. -/
theorem start {p : Procedure} (hblocks : p.blocks = #[])
    (hparams : ∀ t ∈ p.params, t < p.temps.size)
    (entry : String) : (Builder.start p entry).Supplies ⟨{t | t ∈ p.params}, []⟩ := by
  have hone := blocks_start entry hblocks
  have hcurrent : (Builder.start p entry).current = some 0 := by
    rw [current_start, hblocks]
    rfl
  have hdests : (Builder.start p entry).procedure.dests = [] := by
    rw [Procedure.dests, hone]
    rfl
  have hget : ∀ (i : Nat) (d : Block), (Builder.start p entry).procedure.blocks[i]? = some d →
      i = 0 ∧ d = ⟨entry, [], none⟩ := by
    intro i d hd
    rw [hone] at hd
    cases i with
    | zero => exact ⟨rfl, (Option.some.inj hd).symm⟩
    | succ i => cases hd
  refine ⟨fun _ => ∅, ⟨Set.empty_subset _, fun t ht => ⟨hparams t ht, ?_⟩, ?_, ?_,
    fun i d hd hi => (hi (hget i d hd).1).elim, fun i d hd => ?_, fun i d t hd ht => ?_⟩, ?_,
    fun i hi => ?_, List.forall_mem_nil _⟩
  · rw [hdests]
    exact List.not_mem_nil
  · rw [hdests]
    exact List.forall_mem_nil _
  · rw [hdests]
    exact List.nodup_nil
  · obtain ⟨_, rfl⟩ := hget i d hd
    exact ⟨List.forall_mem_nil _, trivial⟩
  · obtain ⟨_, rfl⟩ := hget i d hd
    cases ht
  · rw [hone]
    exact Nat.one_pos
  · obtain rfl := Option.some.inj (hcurrent.symm.trans hi)
    rw [hone]
    exact ⟨Nat.one_pos, fun t ht => .inl (.inr (.inl ht))⟩

/-- A procedure that was built so far assigns before it reads. -/
theorem disciplined (h : b.Supplies c) : b.procedure.Disciplined := by
  obtain ⟨known, hcert, _⟩ := h
  exact hcert.disciplined

end Builder.Supplies
end ObjectLang.IR
