import Mathlib.Tactic
import ObjectLang.IR.Size

/-!
# Counting sizes

Counting the bytes of a struct looks into the structs that it contains. How deep it may look makes
no difference once that is deeper than there are structs: if the count has not ended by then, it
never ends. It ends in every module in which no struct contains itself. The structs of classes and
arrays hold numbers, truth values and pointers, and an array of elements that the struct itself does
not count; the size of such a struct is the sum of the sizes of its fields.
-/
namespace ObjectLang

section

variable {l : List Nat}

theorem sum_take_le {j k : Nat} (hjk : j ≤ k) : (l.take j).sum ≤ (l.take k).sum := by
  have h : (l.take k).sum = ((l.take k).take j).sum + ((l.take k).drop j).sum := by
    rw [← List.sum_append, List.take_append_drop]
  rw [List.take_take, Nat.min_eq_left hjk] at h
  omega

/-- One part of a sum ends before a later part starts. -/
theorem sum_take_add_le {j k : Nat} (hj : j < l.length) (hjk : j < k) :
    (l.take j).sum + l[j] ≤ (l.take k).sum := by
  have h : (l.take (j + 1)).sum = (l.take j).sum + l[j] := by
    rw [List.take_succ_eq_append_getElem hj, List.sum_append, List.sum_singleton]
  rw [← h]
  exact sum_take_le hjk

theorem sum_take_add_le_sum {j : Nat} (hj : j < l.length) : (l.take j).sum + l[j] ≤ l.sum := by
  have h := sum_take_add_le hj hj
  rwa [List.take_length] at h

end

end ObjectLang

namespace ObjectLang.IR

section words

variable {o : Overflow}

theorem Overflow.word_of_lt {n : Nat} (h : n < UInt32.size) : o.word n = .ok n :=
  if_pos h

theorem Overflow.long_of_mem {n : Int} (h : -9223372036854775808 ≤ n)
    (h' : n < 9223372036854775808) : o.long n = .ok n :=
  if_pos (Int.bmod_eq_of_le (by simpa [UInt64.size] using h) (by simpa [UInt64.size] using h'))

/-- Where numbers wrap, every number becomes a word. -/
theorem Overflow.exists_word_wrap (n : Nat) : ∃ k, Overflow.wrap.word n = .ok k := by
  rw [Overflow.word]
  split
  · exact ⟨_, rfl⟩
  · exact ⟨_, rfl⟩

theorem Overflow.word_error {n : Nat} {cause : Breakdown} (h : o.word n = .error cause) :
    o = .refuse ∧ cause = .overflow := by
  unfold Overflow.word at h
  split at h
  · cases h
  · cases o with
    | wrap => cases h
    | refuse =>
        cases h
        exact ⟨rfl, rfl⟩

theorem Overflow.long_error {n : Int} {cause : Breakdown} (h : o.long n = .error cause) :
    o = .refuse ∧ cause = .overflow := by
  unfold Overflow.long at h
  split at h
  · cases h
  · cases o with
    | wrap => cases h
    | refuse =>
        cases h
        exact ⟨rfl, rfl⟩

end words

section sums

variable {word : Nat → Except Breakdown Nat} {size size' : Ty → Except Breakdown Nat}
  {fields fields' : List Field}

/-- Fields of the same sizes have the same sum. -/
theorem sumSizes_congr
    (h : List.Forall₂ (fun f f' => size f.type = size' f'.type) fields fields') :
    sumSizes word size fields = sumSizes word size' fields' := by
  unfold sumSizes
  generalize 0 = total
  induction h generalizing total with
  | nil => rfl
  | cons hf _ ih =>
      simp only [List.foldlM_cons, hf]
      exact bind_congr fun total => ih total

/-- A sum fails if the size of one of the fields does, or one of the numbers that it goes
through. -/
theorem exists_of_sumSizes_error {cause : Breakdown}
    (h : sumSizes word size fields = .error cause) :
    (∃ f ∈ fields, size f.type = .error cause) ∨ ∃ n, word n = .error cause := by
  unfold sumSizes at h
  generalize 0 = total at h
  induction fields generalizing total with
  | nil => cases h
  | cons f fields ih =>
      rw [List.foldlM_cons] at h
      cases hsize : size f.type with
      | error cause' =>
          simp only [hsize, bind, Except.bind] at h
          cases h
          exact .inl ⟨f, List.mem_cons_self, hsize⟩
      | ok n =>
          cases hword : word (total + n) with
          | error cause' =>
              simp only [hsize, hword, bind, Except.bind] at h
              cases h
              exact .inr ⟨_, hword⟩
          | ok total' =>
              simp only [hsize, hword, bind, Except.bind] at h
              refine (ih total' h).imp_left ?_
              rintro ⟨g, hg, hcause⟩
              exact ⟨g, List.mem_cons_of_mem f hg, hcause⟩

end sums

section outlasting

variable {ε α β : Type} {cause : ε}

/-- A computation that may have been given up for some cause, and one that goes on then. -/
def Outlasts (cause : ε) (r r' : Except ε α) : Prop :=
  r = .error cause ∨ r = r'

theorem Outlasts.rfl {r : Except ε α} : Outlasts cause r r :=
  .inr (Eq.refl r)

theorem Outlasts.bind {r r' : Except ε α} {k k' : α → Except ε β} (h : Outlasts cause r r')
    (hk : ∀ a, Outlasts cause (k a) (k' a)) : Outlasts cause (r >>= k) (r' >>= k') := by
  rcases h with rfl | rfl
  · exact .inl (Eq.refl _)
  · cases r with
    | error cause => exact .rfl
    | ok a => exact hk a

end outlasting

section depth

variable {m : Module} {cause : Breakdown} {word word' f g : Nat → Except Breakdown Nat}

theorem Ty.outlasts (hword : ∀ n, Outlasts cause (word n) (word' n))
    (h : ∀ id, Outlasts cause (f id) (g id)) (t : Ty) :
    Outlasts cause (t.measure word f) (t.measure word' g) := by
  induction t with
  | struct id => exact h id
  | array element length ih => exact ih.bind fun _ => hword _
  | _ => exact .rfl

theorem sumSizes_outlasts {size size' : Ty → Except Breakdown Nat}
    (hword : ∀ n, Outlasts cause (word n) (word' n))
    (h : ∀ t, Outlasts cause (size t) (size' t)) (fields : List Field) :
    Outlasts cause (sumSizes word size fields) (sumSizes word' size' fields) := by
  unfold sumSizes
  generalize 0 = total
  induction fields generalizing total with
  | nil => exact .rfl
  | cons field fields ih =>
      simp only [List.foldlM_cons]
      exact ((h field.type).bind fun _ => hword _).bind ih

/-- A count that ends is the same if it may look deeper. -/
theorem structSizeWithin_outlasts (m : Module) (depth id : Nat) :
    Outlasts .endless (m.structSizeWithin word depth id)
      (m.structSizeWithin word (depth + 1) id) := by
  induction depth generalizing id with
  | zero => exact .inl rfl
  | succ depth ih =>
      rw [Module.structSizeWithin, Module.structSizeWithin]
      cases m.structs[id]? with
      | none => exact .rfl
      | some s => exact sumSizes_outlasts (fun _ => .rfl) (Ty.outlasts (fun _ => .rfl) ih) s.fields

/-- The structs whose bytes are not counted within a depth. -/
def Module.uncounted (m : Module) (word : Nat → Except Breakdown Nat) (depth : Nat) : Finset Nat :=
  (Finset.range m.structs.size).filter fun id => m.structSizeWithin word depth id = .error .endless

theorem uncounted_succ_subset (m : Module) (depth : Nat) :
    m.uncounted word (depth + 1) ⊆ m.uncounted word depth := by
  intro id hid
  rw [Module.uncounted, Finset.mem_filter] at hid ⊢
  refine ⟨hid.1, ?_⟩
  rcases structSizeWithin_outlasts m depth id with h | h
  · exact h
  · rw [h]
    exact hid.2

/-- If no further struct is counted one level deeper, then looking deeper changes nothing. -/
theorem structSizeWithin_succ_eq {depth : Nat}
    (h : m.uncounted word (depth + 2) = m.uncounted word (depth + 1)) :
    m.structSizeWithin word (depth + 2) = m.structSizeWithin word (depth + 1) := by
  funext id
  rcases structSizeWithin_outlasts m (depth + 1) id with hid | hid
  · rcases Nat.lt_or_ge id m.structs.size with hlt | hge
    · have hmem : id ∈ m.uncounted word (depth + 1) :=
        Finset.mem_filter.2 ⟨Finset.mem_range.2 hlt, hid⟩
      rw [← h] at hmem
      rw [hid, (Finset.mem_filter.1 hmem).2]
    · have hnone := Array.getElem?_eq_none hge
      rw [Module.structSizeWithin, Module.structSizeWithin, hnone]
  · exact hid.symm

theorem structSizeWithin_add {depth : Nat}
    (h : m.structSizeWithin word (depth + 1) = m.structSizeWithin word depth) (k : Nat) :
    m.structSizeWithin word (depth + k) = m.structSizeWithin word depth := by
  induction k with
  | zero => rfl
  | succ k ih =>
      rw [← h]
      funext id
      rw [← Nat.add_assoc, Module.structSizeWithin, Module.structSizeWithin, ih]

/-- Either looking deeper changes nothing, or a struct is counted at every level. -/
theorem uncounted_card (m : Module) (word : Nat → Except Breakdown Nat) (depth : Nat) :
    m.structSizeWithin word (depth + 2) = m.structSizeWithin word (depth + 1) ∨
      (m.uncounted word (depth + 1)).card + depth ≤ m.structs.size := by
  induction depth with
  | zero =>
      refine .inr ?_
      rw [Nat.add_zero]
      exact (Finset.card_filter_le _ _).trans_eq (Finset.card_range _)
  | succ depth ih =>
      rcases ih with h | h
      · exact .inl ((structSizeWithin_add h 2).trans (structSizeWithin_add h 1).symm)
      · by_cases hsame : m.uncounted word (depth + 2) = m.uncounted word (depth + 1)
        · have h := structSizeWithin_succ_eq hsame
          exact .inl ((structSizeWithin_add h 2).trans (structSizeWithin_add h 1).symm)
        · have hlt := Finset.card_lt_card
            (Finset.ssubset_iff_subset_ne.2 ⟨uncounted_succ_subset m (depth + 1), hsame⟩)
          exact .inr (by omega)

/-- Looking deeper than there are structs changes nothing. -/
theorem structSizeWithin_eq {depth : Nat} (h : m.structs.size < depth) :
    m.structSizeWithin word depth = m.structSizeWithin word (m.structs.size + 1) := by
  obtain ⟨k, rfl⟩ := Nat.exists_eq_add_of_lt h
  have hstable : m.structSizeWithin word (m.structs.size + 2) =
      m.structSizeWithin word (m.structs.size + 1) := by
    rcases uncounted_card m word m.structs.size with h | h
    · exact h
    · have hempty : m.uncounted word (m.structs.size + 1) = ∅ := by
        rw [← Finset.card_eq_zero]
        omega
      refine structSizeWithin_succ_eq (hempty ▸ Finset.subset_empty.1 ?_)
      exact hempty ▸ uncounted_succ_subset m (m.structs.size + 1)
  rw [Nat.add_right_comm]
  exact structSizeWithin_add hstable k

/-- The size of a type is what any count says that may look deep enough. -/
theorem measure_eq {depth : Nat} (h : m.structs.size < depth) (t : Ty) :
    t.measure word (m.structSizeWithin word depth) = m.measure word t := by
  rw [structSizeWithin_eq h, Module.measure]

end depth

section containment

/-- Values of a type have values of a struct inside of them. -/
inductive Ty.Holds (id : Nat) : Ty → Prop
  | struct : Ty.Holds id (.struct id)
  | array {element : Ty} {length : Nat} : element.Holds id → Ty.Holds id (.array element length)

variable {m : Module} {word : Nat → Except Breakdown Nat}

/-- Values of one struct have values of another inside of them. -/
def Module.Contains (m : Module) (outer inner : Nat) : Prop :=
  ∃ s, m.structs[outer]? = some s ∧ ∃ f ∈ s.fields, f.type.Holds inner

/-- No struct contains itself, not even inside of others. -/
def Module.Sized (m : Module) : Prop :=
  ∀ id, ¬ Relation.TransGen m.Contains id id

/-- A size cannot be counted if that of a struct inside cannot, or one of the numbers that it goes
through. -/
theorem Ty.exists_of_measure_error {cause : Breakdown} {t : Ty} {f : Nat → Except Breakdown Nat}
    (h : t.measure word f = .error cause) :
    (∃ id, t.Holds id ∧ f id = .error cause) ∨ ∃ n, word n = .error cause := by
  induction t with
  | struct id => exact .inl ⟨id, .struct, h⟩
  | array element length ih =>
      rw [Ty.measure] at h
      cases he : element.measure word f with
      | ok n =>
          rw [he] at h
          exact .inr ⟨_, h⟩
      | error cause' =>
          rw [he] at h
          cases h
          refine (ih he).imp_left ?_
          rintro ⟨id, hid, hf⟩
          exact ⟨id, .array hid, hf⟩
  | _ => cases h

/-- The count of a struct fails at a number, or inside of a struct that it contains. -/
theorem exists_of_structSizeWithin_error {cause : Breakdown} {depth outer : Nat}
    (h : m.structSizeWithin word (depth + 1) outer = .error cause) :
    (∃ inner, m.Contains outer inner ∧ m.structSizeWithin word depth inner = .error cause) ∨
      ∃ n, word n = .error cause := by
  rw [Module.structSizeWithin] at h
  cases hs : m.structs[outer]? with
  | none =>
      rw [hs] at h
      cases h
  | some s =>
      rw [hs] at h
      rcases exists_of_sumSizes_error h with ⟨f, hf, hcause⟩ | hn
      · refine (Ty.exists_of_measure_error hcause).imp_left ?_
        rintro ⟨inner, hholds, hinner⟩
        exact ⟨inner, ⟨s, hs, f, hf, hholds⟩, hinner⟩
      · exact .inr hn

/-- If no struct contains itself, the bytes of every struct are counted to the end. -/
theorem Module.Sized.structSizeWithin_ne (h : m.Sized) (hword : ∀ n, word n ≠ .error .endless)
    (id : Nat) : m.structSizeWithin word (m.structs.size + 1) id ≠ .error .endless := by
  have hinvalid : ∀ id, m.structs.size ≤ id →
      m.structSizeWithin word (m.structs.size + 1) id ≠ .error .endless := by
    intro id hid
    rw [Module.structSizeWithin, Array.getElem?_eq_none hid]
    exact nofun
  -- What is inside of a struct comes before it; as there are finitely many structs and none is
  -- inside of itself, this can be used for an induction.
  let inside (i j : Fin m.structs.size) : Prop := Relation.TransGen m.Contains j i
  have htrans : IsTrans (Fin m.structs.size) inside := ⟨fun _ _ _ hij hjk => hjk.trans hij⟩
  have hirrefl : Std.Irrefl inside := ⟨fun i => h i⟩
  have hwell : WellFounded inside := Finite.wellFounded_of_trans_of_irrefl inside
  have hvalid : ∀ i : Fin m.structs.size,
      m.structSizeWithin word (m.structs.size + 1) i ≠ .error .endless := by
    intro i
    induction i using hwell.induction with
    | _ i ih =>
        intro hendless
        have hdeeper : m.structSizeWithin word (m.structs.size + 2) =
            m.structSizeWithin word (m.structs.size + 1) :=
          structSizeWithin_eq (Nat.lt_add_of_pos_right Nat.two_pos)
        rw [← hdeeper] at hendless
        rcases exists_of_structSizeWithin_error hendless with ⟨inner, hcontains, hinner⟩ | ⟨n, hn⟩
        · rcases Nat.lt_or_ge inner m.structs.size with hlt | hge
          · exact ih ⟨inner, hlt⟩ (.single hcontains) hinner
          · exact hinvalid inner hge hinner
        · exact hword n hn
  rcases Nat.lt_or_ge id m.structs.size with hlt | hge
  · exact hvalid ⟨id, hlt⟩
  · exact hinvalid id hge

/-- The reasons for which a size may not be counted: numbers overflow only where they are refused,
and only a struct that contains itself is endless. -/
inductive Module.Breaks [Profile] (m : Module) : Breakdown → Prop
  | overflow : Profile.overflow = .refuse → Module.Breaks m .overflow
  | endless : ¬ m.Sized → Module.Breaks m .endless

variable [Profile] {cause : Breakdown}

theorem breaks_of_word {n : Nat} (h : Profile.overflow.word n = .error cause) : m.Breaks cause := by
  obtain ⟨hrefuse, rfl⟩ := Overflow.word_error h
  exact .overflow hrefuse

theorem breaks_of_long {n : Int} (h : Profile.overflow.long n = .error cause) : m.Breaks cause := by
  obtain ⟨hrefuse, rfl⟩ := Overflow.long_error h
  exact .overflow hrefuse

theorem breaks_of_structSizeWithin {id : Nat}
    (h : m.structSizeWithin Profile.overflow.word (m.structs.size + 1) id = .error cause) :
    m.Breaks cause := by
  cases cause with
  | endless =>
      refine .endless fun hsized => hsized.structSizeWithin_ne (fun n hn => ?_) id h
      exact nomatch (Overflow.word_error hn).2
  | overflow =>
      generalize m.structs.size + 1 = depth at h
      induction depth generalizing id with
      | zero => cases h
      | succ depth ih =>
          rcases exists_of_structSizeWithin_error h with ⟨inner, _, hinner⟩ | ⟨n, hn⟩
          · exact ih hinner
          · exact breaks_of_word hn

theorem breaks_of_measure {t : Ty} (h : m.measure Profile.overflow.word t = .error cause) :
    m.Breaks cause := by
  rcases Ty.exists_of_measure_error h with ⟨id, _, hid⟩ | ⟨n, hn⟩
  · exact breaks_of_structSizeWithin hid
  · exact breaks_of_word hn

theorem breaks_of_measureOffset {id index : Nat}
    (h : m.measureOffset Profile.overflow.word id index = .error cause) : m.Breaks cause := by
  rw [Module.measureOffset] at h
  cases hs : m.structs[id]? with
  | none =>
      rw [hs] at h
      cases h
  | some s =>
      rw [hs] at h
      dsimp only at h
      split at h
      · cases hsum : sumSizes Profile.overflow.word (m.measure Profile.overflow.word)
            (s.fields.take index) with
        | ok n =>
            rw [hsum] at h
            cases h
        | error cause' =>
            rw [hsum] at h
            cases h
            rcases exists_of_sumSizes_error hsum with ⟨f, _, hf⟩ | ⟨n, hn⟩
            · exact breaks_of_measure hf
            · exact breaks_of_word hn
      · cases h

end containment

section flat

/-- The size of a type in which structs count for nothing. -/
def Ty.size : Ty → Nat
  | .int => 4
  | .bool | .byte => 1
  | .pointer _ | .null => 8
  | .array element length => element.size * length
  | .struct _ | .void => 0

/-- A type whose size no struct has a say in, and no word either. -/
def Ty.Flat (t : Ty) : Prop :=
  ∀ word structSize, word 0 = .ok 0 → t.measure word structSize = .ok t.size

/-- How many bytes some fields take together. -/
def fieldBytes (fields : List Field) : Nat :=
  (fields.map fun f => f.type.size).sum

theorem fieldBytes_cons (f : Field) (fields : List Field) :
    fieldBytes (f :: fields) = f.type.size + fieldBytes fields := by
  rw [fieldBytes, List.map_cons, List.sum_cons]
  rfl

theorem Ty.flat_array {element : Ty} (h : element.Flat) : (Ty.array element 0).Flat := by
  intro word structSize hword
  rw [Ty.measure, h word structSize hword]
  exact hword

variable {m : Module} {fields : List Field} {word structSize : Nat → Except Breakdown Nat}

theorem fieldBytes_take {k : Nat} :
    fieldBytes (fields.take k) = ((fields.map fun f => f.type.size).take k).sum := by
  rw [fieldBytes, List.map_take]

/-- Fields are summed up without a failure if their sum is a word. -/
theorem sumSizes_flat (h : ∀ f ∈ fields, f.type.Flat)
    (hword : ∀ n ≤ fieldBytes fields, word n = .ok n) :
    sumSizes word (Ty.measure word structSize) fields = .ok (fieldBytes fields) := by
  have hsum : ∀ (fields : List Field) (total : Nat), (∀ f ∈ fields, f.type.Flat) →
      (∀ n ≤ total + fieldBytes fields, word n = .ok n) →
        fields.foldlM (fun total f => do word (total + (← f.type.measure word structSize))) total =
          .ok (total + fieldBytes fields) := by
    intro fields
    induction fields with
    | nil => exact fun _ _ _ => rfl
    | cons f fields ih =>
        intro total hflat hword
        rw [List.forall_mem_cons] at hflat
        rw [fieldBytes_cons, ← Nat.add_assoc] at hword ⊢
        have hsize := hflat.1 word structSize (hword 0 (Nat.zero_le _))
        have htotal := hword (total + f.type.size) (Nat.le_add_right ..)
        simp only [List.foldlM_cons, hsize, bind, Except.bind, htotal]
        exact ih _ hflat.2 hword
  have h := hsum fields 0 h (by rwa [Nat.zero_add])
  rwa [Nat.zero_add] at h

/-- Where numbers wrap, fields are always summed up. -/
theorem exists_sumSizes_wrap (h : ∀ f ∈ fields, f.type.Flat) :
    ∃ n, sumSizes Overflow.wrap.word (Ty.measure Overflow.wrap.word structSize) fields =
      .ok n := by
  cases hsum : sumSizes Overflow.wrap.word (Ty.measure Overflow.wrap.word structSize) fields with
  | ok n => exact ⟨n, rfl⟩
  | error cause =>
      rcases exists_of_sumSizes_error hsum with ⟨f, hf, hsize⟩ | ⟨n, hn⟩
      · rw [h f hf Overflow.wrap.word structSize rfl] at hsize
        cases hsize
      · exact nomatch (Overflow.word_error hn).1

theorem measure_flat {t : Ty} (h : t.Flat) (hword : word 0 = .ok 0) :
    m.measure word t = .ok t.size :=
  h word _ hword

theorem sizeOf_flat {t : Ty} (h : t.Flat) : m.sizeOf t = t.size := by
  rw [Module.sizeOf, measure_flat h rfl]
  rfl

variable {id : Nat} {s : Struct} (hs : m.structs[id]? = some s) (h : ∀ f ∈ s.fields, f.type.Flat)
include hs

theorem measure_struct :
    m.measure word (.struct id) =
      sumSizes word (Ty.measure word (m.structSizeWithin word m.structs.size)) s.fields := by
  rw [Module.measure, Ty.measure, Module.structSizeWithin, hs]

include h

theorem sizeOf_struct : m.sizeOf (.struct id) = fieldBytes s.fields := by
  rw [Module.sizeOf, measure_struct hs, sumSizes_flat h fun _ _ => rfl]
  rfl

theorem measureOffset_eq {k : Nat} (hk : k < s.fields.length)
    (hword : ∀ n ≤ fieldBytes (s.fields.take k), word n = .ok n) :
    m.measureOffset word id k = .ok (some (fieldBytes (s.fields.take k))) := by
  have hsum : sumSizes word (m.measure word) (s.fields.take k) = _ :=
    sumSizes_flat (fun f hf => h f (List.mem_of_mem_take hf)) hword
  simp only [Module.measureOffset, hs, if_pos hk, hsum]
  rfl

theorem fieldOffset?_eq {k : Nat} (hk : k < s.fields.length) :
    m.fieldOffset? id k = some (fieldBytes (s.fields.take k)) := by
  rw [Module.fieldOffset?, measureOffset_eq hs h hk fun _ _ => rfl]
  rfl

end flat

end ObjectLang.IR
