import Mathlib.Tactic
import ObjectLang.Proofs.IR.Sizes
import ObjectLang.Proofs.Machine.Moves

/-!
# Offsets

Where the indices lead that code has for fields and elements. Code with such indices only looks at
structs of flat fields, and it is only run on structs and arrays of which the part up to the field
or element fits into memory; so the numbers that the machine goes through do not wrap.
-/
namespace ObjectLang.Machine

open IR

/-- A field number that is not too large is read as it is written. -/
theorem fieldNumber_ofNat {k : Nat} (hk : k < 2147483648) : fieldNumber (Int32.ofNat k) = k := by
  have h : (Int32.ofNat k).toInt64.toBitVec.toInt = k := by
    have h' : (Int32.ofNat k).toInt64.toInt = k := by
      rw [Int32.toInt_toInt64, Int32.toInt_ofNat_of_lt hk]
    exact h'
  have hmsb : (Int32.ofNat k).toInt64.toBitVec.msb = false := by
    rw [BitVec.msb_eq_toInt, h, decide_eq_false_iff_not]
    omega
  have hn := BitVec.toInt_eq_toNat_of_msb hmsb
  rw [fieldNumber, ← Int64.toNat_toBitVec]
  omega

variable {m : Module} {f : Frame} {id : Nat} {s : Struct}

/-- An offset moves on by whole values of a type, as long as the numbers fit. -/
theorem strideOffset_eq {offset : Int} {n : Int32} {type : Ty} {size : Nat}
    (hsize : m.measure Profile.overflow.word type = .ok size)
    (hbytes : -9223372036854775808 ≤ n.toInt * size ∧ n.toInt * size < 9223372036854775808)
    (hoffset : -9223372036854775808 ≤ offset + n.toInt * size ∧
      offset + n.toInt * size < 9223372036854775808) :
    strideOffset m offset n type = .ok (offset + n.toInt * size) := by
  have hlong := Overflow.long_of_mem (o := Profile.overflow) hbytes.1 hbytes.2
  have hlong' := Overflow.long_of_mem (o := Profile.overflow) hoffset.1 hoffset.2
  rw [strideOffset, hsize]
  simp only [bind, Except.bind, hlong, hlong']

/-- The first index of a pointer to a struct counts no structs, however many bytes they take. -/
theorem strideOffset_struct (hs : m.structs[id]? = some s) (hflat : ∀ f ∈ s.fields, f.type.Flat) :
    strideOffset m (0 : Nat) 0 (.struct id) = .ok (0 : Nat) := by
  obtain ⟨size, hn⟩ := exists_sumSizes_wrap hflat
  have hsize : m.measure Profile.overflow.word (.struct id) = .ok size :=
    (measure_struct hs).trans hn
  have hzero : (0 : Int32).toInt * (size : Int) = 0 := by
    rw [Int32.toInt_zero, Int.zero_mul]
  rw [strideOffset_eq hsize (by rw [hzero]; decide) (by rw [hzero]; decide), hzero, Int.add_zero]

/-- An index for a field leads on to the field, if what stands before it is not too large. -/
theorem indexOffset_field {k : Nat} {offset next : Int} (hs : m.structs[id]? = some s)
    (hflat : ∀ f ∈ s.fields, f.type.Flat) (hk : k < s.fields.length) (hk' : k < 2147483648)
    (hlt : fieldBytes (s.fields.take k) < UInt32.size)
    (hnext : Profile.overflow.long (offset + fieldBytes (s.fields.take k)) = .ok next)
    (indices : List Operand) :
    indexOffset m f offset (.struct id) (.int (Int32.ofNat k) :: indices) =
      indexOffset m f next s.fields[k].type indices := by
  have hfield : (m.structs[id]?.bind (·.fields[k]?)) = some s.fields[k] := by
    rw [hs]
    exact List.getElem?_eq_getElem hk
  have hbytes : m.measureOffset Profile.overflow.word id k =
      .ok (some (fieldBytes (s.fields.take k))) :=
    measureOffset_eq hs hflat hk fun _ hn => Overflow.word_of_lt (hn.trans_lt hlt)
  rw [indexOffset]
  simp only [fieldNumber_ofNat hk', hbytes, hfield, counted, Except.mapError, bind, Except.bind,
    hnext]

/-- Indices into a field of a struct lead to the field first. -/
theorem pointerOffset_inField {k : Nat} {indices : List Operand} (hs : m.structs[id]? = some s)
    (hflat : ∀ f ∈ s.fields, f.type.Flat) (hk : k < s.fields.length) (hk' : k < 2147483648)
    (hlt : fieldBytes (s.fields.take k) < UInt32.size) :
    pointerOffset m f (0 : Nat) (.struct id) (.int 0 :: .int (Int32.ofNat k) :: indices) =
      indexOffset m f (fieldBytes (s.fields.take k)) s.fields[k].type indices := by
  have hnext : Profile.overflow.long ((0 : Nat) + fieldBytes (s.fields.take k)) =
      .ok (fieldBytes (s.fields.take k) : Int) := by
    rw [Nat.cast_zero, Int.zero_add]
    change _ < 4294967296 at hlt
    exact Overflow.long_of_mem (by omega) (by omega)
  rw [← indexOffset_field hs hflat hk hk' hlt hnext, pointerOffset]
  simp only [Frame.evalInt, Frame.eval, bind, Except.bind, pure, Except.pure,
    strideOffset_struct hs hflat, counted, Except.mapError]

theorem pointerOffset_field {k : Nat} (hs : m.structs[id]? = some s)
    (hflat : ∀ f ∈ s.fields, f.type.Flat) (hk : k < s.fields.length) (hk' : k < 2147483648)
    (hlt : fieldBytes (s.fields.take k) < UInt32.size) :
    pointerOffset m f (0 : Nat) (.struct id) [.int 0, .int (Int32.ofNat k)] =
      .ok (fieldBytes (s.fields.take k) : Int) := by
  rw [pointerOffset_inField hs hflat hk hk' hlt]
  cases s.fields[k].type <;> rfl

theorem pointerOffset_element {element : Ty} {i : Operand} {n : Int32} {length : Nat}
    (hs : m.structs[id]? = some s) (hflat : ∀ f ∈ s.fields, f.type.Flat)
    (hfield : s.fields[1]?.map Field.type = some (.array element length))
    (helement : element.Flat) (hsmall : element.size < UInt32.size)
    (hlt : fieldBytes (s.fields.take 1) < 2147483648) (hi : f.evalInt i = .ok n) :
    pointerOffset m f (0 : Nat) (.struct id) [.int 0, .int 1, i] =
      .ok (fieldBytes (s.fields.take 1) + n.toInt * element.size : Int) := by
  obtain ⟨field, hf, htype⟩ := Option.map_eq_some_iff.1 hfield
  obtain ⟨hk, hf⟩ := List.getElem?_eq_some_iff.1 hf
  have hrange := n.toInt_lt
  have hrange' := n.le_toInt
  have hproduct : -2147483648 * (element.size : Int) ≤ n.toInt * element.size ∧
      n.toInt * element.size ≤ 2147483647 * element.size :=
    ⟨Int.mul_le_mul_of_nonneg_right (by omega) (by omega),
      Int.mul_le_mul_of_nonneg_right (by omega) (by omega)⟩
  change _ < 4294967296 at hsmall
  have hstride : strideOffset m (fieldBytes (s.fields.take 1)) n element =
      .ok (fieldBytes (s.fields.take 1) + n.toInt * element.size) :=
    strideOffset_eq (measure_flat helement (Overflow.word_of_lt (by decide))) (by omega) (by omega)
  rw [show (1 : Int32) = Int32.ofNat 1 from rfl,
    pointerOffset_inField hs hflat hk (by decide) (by change _ < 4294967296; omega), hf, htype]
  rw [indexOffset, hi]
  simp only [bind, Except.bind, counted, hstride, Except.mapError]
  cases element <;> rfl

end ObjectLang.Machine
