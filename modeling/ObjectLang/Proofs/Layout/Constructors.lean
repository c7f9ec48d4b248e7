import Mathlib.Tactic
import ObjectLang.Layout.Basic
import ObjectLang.Proofs.IR.Supplies
import ObjectLang.Proofs.IR.Types
import ObjectLang.Proofs.Machine.Offsets

/-!
# The code of constructors

A constructor is one block: it takes memory for an object, and stores the default of each field
where the object has it. What it looks like is known from the size and the fields of the struct that
it fills.
-/
namespace ObjectLang

open IR

section code

/-- The instructions that set some fields; `k` is the position of the first of them. -/
def fieldStores : Nat → List Field → List Instruction
  | _, [] => []
  | k, f :: fields =>
    .elementPtr (2 + k) (.temp 1) [.int 0, .int (Int32.ofNat k)] ::
      .store (.temp (2 + k)) f.type.defaultValue :: fieldStores (k + 1) fields

/-- The temporaries that hold the addresses of some fields. -/
def fieldTemps (fields : List Field) : List Temp :=
  fields.map fun f => ⟨.pointer f.type, none⟩

/-- A constructor, told by the size and the fields of the struct that it fills. -/
def constructorCode (cls : String) (struct size : Nat) (fields : List Field) : Procedure where
  name := cls ++ "_Create_Default"
  returnType := .pointer (.struct struct)
  temps := (⟨.pointer .byte, none⟩ ::
    ⟨.pointer (.struct struct), none⟩ :: fieldTemps fields).toArray
  blocks := #[⟨"entry",
    .alloc 0 (.int (Int32.ofNat size)) :: .bitcast 1 (.temp 0) :: fieldStores 0 fields,
    some (.ret (.temp 1))⟩]

/-- One more field is set at the end of a block. -/
theorem foldl_fields (name : String) (type : Ty) (fields : List Field) (k : Nat)
    (temps : List Temp) (instructions : List Instruction) (moves : Array Move)
    (hk : temps.length = 2 + k) :
    ∃ moves', (fields.zipIdx k).foldl
      (fun b (field, index) =>
        let (address, b) :=
          b.elementPtr (.temp 1) [.int 0, .int (Int32.ofNat index)] field.type
        b.store address field.type.defaultValue)
      (⟨⟨name, type, [], temps.toArray, #[⟨"entry", instructions, none⟩]⟩, some 0, moves⟩ :
        Builder) =
    ⟨⟨name, type, [], (temps ++ fieldTemps fields).toArray,
      #[⟨"entry", instructions ++ fieldStores k fields, none⟩]⟩, some 0, moves'⟩ := by
  induction fields generalizing k temps instructions moves with
  | nil => exact ⟨moves, by simp [fieldTemps, fieldStores]⟩
  | cons f fields ih =>
      rw [List.zipIdx_cons, List.foldl_cons]
      let address : Instruction :=
        .elementPtr (2 + k) (.temp 1) [.int 0, .int (Int32.ofNat k)]
      let store : Instruction := .store (.temp (2 + k)) f.type.defaultValue
      obtain ⟨moves', hstep⟩ := ih (k + 1) (temps ++ [⟨.pointer f.type, none⟩])
        (instructions ++ [address, store])
        (((moves.push (.temp (.pointer f.type))).push (.emit address)).push (.emit store))
        (by simp [hk, Nat.add_assoc])
      simp only [fieldTemps, fieldStores, List.map_cons, List.append_assoc, List.cons_append,
        List.nil_append] at hstep ⊢
      refine ⟨moves', hstep ▸ ?_⟩
      simp [address, store, Builder.elementPtr, Builder.store, Builder.define, Builder.newTemp,
        Procedure.newTemp, Builder.emit, Builder.record, Procedure.modifyBlock, Block.push, hk]

/-- The constructor of a class as it is in the module. -/
theorem constructorOf_eq (cls : String) {m : Module} {struct : Nat} {s : Struct}
    (hs : m.structs[struct]? = some s) :
    constructorOf m cls struct = constructorCode cls struct
      (m.sizeOf (.struct struct)) s.fields := by
  obtain ⟨moves, hfold⟩ :=
    foldl_fields (cls ++ "_Create_Default") (.pointer (.struct struct)) s.fields 0
    [⟨.pointer .byte, none⟩, ⟨.pointer (.struct struct), none⟩]
    [.alloc 0 (.int (Int32.ofNat (m.sizeOf (.struct struct)))), .bitcast 1 (.temp 0)] _ rfl
  rw [constructorOf, hs]
  exact congrArg (fun b : Builder => (b.ret (.temp 1)).procedure) hfold

/-- What is added to a module has no effect on the constructors that it has. -/
theorem constructorOf_congr {m m' : Module} {cls : String} {struct : Nat} {s : Struct}
    (hs : m.structs[struct]? = some s) (hs' : m'.structs[struct]? = some s)
    (hflat : ∀ f ∈ s.fields, f.type.Flat) :
    constructorOf m cls struct = constructorOf m' cls struct := by
  rw [constructorOf_eq cls hs, constructorOf_eq cls hs', sizeOf_struct hs hflat,
    sizeOf_struct hs' hflat]

end code

section typing

variable {m : Module} {cls : String} {struct size : Nat} {s : Struct}

theorem typeOf?_field {fields : List Field} {k : Nat} {f : Field} (hk : fields[k]? = some f) :
    (constructorCode cls struct size fields).typeOf? (.temp (2 + k)) = some (.pointer f.type) := by
  rw [Nat.add_comm]
  simp [constructorCode, Procedure.typeOf?, fieldTemps, hk]

theorem fits_fieldStores (hs : m.structs[struct]? = some s)
    (hdefault : ∀ f ∈ s.fields, ∀ q : Procedure, q.Passes f.type.defaultValue f.type) :
    ∀ (k : Nat) (fields : List Field), s.fields.drop k = fields →
      ∀ i ∈ fieldStores k fields, i.Fits m (constructorCode cls struct size s.fields)
  | _, [], _, _, hi => by cases hi
  | k, f :: fields, hdrop, i, hi => by
      have hk : s.fields[k]? = some f := by
        rw [← List.head?_drop, hdrop]
        rfl
      rcases List.mem_cons.1 hi with rfl | hi
      · exact .elementPtr rfl hs rfl hk .whole (typeOf?_field hk)
      · rcases List.mem_cons.1 hi with rfl | hi
        · exact .store (typeOf?_field hk) (hdefault f (List.mem_of_getElem? hk) _)
        · refine fits_fieldStores hs hdefault (k + 1) fields ?_ i hi
          rw [← List.drop_drop, hdrop]
          rfl

/-- A constructor is well typed if its struct is there and all fields have defaults. -/
theorem constructorCode_wellTyped (hs : m.structs[struct]? = some s)
    (hdefault : ∀ f ∈ s.fields, ∀ q : Procedure, q.Passes f.type.defaultValue f.type) :
    (constructorCode cls struct size s.fields).WellTyped m := by
  refine ⟨Nat.one_pos, fun i b hb => ?_⟩
  cases i with
  | zero =>
      obtain rfl : _ = b := Option.some.inj hb
      refine ⟨nofun, fun i hi => ?_, fun t ht => ?_⟩
      · rcases List.mem_cons.1 hi with rfl | hi
        · exact .alloc rfl rfl
        rcases List.mem_cons.1 hi with rfl | hi
        · exact .bitcast rfl rfl
        · exact fits_fieldStores hs hdefault 0 s.fields rfl i hi
      · cases ht
        exact .ret (.inl rfl)
  | succ i => cases hb

end typing

section discipline

variable {cls : String} {struct size : Nat} {fields : List Field}

theorem destsOf_fieldStores (k : Nat) (fields : List Field) :
    destsOf (fieldStores k fields) = List.range' (2 + k) fields.length := by
  induction fields generalizing k with
  | nil => rfl
  | cons f fields ih =>
      rw [fieldStores, List.length_cons, List.range'_succ, destsOf]
      exact congrArg _ (ih (k + 1))

/-- The code that sets fields reads the object, and addresses that it has computed itself. -/
theorem covered_fieldStores {known : Set Nat} (h : 1 ∈ known) (k : Nat) (fields : List Field) :
    Covered known (fieldStores k fields) := by
  induction fields generalizing k known with
  | nil => trivial
  | cons f fields ih =>
      refine ⟨Instruction.reads_subset.2 ?_, Instruction.reads_subset.2 ?_, ih (by simp [h]) _⟩
      · simp [Instruction.operands, in_temp, h]
      · simp [Instruction.operands, in_temp, Instruction.dest?]

theorem isAlloca_fieldStores (k : Nat) (fields : List Field) :
    ∀ i ∈ fieldStores k fields, i.isAlloca = false := by
  induction fields generalizing k with
  | nil => exact nofun
  | cons f fields ih => exact List.forall_mem_cons.2 ⟨rfl, List.forall_mem_cons.2 ⟨rfl, ih _⟩⟩

/-- A constructor assigns before it reads. -/
theorem constructorCode_disciplined : (constructorCode cls struct size fields).Disciplined := by
  have hdests : (constructorCode cls struct size fields).dests =
      List.range' 0 (fields.length + 2) := by
    rw [List.range'_succ, List.range'_succ, ← destsOf_fieldStores 0 fields]
    exact List.append_nil _
  have hsize : (constructorCode cls struct size fields).temps.size = fields.length + 2 := by
    simp [constructorCode, fieldTemps]
  suffices hcertified : (constructorCode cls struct size fields).Certified fun _ => ∅ from
    hcertified.disciplined
  refine ⟨Set.empty_subset _, nofun, fun t ht => ?_, hdests ▸ List.nodup_range',
    fun i b hb hi => ?_, fun i b hb => ?_, fun i b t hb ht => ?_⟩
  · rw [hdests, List.mem_range'_1] at ht
    omega
  · cases i with
    | zero => exact absurd rfl hi
    | succ i => cases hb
  · cases i with
    | zero =>
        cases hb
        refine ⟨List.forall_mem_cons.2 ⟨rfl, List.forall_mem_cons.2 ⟨rfl, ?_⟩⟩, ?_, ?_, ?_⟩
        · exact isAlloca_fieldStores 0 fields
        · exact Instruction.reads_subset.2 (by simp [Instruction.operands])
        · exact Instruction.reads_subset.2
            (by simp [Instruction.operands, in_temp, Instruction.dest?])
        · exact covered_fieldStores (by simp [Instruction.dest?]) 0 fields
    | succ i => cases hb
  · cases i with
    | zero =>
        cases hb
        cases ht
        refine ⟨tempsOf_subset.2 ?_, nofun⟩
        simp [Terminator.operand?, in_temp, Procedure.atEnd, Procedure.code, constructorCode,
          Block.code, destsOf, Instruction.isAlloca, Instruction.dest?]
    | succ i => cases hb

end discipline

end ObjectLang
