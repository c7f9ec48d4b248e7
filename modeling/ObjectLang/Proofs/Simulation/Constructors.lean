import Mathlib.Tactic
import ObjectLang.Proofs.Layout.Constructors
import ObjectLang.Proofs.Lowering.Variables
import ObjectLang.Proofs.Machine.Entry
import ObjectLang.Proofs.Simulation.Calls

/-!
# Constructors make objects

A constructor takes memory for an object and sets one field after the other. The offsets of the
fields grow, so no store touches a field that was set before. If objects are too large, it asks for
less memory than they need, and sooner or later a store is behind its end.
-/
namespace ObjectLang

open Machine IR

section runs

variable {m : Module} {p : Procedure} {callers : List (Nat × Frame)} {c a struct : Nat}
  {s : Struct}

/-- The fields from a position on are set: those before it stay, and nothing else in memory
changes. -/
structure FieldsSet (s : Struct) (a k : Nat) (μ μ' : Config) : Prop where
  size : μ'.temps.size = μ.temps.size
  object : μ'.temps[1]? = μ.temps[1]?
  output : μ'.output = μ.output
  count : μ'.memory.count = μ.memory.count
  sizeAt : μ'.memory.sizeAt? a = μ.memory.sizeAt? a
  elsewhere : ∀ b, b ≠ a → μ'.memory.allocations[b]? = μ.memory.allocations[b]?
  before : ∀ j < k, μ'.memory.get? ⟨a, fieldBytes (s.fields.take j)⟩ =
    μ.memory.get? ⟨a, fieldBytes (s.fields.take j)⟩
  set : ∀ (j : Nat) (f : Field), k ≤ j → s.fields[j]? = some f →
    μ'.memory.get? ⟨a, fieldBytes (s.fields.take j)⟩ = some f.type.initial

/-- One field stands before a later one. -/
theorem fieldBytes_take_lt {fields : List Field} {j k : Nat} {f : Field} (hf : fields[j]? = some f)
    (hpos : 0 < f.type.size) (hjk : j < k) :
    fieldBytes (fields.take j) < fieldBytes (fields.take k) := by
  obtain ⟨hj, hget⟩ := List.getElem?_eq_some_iff.1 hf
  have hle := sum_take_add_le (l := fields.map fun f => f.type.size) (by simpa using hj) hjk
  rw [List.getElem_map, hget] at hle
  rw [fieldBytes_take, fieldBytes_take]
  omega

/-- Each field takes a byte at least. -/
theorem le_fieldBytes_take {fields : List Field} (hpos : ∀ f ∈ fields, 0 < f.type.size) :
    ∀ {k : Nat}, k ≤ fields.length → k ≤ fieldBytes (fields.take k)
  | 0, _ => Nat.zero_le _
  | k + 1, hk => by
      have hf : fields[k]? = some fields[k] := List.getElem?_eq_getElem hk
      exact (le_fieldBytes_take hpos (Nat.le_of_succ_le hk)).trans_lt
        (fieldBytes_take_lt hf (hpos _ (List.mem_of_getElem? hf)) (Nat.lt_add_one k))

/-- The address of a field of an object. -/
theorem step_fieldAddress {k : Nat} {μ : Config} (code : List Instruction)
    (hs : m.structs[struct]? = some s) (hflat : ∀ f ∈ s.fields, f.type.Flat)
    (htype : p.typeOf? (.temp 1) = some (.pointer (.struct struct)))
    (hobject : μ.temps[1]? = some (some (.pointer (some ⟨a, 0⟩)))) (hlt : k < s.fields.length)
    (hcount : k < 2147483648) (hoffset : fieldBytes (s.fields.take k) < UInt32.size) :
    step m (μ.state p callers (c, .elementPtr (2 + k) (.temp 1)
        [.int 0, .int (Int32.ofNat k)] :: code)) =
      .running ((μ.set (2 + k)
        (.pointer (some ⟨a, fieldBytes (s.fields.take k)⟩))).state p callers (c, code)) :=
  step_elementPtr (a := ⟨a, 0⟩) (by rw [Config.value?, hobject]; rfl) htype
    (pointerOffset_field hs hflat hlt hcount hoffset) hoffset

/-- The stores of the fields from a position on, one after the other. -/
theorem exists_fieldsSet (rest : List Instruction) (hs : m.structs[struct]? = some s)
    (hflat : ∀ f ∈ s.fields, f.type.Flat ∧ 0 < f.type.size)
    (hbytes : fieldBytes s.fields ≤ maxBytes)
    (htype : p.typeOf? (.temp 1) = some (.pointer (.struct struct)))
    (htemps : p.temps.size = 2 + s.fields.length) :
    ∀ (fields : List Field) (k : Nat) (μ : Config), s.fields.drop k = fields →
      μ.temps.size = p.temps.size → μ.temps[1]? = some (some (.pointer (some ⟨a, 0⟩))) →
      μ.memory.sizeAt? a = some (fieldBytes s.fields) →
      ∃ μ', Steps m (2 * fields.length) (μ.state p callers (c, fieldStores k fields ++ rest))
        (μ'.state p callers (c, rest)) ∧ FieldsSet s a k μ μ'
  | [], k, μ, hdrop, _, _, _ => by
      refine ⟨μ, .refl _, rfl, rfl, rfl, rfl, rfl, fun _ _ => rfl, fun _ _ => rfl, ?_⟩
      intro j f hkj hj
      have hlt := (List.getElem?_eq_some_iff.1 hj).1
      rw [List.drop_eq_nil_iff] at hdrop
      omega
  | f :: fields, k, μ, hdrop, hsize, hobject, hat => by
      have hk : s.fields[k]? = some f := by
        rw [← List.head?_drop, hdrop]
        rfl
      obtain ⟨hlt, hget⟩ := List.getElem?_eq_some_iff.1 hk
      obtain ⟨_, hpos⟩ := hflat f (List.mem_of_getElem? hk)
      let place : Address := ⟨a, fieldBytes (s.fields.take k)⟩
      have hplace : fieldBytes (s.fields.take k) + f.type.size ≤ fieldBytes s.fields := by
        have hle := sum_take_add_le_sum (l := s.fields.map fun f => f.type.size) (j := k)
          (by simpa using hlt)
        rw [List.getElem_map, hget] at hle
        rwa [fieldBytes_take]
      have hcovers : μ.memory.Covers place := ⟨_, hat, by simp only [place]; omega⟩
      have hcount : k < 2147483648 := by
        have := le_fieldBytes_take (fun f hf => (hflat f hf).2) hlt.le
        have : maxBytes = 2147483647 := rfl
        omega
      -- The address of the field, and the store there.
      let μ₁ := μ.set (2 + k) (.pointer (some place))
      let μ₂ := μ₁.write place f.type.initial
      have haddress : step m (μ.state p callers (c, fieldStores k (f :: fields) ++ rest)) =
          .running (μ₁.state p callers (c, .store (.temp (2 + k)) f.type.defaultValue ::
            (fieldStores (k + 1) fields ++ rest))) :=
        step_fieldAddress _ hs (fun f hf => (hflat f hf).1) htype hobject hlt hcount (by
          have : maxBytes < UInt32.size := by decide
          omega)
      have hstore : step m (μ₁.state p callers (c, .store (.temp (2 + k)) f.type.defaultValue ::
            (fieldStores (k + 1) fields ++ rest))) =
          .running (μ₂.state p callers (c, fieldStores (k + 1) fields ++ rest)) := by
        refine step_store ?_ (value?_defaultValue _ _) hcovers
        exact Config.value?_set_self (by omega)
      have hobject₂ : μ₂.temps[1]? = μ.temps[1]? := Config.temps_set_of_ne (by omega)
      obtain ⟨μ', hsteps, hset⟩ := exists_fieldsSet rest hs hflat hbytes htype htemps fields (k + 1)
        μ₂ (by rw [← List.drop_drop, hdrop]; rfl)
        (by rw [Config.temps_write, Config.size_temps_set, hsize]) (hobject₂.trans hobject)
        (by rw [Config.memory_write, Memory.sizeAt?_put]; exact hat)
      refine ⟨μ', .head haddress (.head hstore hsteps), ?_, hset.object.trans hobject₂,
        hset.output, ?_, ?_, fun b hb => ?_, fun j hj => ?_, fun j g hkj hj => ?_⟩
      · rw [hset.size, Config.temps_write, Config.size_temps_set]
      · rw [hset.count, Config.memory_write, Memory.count_put]
        rfl
      · rw [hset.sizeAt, Config.memory_write, Memory.sizeAt?_put]
        rfl
      · exact (hset.elsewhere b hb).trans (Memory.allocations_put_of_ne hb)
      · refine (hset.before j (by omega)).trans (Memory.get?_put_of_ne ?_)
        intro heq
        injection heq with _ hoffset
        have hj' : s.fields[j]? = some s.fields[j] := List.getElem?_eq_getElem (by omega)
        have := fieldBytes_take_lt hj' (hflat _ (List.mem_of_getElem? hj')).2 hj
        omega
      · rcases Nat.eq_or_lt_of_le hkj with rfl | hlt
        · rw [hk] at hj
          cases hj
          exact (hset.before k (by omega)).trans (Memory.get?_put_self hcovers)
        · exact hset.set j g hlt hj

/-- Memory has one allocation more than before, with an object there whose fields are set. -/
structure ObjectMade (s : Struct) (memory : Memory) (output : Array Int32) (μ : Config) :
    Prop where
  output : μ.output = output
  count : μ.memory.count = memory.count + 1
  size : μ.memory.sizeAt? memory.count = some (fieldBytes s.fields)
  fields : ∀ (j : Nat) (f : Field), s.fields[j]? = some f →
    μ.memory.get? ⟨memory.count, fieldBytes (s.fields.take j)⟩ = some f.type.initial
  unchanged : ∀ b < memory.count, μ.memory.allocations[b]? = memory.allocations[b]?

/-- A constructor that was entered takes memory, sets all fields and returns a pointer to them. -/
theorem exists_objectMade (cls : String) (hs : m.structs[struct]? = some s)
    (hflat : ∀ f ∈ s.fields, f.type.Flat ∧ 0 < f.type.size)
    (hbytes : fieldBytes s.fields ≤ maxBytes)
    (hp : p = constructorCode cls struct (fieldBytes s.fields) s.fields) (memory : Memory)
    (output : Array Int32) (callers : List (Nat × Frame)) :
    ∃ μ' : Config, Steps m (2 * s.fields.length + 2)
      (Config.state p callers (0, .alloc 0 (.int (Int32.ofNat (fieldBytes s.fields))) ::
        .bitcast 1 (.temp 0) :: fieldStores 0 s.fields)
          ⟨memory, output, Array.replicate p.temps.size none⟩) (μ'.state p callers (0, [])) ∧
      step m (μ'.state p callers (0, [])) = (μ'.state p callers (0, [])).perform
        (.leave (.pointer (some ⟨memory.count, 0⟩))) ∧ ObjectMade s memory output μ' := by
  obtain ⟨μ, hμ⟩ : ∃ μ : Config, μ = ⟨memory, output, Array.replicate p.temps.size none⟩ := ⟨_, rfl⟩
  have htemps : p.temps.size = 2 + s.fields.length := by
    simp [hp, constructorCode, fieldTemps]
    omega
  have hint : (Int32.ofNat (fieldBytes s.fields)).toInt = fieldBytes s.fields :=
    Int32.toInt_ofNat_of_lt (by have : maxBytes = 2147483647 := rfl; omega)
  -- Memory is taken, and the pointer to it gets the type of the object.
  let μ₁ := μ.allocate 0 (fieldBytes s.fields)
  let μ₂ := μ₁.set 1 (.pointer (some ⟨memory.count, 0⟩))
  have hsize₁ : μ₁.temps.size = p.temps.size := by
    simp [μ₁, hμ, Config.allocate]
  have hone : 1 < μ₁.temps.size := by omega
  have halloc : step m (μ.state p callers (0, .alloc 0 (.int (Int32.ofNat (fieldBytes s.fields))) ::
      .bitcast 1 (.temp 0) :: fieldStores 0 s.fields)) =
        .running ((μ.allocate 0 (Int32.ofNat (fieldBytes s.fields)).toInt.toNat).state p callers
          (0, .bitcast 1 (.temp 0) :: fieldStores 0 s.fields)) :=
    step_alloc rfl (Int32.le_iff_toInt_le.2 (by rw [hint]; exact Int.natCast_nonneg _))
  rw [hint, Int.toNat_natCast] at halloc
  have hcast : step m (μ₁.state p callers (0, .bitcast 1 (.temp 0) :: fieldStores 0 s.fields)) =
      .running (μ₂.state p callers (0, fieldStores 0 s.fields)) :=
    step_bitcast ((Config.value?_set_self (by simp [hμ, htemps])).trans (by rw [hμ]))
  obtain ⟨μ₃, hstores, hset⟩ : ∃ μ₃ : Config, Steps m (2 * s.fields.length)
      (μ₂.state p callers (0, fieldStores 0 s.fields ++ [])) (μ₃.state p callers (0, [])) ∧
        FieldsSet s memory.count 0 μ₂ μ₃ :=
    exists_fieldsSet [] hs hflat hbytes (by rw [hp]; rfl) htemps s.fields 0 μ₂ rfl
      ((Config.size_temps_set).trans hsize₁) (Config.temps_set_self hone)
      (by rw [← show μ.memory = memory by rw [hμ]]; exact Memory.sizeAt?_allocate)
  rw [List.append_nil] at hstores
  have hmemory : μ₂.memory = (memory.allocate (fieldBytes s.fields)).2 := by
    simp only [μ₂, μ₁, hμ, Config.memory_set, Config.allocate]
  refine ⟨μ₃, hμ ▸ .head halloc (.head hcast hstores), ?_, hset.output.trans ?_, ?_, ?_,
    fun j f hf => hset.set j f (Nat.zero_le _) hf, fun b hb => ?_⟩
  · refine step_ret (b := ⟨"entry", _, some (.ret (.temp 1))⟩) (by rw [hp]; rfl) rfl ?_
    rw [Config.value?, hset.object, Config.temps_set_self hone]
    rfl
  · simp only [μ₂, μ₁, hμ, Config.output_set, Config.allocate]
  · rw [hset.count, hmemory, Memory.count_allocate]
  · rw [hset.sizeAt, hmemory]
    exact Memory.sizeAt?_allocate
  · rw [hset.elsewhere b (Nat.ne_of_lt hb), hmemory]
    exact Memory.allocations_allocate_of_lt hb

/-- If fewer bytes were taken than the fields need, one of the stores is behind their end. -/
theorem misuses_fieldStores {bytes : Nat} (hs : m.structs[struct]? = some s)
    (hflat : ∀ f ∈ s.fields, f.type.Flat ∧ 0 < f.type.size ∧ f.type.size ≤ 8)
    (hbytes : bytes ≤ maxBytes) (hfew : bytes + 8 ≤ fieldBytes s.fields)
    (htype : p.typeOf? (.temp 1) = some (.pointer (.struct struct)))
    (htemps : p.temps.size = 2 + s.fields.length) :
    ∀ (fields : List Field) (k : Nat) (μ : Config), s.fields.drop k = fields →
      fieldBytes (s.fields.take k) < bytes + 8 → k ≤ bytes → μ.temps.size = p.temps.size →
      μ.temps[1]? = some (some (.pointer (some ⟨a, 0⟩))) → μ.memory.sizeAt? a = some bytes →
      Misuses m (μ.state p callers (c, fieldStores k fields))
  | [], k, μ, hdrop, hnear, _, _, _, _ => by
      rw [List.take_of_length_le (List.drop_eq_nil_iff.1 hdrop)] at hnear
      omega
  | f :: fields, k, μ, hdrop, hnear, hk, hsize, hobject, hat => by
      have hmax : maxBytes = 2147483647 := rfl
      have hfield : s.fields[k]? = some f := by
        rw [← List.head?_drop, hdrop]
        rfl
      obtain ⟨hlt, hget⟩ := List.getElem?_eq_some_iff.1 hfield
      obtain ⟨_, hpos, hsmall⟩ := hflat f (List.mem_of_getElem? hfield)
      let place : Address := ⟨a, fieldBytes (s.fields.take k)⟩
      let μ₁ := μ.set (2 + k) (.pointer (some place))
      let μ₂ := μ₁.write place f.type.initial
      have haddress : step m (μ.state p callers (c, fieldStores k (f :: fields))) =
          .running (μ₁.state p callers (c, .store (.temp (2 + k)) f.type.defaultValue ::
            fieldStores (k + 1) fields)) :=
        step_fieldAddress _ hs (fun f hf => (hflat f hf).1) htype hobject hlt (by omega) (by
          have : UInt32.size = 4294967296 := rfl
          omega)
      have hplace : μ₁.value? (.temp (2 + k)) = some (.pointer (some place)) :=
        Config.value?_set_self (by omega)
      by_cases hout : bytes ≤ fieldBytes (s.fields.take k)
      · exact ⟨_, _, _, .one haddress,
          step_store_outside (a := place) hplace (value?_defaultValue _ _) hat hout⟩
      have hcovers : μ.memory.Covers place := ⟨_, hat, Nat.lt_of_not_le hout⟩
      have hnext : fieldBytes (s.fields.take (k + 1)) =
          fieldBytes (s.fields.take k) + f.type.size := by
        rw [List.take_add_one, hfield, fieldBytes, List.map_append, List.sum_append]
        rfl
      have hcount := le_fieldBytes_take (fun f hf => (hflat f hf).2.1) hlt.le
      obtain ⟨n, t, cause, hsteps, hstop⟩ := misuses_fieldStores hs hflat hbytes hfew htype htemps
        fields (k + 1) μ₂ (by rw [← List.drop_drop, hdrop]; rfl) (by omega) (by omega)
        (by rw [Config.temps_write, Config.size_temps_set, hsize])
        ((Config.temps_set_of_ne (by omega)).trans hobject)
        (by rw [Config.memory_write, Memory.sizeAt?_put]; exact hat)
      exact ⟨n + 1 + 1, t, cause, .head haddress
        (.head (step_store hplace (value?_defaultValue _ _) hcovers) hsteps), hstop⟩

/-- A constructor misuses memory if its objects are too large: their bytes are counted with 32 bits,
so what it asks for is negative, or too little for the fields that it sets. -/
theorem misuses_constructor (cls : String) (hs : m.structs[struct]? = some s)
    (hflat : ∀ f ∈ s.fields, f.type.Flat ∧ 0 < f.type.size ∧ f.type.size ≤ 8)
    (hbytes : maxBytes < fieldBytes s.fields)
    (hp : p = constructorCode cls struct (fieldBytes s.fields) s.fields) (memory : Memory)
    (output : Array Int32) (callers : List (Nat × Frame)) :
    Misuses m (Config.state p callers (0, .alloc 0 (.int (Int32.ofNat (fieldBytes s.fields))) ::
      .bitcast 1 (.temp 0) :: fieldStores 0 s.fields)
        ⟨memory, output, Array.replicate p.temps.size none⟩) := by
  obtain ⟨μ, hμ⟩ : ∃ μ : Config, μ = ⟨memory, output, Array.replicate p.temps.size none⟩ := ⟨_, rfl⟩
  obtain ⟨n, hn⟩ : ∃ n, n = Int32.ofNat (fieldBytes s.fields) := ⟨_, rfl⟩
  have hmax : maxBytes = 2147483647 := rfl
  rw [← hμ, ← hn]
  by_cases hneg : n < 0
  · exact ⟨0, _, _, .refl _, step_alloc_negative rfl hneg⟩
  have hnonneg : 0 ≤ n := Int32.not_lt.1 hneg
  have htemps : p.temps.size = 2 + s.fields.length := by
    simp [hp, constructorCode, fieldTemps]
    omega
  have hint : n.toInt = (fieldBytes s.fields : Int).bmod (2 ^ 32) := by
    rw [hn]
    exact Int32.toInt_ofNat ..
  have hfew : n.toInt.toNat ≤ maxBytes ∧ n.toInt.toNat + 2 ^ 32 ≤ fieldBytes s.fields := by
    rw [Int32.le_iff_toInt_le, Int32.toInt_zero] at hnonneg
    rw [hint] at hnonneg ⊢
    simp only [Int.bmod] at hnonneg ⊢
    omega
  let μ₁ := μ.allocate 0 n.toInt.toNat
  let μ₂ := μ₁.set 1 (.pointer (some ⟨memory.count, 0⟩))
  have hsize₁ : μ₁.temps.size = p.temps.size := by
    simp [μ₁, hμ, Config.allocate]
  have hcast : step m (μ₁.state p callers (0, .bitcast 1 (.temp 0) :: fieldStores 0 s.fields)) =
      .running (μ₂.state p callers (0, fieldStores 0 s.fields)) :=
    step_bitcast ((Config.value?_set_self (by simp [hμ, htemps])).trans (by rw [hμ]))
  obtain ⟨k, t, cause, hsteps, hstop⟩ :
      Misuses m (μ₂.state p callers (0, fieldStores 0 s.fields)) :=
    misuses_fieldStores hs hflat hfew.1 (by omega) (by rw [hp]; rfl) htemps s.fields 0 μ₂ rfl
      (by rw [List.take_zero]; exact Nat.succ_pos _) (Nat.zero_le _)
      ((Config.size_temps_set).trans hsize₁) (Config.temps_set_self (by omega))
      (by rw [← show μ.memory = memory by rw [hμ]]; exact Memory.sizeAt?_allocate)
  exact ⟨k + 1 + 1, t, cause, .head (step_alloc rfl hnonneg) (.head hcast hsteps), hstop⟩

end runs

section serving

variable {p : Program} {a : ArrayTypes} {structs : ClassStructs} {T : Target} {c : ClassRef}
  {l : ClassLayout}

/-- A field of a new object holds the default of its type. -/
theorem Program.newFields_eq (hh : p.Hierarchy)
    (hf : ∀ c ∈ p.classes, (c.fields.map (·.name.name)).Nodup) {cls owner : String} {d : VarDecl}
    (hd : (owner, d) ∈ p.fieldsOf cls) : p.newFields owner d.name.name = d.plain.default := by
  obtain ⟨decl, hdecl, hfield⟩ := List.mem_flatMap.1 hd
  obtain ⟨x, hx, heq⟩ := List.mem_map.1 hfield
  cases heq
  have hmem := mem_classes_of_mem_lineage (List.mem_reverse.1 hdecl)
  have hfound : decl.field? d.name.name = some d := by
    rw [ClassDecl.field?]
    cases hfind : decl.fields.find? (·.name.name == d.name.name) with
    | none => simpa using List.find?_eq_none.1 hfind d hx
    | some y =>
        have hname : y.name.name = d.name.name := by simpa using List.find?_some hfind
        rw [List.inj_on_of_nodup_map (hf decl hmem) (List.mem_of_find?_eq_some hfind) hx hname]
  rw [newFields, hh.class?_eq hmem, Option.bind_some, hfound]

/-- A constructor makes the objects of its class, if these are not too large. -/
theorem ClassLayout.Stands.serves (h : l.Stands p a structs T c) (hh : p.Hierarchy)
    (hf : ∀ c ∈ p.classes, (c.fields.map (·.name.name)).Nodup)
    (hproc : T.module.procedures[l.constructor]? =
      some (constructorOf T.module c.name l.struct)) (n : Nat) (θ : Census) (σ : Store) :
    Serves T.module p n l.constructor [] θ σ (p.create c.name σ) (.object c.name) := by
  obtain ⟨s, hs, hflat, hbytes, hfields⟩ := h.exists_struct
  have hsize := (sizeOf_struct hs hflat).trans hbytes
  have hcode := constructorOf_eq c.name hs
  rw [hsize] at hcode
  let q := constructorCode c.name l.struct (p.objectSize c.name) s.fields
  have hq : T.module.procedures[l.constructor]? = some q := hproc.trans (congrArg some hcode)
  have hentry : q.blocks[0]? = some ⟨"entry", .alloc 0 (.int (Int32.ofNat (p.objectSize c.name))) ::
      .bitcast 1 (.temp 0) :: fieldStores 0 s.fields, some (.ret (.temp 1))⟩ := rfl
  have hsizes : ∀ f ∈ s.fields, 0 < f.type.size ∧ f.type.size ≤ 8 := fun f hf => by
    obtain ⟨t, hr⟩ := h.represents_field hs f hf
    exact ⟨hr.size_pos, hr.size ▸ t.size_le⟩
  refine ⟨_, enter_eq hq rfl hentry, fun memory output callers hheap hout => ?_⟩
  rw [Program.create]
  split_ifs with hle
  · obtain ⟨μ, hsteps, hreturns, hmade⟩ := exists_objectMade c.name hs
      (fun f hf => ⟨hflat f hf, (hsizes f hf).1⟩) (hbytes ▸ hle)
      (show q = _ by rw [hbytes]) memory output callers
    rw [hbytes] at hsteps
    let e : Entity := .object c.name p.newFields
    let θ' : Census := θ ++ [(e.kind, memory.count)]
    have hnew : memory.count ∉ θ.places := fun hm => Nat.lt_irrefl _ (hheap.lt_count hm)
    refine ⟨_, _, hsteps, θ', ⟨⟨.pointer (some ⟨memory.count, 0⟩), hreturns, ?_⟩, rfl, ?_, ?_⟩,
      List.prefix_append _ _, fun b hb => ?_, ?_, fun b hb _ => hmade.unchanged b hb⟩
    · refine .object (a := memory.count) ?_ .refl
      simp [θ', e, Entity.kind, hheap.length_eq]
    · refine hheap.add hnew (fun b hb => hmade.unchanged b (hheap.lt_count hb)) ⟨?_, hle, ?_⟩
      · exact hmade.size.trans (congrArg some hbytes)
      · intro k owner d hk
        obtain ⟨f, hfk, hr, hoffset⟩ := hfields k owner d hk
        refine ⟨_, ?_, (Program.newFields_eq hh hf (List.mem_of_getElem? hk)).symm ▸
          shows_initial hr⟩
        rw [← hoffset]
        exact hmade.fields k f hfk
    · rw [← hout]
      exact congrArg Array.toList hmade.output
    · rw [Census.places, List.map_append, List.mem_append] at hb
      exact hb.imp_right fun hb => (List.mem_singleton.1 hb).ge
    · exact (Nat.le_succ _).trans_eq hmade.count.symm
  · refine ⟨0, _, .refl _, ⟨⟨c.name, l.struct, hcode.symm, by rw [hsize]; omega⟩, ?_⟩, hout⟩
    have hmisuses := misuses_constructor c.name hs (fun f hf => ⟨hflat f hf, hsizes f hf⟩)
      (hbytes ▸ Nat.not_le.1 hle) (show q = _ by rw [hbytes]) memory output callers
    rwa [hbytes] at hmisuses

end serving

end ObjectLang
