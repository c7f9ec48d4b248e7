import Mathlib.Tactic
import ObjectLang.Proofs.Parsing.Extent
import ObjectLang.Proofs.Semantics.Halts
import ObjectLang.Proofs.Simulation.Programs

/-!
# Meaning is preserved, and runs are safe

The module of an accepted program shows, in every run, what the program means. If the program ends
with a value or halts, so does every run whose budget suffices, with the same value or message and
the same output, and every run with a smaller budget is cut short and has printed part of this
output. If the program does not end within a bound, all runs up to some larger budget are cut short.
So a program that never ends is cut short in every run.

A run of a compiled program ends with a number, at its limit, or because the program halts with one
of its messages. It never reads what was not stored or meets code without meaning, and it misuses
memory only for an array or an object whose size in bytes is not a signed number of 32 bits. Only a
text of hundreds of millions of characters has a class with that many fields.
-/
namespace ObjectLang

open Machine IR

section meaning

variable {source : String} {options : CompileOptions} {p : Program}

/-- The text of an accepted program becomes a module whose runs show what the program means. -/
theorem compile_showsMeaning (hp : Program.ofText source = .ok p)
    (ha : (p.analyze options.printFunction).isAccepted = true) :
    ∃ m, compile source options = .ok m ∧
      ∀ bound, ShowsMeaning m bound (p.evaluate options.printFunction bound) := by
  obtain ⟨body, routines, s, rfl, hcompiled, hm⟩ := compile_of_isAccepted hp ha
  exact ⟨_, hm, hcompiled.showsMeaning⟩

theorem compile_showsMeaning_summing : ∃ p, Program.ofText summingText = .ok p ∧
    (p.analyze "printInt").isAccepted = true ∧ ∃ m, compile summingText {} = .ok m ∧
      ∀ bound, ShowsMeaning m bound (p.evaluate "printInt" bound) := by
  obtain ⟨p, hp, ha⟩ := exists_summing
  exact ⟨p, hp, ha, @compile_showsMeaning _ {} p hp ha⟩

end meaning

/-- How a run with a limit should end. -/
inductive EndsWell (limit : Nat) : Except Fault Int32 → Prop
  | value (code : Int32) : EndsWell limit (.ok code)
  | limit : EndsWell limit (.error (.stepLimit limit))
  | halt {message : String} : HaltMessage message → EndsWell limit (.error (.halt message))

section runs

variable {m : Module} {e : Execution} {bound limit n : Nat} {output : List Int32}

theorem CutShort.endsWell (h : CutShort m n output) (hn : limit ≤ n) :
    EndsWell limit (execute m mainName limit).result := by
  rw [(h.2 limit hn).1]
  exact .limit

theorem EndsIn.endsWell (h : EndsIn m e) (he : EndsWell limit e.result) :
    EndsWell limit (execute m mainName limit).result := by
  rcases h.result limit with hlimit | hsame
  · rw [hlimit]
    exact .limit
  · rw [hsame]
    exact he

/-- A run that comes to where memory is misused ends there, if it gets that far. -/
theorem Misuses.result {s : State} (h : Misuses m s) (hs : Reaches m n s) (limit : Nat) :
    (execute m mainName limit).result = .error (.stepLimit limit) ∨
      ∃ cause, (execute m mainName limit).result = .error (.access cause) := by
  obtain ⟨k, t, cause, hsteps, hstop⟩ := h
  exact (((hs.trans hsteps).endsIn hstop).result limit).imp_right fun hend => ⟨cause, hend⟩

/-- A run that shows what a program means ends as it should, or misuses memory behind a request for
too much of it. -/
theorem ShowsMeaning.endsWell {p : Program} {r : Except Stop Datum × Store}
    (h : ShowsMeaning m limit r) (hstops : ∀ e, r.1 = .error e → p.Stops e) :
    EndsWell limit (execute m mainName limit).result ∨
      ∃ what, p.Stops (.tooLarge what) ∧
        (∃ n < limit, ∃ s, Reaches m n s ∧ Oversized m what s) ∧
          ∃ cause, (execute m mainName limit).result = .error (.access cause) := by
  obtain ⟨a | a, σ⟩ := r
  · cases a with
    | halt message =>
        cases hstops _ rfl with
        | halt hmessage => exact .inl (EndsIn.endsWell h (.halt hmessage))
    | tooLarge what =>
        obtain ⟨n, s, hreaches, hlarge, hmisuses, hshort⟩ := h
        by_cases hn : limit ≤ n
        · exact .inl (hshort.endsWell hn)
        · rcases hmisuses.result hreaches limit with hlimit | hfault
          · rw [hlimit]
            exact .inl .limit
          · exact .inr ⟨what, hstops _ rfl, ⟨n, Nat.lt_of_not_le hn, s, hreaches, hlarge⟩, hfault⟩
    | timeout =>
        obtain ⟨n, hn, hshort⟩ := h
        exact .inl (hshort.endsWell hn)
    | stuck => exact h.elim
  · cases a with
    | int k => exact .inl (EndsIn.endsWell h (.value k))
    | bool b => exact h.elim
    | null => exact h.elim
    | ref id => exact h.elim

end runs

section safety

variable {source : String} {options : CompileOptions} {m : Module} {limit : Nat}

/-- Every run of a compiled program ends as it should, if no array of more than `maxBytes` bytes is
asked for in it. The only other way to end is to misuse memory behind a request for an object of
more than `maxBytes` bytes; a class of such objects has so many fields that its text has at least
`2 ^ 28` characters. -/
theorem compile_endsWell (h : compile source options = .ok m)
    (harrays : ∀ n < limit, ∀ s, Reaches m n s → ¬ OversizedArray m s) :
    EndsWell limit (execute m mainName limit).result ∨
      2 ^ 28 ≤ source.length ∧ (∃ n < limit, ∃ s, Reaches m n s ∧ OversizedObject m s) ∧
        ∃ cause, (execute m mainName limit).result = .error (.access cause) := by
  obtain ⟨p, body, routines, s, hp, ha, hoptions, hcompiled, rfl⟩ := exists_of_compile h
  have hends := (hcompiled.showsMeaning limit).endsWell fun e he =>
    Program.stops_evaluate (Prod.ext he rfl)
  refine hends.imp_right ?_
  rintro ⟨what, hstops, ⟨n, hn, s', hreaches, hlarge⟩, hfault⟩
  cases what with
  | array => exact (harrays n hn s' hreaches hlarge).elim
  | object =>
      refine ⟨?_, ⟨n, hn, s', hreaches, hlarge⟩, hfault⟩
      cases hstops with
      | @object cls hcls =>
          have hw := hcompiled.prepared.accepted.wellFormed
          have hsize := hw.hierarchy.objectSize_le hw.fieldNames cls
          have hcount := Program.fieldCount_ofText_le hp
          rw [maxBytes] at hcls
          omega

/-- Whether the procedure that runs asks for an array of few enough bytes, if it makes arrays. -/
def asksForLittle (m : Module) (s : State) : Bool :=
  match (s.frame.procedure.temps[11]? : Option Temp),
  (s.frame.temps[0]? : Option (Option Value)) with
  | some ⟨.pointer element, _⟩, some (some (.int n)) =>
    decide (4 + n.toInt * m.sizeOf element ≤ (maxBytes : Int))
  | _, _ => true

theorem not_oversizedArray {s : State} (h : asksForLittle m s = true) : ¬ OversizedArray m s := by
  rintro ⟨component, returnType, layout, n, hcode, hlength, hlarge⟩
  have htemp : s.frame.procedure.temps[11]? = some ⟨.pointer layout.element, none⟩ := by
    rw [hcode, allocatorCode_eq]
    rfl
  rw [asksForLittle, htemp, hlength] at h
  exact absurd (of_decide_eq_true h) (Int.not_le.2 hlarge)

/-- Whether all states of a run have a property, as far as it goes in some steps. -/
def throughout (m : Module) (check : State → Bool) : Nat → State → Bool
  | 0, _ => true
  | n + 1, s => check s && match step m s with
    | .running t => throughout m check n t
    | .stopped _ _ => true

theorem check_of_throughout {check : State → Bool} {n k : Nat} {s t : State}
    (h : throughout m check n s = true) (hsteps : Steps m k s t) (hk : k < n) :
    check t = true := by
  induction hsteps generalizing n with
  | refl s =>
      obtain ⟨n, rfl⟩ := Nat.exists_eq_add_of_lt hk
      exact (Bool.and_eq_true_iff.1 h).1
  | head hs _ ih =>
      obtain ⟨n, rfl⟩ := Nat.exists_eq_succ_of_ne_zero (Nat.ne_zero_of_lt hk)
      have hrest := (Bool.and_eq_true_iff.1 h).2
      rw [hs] at hrest
      exact ih hrest (Nat.lt_of_succ_lt_succ hk)

/-- In the run of a program with an array of two numbers no procedure asks for a large array, and
the run ends with a number. -/
theorem compile_endsWell_summing : ∃ m, compile summingText {} = .ok m ∧
    (∀ n < 200, ∀ s, Reaches m n s → ¬ OversizedArray m s) ∧
      EndsWell 200 (execute m mainName 200).result := by
  obtain ⟨m, hm, hrun⟩ := exists_ok_of_any (r := compile summingText {}) (f := fun m =>
    (m.findProcedure? mainName).any fun id => (enter m id []).toOption.any fun frame =>
      throughout m (asksForLittle m) 200 ⟨{}, frame, []⟩) (by decide +kernel)
  have harrays : ∀ n < 200, ∀ s, Reaches m n s → ¬ OversizedArray m s := by
    rintro n hn s ⟨id, frame, hid, hframe, hsteps⟩
    rw [hid, Option.any_some, hframe] at hrun
    exact not_oversizedArray (check_of_throughout hrun hsteps hn)
  refine ⟨m, hm, harrays, (compile_endsWell hm harrays).resolve_right ?_⟩
  rintro ⟨hlength, -⟩
  exact absurd hlength (by decide +kernel)

end safety

end ObjectLang
