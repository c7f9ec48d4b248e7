import Mathlib.Tactic
import ObjectLang.Proofs.IR.Growth

/-!
# The course of building

What is done to a builder is a list of moves: temporaries, blocks and slots are made, instructions
and terminators are set, and the builder is switched to other blocks. A course is orderly if no
terminator is set where one stands already, if the builder is only switched to blocks that have none
and were never open before, and if terminators lead only to blocks that were promised or that are
new. Between its moves, some of the new blocks are still to be opened. All other new blocks have a
terminator, unless they are open, and of the old blocks only the one that was open has changed, the
slots of the entry block apart.
-/
namespace ObjectLang.IR

/-- What is known of the builder between two moves: the blocks that are still to be opened, those
that may be jumped to, and whether a block is open. -/
structure Outlook where
  pending : List Nat
  known : List Nat
  isOpen : Option Bool

/-- Less is known. -/
structure Outlook.Le (o' o : Outlook) : Prop where
  pending : o'.pending = o.pending
  known : o'.known ⊆ o.known
  isOpen : o'.isOpen = none ∨ o'.isOpen = o.isOpen

theorem Outlook.Le.rfl {o : Outlook} : o.Le o :=
  ⟨Eq.refl _, List.Subset.refl _, .inr (Eq.refl _)⟩

/-- Nothing of a block has changed, but if it is the entry block it may have more slots. -/
structure Block.KeptAt (n : Nat) (c d : Block) : Prop where
  name : d.name = c.name
  terminator : d.terminator = c.terminator
  code : d.code = c.code
  slots : c.slots <+: d.slots
  other : n ≠ 0 → d = c

namespace Block.KeptAt

variable {n : Nat} {b c d : Block}

theorem refl (n : Nat) (b : Block) : b.KeptAt n b :=
  ⟨rfl, rfl, rfl, List.prefix_rfl, fun _ => rfl⟩

theorem trans (h : b.KeptAt n c) (h' : c.KeptAt n d) : b.KeptAt n d :=
  ⟨h'.name.trans h.name, h'.terminator.trans h.terminator, h'.code.trans h.code,
    h.slots.trans h'.slots, fun hn => (h'.other hn).trans (h.other hn)⟩

end Block.KeptAt

namespace Builder

/-- How many blocks there are. -/
def size (b : Builder) : Nat :=
  b.procedure.blocks.size

def block? (b : Builder) (n : Nat) : Option Block :=
  b.procedure.blocks[n]?

/-- A block is there and has no terminator. -/
def Unterminated (b : Builder) (n : Nat) : Prop :=
  ∃ d, b.block? n = some d ∧ d.terminator = none

/-- The builder after a move. -/
def make (b : Builder) : Move → Builder
  | .temp type => (b.newTemp type).2
  | .block name => (b.newBlock name).2
  | .slot type => (b.slot type).2
  | .emit i => b.emit i
  | .terminate t => b.terminate t
  | .switchTo n => b.switchTo n

/-- The builder after some moves. -/
def makeAll (b : Builder) (ms : List Move) : Builder :=
  ms.foldl make b

theorem makeAll_append (b : Builder) (ms ms' : List Move) :
    b.makeAll (ms ++ ms') = (b.makeAll ms).makeAll ms' :=
  List.foldl_append

theorem makeAll_concat (b : Builder) (ms : List Move) (m : Move) :
    b.makeAll (ms ++ [m]) = (b.makeAll ms).make m := by
  rw [makeAll_append]
  rfl

/-- Each move is put on record. -/
theorem moves_make (b : Builder) (m : Move) : (b.make m).moves = b.moves.push m := by
  cases m with
  | emit i =>
      rw [make, emit, moves_record]
      split <;> rfl
  | terminate t =>
      rw [make, terminate, moves_record]
      split <;> rfl
  | _ => rfl

/-- The record of a builder grows by exactly the moves that are made. -/
theorem moves_makeAll (b : Builder) (ms : List Move) :
    (b.makeAll ms).moves.toList = b.moves.toList ++ ms := by
  induction ms generalizing b with
  | nil => exact (List.append_nil _).symm
  | cons m ms ih =>
      change ((b.make m).makeAll ms).moves.toList = _
      rw [ih, moves_make, Array.toList_push, List.append_assoc]
      rfl

/-- What a move may do behind others. Terminators are set only where none stands, and lead to
`targets` or new blocks; the builder is switched only to blocks among `entries` or new ones that
have no terminator and were not open before. -/
def Allows (b : Builder) (entries targets : List Nat) (before : List Move) : Move → Prop
  | .terminate t =>
    (∀ n, (b.makeAll before).current = some n → (b.makeAll before).Unterminated n) ∧
      ∀ k ∈ t.successors, (k ∈ targets ∨ b.size ≤ k) ∧ k < (b.makeAll before).size
  | .switchTo n =>
    (n ∈ entries ∨ b.size ≤ n) ∧ (b.makeAll before).Unterminated n ∧
      ∀ earlier, earlier <+: before → (b.makeAll earlier).current ≠ some n
  | .temp _ | .block _ | .slot _ | .emit _ => True

/-- Each of some moves is one that may be done behind those before it. -/
def Orderly (b : Builder) (entries targets : List Nat) (ms : List Move) : Prop :=
  ∀ before m behind, ms = before ++ m :: behind → b.Allows entries targets before m

/-- What becomes of a builder while some blocks are still to be opened. -/
structure Becomes (b : Builder) (entries targets pending : List Nat) (b' : Builder) : Prop where
  /-- No block is lost, and of the old ones only the open one and those to be opened change. -/
  kept : ∀ n c, b.block? n = some c → ∃ d, b'.block? n = some d ∧
    (b.current ≠ some n → n ∉ entries → c.KeptAt n d)
  /-- The open block has no terminator, and is the old one or one that was to be opened
  or is new. -/
  current : ∀ n, b'.current = some n → b'.Unterminated n ∧
    (b.current = some n ∨ n ∈ entries ∨ b.size ≤ n)
  /-- What was to be opened or is new has a terminator, is open, or is still to be opened. -/
  closed : ∀ n, n ∈ entries ∨ b.size ≤ n → b'.Unterminated n → b'.current = some n ∨ n ∈ pending
  /-- Terminators are old, or they stand in blocks that may change and lead where they may. -/
  edges : ∀ n d t, b'.block? n = some d → d.terminator = some t →
    (∃ c, b.block? n = some c ∧ c.terminator = some t) ∨
      (b.current = some n ∨ n ∈ entries ∨ b.size ≤ n) ∧
        ∀ k ∈ t.successors, (k ∈ targets ∨ b.size ≤ k) ∧ k < b'.size

theorem Becomes.size_le {b b' : Builder} {entries targets pending : List Nat}
    (h : b.Becomes entries targets pending b') : b.size ≤ b'.size := by
  by_contra hlt
  have hn : b'.size < b.procedure.blocks.size := Nat.lt_of_not_le hlt
  obtain ⟨d, hd, -⟩ := h.kept b'.size _ (Array.getElem?_eq_getElem hn)
  exact (Array.getElem?_eq_some_iff.1 hd).1.false

/-- Some moves are orderly, and lead a builder to where some blocks are still to be opened. -/
structure Course (b : Builder) (entries targets : List Nat) (ms : List Move) (o : Outlook) :
    Prop where
  orderly : b.Orderly entries targets ms
  becomes : b.Becomes entries targets o.pending (b.makeAll ms)
  nodup : o.pending.Nodup
  /-- What is still to be opened is there, without terminator, and was never open. -/
  pending : ∀ n ∈ o.pending, (n ∈ entries ∨ b.size ≤ n) ∧ (b.makeAll ms).Unterminated n ∧
    ∀ earlier, earlier <+: ms → (b.makeAll earlier).current ≠ some n
  known : ∀ k ∈ o.known, (k ∈ targets ∨ b.size ≤ k) ∧ k < (b.makeAll ms).size
  isOpen : ∀ x ∈ o.isOpen, (b.makeAll ms).isOpen = x
  /-- What was ever open is there. -/
  opened : ∀ earlier, earlier <+: ms → ∀ n, (b.makeAll earlier).current = some n →
    n < (b.makeAll ms).size

section moves

variable {b b' : Builder} {n k : Nat} {d : Block}

theorem block?_lt (h : b.block? n = some d) : n < b.size :=
  (Array.getElem?_eq_some_iff.1 h).1

theorem Unterminated.lt (h : b.Unterminated n) : n < b.size :=
  block?_lt h.choose_spec.1

/-- Nothing but slots and instructions in the open block is added. -/
structure Quiet (b b' : Builder) : Prop where
  current : b'.current = b.current
  size : b'.size = b.size
  blocks : ∀ n c, b.block? n = some c → ∃ d, b'.block? n = some d ∧
    d.terminator = c.terminator ∧ (b.current ≠ some n → c.KeptAt n d)

theorem Quiet.exists_block (h : b.Quiet b') (hd : b'.block? n = some d) :
    ∃ c, b.block? n = some c ∧ d.terminator = c.terminator := by
  have hn : n < b.procedure.blocks.size := (block?_lt hd).trans_eq h.size
  have hc : b.block? n = some b.procedure.blocks[n] := Array.getElem?_eq_getElem hn
  obtain ⟨d', hd', hterminator, -⟩ := h.blocks n _ hc
  obtain rfl := Option.some.inj (hd.symm.trans hd')
  exact ⟨_, hc, hterminator⟩

theorem Quiet.unterminated_iff (h : b.Quiet b') : b'.Unterminated n ↔ b.Unterminated n := by
  constructor
  · rintro ⟨d, hd, hnone⟩
    obtain ⟨c, hc, hterminator⟩ := h.exists_block hd
    exact ⟨c, hc, hterminator ▸ hnone⟩
  · rintro ⟨c, hc, hnone⟩
    obtain ⟨d, hd, hterminator, -⟩ := h.blocks n c hc
    exact ⟨d, hd, hterminator.trans hnone⟩

theorem Quiet.of_blocks (hcurrent : b'.current = b.current)
    (hblocks : b'.procedure.blocks = b.procedure.blocks) : b.Quiet b' where
  current := hcurrent
  size := by rw [Builder.size, Builder.size, hblocks]
  blocks n c hc := ⟨c, by rw [block?, hblocks]; exact hc, rfl, fun _ => .refl n c⟩

theorem quiet_temp (b : Builder) (type : Ty) : b.Quiet (b.make (.temp type)) :=
  .of_blocks rfl rfl

theorem block?_modify {f : Block → Block} {c : Block}
    (hc : b.block? n = some c) (m : Nat) :
    (b.procedure.modifyBlock m f).blocks[n]? = some (if m = n then f c else c) := by
  change (b.procedure.blocks.modify m f)[n]? = _
  rw [Array.getElem?_modify]
  change b.procedure.blocks[n]? = some c at hc
  split <;> simp [hc]

theorem quiet_slot (b : Builder) (type : Ty) : b.Quiet (b.make (.slot type)) where
  current := rfl
  size := Array.size_modify
  blocks n c hc := by
    refine ⟨_, block?_modify hc 0, ?_⟩
    by_cases hn : 0 = n
    · subst hn
      rw [if_pos rfl]
      refine ⟨by rw [Block.pushSlot_eq], fun _ => ⟨?_, ?_, Block.code_pushSlot rfl, ?_, nofun⟩⟩
      · rw [Block.pushSlot_eq]
      · rw [Block.pushSlot_eq]
      · rw [Block.slots_pushSlot rfl]
        exact List.prefix_append ..
    · rw [if_neg hn]
      exact ⟨rfl, fun _ => .refl n c⟩

theorem quiet_emit (b : Builder) (i : Instruction) : b.Quiet (b.make (.emit i)) := by
  cases hcurrent : b.current with
  | none =>
      have hmake : b.make (.emit i) = b.record (.emit i) := by rw [make, emit, hcurrent]
      rw [hmake]
      exact .of_blocks rfl rfl
  | some m =>
      have hmake : b.make (.emit i) =
          record (.emit i) { b with procedure := b.procedure.modifyBlock m (·.push i) } := by
        rw [make, emit, hcurrent]
      rw [hmake]
      refine ⟨rfl, Array.size_modify, fun n c hc => ⟨_, block?_modify hc m, ?_, fun hne => ?_⟩⟩
      · split <;> rfl
      · rw [if_neg (fun heq => hne (hcurrent.trans (congrArg some heq)))]
        exact .refl n c

theorem block?_newBlock (b : Builder) (name : String) (n : Nat) :
    (b.make (.block name)).block? n = if n = b.size then some ⟨name, [], none⟩ else b.block? n :=
  Array.getElem?_push

theorem size_newBlock (b : Builder) (name : String) : (b.make (.block name)).size = b.size + 1 :=
  Array.size_push _

theorem unterminated_newBlock (b : Builder) (name : String) (n : Nat) :
    (b.make (.block name)).Unterminated n ↔ n = b.size ∨ b.Unterminated n := by
  unfold Unterminated
  rw [block?_newBlock]
  constructor
  · rintro ⟨d, hd, hnone⟩
    split at hd
    · exact .inl ‹_›
    · exact .inr ⟨d, hd, hnone⟩
  · rintro (rfl | ⟨d, hd, hnone⟩)
    · exact ⟨_, if_pos rfl, rfl⟩
    · exact ⟨d, (if_neg (block?_lt hd).ne).trans hd, hnone⟩

theorem make_terminate (t : Terminator) (h : b.current = some k) : b.make (.terminate t) =
    ⟨b.procedure.modifyBlock k fun block => { block with terminator := some t }, none,
      b.moves.push (.terminate t)⟩ := by
  rw [make, terminate, h]
  rfl

theorem make_terminate_none (t : Terminator) (h : b.current = none) :
    b.make (.terminate t) = b.record (.terminate t) := by
  rw [make, terminate, h]

end moves

namespace Course

variable {b : Builder} {entries targets : List Nat} {ms : List Move} {o : Outlook} {m : Move}
  {n : Nat}

/-- One more move that is allowed. -/
theorem orderly_concat (h : b.Orderly entries targets ms) (hm : b.Allows entries targets ms m) :
    b.Orderly entries targets (ms ++ [m]) := by
  intro before x behind heq
  rcases List.eq_nil_or_concat behind with rfl | ⟨behind, y, rfl⟩
  · obtain ⟨rfl, hx⟩ := List.append_inj' heq rfl
    cases hx
    exact hm
  · rw [List.concat_eq_append, ← List.cons_append, ← List.append_assoc] at heq
    obtain ⟨rfl, -⟩ := List.append_inj' heq rfl
    exact h before x behind rfl

/-- A course may begin wherever the open block, if there is one, has no terminator. -/
theorem start (hcurrent : ∀ n, b.current = some n → b.Unterminated n)
    (hnodup : entries.Nodup)
    (hentries : ∀ n ∈ entries, b.Unterminated n ∧ b.current ≠ some n)
    (htargets : ∀ k ∈ targets, k < b.size) {isOpen : Option Bool}
    (hopen : ∀ x ∈ isOpen, b.isOpen = x) :
    b.Course entries targets [] ⟨entries, targets, isOpen⟩ where
  orderly := by
    intro before x behind heq
    cases before <;> cases heq
  becomes :=
    { kept := fun n c hc => ⟨c, hc, fun _ _ => .refl n c⟩
      current := fun n hn => ⟨hcurrent n hn, .inl hn⟩
      closed := by
        rintro n (hn | hn) hopen
        · exact .inr hn
        · exact absurd hopen.lt hn.not_gt
      edges := fun n d t hd ht => .inl ⟨d, hd, ht⟩ }
  nodup := hnodup
  pending := by
    refine fun n hn => ⟨.inl hn, (hentries n hn).1, fun earlier hearlier => ?_⟩
    rw [List.prefix_nil.1 hearlier]
    exact (hentries n hn).2
  known k hk := ⟨.inl hk, htargets k hk⟩
  isOpen := hopen
  opened := by
    intro earlier hearlier n hn
    rw [List.prefix_nil.1 hearlier] at hn
    exact (hcurrent n hn).lt

/-- What is known may be forgotten. -/
theorem mono (h : b.Course entries targets ms o) {o' : Outlook} (hle : o'.Le o) :
    b.Course entries targets ms o' := by
  obtain ⟨pending, known, isOpen⟩ := o'
  obtain ⟨rfl : pending = _, hknown, hopen⟩ := hle
  refine ⟨h.orderly, h.becomes, h.nodup, h.pending, fun k hk => h.known k (hknown hk), ?_,
    h.opened⟩
  rcases hopen with rfl | rfl
  · nofun
  · exact h.isOpen

section step

variable (h : b.Course entries targets ms o)
include h

/-- Slots, temporaries and instructions may be added anywhere. -/
theorem quiet (hallows : b.Allows entries targets ms m)
    (hquiet : (b.makeAll ms).Quiet ((b.makeAll ms).make m)) :
    b.Course entries targets (ms ++ [m]) o where
  orderly := orderly_concat h.orderly hallows
  becomes := by
    rw [makeAll_concat]
    refine ⟨fun n c hc => ?_, fun n hn => ?_, fun n hn hopen => ?_, fun n d t hd ht => ?_⟩
    · obtain ⟨d, hd, hkept⟩ := h.becomes.kept n c hc
      obtain ⟨d', hd', -, hkept'⟩ := hquiet.blocks n d hd
      refine ⟨d', hd', fun hne hentry => (hkept hne hentry).trans (hkept' fun hcurrent => ?_)⟩
      rcases (h.becomes.current n hcurrent).2 with heq | hmem | hle
      · exact hne heq
      · exact hentry hmem
      · exact absurd (block?_lt hc) hle.not_gt
    · rw [hquiet.current] at hn
      rw [hquiet.unterminated_iff]
      exact h.becomes.current n hn
    · rw [hquiet.current]
      exact h.becomes.closed n hn (hquiet.unterminated_iff.1 hopen)
    · obtain ⟨c, hc, hterminator⟩ := hquiet.exists_block hd
      rw [hquiet.size]
      exact h.becomes.edges n c t hc (hterminator ▸ ht)
  nodup := h.nodup
  pending n hn := by
    obtain ⟨hnew, hopen, hnever⟩ := h.pending n hn
    rw [makeAll_concat, hquiet.unterminated_iff]
    refine ⟨hnew, hopen, fun earlier hearlier => ?_⟩
    rcases List.prefix_concat_iff.1 hearlier with rfl | hearlier
    · rw [makeAll_concat, hquiet.current]
      exact hnever ms List.prefix_rfl
    · exact hnever earlier hearlier
  known := by
    rw [makeAll_concat, hquiet.size]
    exact h.known
  isOpen := by
    rw [makeAll_concat, Builder.isOpen, hquiet.current]
    exact h.isOpen
  opened := by
    intro earlier hearlier n hn
    rw [makeAll_concat, hquiet.size]
    rcases List.prefix_concat_iff.1 hearlier with rfl | hearlier
    · rw [makeAll_concat, hquiet.current] at hn
      exact h.opened ms List.prefix_rfl n hn
    · exact h.opened earlier hearlier n hn

theorem temp (type : Ty) : b.Course entries targets (ms ++ [.temp type]) o :=
  h.quiet trivial (quiet_temp _ type)

theorem slot (type : Ty) : b.Course entries targets (ms ++ [.slot type]) o :=
  h.quiet trivial (quiet_slot _ type)

theorem emit (i : Instruction) : b.Course entries targets (ms ++ [.emit i]) o :=
  h.quiet trivial (quiet_emit _ i)

/-- A new block may be jumped to, and is still to be opened. -/
theorem block (name : String) : b.Course entries targets (ms ++ [.block name])
    ⟨(b.makeAll ms).size :: o.pending, (b.makeAll ms).size :: o.known, o.isOpen⟩ := by
  have hle : b.size ≤ (b.makeAll ms).size := h.becomes.size_le
  have hcurrent : ((b.makeAll ms).make (.block name)).current = (b.makeAll ms).current := rfl
  refine ⟨orderly_concat h.orderly trivial, ?_, ?_, ?_, ?_, ?_, ?_⟩
  · rw [makeAll_concat]
    refine ⟨fun n c hc => ?_, fun n hn => ?_, fun n hn hopen => ?_, fun n d t hd ht => ?_⟩
    · obtain ⟨d, hd, hkept⟩ := h.becomes.kept n c hc
      refine ⟨d, ?_, hkept⟩
      rw [block?_newBlock, if_neg (block?_lt hd).ne]
      exact hd
    · obtain ⟨hopen, hold⟩ := h.becomes.current n hn
      exact ⟨(unterminated_newBlock _ _ _).2 (.inr hopen), hold⟩
    · rcases (unterminated_newBlock _ _ _).1 hopen with rfl | hopen
      · exact .inr (List.mem_cons_self ..)
      · exact (h.becomes.closed n hn hopen).imp_right (List.mem_cons_of_mem _)
    · rw [block?_newBlock] at hd
      split at hd
      · cases hd
        cases ht
      · rw [size_newBlock]
        exact (h.becomes.edges n d t hd ht).imp_right fun hnew =>
          ⟨hnew.1, fun k hk => ⟨(hnew.2 k hk).1, Nat.lt_succ_of_lt (hnew.2 k hk).2⟩⟩
  · exact List.nodup_cons.2 ⟨fun hmem => (h.pending _ hmem).2.1.lt.false, h.nodup⟩
  · intro n hn
    rw [makeAll_concat, unterminated_newBlock]
    have hnever : ∀ earlier, earlier <+: ms ++ [.block name] →
        ∃ earlier', earlier' <+: ms ∧
          (b.makeAll earlier).current = (b.makeAll earlier').current := by
      intro earlier hearlier
      rcases List.prefix_concat_iff.1 hearlier with rfl | hearlier
      · exact ⟨ms, List.prefix_rfl, by rw [makeAll_concat]; rfl⟩
      · exact ⟨earlier, hearlier, rfl⟩
    rcases List.mem_cons.1 hn with rfl | hn
    · refine ⟨.inr hle, .inl rfl, fun earlier hearlier heq => ?_⟩
      obtain ⟨earlier', hearlier', hsame⟩ := hnever earlier hearlier
      exact (h.opened earlier' hearlier' _ (hsame ▸ heq)).false
    · obtain ⟨hnew, hopen, hne⟩ := h.pending n hn
      refine ⟨hnew, .inr hopen, fun earlier hearlier heq => ?_⟩
      obtain ⟨earlier', hearlier', hsame⟩ := hnever earlier hearlier
      exact hne earlier' hearlier' (hsame ▸ heq)
  · intro k hk
    rw [makeAll_concat, size_newBlock]
    rcases List.mem_cons.1 hk with rfl | hk
    · exact ⟨.inr hle, Nat.lt_succ_self _⟩
    · exact ⟨(h.known k hk).1, Nat.lt_succ_of_lt (h.known k hk).2⟩
  · rw [makeAll_concat]
    exact h.isOpen
  · intro earlier hearlier n hn
    rw [makeAll_concat, size_newBlock]
    rcases List.prefix_concat_iff.1 hearlier with rfl | hearlier
    · rw [makeAll_concat] at hn
      exact Nat.lt_succ_of_lt (h.opened ms List.prefix_rfl n hn)
    · exact Nat.lt_succ_of_lt (h.opened earlier hearlier n hn)

private theorem close {t : Terminator} {k : Nat}
    (hallows : b.Allows entries targets ms (.terminate t))
    (hcurrent : (b.makeAll ms).current = some k) (ht : ∀ j ∈ t.successors, j ∈ o.known) :
    b.Course entries targets (ms ++ [.terminate t]) { o with isOpen := some false } := by
  obtain ⟨-, hold⟩ := h.becomes.current k hcurrent
  have hmake := make_terminate t hcurrent
  have hshut : ((b.makeAll ms).make (.terminate t)).current = none := by rw [hmake]
  have hsize : ((b.makeAll ms).make (.terminate t)).size = (b.makeAll ms).size := by
    rw [hmake]
    exact Array.size_modify
  have hblock : ∀ n c, (b.makeAll ms).block? n = some c →
      ((b.makeAll ms).make (.terminate t)).block? n =
        some (if k = n then { c with terminator := some t } else c) := by
    intro n c hc
    rw [hmake]
    exact block?_modify hc k
  have hblock' : ∀ n d, ((b.makeAll ms).make (.terminate t)).block? n = some d →
      ∃ c, (b.makeAll ms).block? n = some c ∧
        d = if k = n then { c with terminator := some t } else c := by
    intro n d hd
    have hn : n < (b.makeAll ms).size := hsize ▸ block?_lt hd
    have hc : (b.makeAll ms).block? n = some _ := Array.getElem?_eq_getElem hn
    exact ⟨_, hc, Option.some.inj (hd.symm.trans (hblock n _ hc))⟩
  have hopen : ∀ n, ((b.makeAll ms).make (.terminate t)).Unterminated n ↔
      n ≠ k ∧ (b.makeAll ms).Unterminated n := by
    intro n
    constructor
    · rintro ⟨d, hd, hnone⟩
      obtain ⟨c, hc, rfl⟩ := hblock' n d hd
      split at hnone
      · cases hnone
      · exact ⟨Ne.symm ‹_›, c, hc, hnone⟩
    · rintro ⟨hne, c, hc, hnone⟩
      exact ⟨c, (hblock n c hc).trans (by rw [if_neg hne.symm]), hnone⟩
  have hnever : ∀ n, (∀ earlier, earlier <+: ms → (b.makeAll earlier).current ≠ some n) →
      ∀ earlier, earlier <+: ms ++ [.terminate t] → (b.makeAll earlier).current ≠ some n := by
    intro n hn earlier hearlier heq
    rcases List.prefix_concat_iff.1 hearlier with rfl | hearlier
    · rw [makeAll_concat, hshut] at heq
      cases heq
    · exact hn earlier hearlier heq
  refine ⟨orderly_concat h.orderly hallows, ?_, h.nodup, ?_, ?_, ?_, ?_⟩
  · rw [makeAll_concat]
    refine ⟨fun n c hc => ?_, fun n hn => ?_, fun n hn hnone => ?_, fun n d t' hd ht' => ?_⟩
    · obtain ⟨d, hd, hkept⟩ := h.becomes.kept n c hc
      refine ⟨_, hblock n d hd, fun hne hentry => ?_⟩
      rw [if_neg]
      · exact hkept hne hentry
      · rintro rfl
        rcases hold with heq | hmem | hle
        · exact hne heq
        · exact hentry hmem
        · exact absurd (block?_lt hc) hle.not_gt
    · rw [hshut] at hn
      cases hn
    · obtain ⟨hne, hnone⟩ := (hopen n).1 hnone
      refine .inr ((h.becomes.closed n hn hnone).resolve_left fun heq => hne ?_)
      exact Option.some.inj (heq.symm.trans hcurrent)
    · rw [hsize]
      obtain ⟨c, hc, rfl⟩ := hblock' n d hd
      split at ht'
      · obtain rfl := ‹k = n›
        cases ht'
        exact .inr ⟨hold, fun j hj => h.known j (ht j hj)⟩
      · exact h.becomes.edges n c t' hc ht'
  · intro n hn
    obtain ⟨hnew, hnone, hne⟩ := h.pending n hn
    rw [makeAll_concat, hopen]
    refine ⟨hnew, ⟨?_, hnone⟩, hnever n hne⟩
    rintro rfl
    exact hne ms List.prefix_rfl hcurrent
  · intro j hj
    rw [makeAll_concat, hsize]
    exact h.known j hj
  · rintro _ ⟨⟩
    rw [makeAll_concat, Builder.isOpen, hshut]
    rfl
  · intro earlier hearlier n hn
    rw [makeAll_concat, hsize]
    rcases List.prefix_concat_iff.1 hearlier with rfl | hearlier
    · rw [makeAll_concat, hshut] at hn
      cases hn
    · exact h.opened earlier hearlier n hn

/-- A terminator may lead to blocks that may be jumped to; then no block is open. -/
theorem terminate {t : Terminator} (ht : ∀ k ∈ t.successors, k ∈ o.known) :
    b.Course entries targets (ms ++ [.terminate t]) { o with isOpen := some false } := by
  have hallows : b.Allows entries targets ms (.terminate t) :=
    ⟨fun n hn => (h.becomes.current n hn).1, fun k hk => h.known k (ht k hk)⟩
  cases hcurrent : (b.makeAll ms).current with
  | none =>
      have hsame := make_terminate_none t hcurrent
      refine { h.quiet hallows (hsame.symm ▸ .of_blocks rfl rfl) with isOpen := ?_ }
      rintro _ ⟨⟩
      rw [makeAll_concat, hsame, Builder.isOpen, current_record, hcurrent]
      rfl
  | some m => exact h.close hallows hcurrent ht

/-- Where no block is open, one that is still to be opened may be. -/
theorem switchTo {before after : List Nat} (hshut : o.isOpen = some false)
    (hpending : o.pending = before ++ n :: after) :
    b.Course entries targets (ms ++ [.switchTo n]) ⟨before ++ after, o.known, some true⟩ := by
  have hmem : n ∈ o.pending := hpending ▸ List.mem_append_right _ (List.mem_cons_self ..)
  have hnodup : (before ++ n :: after).Nodup := hpending ▸ h.nodup
  have hless : (before ++ after).Sublist (before ++ n :: after) :=
    (List.Sublist.refl before).append (List.sublist_cons_self n after)
  obtain ⟨hnew, hnone, hnever⟩ := h.pending n hmem
  have hcurrent : (b.makeAll ms).current = none := by
    have := h.isOpen _ hshut
    rwa [Builder.isOpen, Option.isSome_eq_false_iff, Option.isNone_iff_eq_none] at this
  refine ⟨orderly_concat h.orderly ⟨hnew, hnone, hnever⟩, ?_, ?_, ?_, ?_, ?_, ?_⟩
  · rw [makeAll_concat]
    refine ⟨h.becomes.kept, fun k hk => ?_, fun k hk hopen => ?_, h.becomes.edges⟩
    · cases hk
      exact ⟨hnone, .inr hnew⟩
    · rcases h.becomes.closed k hk hopen with heq | hk
      · rw [hcurrent] at heq
        cases heq
      · rw [hpending, List.mem_append, List.mem_cons] at hk
        by_cases heq : k = n
        · exact .inl (congrArg some heq.symm)
        · exact .inr (List.mem_append.2 (hk.imp_right (·.resolve_left heq)))
  · exact hnodup.sublist hless
  · intro k hk
    have hne : k ≠ n := by
      rintro rfl
      exact (List.nodup_cons.1 (List.nodup_middle.1 hnodup)).1 hk
    obtain ⟨hnew, hopen, hnever⟩ := h.pending k (hpending ▸ hless.subset hk)
    rw [makeAll_concat]
    refine ⟨hnew, hopen, fun earlier hearlier heq => ?_⟩
    rcases List.prefix_concat_iff.1 hearlier with rfl | hearlier
    · rw [makeAll_concat] at heq
      cases heq
      exact hne rfl
    · exact hnever earlier hearlier heq
  · rw [makeAll_concat]
    exact h.known
  · rintro _ ⟨⟩
    rw [makeAll_concat]
    rfl
  · intro earlier hearlier k hk
    rw [makeAll_concat]
    rcases List.prefix_concat_iff.1 hearlier with rfl | hearlier
    · rw [makeAll_concat] at hk
      cases hk
      exact hnone.lt
    · exact h.opened earlier hearlier k hk

end step

end Course

/-- What some moves do that leave nothing to be opened. -/
structure Disciplined (b : Builder) (ms : List Move) : Prop where
  /-- The builder is switched only to new blocks, which have no terminator and were not open
  before. -/
  switches : ∀ before n behind, ms = before ++ .switchTo n :: behind →
    b.size ≤ n ∧ (b.makeAll before).Unterminated n ∧
      ∀ earlier, earlier <+: before → (b.makeAll earlier).current ≠ some n
  /-- No terminator takes the place of another one. -/
  terminates : ∀ before t behind, ms = before ++ .terminate t :: behind →
    ∀ n, (b.makeAll before).current = some n → (b.makeAll before).Unterminated n
  /-- Every new block has a terminator, unless it is open. -/
  created : ∀ n d, b.size ≤ n → (b.makeAll ms).block? n = some d →
    d.terminator.isSome ∨ (b.makeAll ms).current = some n
  /-- Old blocks stay as they are, but for the open one and for slots of the entry block. -/
  kept : ∀ n c, b.block? n = some c → b.current ≠ some n →
    ∃ d, (b.makeAll ms).block? n = some d ∧ c.KeptAt n d
  /-- The open block has no terminator, and it is new or was open. -/
  current : ∀ n, (b.makeAll ms).current = some n → (b.makeAll ms).Unterminated n ∧
    (b.current = some n ∨ b.size ≤ n)

theorem Course.disciplined {b : Builder} {ms : List Move} {o : Outlook}
    (h : b.Course [] [] ms o) (hpending : o.pending = []) : b.Disciplined ms := by
  refine ⟨fun before n behind hms => ?_,
    fun before t behind hms => (h.orderly before _ behind hms).1, fun n d hn hd => ?_,
    fun n c hc hne => ?_, fun n hn => ?_⟩
  · obtain ⟨hnew, hswitch⟩ := h.orderly before _ behind hms
    exact ⟨hnew.resolve_left List.not_mem_nil, hswitch⟩
  · cases hterminator : d.terminator with
    | some t => exact .inl rfl
    | none =>
        refine .inr ((h.becomes.closed n (.inr hn) ⟨d, hd, hterminator⟩).resolve_right ?_)
        rw [hpending]
        exact List.not_mem_nil
  · obtain ⟨d, hd, hkept⟩ := h.becomes.kept n c hc
    exact ⟨d, hd, hkept hne List.not_mem_nil⟩
  · obtain ⟨hopen, hold⟩ := h.becomes.current n hn
    exact ⟨hopen, hold.imp_right (·.resolve_left List.not_mem_nil)⟩

end Builder
end ObjectLang.IR
