import Mathlib.Tactic
import ObjectLang.Token.Scan

/-!
# The order of tokens

A text is read from left to right, so of two tokens on one line the first ends before the second
starts. Each token takes some bytes, and stands before all tokens behind it. So a span that goes on
to a later token is longer than it was, be it that the token is on another line: there the lengths
add up.
-/
namespace ObjectLang

namespace Place

/-- A place is behind another one by some bytes of the same line, or it is on a later line. -/
def Follows (p q : Place) (bytes : Nat) : Prop :=
  p.line < q.line ∨ p.line = q.line ∧ p.col + bytes ≤ q.col

theorem Follows.trans {p q r : Place} {m n : Nat} (h : p.Follows q m) (h' : q.Follows r n) :
    p.Follows r (m + n) := by
  unfold Follows at *
  omega

theorem Follows.weaken {p q : Place} {m n : Nat} (h : p.Follows q m) (hn : n ≤ m) :
    p.Follows q n :=
  h.imp_right fun h => ⟨h.1, by omega⟩

theorem follows_after (p : Place) (c : Char) : p.Follows (p.after c) c.utf8Size := by
  unfold after Follows
  split_ifs <;> simp

/-- The place behind a text follows by its bytes. -/
theorem follows_afterAll (p : Place) (text : List Char) :
    p.Follows (p.afterAll text) (Token.byteLength text) := by
  induction text generalizing p with
  | nil => exact .inr ⟨rfl, Nat.le_refl _⟩
  | cons c text ih => exact (p.follows_after c).trans (ih (p.after c))

end Place

namespace Token

/-- Of two tokens on one line, the first ends before the second starts. -/
def Ordered (ts : List Token) : Prop :=
  ts.Pairwise fun t u => t.span.line = u.span.line → t.span.stop ≤ u.span.col

/-- A token stands behind a place, by some bytes if on the same line. -/
def Behind (p : Place) (bytes : Nat) (t : Token) : Prop :=
  p.line < t.span.line ∨ p.line = t.span.line ∧ p.col + bytes ≤ t.span.col

theorem Behind.of_follows {p q : Place} {m n : Nat} {t : Token} (h : p.Follows q m)
    (ht : Behind q n t) : Behind p m t := by
  unfold Behind Place.Follows at *
  omega

/-- All tokens of a text stand behind the place where it starts. -/
theorem behind_scanFrom (p : Place) (text : List Char) :
    ∀ t ∈ (scanFrom p text).tokens, Behind p 0 t := by
  fun_induction scanFrom p text with
  | case1 p => exact nofun
  | case2 p c text _ ih =>
      exact fun t ht => (ih t ht).of_follows ((p.follows_after c).weaken (Nat.zero_le _))
  | case3 p c text _ _ comment ih =>
      exact fun t ht => (ih t ht).of_follows ((p.follows_afterAll _).weaken (Nat.zero_le _))
  | case4 p c text _ _ _ body rest _ ih =>
      exact fun t ht => (ih t ht).of_follows ((p.follows_afterAll _).weaken (Nat.zero_le _))
  | case5 p c text => exact nofun
  | case6 p c text _ _ _ lexeme ih =>
      refine List.forall_mem_cons.2 ⟨.inr ⟨rfl, Nat.le_refl _⟩, fun t ht => ?_⟩
      exact (ih t ht).of_follows ((p.follows_afterAll _).weaken (Nat.zero_le _))

end Token

namespace Span

variable {s t u : Span}

/-- A span is on an earlier line than where another one starts, or it ends before that. -/
def Precedes (s t : Span) : Prop :=
  s.line < t.line ∨ s.line = t.line ∧ s.stop ≤ t.col

/-- Two spans start at the same place. -/
def SameStart (s t : Span) : Prop :=
  s.line = t.line ∧ s.col = t.col

theorem SameStart.symm (h : s.SameStart t) : t.SameStart s :=
  ⟨h.1.symm, h.2.symm⟩

theorem SameStart.trans (h : s.SameStart t) (h' : t.SameStart u) : s.SameStart u :=
  ⟨h.1.trans h'.1, h.2.trans h'.2⟩

theorem Precedes.congr (h : s.Precedes t) (htu : u.SameStart t) : s.Precedes u := by
  unfold Precedes
  rw [htu.1, htu.2]
  exact h

/-- What takes some bytes starts elsewhere than what it precedes. -/
theorem Precedes.not_sameStart (h : s.Precedes t) (hs : 0 < s.len) : ¬ s.SameStart t := by
  rintro ⟨hline, hcol⟩
  unfold Precedes stop at h
  omega

/-- A span that goes on to a later place is longer, whether on one line or over several. -/
theorem Precedes.len_lt (h : s.Precedes t) (ht : 0 < t.len) : s.len < (s.merge t).len := by
  rw [merge]
  unfold Precedes stop at h
  split_ifs with hline
  · simp only [stop]
    omega
  · exact Nat.lt_add_of_pos_right ht

/-- What goes on to a place ends where that place ends. -/
theorem Precedes.merge (h : s.Precedes t) (htu : t.Precedes u) : (s.merge t).Precedes u := by
  rw [Span.merge]
  unfold Precedes stop at *
  split_ifs with hline
  · simp only
    omega
  · exact .inl (by simp only; omega)

end Span

namespace Token

variable {ts us : List Token}

/-- Each token takes some bytes and precedes all tokens behind it. -/
structure Spaced (ts : List Token) : Prop where
  pos : ∀ t ∈ ts, 0 < t.span.len
  precedes : ts.Pairwise fun t u => t.span.Precedes u.span

theorem Spaced.ordered (h : Spaced ts) : Ordered ts :=
  h.precedes.imp fun h hline => (h.resolve_left hline.not_lt).2

theorem Spaced.sublist (h : Spaced us) (hts : ts.Sublist us) : Spaced ts :=
  ⟨fun t ht => h.pos t (hts.subset ht), h.precedes.sublist hts⟩

theorem Spaced.left (h : Spaced (ts ++ us)) : Spaced ts :=
  h.sublist (List.sublist_append_left ..)

theorem Spaced.right (h : Spaced (ts ++ us)) : Spaced us :=
  h.sublist (List.sublist_append_right ..)

/-- No two tokens start at the same place. -/
def StartApart (ts : List Token) : Prop :=
  ts.Pairwise fun t u => ¬ t.span.SameStart u.span

theorem Spaced.startApart (h : Spaced ts) : StartApart ts :=
  h.precedes.imp_of_mem fun ht _ htu => htu.not_sameStart (h.pos _ ht)

theorem StartApart.sublist (h : StartApart us) (hts : ts.Sublist us) : StartApart ts :=
  List.Pairwise.sublist hts h

theorem StartApart.left (h : StartApart (ts ++ us)) : StartApart ts :=
  h.sublist (List.sublist_append_left ..)

theorem StartApart.right (h : StartApart (ts ++ us)) : StartApart us :=
  h.sublist (List.sublist_append_right ..)

theorem StartApart.perm (h : StartApart ts) (hts : ts.Perm us) : StartApart us :=
  hts.pairwise h fun h h' => h h'.symm

theorem byteLength_pos (c : Char) (text : List Char) : 0 < byteLength (c :: text) :=
  Nat.add_pos_left c.utf8Size_pos _

theorem spaced_scanFrom (p : Place) (text : List Char) : Spaced (scanFrom p text).tokens := by
  fun_induction scanFrom p text with
  | case1 p => exact ⟨List.forall_mem_nil _, .nil⟩
  | case2 p c text _ ih => exact ih
  | case3 p c text _ _ comment ih => exact ih
  | case4 p c text _ _ _ body rest _ ih => exact ih
  | case5 p c text => exact ⟨List.forall_mem_nil _, .nil⟩
  | case6 p c text _ _ _ lexeme ih =>
      refine ⟨List.forall_mem_cons.2 ⟨byteLength_pos c _, ih.pos⟩,
        List.pairwise_cons.2 ⟨fun t ht => ?_, ih.precedes⟩⟩
      exact (behind_scanFrom _ _ t ht).of_follows (p.follows_afterAll lexeme)

/-- The tokens of a text keep apart. -/
theorem spaced_scan (source : String) : Spaced (scan source).tokens :=
  spaced_scanFrom _ _

/-- The tokens of a text are ordered. -/
theorem ordered_scan (source : String) : Ordered (scan source).tokens :=
  (spaced_scan source).ordered

end Token
end ObjectLang
