import Mathlib.Data.List.DropRight
import Mathlib.Tactic
import ObjectLang.Proofs.Token.Lexemes

/-!
# Tokens tile their text

A text is its tokens, one behind the other, with a gap before each of them and one behind the last.
Nothing of the text is lost and nothing is read twice. The place of a token is that of its text: as
many newlines stand before it as its line says, and as many bytes stand between it and the last of
them as its column says. Every text has such a tiling, and reading the text finds just its tokens
and reports just what is wrong with them.
-/
namespace ObjectLang

theorem Place.afterAll_append (p : Place) (text more : List Char) :
    p.afterAll (text ++ more) = (p.afterAll text).afterAll more :=
  List.foldl_append

namespace Token

theorem byteLength_append (text more : List Char) :
    byteLength (text ++ more) = byteLength text + byteLength more := by
  induction text with
  | nil => exact (Nat.zero_add _).symm
  | cons c text ih => rw [List.cons_append, byteLength, ih, byteLength, Nat.add_assoc]

/-- The line behind a text: one more than it has newlines. -/
def lineBehind (text : List Char) : Nat :=
  text.count '\n' + 1

/-- The column behind a text: one more than the bytes behind its last newline. -/
def columnBehind (text : List Char) : Nat :=
  byteLength (text.rtakeWhile (· ≠ '\n')) + 1

/-- The span of some bytes behind a text. -/
def spanBehind (text : List Char) (len : Nat) : Span :=
  ⟨lineBehind text, columnBehind text, len⟩

/-- Line and column count what stands before a place. -/
theorem afterAll_eq (text : List Char) :
    Place.afterAll {} text = ⟨lineBehind text, columnBehind text⟩ := by
  induction text using List.reverseRecOn with
  | nil => rfl
  | append_singleton text c ih =>
      rw [Place.afterAll_append, ih]
      change Place.after _ c = _
      rw [Place.after]
      by_cases hc : c = '\n'
      · subst hc
        simp [lineBehind, columnBehind, List.rtakeWhile, byteLength]
      · rw [if_neg hc, lineBehind, lineBehind, columnBehind, columnBehind,
          List.rtakeWhile_concat_pos _ _ _ (by simpa using hc), byteLength_append,
          List.count_append]
        simp [hc, byteLength]
        omega

theorem span_afterAll (text : List Char) (len : Nat) :
    (Place.afterAll {} text).span len = spanBehind text len := by
  rw [afterAll_eq]
  rfl

/-- What is reported of the end of a text: a comment that is never closed, at its opening. -/
def Ending.errors (opening : Span) : Ending → List ParseError
  | .none | .line _ => []
  | .unclosed _ => [⟨.unterminatedComment, opening, "block comment is never closed"⟩]

/-- A token with the gap before it. -/
structure Tile where
  gap : List Char
  token : Token

def Tile.text (t : Tile) : List Char :=
  t.gap ++ t.token.lexeme.toList

/-- The text of some tiles, one behind the other. -/
def tilesText (tiles : List Tile) : List Char :=
  tiles.flatMap Tile.text

/-- A token is the text of its sort that stands behind some text and before some other. -/
structure StandsBetween (before : List Char) (t : Token) (behind : List Char) : Prop where
  lexeme : IsLexeme t.kind t.lexeme.toList behind
  span : t.span = spanBehind before (byteLength t.lexeme.toList)

/-- A text that stands behind `start` as tokens with the gaps between them. -/
structure Tiling (start text : List Char) where
  tiles : List Tile
  gap : List Char
  ending : Ending
  covers : tilesText tiles ++ (gap ++ ending.text) = text
  gaps : ∀ t ∈ tiles, IsGap t.gap
  last : IsGap gap
  proper : ending.Proper
  stands : ∀ before t behind, tiles = before ++ t :: behind →
    StandsBetween (start ++ (tilesText before ++ t.gap)) t.token
      (tilesText behind ++ (gap ++ ending.text))

namespace Tiling

variable {start text : List Char}

def tokens (t : Tiling start text) : List Token :=
  t.tiles.map Tile.token

/-- What is reported of a text: each token that is none of the language, at its span, and a comment
that is never closed, at its opening. -/
def errors (t : Tiling start text) : List ParseError :=
  ((t.tokens.filter (·.kind = .invalid)).map fun token =>
    ⟨.unexpectedChar, token.span, "unexpected character '" ++ token.lexeme ++ "'"⟩) ++
    t.ending.errors (spanBehind (start ++ (tilesText t.tiles ++ t.gap)) 2)

/-- The tiling of a text that ends behind a gap. -/
def finish (start : List Char) {gap : List Char} (hgap : IsGap gap) {ending : Ending}
    (hending : ending.Proper) : Tiling start (gap ++ ending.text) where
  tiles := []
  gap := gap
  ending := ending
  covers := rfl
  gaps := List.forall_mem_nil _
  last := hgap
  proper := hending
  stands := fun before t behind h => by simp at h

/-- The tiling of a text with a gap and a token in front. -/
def cons {gap lexeme behind : List Char} {kind : Kind} (hgap : IsGap gap)
    (hlexeme : IsLexeme kind lexeme behind) (t : Tiling (start ++ (gap ++ lexeme)) behind) :
    Tiling start (gap ++ (lexeme ++ behind)) where
  tiles :=
    ⟨gap, kind, String.ofList lexeme, spanBehind (start ++ gap) (byteLength lexeme)⟩ :: t.tiles
  gap := t.gap
  ending := t.ending
  covers := by
    have hcovers := t.covers
    simp only [tilesText, Tile.text, List.flatMap_cons, String.toList_ofList, List.append_assoc]
      at hcovers ⊢
    rw [hcovers]
  gaps := List.forall_mem_cons.2 ⟨hgap, t.gaps⟩
  last := t.last
  proper := t.proper
  stands := by
    intro before x after h
    cases before with
    | nil =>
        obtain ⟨rfl, rfl⟩ := List.cons.inj h
        have hcovers := t.covers
        refine ⟨?_, ?_⟩
        · rw [hcovers, String.toList_ofList]
          exact hlexeme
        · rw [String.toList_ofList]
          rfl
    | cons y before =>
        obtain ⟨rfl, htail⟩ := List.cons.inj h
        have hstands := t.stands before x after htail
        simp only [tilesText, Tile.text, List.flatMap_cons, String.toList_ofList,
          List.append_assoc] at hstands ⊢
        exact hstands

/-- A tiling without its first token. -/
def tail (t : Tiling start text) {x : Tile} {tiles : List Tile} (h : t.tiles = x :: tiles) :
    Tiling (start ++ x.text) (tilesText tiles ++ (t.gap ++ t.ending.text)) where
  tiles := tiles
  gap := t.gap
  ending := t.ending
  covers := rfl
  gaps := (List.forall_mem_cons.1 (h ▸ t.gaps)).2
  last := t.last
  proper := t.proper
  stands := by
    intro before y behind hy
    have hstands := t.stands (x :: before) y behind (by rw [h, hy, List.cons_append])
    rw [tilesText, List.flatMap_cons] at hstands
    rw [List.append_assoc, tilesText, ← List.append_assoc x.text]
    exact hstands

end Tiling

section reading

variable {start text gap : List Char} {p : Place}

theorem scanFrom_blank {c : Char} (h : Text.isBlank c = true) :
    scanFrom p (c :: text) = scanFrom (p.after c) text := by
  rw [scanFrom, if_pos h]

theorem scanFrom_line : scanFrom p ('/' :: '/' :: text) =
    scanFrom (p.afterAll ('/' :: '/' :: text.takeWhile (· ≠ '\n')))
      (text.dropWhile (· ≠ '\n')) := by
  rw [scanFrom, if_neg (by decide), if_pos ⟨rfl, rfl⟩]
  rfl

theorem scanFrom_block : scanFrom p ('/' :: '*' :: text) =
    match closeComment text with
    | some (body, rest) => scanFrom (p.afterAll ('/' :: '*' :: body)) rest
    | none => .unclosed p (p.afterAll ('/' :: '*' :: text)) := by
  rw [scanFrom, if_neg (by decide), if_neg (by simp), if_pos ⟨rfl, rfl⟩]
  split <;> simp_all

/-- A gap is passed. -/
theorem scanFrom_gap (h : IsGap gap) :
    ∀ p, scanFrom p (gap ++ text) = scanFrom (p.afterAll gap) text := by
  induction h with
  | nil => exact fun _ => rfl
  | blank hc _ ih => exact fun p => (scanFrom_blank hc).trans (ih _)
  | @line body gap hbody _ ih =>
      intro p
      obtain ⟨htake, hdrop⟩ := @takeWhile_append_of_head body ('\n' :: (gap ++ text)) (· ≠ '\n')
        (fun d hd => by simpa using ne_of_mem_of_not_mem hd hbody) (by simp)
      rw [List.append_assoc]
      change scanFrom p ('/' :: '/' :: (body ++ '\n' :: (gap ++ text))) = _
      rw [scanFrom_line, htake, hdrop, scanFrom_blank (by decide), ih, Place.afterAll_append]
      rfl
  | @block body gap hbody _ ih =>
      intro p
      rw [List.append_assoc]
      change scanFrom p ('/' :: '*' :: (body ++ '*' :: '/' :: (gap ++ text))) = _
      rw [scanFrom_block, closeComment_eq_some hbody]
      change scanFrom (p.afterAll ('/' :: '*' :: body ++ ['*', '/'])) (gap ++ text) = _
      rw [ih, ← Place.afterAll_append, List.append_assoc]
      rfl

/-- What a text ends in is passed. -/
theorem scanFrom_ending {ending : Ending} (h : ending.Proper) : scanFrom p ending.text =
    ⟨[], (p.afterAll ending.text).span 0, ending.errors (p.span 2)⟩ := by
  cases ending with
  | none => rw [Ending.text, scanFrom]; rfl
  | line body =>
      obtain ⟨htake, hdrop⟩ := @takeWhile_append_of_head body [] (· ≠ '\n')
        (fun d hd => by simpa using ne_of_mem_of_not_mem hd h) (by simp)
      rw [List.append_nil] at htake hdrop
      rw [Ending.text, scanFrom_line, htake, hdrop, scanFrom]
      rfl
  | unclosed body =>
      rw [Ending.text, scanFrom_block, closeComment_eq_none h]
      rfl

/-- A token is read. -/
theorem scanFrom_lexeme {kind : Kind} {lexeme behind : List Char}
    (h : IsLexeme kind lexeme behind) :
    scanFrom p (lexeme ++ behind) = .cons ⟨kind, String.ofList lexeme, p.span (byteLength lexeme)⟩
      (scanFrom (p.afterAll lexeme) behind) := by
  obtain ⟨c, more, rfl⟩ := exists_cons_of_isLexeme h
  obtain ⟨hblank, hopens⟩ := startsToken_of_isLexeme h
  rw [List.cons_append, scanFrom, hblank, if_neg Bool.false_ne_true,
    if_neg (fun hc => hopens ⟨hc.1, .inl hc.2⟩), if_neg (fun hc => hopens ⟨hc.1, .inr hc.2⟩),
    lead_eq h]

/-- Behind a gap, a text ends or a token starts. -/
theorem exists_gap (text : List Char) : ∃ gap rest, text = gap ++ rest ∧ IsGap gap ∧
    ((∃ ending : Ending, ending.Proper ∧ rest = ending.text) ∨
      ∃ kind c more behind, rest = c :: (more ++ behind) ∧ IsLexeme kind (c :: more) behind) := by
  induction hn : text.length using Nat.strong_induction_on generalizing text with
  | h n ih =>
      subst hn
      cases text with
      | nil => exact ⟨[], [], rfl, .nil, .inl ⟨.none, trivial, rfl⟩⟩
      | cons c text =>
          by_cases hblank : Text.isBlank c = true
          · obtain ⟨gap, rest, rfl, hgap, hrest⟩ := ih _ (Nat.lt_succ_self _) text rfl
            exact ⟨c :: gap, rest, rfl, .blank hblank hgap, hrest⟩
          by_cases hopens : OpensComment c text
          · obtain ⟨rfl, hline | hblock⟩ := hopens
            · obtain ⟨body, rfl⟩ := List.head?_eq_some_iff.1 hline
              by_cases hnewline : '\n' ∈ body
              · obtain ⟨body, text, rfl, hbody⟩ := List.eq_append_cons_of_mem hnewline
                obtain ⟨gap, rest, rfl, hgap, hrest⟩ := ih text.length (by simp; omega) text rfl
                exact ⟨'/' :: '/' :: body ++ '\n' :: gap, rest, by simp, .line hbody hgap, hrest⟩
              · exact ⟨[], _, rfl, .nil, .inl ⟨.line body, hnewline, rfl⟩⟩
            · obtain ⟨body, rfl⟩ := List.head?_eq_some_iff.1 hblock
              rcases unclosed_or_closed body with hbody | ⟨body, text, rfl, hbody⟩
              · exact ⟨[], _, rfl, .nil, .inl ⟨.unclosed body, hbody, rfl⟩⟩
              · obtain ⟨gap, rest, rfl, hgap, hrest⟩ := ih text.length (by simp; omega) text rfl
                exact ⟨'/' :: '*' :: body ++ '*' :: '/' :: gap, rest, by simp, .block hbody hgap,
                  hrest⟩
          · obtain ⟨htext, hlexeme⟩ := isLexeme_lead ⟨Bool.eq_false_iff.2 hblank, hopens⟩
            exact ⟨[], c :: text, rfl, .nil, .inr ⟨_, c, _, _, by rw [htext], hlexeme⟩⟩

/-- Every text has a tiling. -/
theorem nonempty_tiling (start text : List Char) : Nonempty (Tiling start text) := by
  induction hn : text.length using Nat.strong_induction_on generalizing start text with
  | h n ih =>
      subst hn
      obtain ⟨gap, rest, rfl, hgap,
          ⟨ending, hending, rfl⟩ | ⟨kind, c, more, behind, rfl, hlexeme⟩⟩ :=
        exists_gap text
      · exact ⟨.finish start hgap hending⟩
      · obtain ⟨t⟩ := ih behind.length (by simp; omega) (start ++ (gap ++ c :: more)) behind rfl
        exact ⟨.cons hgap hlexeme t⟩

/-- Reading a text finds the tokens of a tiling. -/
theorem scanFrom_tiling (tiles : List Tile) : ∀ {start text : List Char} (t : Tiling start text),
    t.tiles = tiles → scanFrom (Place.afterAll {} start) text =
      ⟨t.tokens, spanBehind (start ++ text) 0, t.errors⟩ := by
  induction tiles with
  | nil =>
      rintro start _ ⟨_, gap, ending, rfl, _, hlast, hproper, _⟩ rfl
      refine (scanFrom_gap hlast _).trans ?_
      rw [scanFrom_ending hproper, ← Place.afterAll_append, ← Place.afterAll_append, span_afterAll,
        ← Place.afterAll_append, span_afterAll]
      rfl
  | cons x tiles ih =>
      rintro start _ ⟨_, gap, ending, rfl, hgaps, hlast, hproper, hstands⟩ rfl
      obtain ⟨hlexeme, hspan⟩ := hstands [] x tiles rfl
      have htext : tilesText (x :: tiles) ++ (gap ++ ending.text) =
          x.gap ++ (x.token.lexeme.toList ++ (tilesText tiles ++ (gap ++ ending.text))) := by
        simp [tilesText, Tile.text]
      have htoken : (⟨x.token.kind, String.ofList x.token.lexeme.toList,
          ((Place.afterAll {} start).afterAll x.gap).span (byteLength x.token.lexeme.toList)⟩ :
            Token) = x.token := by
        rw [← Place.afterAll_append, span_afterAll, String.ofList_toList]
        exact congrArg _ hspan.symm
      have hplace : ((Place.afterAll {} start).afterAll x.gap).afterAll x.token.lexeme.toList =
          Place.afterAll {} (start ++ x.text) := by
        rw [Tile.text, Place.afterAll_append, Place.afterAll_append]
      refine (congrArg (scanFrom _) htext).trans ?_
      rw [scanFrom_gap (hgaps x (List.mem_cons_self ..)), scanFrom_lexeme hlexeme, htoken,
        hplace, ih ((Tiling.mk _ gap ending rfl hgaps hlast hproper hstands).tail rfl) rfl]
      have hstop : start ++ x.text ++ (tilesText tiles ++ (gap ++ ending.text)) =
          start ++ (tilesText (x :: tiles) ++ (gap ++ ending.text)) := by
        simp [tilesText]
      have hopening : start ++ x.text ++ (tilesText tiles ++ gap) =
          start ++ (tilesText (x :: tiles) ++ gap) := by
        simp [tilesText]
      simp only [Scan.cons, Tiling.tokens, Tiling.errors, Tiling.tail, hstop, hopening,
        List.map_cons, List.filter_cons]
      by_cases hkind : x.token.kind = .invalid <;> simp [hkind]

end reading

/-- Reading a text is reading off a tiling of it. -/
theorem exists_tiling (source : String) : ∃ t : Tiling [] source.toList,
    scan source = ⟨t.tokens, spanBehind source.toList 0, t.errors⟩ := by
  obtain ⟨t⟩ := nonempty_tiling [] source.toList
  exact ⟨t, scanFrom_tiling t.tiles t rfl⟩

/-- The tokens of a text tile it. Behind them stands the token for the end of the text, and nothing
is reported but each token that is none of the language and a comment that is never closed. -/
theorem scan_tiles (source : String) : ∃ t : Tiling [] source.toList,
    (scan source).all = t.tokens ++ [endOfText (spanBehind source.toList 0)] ∧
      (∀ token ∈ t.tokens, token.kind ≠ .endOfText) ∧ (scan source).errors = t.errors := by
  obtain ⟨t⟩ := nonempty_tiling [] source.toList
  have hscan := scanFrom_tiling t.tiles t rfl
  refine ⟨t, ?_, fun token htoken hkind => ?_, congrArg Scan.errors hscan⟩
  · rw [scan, Scan.all, Scan.last]
    change (scanFrom (Place.afterAll {} []) _).tokens ++
      [endOfText (scanFrom (Place.afterAll {} []) _).stop] = _
    rw [hscan]
    rfl
  · obtain ⟨x, hx, rfl⟩ := List.mem_map.1 htoken
    obtain ⟨before, behind, htiles⟩ := List.append_of_mem hx
    have hlexeme := (t.stands before x behind htiles).lexeme
    rw [hkind] at hlexeme
    cases hlexeme

end Token
end ObjectLang
