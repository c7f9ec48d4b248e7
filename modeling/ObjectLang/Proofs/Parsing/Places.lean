import Mathlib.Tactic
import ObjectLang.Parsing.Programs
import ObjectLang.Proofs.Parsing.Grammar
import ObjectLang.Proofs.Token.Order

/-!
# Where nodes stand

How each node of a tree is written, as the words and symbols of the language and the nodes in it,
and what the span of a node has to say about the tokens that the node is written as. Parentheses
around an expression belong to no node: a node starts with its first token that is none of them.
-/
namespace ObjectLang

open Parsing

/-- A node of a tree that has a span. -/
inductive Phrase where
  | name (x : Ident)
  | type (t : TypeExpr)
  | expr (e : Expr)
  | location (l : Location)
  | decl (d : VarDecl)
  | param (d : VarDecl)
  | stmt (s : Stmt)
  | body (span : Span) (body : List Stmt)
  | function (f : FunctionDecl)
  | cls (c : ClassDecl)

def Phrase.span : Phrase → Span
  | .name x => x.span
  | .type t => t.span
  | .expr e => e.span
  | .location l => l.span
  | .decl d => d.span
  | .param d => d.span
  | .stmt s => s.span
  | .body span _ => span
  | .function f => f.tag.span
  | .cls c => c.tag.span

section forms

/-- What nodes are written as. -/
inductive Piece where
  /-- A token of some sort. -/
  | token (accepts : Token → Prop)
  /-- A node as it is. -/
  | phrase (n : Phrase)
  /-- A node, perhaps with parentheses around it. -/
  | operand (n : Phrase)
  /-- The element type and the size of a new array. The size stands behind the word that the type
  starts with, and the brackets of the type stand behind the size. -/
  | creation (element : TypeExpr) (size : Expr)

def Piece.symbol (s : Symbol) : Piece :=
  .token fun t => t.kind = .symbol s

def Piece.word (k : Keyword) : Piece :=
  .token fun t => t.kind = .keyword k

def Piece.number (n : Nat) : Piece :=
  .token fun t => t.kind = .intLiteral ∧ literalValue t.lexeme = n

def Piece.name (name : String) : Piece :=
  .token fun t => t.kind = .identifier ∧ t.lexeme = name

def TypeExpr.pieces : TypeExpr → List Piece
  | .int _ => [.word .intType]
  | .bool _ => [.word .boolType]
  | .named _ name => [.phrase (.name name)]
  | .array _ component => [.phrase (.type component), .symbol .leftBracket, .symbol .rightBracket]

/-- Some pieces in parentheses, with commas between them. -/
def listed (ps : List Piece) : List Piece :=
  .symbol .leftParen :: (ps.intersperse (.symbol .comma) ++ [.symbol .rightParen])

def Expr.pieces : Expr → List Piece
  | .unary _ op e => [.symbol op.symbol, .operand (.expr e)]
  | .binary _ op left right =>
    [.operand (.expr left), .symbol op.symbol, .operand (.expr right)]
  | .number _ n => [.number n]
  | .bool _ true => [.word .trueLit]
  | .bool _ false => [.word .falseLit]
  | .null _ => [.word .nullLit]
  | .this _ => [.word .thisExpr]
  | .read _ l => [.phrase (.location l)]
  | .arrayLength _ e => [.operand (.expr e), .symbol .dot, .word .length]
  | .newObject _ cls =>
    [.word .newExpr, .phrase (.name cls), .symbol .leftParen, .symbol .rightParen]
  | .newArray _ element size => [.word .newExpr, .creation element size]
  | .call _ name args => .phrase (.name name) :: listed (args.map fun e => .operand (.expr e))
  | .methodCall _ e name args =>
    .operand (.expr e) :: .symbol .dot :: .phrase (.name name) ::
      listed (args.map fun e => .operand (.expr e))

def Location.pieces : Location → List Piece
  | .var _ name => [.phrase (.name name)]
  | .field _ e name => [.operand (.expr e), .symbol .dot, .phrase (.name name)]
  | .index _ e i =>
    [.operand (.expr e), .symbol .leftBracket, .operand (.expr i), .symbol .rightBracket]

/-- A condition with its parentheses. -/
def conditionPieces (e : Expr) : List Piece :=
  [.symbol .leftParen, .operand (.expr e), .symbol .rightParen]

def Stmt.pieces : Stmt → List Piece
  | .declare d => [.phrase (.decl d)]
  | .eval e => [.operand (.expr e), .symbol .semicolon]
  | .assign _ target value =>
    [.operand (.location target), .symbol .equal, .operand (.expr value), .symbol .semicolon]
  | .branch _ c onTrue none => .word .ifStmt :: (conditionPieces c ++ [.phrase (.stmt onTrue)])
  | .branch _ c onTrue (some onFalse) =>
    .word .ifStmt :: (conditionPieces c ++
      [.phrase (.stmt onTrue), .word .elseStmt, .phrase (.stmt onFalse)])
  | .loop _ c body => .word .whileStmt :: (conditionPieces c ++ [.phrase (.stmt body)])
  | .return _ e => [.word .returnStmt, .operand (.expr e), .symbol .semicolon]
  | .block span body => [.phrase (.body span body)]

def FunctionDecl.pieces (f : FunctionDecl) : List Piece :=
  .phrase (.type f.returnType) :: .phrase (.name f.name) ::
    (listed (f.params.map fun d => .phrase (.param d)) ++ [.phrase (.body f.bodySpan f.body)])

def Parsing.Member.phrase : Member → Phrase
  | .field d => .decl d
  | .method f => .function f

/-- A class, with its members in the order in which they are written. -/
def ClassDecl.pieces (c : ClassDecl) (members : List Member) : List Piece :=
  .word .classDecl :: .phrase (.name c.name) ::
    ((c.superclass.elim [] fun x => [.word .extending, .phrase (.name x)]) ++
      .symbol .leftBrace :: (members.map (fun m => .phrase m.phrase) ++ [.symbol .rightBrace]))

/-- How a node is written. Fields and methods of a class may be mixed. -/
def Phrase.IsWritten : Phrase → List Piece → Prop
  | .name x, ps => ps = [.name x.name]
  | .type t, ps => ps = t.pieces
  | .expr e, ps => ps = e.pieces
  | .location l, ps => ps = l.pieces
  | .decl d, ps => ps = [.phrase (.type d.type), .phrase (.name d.name), .symbol .semicolon]
  | .param d, ps => ps = [.phrase (.type d.type), .phrase (.name d.name)]
  | .stmt s, ps => ps = s.pieces
  | .body _ stmts, ps =>
    ps = .symbol .leftBrace :: (stmts.map (fun s => .phrase (.stmt s)) ++ [.symbol .rightBrace])
  | .function f, ps => ps = f.pieces
  | .cls c, ps => ∃ members : List Member, c.fields = members.filterMap Member.field? ∧
    c.methods = members.filterMap Member.method? ∧ ps = c.pieces members

end forms

section marks

/-- All tokens stand on one line. -/
def OnOneLine (ts : List Token) : Prop :=
  ∀ t ∈ ts, ∀ u ∈ ts, t.span.line = u.span.line

/-- The first token that is no opening parenthesis. -/
def leading? (ts : List Token) : Option Token :=
  ts.find? fun t => t.kind ≠ .symbol .leftParen

namespace Span

/-- A span contains another one of the same line. -/
structure Covers (s t : Span) : Prop where
  line : t.line = s.line
  start : s.col ≤ t.col
  stop : t.stop ≤ s.stop

/-- A span starts where some tokens start, parentheses apart. If the tokens stand on one line, it
also ends where one of them ends, and contains some other spans. -/
structure Marks (span : Span) (ts : List Token) (parts : List Span) : Prop where
  start : ∃ t, leading? ts = some t ∧ span.line = t.span.line ∧ span.col = t.span.col
  stop : OnOneLine ts → ∃ t ∈ ts, span.stop = t.span.stop
  covers : OnOneLine ts → ∀ part ∈ parts, span.Covers part

end Span

/-- Some tokens with any number of parentheses around them. -/
inductive InParens (ts : List Token) : List Token → Prop
  | none : InParens ts ts
  | some {l r : Token} {us : List Token} : l.kind = .symbol .leftParen →
      r.kind = .symbol .rightParen → InParens ts us → InParens ts (l :: (us ++ [r]))

mutual

/-- A node is written as some tokens, and its span and the spans of all nodes in it are where they
have to be. The last argument are the spans of the node and of all nodes in it. -/
inductive Phrase.Placed : Phrase → List Token → List Span → Prop
  | intro {n : Phrase} {ps : List Piece} {ts : List Token} {spans : List Span} :
      n.IsWritten ps → PiecesPlaced ps ts spans → n.span.Marks ts spans →
      Phrase.Placed n ts (n.span :: spans)

/-- Pieces are written as some tokens, one behind the other, and the spans of all nodes in them are
where they have to be. -/
inductive PiecesPlaced : List Piece → List Token → List Span → Prop
  | nil : PiecesPlaced [] [] []
  | token {accepts : Token → Prop} {t : Token} {ps : List Piece} {ts : List Token}
      {spans : List Span} : accepts t → PiecesPlaced ps ts spans →
      PiecesPlaced (.token accepts :: ps) (t :: ts) spans
  | phrase {n : Phrase} {ps : List Piece} {us ts : List Token} {inner spans : List Span} :
      n.Placed us inner → PiecesPlaced ps ts spans →
      PiecesPlaced (.phrase n :: ps) (us ++ ts) (inner ++ spans)
  | operand {n : Phrase} {ps : List Piece} {us ws ts : List Token} {inner spans : List Span} :
      n.Placed us inner → InParens us ws → PiecesPlaced ps ts spans →
      PiecesPlaced (.operand n :: ps) (ws ++ ts) (inner ++ spans)
  | creation {element : TypeExpr} {size : Expr} {t l r : Token} {ps : List Piece}
      {us vs ws ts : List Token} {inner inner' spans : List Span} :
      Phrase.Placed (.type element) (t :: us) inner → l.kind = .symbol .leftBracket →
      Phrase.Placed (.expr size) vs inner' → InParens vs ws → r.kind = .symbol .rightBracket →
      PiecesPlaced ps ts spans →
      PiecesPlaced (.creation element size :: ps) (t :: l :: (ws ++ r :: (us ++ ts)))
        (inner ++ (inner' ++ spans))

end

/-- The classes and functions of a program are written as some tokens, in any order. -/
def Program.PlacedIn (p : Program) (ts : List Token) : Prop :=
  ∃ decls : List (ClassDecl ⊕ FunctionDecl), p.classes = decls.filterMap Sum.getLeft? ∧
    p.functions = decls.filterMap Sum.getRight? ∧
      ∃ spans, PiecesPlaced (decls.map fun d => .phrase (d.elim .cls .function)) ts spans

end marks

section spans

variable {s t : Span} {ts us fs mid ls : List Token} {parts parts' spans : List Span}

theorem OnOneLine.mono (h : OnOneLine us) (hts : ts ⊆ us) : OnOneLine ts :=
  fun t ht u hu => h t (hts ht) u (hts hu)

theorem mem_of_leading? {a : Token} (h : leading? ts = some a) :
    a ∈ ts ∧ a.kind ≠ .symbol .leftParen :=
  ⟨List.mem_of_find?_eq_some h, by simpa using List.find?_some h⟩

theorem leading?_append {a : Token} (h : leading? ts = some a) :
    leading? (ts ++ us) = some a := by
  rw [leading?] at h ⊢
  rw [List.find?_append, h]
  rfl

/-- No token starts before the first one. -/
theorem col_leading?_le {a u : Token} (ho : Token.Ordered ts) (hline : OnOneLine ts)
    (ha : leading? ts = some a) (hu : u ∈ ts) (hkind : u.kind ≠ .symbol .leftParen) :
    a.span.col ≤ u.span.col := by
  obtain ⟨hword, before, behind, rfl, hbefore⟩ := List.find?_eq_some_iff_append.1 ha
  rcases List.mem_append.1 hu with hu | hu
  · exact absurd (by simpa using hbefore u hu) hkind
  rcases List.mem_cons.1 hu with rfl | hu'
  · exact Nat.le_refl _
  · have hstop := (List.pairwise_cons.1 (List.pairwise_append.1 ho).2.1).1 u hu'
      (hline _ (by simp) _ (by simp [hu']))
    exact (Nat.le_add_right _ _).trans hstop

/-- No token ends behind the last one. -/
theorem stop_le_last {u v : Token} (ho : Token.Ordered (ts ++ [u])) (hline : OnOneLine (ts ++ [u]))
    (hv : v ∈ ts ++ [u]) : v.span.stop ≤ u.span.stop := by
  have hlast := hline v hv u (by simp)
  rcases List.mem_append.1 hv with hv | hv
  · exact ((List.pairwise_append.1 ho).2.2 v hv u (by simp) hlast).trans (Nat.le_add_right _ _)
  · rw [List.mem_singleton.1 hv]

namespace Span

theorem Covers.refl (s : Span) : s.Covers s :=
  ⟨rfl, Nat.le_refl _, Nat.le_refl _⟩

/-- Between the starts and the ends of some tokens of one line. -/
def Within (s : Span) (ts : List Token) : Prop :=
  ∃ t ∈ ts, ∃ u ∈ ts, t.kind ≠ .symbol .leftParen ∧ s.line = t.span.line ∧
    t.span.col ≤ s.col ∧ s.stop ≤ u.span.stop

theorem Within.mono (h : s.Within ts) (hts : ts ⊆ us) : s.Within us := by
  obtain ⟨t, ht, u, hu, h⟩ := h
  exact ⟨t, hts ht, u, hts hu, h⟩

/-- What a span contains stands between the tokens of the span. -/
theorem Marks.within (h : s.Marks ts parts) (hline : OnOneLine ts) (ht : s.Covers t) :
    t.Within ts := by
  obtain ⟨a, ha, hl, hc⟩ := h.start
  obtain ⟨u, hu, hstop⟩ := h.stop hline
  obtain ⟨hmem, hkind⟩ := mem_of_leading? ha
  exact ⟨a, hmem, u, hu, hkind, ht.line.trans hl, hc ▸ ht.start, hstop ▸ ht.stop⟩

/-- A span marks its own start and end. -/
theorem Marks.self (h : s.Marks ts parts) : s.Marks ts (s :: parts) :=
  ⟨h.start, h.stop, fun hline => List.forall_mem_cons.2 ⟨.refl s, h.covers hline⟩⟩

theorem Marks.append (h : s.Marks ts parts) : s.Marks (ts ++ us) parts := by
  obtain ⟨a, ha, hstart⟩ := h.start
  refine ⟨⟨a, leading?_append ha, hstart⟩, fun hline => ?_, fun hline => ?_⟩
  · obtain ⟨u, hu, hstop⟩ := h.stop (hline.mono (List.subset_append_left ..))
    exact ⟨u, List.mem_append_left _ hu, hstop⟩
  · exact h.covers (hline.mono (List.subset_append_left ..))

/-- Parentheses change nothing. -/
theorem Marks.inParens (h : s.Marks ts parts) (hp : InParens ts us) : s.Marks us parts := by
  induction hp with
  | none => exact h
  | @some l r us hl hr _ ih =>
      obtain ⟨a, ha, hstart⟩ := ih.start
      have hsub : us ⊆ l :: (us ++ [r]) := fun x hx =>
        List.mem_cons_of_mem _ (List.mem_append_left _ hx)
      refine ⟨⟨a, ?_, hstart⟩, fun hline => ?_, fun hline => ih.covers (hline.mono hsub)⟩
      · rw [leading?, List.find?_cons_of_neg (by simp [hl])]
        exact leading?_append ha
      · obtain ⟨u, hu, hstop⟩ := ih.stop (hline.mono hsub)
        exact ⟨u, hsub hu, hstop⟩

/-- The place of a token. -/
theorem marks_token {t : Token} (ht : t.kind ≠ .symbol .leftParen) : t.span.Marks [t] [] :=
  ⟨⟨t, by simp [leading?, ht], rfl, rfl⟩, fun _ => ⟨t, List.mem_singleton_self t, rfl⟩,
    fun _ => nofun⟩

/-- Two spans of the same line, the first of which starts first, are covered from the start of the
first one up to where the last one ends. -/
theorem stop_merge (hline : s.line = t.line) : (s.merge t).stop = max t.stop s.stop := by
  rw [merge, if_pos hline]
  simp only [stop]
  omega

theorem start_merge (hcol : s.line = t.line → s.col ≤ t.col) :
    (s.merge t).line = s.line ∧ (s.merge t).col = s.col := by
  rw [merge]
  split_ifs with hline
  · exact ⟨rfl, Nat.min_eq_left (hcol hline)⟩
  · exact ⟨rfl, rfl⟩

/-- The span from the start of the first to the end of the last part of some tokens. -/
theorem Marks.merge (hs : s.Marks fs parts) (ht : t.Marks ls parts')
    (ho : Token.Ordered (fs ++ (mid ++ ls)))
    (hspans : OnOneLine (fs ++ (mid ++ ls)) →
      ∀ x ∈ spans, x.Within (fs ++ (mid ++ ls)) ∧ x.stop ≤ t.stop) :
    (s.merge t).Marks (fs ++ (mid ++ ls)) spans := by
  obtain ⟨a, ha, haLine, haCol⟩ := hs.start
  obtain ⟨b, hb, hbLine, hbCol⟩ := ht.start
  have hlead : leading? (fs ++ (mid ++ ls)) = some a := leading?_append ha
  have hlast : ls ⊆ fs ++ (mid ++ ls) := fun x hx =>
    List.mem_append_right _ (List.mem_append_right _ hx)
  have hbefore : ∀ u ∈ fs, u.span.line = b.span.line → u.span.stop ≤ t.col := fun u hu hline =>
    hbCol ▸ (List.pairwise_append.1 ho).2.2 u hu b
      (List.mem_append_right _ (mem_of_leading? hb).1) hline
  have hcol : s.line = t.line → s.col ≤ t.col := fun hline => by
    have := hbefore a (mem_of_leading? ha).1 (by rw [← haLine, hline, hbLine])
    rw [haCol]
    exact (Nat.le_add_right _ _).trans this
  obtain ⟨hmergeLine, hmergeCol⟩ := start_merge hcol
  have hstop : OnOneLine (fs ++ (mid ++ ls)) → (s.merge t).stop = t.stop := fun hline => by
    obtain ⟨v, hv, hvStop⟩ := hs.stop (hline.mono (List.subset_append_left ..))
    have hsame : s.line = t.line := by
      rw [haLine, hbLine]
      exact hline a (mem_of_leading? hlead).1 b (hlast (mem_of_leading? hb).1)
    have := hbefore v hv (hline v (List.mem_append_left _ hv) b (hlast (mem_of_leading? hb).1))
    rw [stop_merge hsame, hvStop]
    exact Nat.max_eq_left (this.trans (Nat.le_add_right _ _))
  refine ⟨⟨a, hlead, hmergeLine.trans haLine, hmergeCol.trans haCol⟩, fun hline => ?_,
    fun hline x hx => ?_⟩
  · obtain ⟨w, hw, hwStop⟩ := ht.stop (hline.mono hlast)
    exact ⟨w, hlast hw, (hstop hline).trans hwStop⟩
  · obtain ⟨⟨u, hu, _, _, hkind, hxLine, hxCol, _⟩, hxStop⟩ := hspans hline x hx
    refine ⟨?_, ?_, (hstop hline).symm ▸ hxStop⟩
    · rw [hmergeLine, haLine, hxLine]
      exact hline u hu a (mem_of_leading? hlead).1
    · rw [hmergeCol, haCol]
      exact (col_leading?_le ho hline hlead hu hkind).trans hxCol

end Span

end spans

section pieces

variable {n m : Phrase} {p : Piece} {ps qs : List Piece} {s t : Span}
  {ts us fs mid ls xs ys : List Token} {inner inner' spans : List Span}

/-- The span of a node contains those of all nodes in it, and its own. -/
theorem Phrase.Placed.marks (h : n.Placed ts spans) : n.span.Marks ts spans := by
  cases h with
  | intro _ _ hmarks => exact hmarks.self

theorem Phrase.Placed.within (h : n.Placed ts spans) (hline : OnOneLine ts) :
    ∀ x ∈ spans, x.Within ts :=
  fun x hx => h.marks.within hline (h.marks.covers hline x hx)

theorem InParens.subset (h : InParens ts us) : ts ⊆ us := by
  induction h with
  | none => exact List.Subset.refl _
  | some _ _ _ ih => exact fun x hx => List.mem_cons_of_mem _ (List.mem_append_left _ (ih hx))

/-- All spans in some pieces stand between the tokens of the pieces. -/
theorem PiecesPlaced.within : ∀ {ps : List Piece} {ts : List Token} {spans : List Span},
    PiecesPlaced ps ts spans → OnOneLine ts → ∀ x ∈ spans, x.Within ts
  | _, _, _, .nil, _ => nofun
  | _, _, _, .token _ h, hline => fun x hx =>
      (h.within (hline.mono (List.subset_cons_self ..)) x hx).mono (List.subset_cons_self ..)
  | _, _, _, .phrase hn h, hline => fun x hx => by
      rcases List.mem_append.1 hx with hx | hx
      · exact (hn.within (hline.mono (List.subset_append_left ..)) x hx).mono
          (List.subset_append_left ..)
      · exact (h.within (hline.mono (List.subset_append_right ..)) x hx).mono
          (List.subset_append_right ..)
  | _, _, _, @PiecesPlaced.operand _ _ us ws ts _ _ hn hp h, hline => fun x hx => by
      rcases List.mem_append.1 hx with hx | hx
      · have hsub : us ⊆ ws ++ ts := fun y hy => List.mem_append_left _ (hp.subset hy)
        exact (hn.within (hline.mono hsub) x hx).mono hsub
      · exact (h.within (hline.mono (List.subset_append_right ..)) x hx).mono
          (List.subset_append_right ..)
  | _, _, _, @PiecesPlaced.creation _ _ t l r _ us vs ws ts _ _ _ ht _ hs hp _ h, hline => by
      have htype : t :: us ⊆ t :: l :: (ws ++ r :: (us ++ ts)) := fun x hx => by
        simp only [List.mem_cons, List.mem_append] at hx ⊢
        tauto
      have hsize : vs ⊆ t :: l :: (ws ++ r :: (us ++ ts)) := fun x hx => by
        have := hp.subset hx
        simp only [List.mem_cons, List.mem_append]
        tauto
      have hrest : ts ⊆ t :: l :: (ws ++ r :: (us ++ ts)) := fun x hx => by
        simp only [List.mem_cons, List.mem_append]
        tauto
      intro x hx
      rcases List.mem_append.1 hx with hx | hx
      · exact (ht.within (hline.mono htype) x hx).mono htype
      rcases List.mem_append.1 hx with hx | hx
      · exact (hs.within (hline.mono hsize) x hx).mono hsize
      · exact (h.within (hline.mono hrest) x hx).mono hrest

theorem PiecesPlaced.append : ∀ {ps : List Piece} {xs : List Token} {spans : List Span},
    PiecesPlaced ps xs spans → PiecesPlaced qs ys inner →
      PiecesPlaced (ps ++ qs) (xs ++ ys) (spans ++ inner)
  | _, _, _, .nil, h' => h'
  | _, _, _, .token ht h, h' => .token ht (h.append h')
  | _, _, _, .phrase hn h, h' => by
      rw [List.append_assoc, List.append_assoc]
      exact .phrase hn (h.append h')
  | _, _, _, .operand hn hp h, h' => by
      rw [List.append_assoc, List.append_assoc]
      exact .operand hn hp (h.append h')
  | _, _, _, .creation ht hl hs hp hr h, h' => by
      simp only [List.cons_append, List.append_assoc]
      exact .creation ht hl hs hp hr (h.append h')

end pieces

section standing

/-- A node is placed over some tokens, if these are in order. -/
def Phrase.Stands (n : Phrase) (ts : List Token) : Prop :=
  Token.Ordered ts → ∃ spans, n.Placed ts spans

/-- A node stands over some tokens, perhaps with parentheses around it. -/
def Phrase.StandsIn (n : Phrase) (ts : List Token) : Prop :=
  ∃ us, InParens us ts ∧ n.Stands us

def PiecesStand (ps : List Piece) (ts : List Token) : Prop :=
  Token.Ordered ts → ∃ spans, PiecesPlaced ps ts spans

/-- A span is that of the first part of something. -/
def Span.Opens (s : Span) (ts : List Token) : Prop :=
  Token.Ordered ts → ∃ parts, s.Marks ts parts

/-- A span is that of the last piece of something. -/
def Piece.Closes (p : Piece) (t : Span) (ts : List Token) : Prop :=
  Token.Ordered ts → ∃ spans, PiecesPlaced [p] ts spans ∧ t.Marks ts spans

variable {n m : Phrase} {p : Piece} {ps qs : List Piece} {s t : Span}
  {ts us fs mid ls xs ys : List Token}

theorem Token.Ordered.left (h : Token.Ordered (ts ++ us)) : Token.Ordered ts :=
  (List.pairwise_append.1 h).1

theorem Token.Ordered.right (h : Token.Ordered (ts ++ us)) : Token.Ordered us :=
  (List.pairwise_append.1 h).2.1

theorem Token.Ordered.inner (h : Token.Ordered us) (hp : InParens ts us) : Token.Ordered ts := by
  induction hp with
  | none => exact h
  | some _ _ _ ih => exact ih (Token.Ordered.left (List.pairwise_cons.1 h).2)

theorem Span.opens_token {t : Token} (ht : t.kind ≠ .symbol .leftParen) : t.span.Opens [t] :=
  fun _ => ⟨[], Span.marks_token ht⟩

theorem Phrase.StandsIn.opens (h : n.StandsIn ts) : n.span.Opens ts := fun ho => by
  obtain ⟨us, hp, hn⟩ := h
  obtain ⟨spans, hn⟩ := hn (ho.inner hp)
  exact ⟨spans, hn.marks.inParens hp⟩

namespace PiecesStand

theorem nil : PiecesStand [] [] :=
  fun _ => ⟨[], .nil⟩

theorem token {accepts : Token → Prop} {t : Token} (ht : accepts t) (h : PiecesStand ps ts) :
    PiecesStand (.token accepts :: ps) (t :: ts) :=
  fun ho => (h (List.pairwise_cons.1 ho).2).imp fun _ h => .token ht h

theorem phrase (hn : n.Stands us) (h : PiecesStand ps ts) :
    PiecesStand (.phrase n :: ps) (us ++ ts) := fun ho => by
  obtain ⟨inner, hn⟩ := hn ho.left
  obtain ⟨spans, h⟩ := h ho.right
  exact ⟨_, .phrase hn h⟩

theorem operand (hn : n.StandsIn us) (h : PiecesStand ps ts) :
    PiecesStand (.operand n :: ps) (us ++ ts) := fun ho => by
  obtain ⟨vs, hp, hn⟩ := hn
  obtain ⟨inner, hn⟩ := hn (ho.left.inner hp)
  obtain ⟨spans, h⟩ := h ho.right
  exact ⟨_, .operand hn hp h⟩

theorem append (h : PiecesStand ps xs) (h' : PiecesStand qs ys) :
    PiecesStand (ps ++ qs) (xs ++ ys) := fun ho => by
  obtain ⟨spans, h⟩ := h ho.left
  obtain ⟨spans', h'⟩ := h' ho.right
  exact ⟨_, h.append h'⟩

end PiecesStand

namespace Piece

theorem closes_token {accepts : Token → Prop} {t : Token} (ht : accepts t)
    (hkind : t.kind ≠ .symbol .leftParen) : (Piece.token accepts).Closes t.span [t] :=
  fun _ => ⟨[], .token ht .nil, Span.marks_token hkind⟩

theorem closes_operand (h : n.StandsIn ts) : (Piece.operand n).Closes n.span ts := fun ho => by
  obtain ⟨us, hp, hn⟩ := h
  obtain ⟨spans, hn⟩ := hn (ho.inner hp)
  refine ⟨spans, ?_, hn.marks.inParens hp⟩
  simpa using PiecesPlaced.operand hn hp .nil

theorem closes_phrase (h : n.Stands ts) : (Piece.phrase n).Closes n.span ts := fun ho => by
  obtain ⟨spans, hn⟩ := h ho
  refine ⟨spans, ?_, hn.marks⟩
  simpa using PiecesPlaced.phrase hn .nil

end Piece

namespace Phrase

/-- A node whose span goes from the start of its first to the end of its last piece. -/
theorem stands_of_pieces (ps : List Piece) (hn : n.IsWritten (ps ++ [p]))
    (hps : PiecesStand ps (fs ++ mid)) (hs : s.Opens fs) (hp : p.Closes t ls)
    (hspan : n.span = s.merge t) :
    n.Stands (fs ++ (mid ++ ls)) := fun ho => by
  have hsplit : Token.Ordered ((fs ++ mid) ++ ls) := by rwa [List.append_assoc]
  obtain ⟨parts, hs⟩ := hs ho.left
  obtain ⟨spans, hps⟩ := hps hsplit.left
  obtain ⟨inner, hlast, ht⟩ := hp hsplit.right
  refine ⟨n.span :: (spans ++ inner), .intro hn ?_ ?_⟩
  · rw [← List.append_assoc]
    exact hps.append hlast
  rw [hspan]
  refine hs.merge ht ho fun hline x hx => ?_
  have hfirst : fs ++ mid ⊆ fs ++ (mid ++ ls) := by
    rw [← List.append_assoc]
    exact List.subset_append_left ..
  have hrest : ls ⊆ fs ++ (mid ++ ls) := by
    rw [← List.append_assoc]
    exact List.subset_append_right ..
  rcases List.mem_append.1 hx with hx | hx
  · obtain ⟨u, hu, v, hv, h⟩ := hps.within (hline.mono hfirst) x hx
    obtain ⟨b, hb, _, hcol⟩ := ht.start
    have hb := (mem_of_leading? hb).1
    -- What stands before the last piece ends before it starts.
    have hbefore := (List.pairwise_append.1 hsplit).2.2 v hv b hb
      (hline v (hfirst hv) b (hrest hb))
    refine ⟨⟨u, hfirst hu, v, hfirst hv, h⟩, h.2.2.2.trans (hbefore.trans ?_)⟩
    exact hcol ▸ Nat.le_add_right _ _
  · have hcovers := ht.covers (hline.mono hrest) x hx
    exact ⟨(ht.within (hline.mono hrest) hcovers).mono hrest, hcovers.stop⟩

/-- A node that is one token. -/
theorem stands_of_token {accepts : Token → Prop} {t : Token} (hn : n.IsWritten [.token accepts])
    (ht : accepts t) (hkind : t.kind ≠ .symbol .leftParen) (hspan : n.span = t.span) :
    n.Stands [t] :=
  fun _ => ⟨_, .intro hn (.token ht .nil) (hspan ▸ Span.marks_token hkind)⟩

/-- A node that is another one. -/
theorem stands_of_phrase (hn : n.IsWritten [.phrase m]) (hm : m.Stands ts)
    (hspan : n.span = m.span) : n.Stands ts := fun ho => by
  obtain ⟨spans, hm⟩ := hm ho
  refine ⟨n.span :: spans, .intro hn ?_ (hspan ▸ hm.marks)⟩
  simpa using PiecesPlaced.phrase hm .nil

/-- A node with the span of its first piece, which a token follows. -/
theorem stands_of_operand {accepts : Token → Prop} {u : Token}
    (hn : n.IsWritten [.operand m, .token accepts]) (hm : m.StandsIn ts) (hu : accepts u)
    (hspan : n.span = m.span) : n.Stands (ts ++ [u]) := fun ho => by
  obtain ⟨us, hp, hm⟩ := hm
  obtain ⟨spans, hm⟩ := hm (ho.left.inner hp)
  refine ⟨n.span :: spans, .intro hn ?_ (hspan ▸ (hm.marks.inParens hp).append)⟩
  simpa using PiecesPlaced.operand hm hp (.token hu .nil)

/-- A new array, whose type is written around its size. -/
theorem stands_of_creation {tag : Tag} {element : TypeExpr} {size : Expr} {new a l r last : Token}
    {ws init : List Token} (hnew : new.kind = .keyword .newExpr)
    (htype : (Phrase.type element).Stands (a :: us)) (hl : l.kind = .symbol .leftBracket)
    (hsize : (Phrase.expr size).StandsIn ws) (hr : r.kind = .symbol .rightBracket)
    (hlast : r :: us = init ++ [last]) (hkind : last.kind ≠ .symbol .leftParen)
    (hspan : tag.span = new.span.merge last.span) :
    (Phrase.expr (.newArray tag element size)).Stands
      (new :: a :: l :: (ws ++ r :: us)) := fun ho => by
  have hsplit : new :: a :: l :: (ws ++ r :: us) =
      [new] ++ ((a :: l :: (ws ++ init)) ++ [last]) := by
    simp [hlast]
  have htypeOrdered : Token.Ordered (a :: us) := ho.sublist <| .cons _ <| .cons_cons _ <|
    .cons _ <| (List.sublist_cons_self r us).trans (List.sublist_append_right ..)
  have hsizeOrdered : Token.Ordered ws := ho.sublist <| .cons _ <| .cons _ <| .cons _ <|
    List.sublist_append_left ..
  obtain ⟨vs, hp, hsize⟩ := hsize
  obtain ⟨inner, htype⟩ := htype htypeOrdered
  obtain ⟨inner', hsize⟩ := hsize (hsizeOrdered.inner hp)
  have hpieces : PiecesPlaced (Expr.newArray tag element size).pieces
      (new :: a :: l :: (ws ++ r :: us)) (inner ++ (inner' ++ [])) := by
    refine .token hnew ?_
    simpa using PiecesPlaced.creation htype hl hsize hp hr .nil
  refine ⟨_, .intro rfl hpieces ?_⟩
  change tag.span.Marks _ _
  have hwithin := hpieces.within
  rw [hspan]
  rw [hsplit] at ho hwithin ⊢
  refine (Span.marks_token (by simp [hnew])).merge (Span.marks_token hkind) ho fun hline x hx => ?_
  obtain ⟨u, hu, v, hv, h⟩ := hwithin hline x hx
  refine ⟨⟨u, hu, v, hv, h⟩, h.2.2.2.trans ?_⟩
  rw [← List.append_assoc] at ho hline hv
  exact stop_le_last ho hline hv

end Phrase

end standing

end ObjectLang
