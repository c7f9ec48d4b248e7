import Mathlib.Tactic
import ObjectLang.Proofs.Parsing.Places
import ObjectLang.Proofs.Token.Order

/-!
# Nodes inside of nodes

All nodes that a node is made of. Several of them can start at the same place, as a sum starts where
its first operand starts, and that where its own first operand starts. Then each is longer than the
next one or of another sort, whatever lines they go over, so that no two nodes of one sort have the
same span.
-/
namespace ObjectLang

open Parsing

section inside

def TypeExpr.inside : TypeExpr → List Phrase
  | .int _ | .bool _ => []
  | .named _ name => [.name name]
  | .array _ component => .type component :: component.inside

mutual

/-- The nodes inside of an expression. -/
def Expr.inside : Expr → List Phrase
  | .unary _ _ operand => .expr operand :: operand.inside
  | .binary _ _ left right => .expr left :: (left.inside ++ .expr right :: right.inside)
  | .number _ _ | .bool _ _ | .null _ | .this _ => []
  | .read _ location => .location location :: location.inside
  | .arrayLength _ array => .expr array :: array.inside
  | .newObject _ cls => [.name cls]
  | .newArray _ element size => .type element :: (element.inside ++ .expr size :: size.inside)
  | .call _ name args => .name name :: insideArguments args
  | .methodCall _ receiver name args =>
    .expr receiver :: (receiver.inside ++ .name name :: insideArguments args)
termination_by structural e => e

def Location.inside : Location → List Phrase
  | .var _ name => [.name name]
  | .field _ receiver name => .expr receiver :: (receiver.inside ++ [.name name])
  | .index _ array index => .expr array :: (array.inside ++ .expr index :: index.inside)
termination_by structural l => l

def insideArguments : List Expr → List Phrase
  | [] => []
  | e :: es => .expr e :: (e.inside ++ insideArguments es)
termination_by structural es => es

end

def VarDecl.inside (d : VarDecl) : List Phrase :=
  .type d.type :: (d.type.inside ++ [.name d.name])

mutual

/-- The nodes inside of a statement. -/
def Stmt.inside : Stmt → List Phrase
  | .declare d => .decl d :: d.inside
  | .eval value => .expr value :: value.inside
  | .assign _ target value => .location target :: (target.inside ++ .expr value :: value.inside)
  | .branch _ condition onTrue none =>
    .expr condition :: (condition.inside ++ .stmt onTrue :: onTrue.inside)
  | .branch _ condition onTrue (some onFalse) =>
    .expr condition ::
      (condition.inside ++ .stmt onTrue :: (onTrue.inside ++ .stmt onFalse :: onFalse.inside))
  | .loop _ condition body => .expr condition :: (condition.inside ++ .stmt body :: body.inside)
  | .return _ value => .expr value :: value.inside
  | .block span body => .body span body :: insideBody body
termination_by structural s => s

def insideBody : List Stmt → List Phrase
  | [] => []
  | s :: rest => .stmt s :: (s.inside ++ insideBody rest)
termination_by structural body => body

end

def FunctionDecl.inside (f : FunctionDecl) : List Phrase :=
  .type f.returnType :: (f.returnType.inside ++ .name f.name ::
    (f.params.flatMap (fun d => .param d :: d.inside) ++ .body f.bodySpan f.body ::
      insideBody f.body))

def ClassDecl.inside (c : ClassDecl) : List Phrase :=
  .name c.name :: (c.superclass.toList.map Phrase.name ++
    (c.fields.flatMap (fun d => .decl d :: d.inside) ++
      c.methods.flatMap fun f => .function f :: f.inside))

namespace Phrase

/-- The nodes inside of a node. -/
def inside : Phrase → List Phrase
  | .name _ => []
  | .type t => t.inside
  | .expr e => e.inside
  | .location l => l.inside
  | .decl d | .param d => d.inside
  | .stmt s => s.inside
  | .body _ stmts => insideBody stmts
  | .function f => f.inside
  | .cls c => c.inside

/-- A node and the nodes inside of it. -/
def nodes (n : Phrase) : List Phrase :=
  n :: n.inside

end Phrase

def Piece.nodes : Piece → List Phrase
  | .token _ => []
  | .phrase n | .operand n => n.nodes
  | .creation element size => Phrase.nodes (.type element) ++ Phrase.nodes (.expr size)

theorem nodes_listed (ps : List Piece) :
    (listed ps).flatMap Piece.nodes = ps.flatMap Piece.nodes := by
  have hcommas : ∀ ps : List Piece,
      (ps.intersperse (.symbol .comma)).flatMap Piece.nodes = ps.flatMap Piece.nodes := by
    intro ps
    induction ps with
    | nil => rfl
    | cons p ps ih =>
        cases ps with
        | nil => rfl
        | cons q qs => exact congrArg (p.nodes ++ ·) ih
  simp only [listed, List.flatMap_cons, List.flatMap_append, hcommas]
  exact List.append_nil _

theorem nodes_arguments (es : List Expr) :
    (es.map fun e => Piece.operand (.expr e)).flatMap Piece.nodes = insideArguments es := by
  induction es with
  | nil => rfl
  | cons e es ih =>
      rw [List.map_cons, List.flatMap_cons, ih, insideArguments]
      rfl

theorem nodes_body (body : List Stmt) :
    (body.map fun s => Piece.phrase (.stmt s)).flatMap Piece.nodes = insideBody body := by
  induction body with
  | nil => rfl
  | cons s body ih =>
      rw [List.map_cons, List.flatMap_cons, ih, insideBody]
      rfl

/-- What is inside of a class, in the order in which its members are written. -/
theorem nodes_members (members : List Member) :
    ((members.map fun m => Piece.phrase m.phrase).flatMap Piece.nodes).Perm
      ((members.filterMap Member.field?).flatMap (fun d => .decl d :: d.inside) ++
        (members.filterMap Member.method?).flatMap fun f => .function f :: f.inside) := by
  induction members with
  | nil => rfl
  | cons m members ih =>
      cases m with
      | field d =>
          simp only [List.map_cons, List.flatMap_cons, List.filterMap_cons, Member.field?,
            Member.method?, List.append_assoc]
          exact ih.append_left _
      | method f =>
          simp only [List.map_cons, List.flatMap_cons, List.filterMap_cons, Member.field?,
            Member.method?]
          exact (ih.append_left _).trans (List.perm_append_comm_assoc ..)

/-- The nodes inside of a node are those of what it is written as. -/
theorem Phrase.IsWritten.nodes {n : Phrase} {ps : List Piece} (h : n.IsWritten ps) :
    n.inside.Perm (ps.flatMap Piece.nodes) := by
  cases n with
  | name x =>
      cases h
      exact .rfl
  | type t =>
      cases h
      cases t <;> simp [Phrase.inside, TypeExpr.inside, TypeExpr.pieces, Piece.nodes, Piece.word,
        Piece.symbol, Phrase.nodes]
  | expr e =>
      cases h
      rcases e with _ | _ | _ | ⟨_, _ | _⟩ | _ | _ | _ | _ | _ | _ | _ | _ <;>
        simp [Phrase.inside, Expr.inside, Expr.pieces, Piece.nodes, Piece.word, Piece.symbol,
          Piece.number, Phrase.nodes, nodes_listed, nodes_arguments]
  | location l =>
      cases h
      cases l <;> simp [Phrase.inside, Location.inside, Location.pieces, Piece.nodes, Piece.symbol,
        Phrase.nodes]
  | decl d =>
      cases h
      simp [Phrase.inside, VarDecl.inside, Piece.nodes, Piece.symbol, Phrase.nodes]
  | param d =>
      cases h
      simp [Phrase.inside, VarDecl.inside, Piece.nodes, Phrase.nodes]
  | stmt s =>
      cases h
      rcases s with _ | _ | _ | ⟨_, _, _, _ | _⟩ | _ | _ | _ <;>
        simp [Phrase.inside, Stmt.inside, Stmt.pieces, conditionPieces, Piece.nodes, Piece.word,
          Piece.symbol, Phrase.nodes]
  | body span body =>
      cases h
      simp [Phrase.inside, Piece.nodes, Piece.symbol, nodes_body]
  | function f =>
      cases h
      simp [Phrase.inside, FunctionDecl.inside, FunctionDecl.pieces, Piece.nodes, Phrase.nodes,
        nodes_listed, List.flatMap_map]
  | cls c =>
      obtain ⟨members, hfields, hmethods, rfl⟩ := h
      have hsuper :
          (c.superclass.elim [] fun x => [Piece.word .extending, .phrase (.name x)]).flatMap
          Piece.nodes = c.superclass.toList.map Phrase.name := by
        cases c.superclass <;> rfl
      have hmembers := nodes_members members
      rw [← hfields, ← hmethods] at hmembers
      simp only [Phrase.inside, ClassDecl.inside, ClassDecl.pieces, List.flatMap_cons,
        List.flatMap_append, hsuper]
      change List.Perm (_ :: (_ ++ _)) (_ :: (_ ++ (_ ++ [])))
      rw [List.append_nil]
      exact (hmembers.symm.append_left _).cons _

end inside

section order

namespace Phrase

/-- The node that stands first in a node, if it starts with one. -/
def first? : Phrase → Option Phrase
  | .name _ | .body .. | .cls _ => none
  | .type (.int _) | .type (.bool _) => none
  | .type (.named _ x) => some (.name x)
  | .type (.array _ c) => some (.type c)
  | .expr (.binary _ _ left _) => some (.expr left)
  | .expr (.read _ l) => some (.location l)
  | .expr (.arrayLength _ array) => some (.expr array)
  | .expr (.call _ x _) => some (.name x)
  | .expr (.methodCall _ receiver _ _) => some (.expr receiver)
  | .expr _ => none
  | .location (.var _ x) => some (.name x)
  | .location (.field _ e _) | .location (.index _ e _) => some (.expr e)
  | .decl d | .param d => some (.type d.type)
  | .stmt (.declare d) => some (.decl d)
  | .stmt (.eval value) => some (.expr value)
  | .stmt (.assign _ target _) => some (.location target)
  | .stmt (.block span stmts) => some (.body span stmts)
  | .stmt _ => none
  | .function f => some (.type f.returnType)

/-- A node never starts with one of a later tier. -/
def tier : Phrase → Nat
  | .name _ => 0
  | .type _ => 1
  | .expr _ | .location _ => 2
  | .decl _ | .param _ | .body .. => 3
  | .stmt _ | .function _ | .cls _ => 4

/-- The length of a node, where an expression is longer than a location of the same span. -/
def extent : Phrase → Nat
  | .expr e => 2 * e.span.len + 1
  | n => 2 * n.span.len

/-- A node can be the first one in another one. -/
def Under (m n : Phrase) : Prop :=
  m.tier < n.tier ∨ m.tier = n.tier ∧ m.extent < n.extent

/-- A node is longer than the one that stands first in it, or of another sort. -/
def Grown (n : Phrase) : Prop :=
  ∀ m ∈ n.first?, m.Under n

variable {l m n : Phrase}

theorem Under.trans (h : l.Under m) (h' : m.Under n) : l.Under n := by
  unfold Under at *
  omega

theorem extent_bounds (n : Phrase) :
    2 * n.span.len ≤ n.extent ∧ n.extent ≤ 2 * n.span.len + 1 := by
  cases n <;> simp [extent, span]

/-- A node is of a later tier than the one that stands first in it, or longer. -/
theorem grown_of_len (h : ∀ m ∈ n.first?, m.tier = n.tier → m.span.len < n.span.len) :
    n.Grown := by
  intro m hm
  have htier : m.tier ≤ n.tier := by
    unfold first? at hm
    split at hm <;> cases hm <;> simp [tier]
  rcases htier.lt_or_eq with htier | htier
  · exact .inl htier
  · have := m.extent_bounds
    have := n.extent_bounds
    have := h m hm htier
    exact .inr ⟨htier, by omega⟩

/-- Nothing is asked of the node that stands first in another one if it is of another sort. -/
theorem first_unlike {P : Phrase → Prop}
    (h : n.first?.all (fun m => m.tier != n.tier) = true) :
    ∀ m ∈ n.first?, m.tier = n.tier → P m := by
  intro m hm htier
  have hunlike := (Option.all_eq_true _ _).1 h m hm
  simp [htier] at hunlike

theorem under_read {tag : Tag} {l : Location} (h : l.span = tag.span) :
    (Phrase.location l).Under (.expr (.read tag l)) := by
  refine .inr ⟨rfl, ?_⟩
  simp [extent, span, Expr.span, Expr.tag, h]

end Phrase

/-- A node can start with a piece: with a token that is no parenthesis, or with the node that stands
first in it. -/
def Piece.Heads (n : Phrase) : Piece → Prop
  | .token accepts => n.first? = none ∧ ∀ t, accepts t → t.kind ≠ .symbol .leftParen
  | .phrase m | .operand m => n.first? = some m
  | .creation .. => False

theorem Phrase.IsWritten.heads {n : Phrase} {p : Piece} {ps : List Piece}
    (h : n.IsWritten (p :: ps)) : p.Heads n := by
  cases n with
  | name x =>
      cases h
      exact ⟨rfl, fun t ht => by simp [ht.1]⟩
  | type t =>
      cases t with
      | named _ _ | array _ _ =>
          cases h
          rfl
      | int _ | bool _ =>
          cases h
          exact ⟨rfl, fun t ht => by simp [show t.kind = _ from ht]⟩
  | expr e =>
      cases e with
      | unary _ op _ =>
          cases h
          exact ⟨rfl, fun t ht => by cases op <;> simp [show t.kind = _ from ht, UnaryOp.symbol]⟩
      | number _ _ =>
          cases h
          exact ⟨rfl, fun t ht => by simp [ht.1]⟩
      | bool _ b =>
          cases b <;> cases h <;> exact ⟨rfl, fun t ht => by simp [show t.kind = _ from ht]⟩
      | null _ | this _ | newObject _ _ | newArray _ _ _ =>
          cases h
          exact ⟨rfl, fun t ht => by simp [show t.kind = _ from ht]⟩
      | _ =>
          cases h
          rfl
  | location l => cases l <;> cases h <;> rfl
  | decl d | param d | function f =>
      cases h
      rfl
  | stmt s =>
      rcases s with _ | _ | _ | ⟨_, _, _, _ | _⟩ | _ | _ | _
      case branch.none | branch.some | loop | «return» =>
        cases h
        exact ⟨rfl, fun t ht => by simp [show t.kind = _ from ht]⟩
      all_goals
        cases h
        rfl
  | body _ _ =>
      cases h
      exact ⟨rfl, fun t ht => by simp [show t.kind = _ from ht]⟩
  | cls c =>
      obtain ⟨_, _, _, heq⟩ := h
      cases heq
      exact ⟨rfl, fun t ht => by simp [show t.kind = _ from ht]⟩

end order

section growing

variable {n m : Phrase} {p : Piece} {ps qs : List Piece} {s t : Span}
  {ts us fs mid ls xs ys : List Token}

theorem InParens.sublist (h : InParens ts us) : ts.Sublist us := by
  induction h with
  | none => exact .refl _
  | some _ _ _ ih => exact .cons _ (ih.trans (List.sublist_append_left ..))

namespace Span

/-- A span takes some bytes and ends where some tokens end: it precedes what all of them precede. -/
structure Ends (s : Span) (ts : List Token) : Prop where
  pos : 0 < s.len
  precedes : ∀ u, (∀ t ∈ ts, t.span.Precedes u) → s.Precedes u

theorem Ends.mono (h : s.Ends ts) (hts : ts ⊆ us) : s.Ends us :=
  ⟨h.pos, fun u hu => h.precedes u fun t ht => hu t (hts ht)⟩

theorem ends_token {t : Token} (h : Token.Spaced [t]) : t.span.Ends [t] :=
  ⟨h.pos t (List.mem_singleton_self t), fun _ hu => hu t (List.mem_singleton_self t)⟩

/-- The span of the first part of some tokens precedes that of the last part. -/
theorem Ends.precedes_last (hs : s.Ends fs) (ht : ∃ b ∈ ls, t.SameStart b.span)
    (hspaced : Token.Spaced (fs ++ (mid ++ ls))) : s.Precedes t := by
  obtain ⟨b, hb, hstart⟩ := ht
  exact hs.precedes t fun f hf => ((List.pairwise_append.1 hspaced.precedes).2.2 f hf b
    (List.mem_append_right _ hb)).congr hstart

theorem Ends.merge (ht : t.Ends ls) (hst : s.Precedes t) :
    (s.merge t).Ends (fs ++ (mid ++ ls)) := by
  have hlen := hst.len_lt ht.pos
  refine ⟨by omega, fun u hu => hst.merge (ht.precedes u fun x hx => hu x ?_)⟩
  exact List.mem_append_right _ (List.mem_append_right _ hx)

/-- A span is that of the first part of something, and ends with it. -/
structure Begins (s : Span) (ts : List Token) : Prop where
  opens : s.Opens ts
  ends : Token.Spaced ts → s.Ends ts

theorem begins_token {t : Token} (ht : t.kind ≠ .symbol .leftParen) : t.span.Begins [t] :=
  ⟨opens_token ht, ends_token⟩

end Span

/-- A node stands over some tokens. If these keep apart, it ends with them, and all nodes in it are
longer than what stands first in them. -/
structure Phrase.Sits (n : Phrase) (ts : List Token) : Prop where
  stands : n.Stands ts
  ends : Token.Spaced ts → n.span.Ends ts
  grown : Token.Spaced ts → ∀ m ∈ n.nodes, m.Grown

/-- A node sits over some tokens, perhaps with parentheses around it. -/
def Phrase.SitsIn (n : Phrase) (ts : List Token) : Prop :=
  ∃ us, InParens us ts ∧ n.Sits us

structure PiecesSit (ps : List Piece) (ts : List Token) : Prop where
  stand : PiecesStand ps ts
  grown : Token.Spaced ts → ∀ m ∈ ps.flatMap Piece.nodes, m.Grown

/-- A span is that of the last piece of something, and ends with it. -/
structure Piece.Finishes (p : Piece) (t : Span) (ts : List Token) : Prop where
  closes : p.Closes t ts
  ends : Token.Spaced ts → t.Ends ts
  grown : Token.Spaced ts → ∀ m ∈ p.nodes, m.Grown

namespace Phrase

theorem Sits.inside (h : n.Sits ts) : n.SitsIn ts :=
  ⟨ts, .none, h⟩

theorem SitsIn.paren {l r : Token} (h : n.SitsIn ts) (hl : l.kind = .symbol .leftParen)
    (hr : r.kind = .symbol .rightParen) : n.SitsIn (l :: (ts ++ [r])) :=
  h.imp fun _ h => ⟨.some hl hr h.1, h.2⟩

theorem SitsIn.standsIn (h : n.SitsIn ts) : n.StandsIn ts :=
  h.imp fun _ h => ⟨h.1, h.2.stands⟩

theorem SitsIn.begins (h : n.SitsIn ts) : n.span.Begins ts := by
  refine ⟨h.standsIn.opens, fun hspaced => ?_⟩
  obtain ⟨us, hp, hn⟩ := h
  exact (hn.ends (hspaced.sublist hp.sublist)).mono hp.subset

theorem SitsIn.grown (h : n.SitsIn ts) (hspaced : Token.Spaced ts) : ∀ m ∈ n.nodes, m.Grown := by
  obtain ⟨us, hp, hn⟩ := h
  exact hn.grown (hspaced.sublist hp.sublist)

theorem Sits.begins (h : n.Sits ts) : n.span.Begins ts :=
  h.inside.begins

end Phrase

namespace PiecesSit

theorem nil : PiecesSit [] [] :=
  ⟨.nil, fun _ => nofun⟩

theorem token {accepts : Token → Prop} {t : Token} (ht : accepts t) (h : PiecesSit ps ts) :
    PiecesSit (.token accepts :: ps) (t :: ts) :=
  ⟨.token ht h.stand, fun hspaced => h.grown (hspaced.sublist (List.sublist_cons_self ..))⟩

theorem append (h : PiecesSit ps xs) (h' : PiecesSit qs ys) : PiecesSit (ps ++ qs) (xs ++ ys) := by
  refine ⟨h.stand.append h'.stand, fun hspaced m hm => ?_⟩
  rw [List.flatMap_append, List.mem_append] at hm
  exact hm.elim (h.grown (hspaced.sublist (List.sublist_append_left ..)) m)
    (h'.grown (hspaced.sublist (List.sublist_append_right ..)) m)

theorem standing (hn : n.StandsIn us) (hgrown : Token.Spaced us → ∀ m ∈ n.nodes, m.Grown)
    (h : PiecesSit ps ts) : PiecesSit (.operand n :: ps) (us ++ ts) := by
  have hpiece : PiecesSit [.operand n] (us ++ []) :=
    ⟨.operand hn .nil, by simpa [Piece.nodes] using hgrown⟩
  simpa using hpiece.append h

theorem operand (hn : n.SitsIn us) (h : PiecesSit ps ts) :
    PiecesSit (.operand n :: ps) (us ++ ts) :=
  h.standing hn.standsIn hn.grown

theorem phrase (hn : n.Sits us) (h : PiecesSit ps ts) :
    PiecesSit (.phrase n :: ps) (us ++ ts) := by
  have hpiece : PiecesSit [.phrase n] (us ++ []) :=
    ⟨.phrase hn.stands .nil, by simpa [Piece.nodes] using hn.grown⟩
  simpa using hpiece.append h

end PiecesSit

namespace Piece

theorem finishes_token {accepts : Token → Prop} {t : Token} (ht : accepts t)
    (hkind : t.kind ≠ .symbol .leftParen) : (Piece.token accepts).Finishes t.span [t] :=
  ⟨closes_token ht hkind, Span.ends_token, fun _ => nofun⟩

theorem finishes_operand (h : n.SitsIn ts) : (Piece.operand n).Finishes n.span ts :=
  ⟨closes_operand h.standsIn, h.begins.ends, h.grown⟩

theorem finishes_phrase (h : n.Sits ts) : (Piece.phrase n).Finishes n.span ts :=
  ⟨closes_phrase h.stands, h.ends, h.grown⟩

end Piece

namespace Phrase

/-- All nodes in a node are grown if it is itself and so are those in its pieces. -/
theorem IsWritten.grown_iff (hn : n.IsWritten ps) :
    (∀ m ∈ n.nodes, m.Grown) ↔ n.Grown ∧ ∀ m ∈ ps.flatMap Piece.nodes, m.Grown := by
  rw [Phrase.nodes, List.forall_mem_cons]
  exact and_congr_right fun _ => forall_congr' fun m => by rw [hn.nodes.mem_iff]

/-- A node whose span goes from the start of its first to the end of its last piece. -/
theorem sits_of_pieces (ps : List Piece) (hn : n.IsWritten (ps ++ [p]))
    (hps : PiecesSit ps (fs ++ mid)) (hs : s.Begins fs) (hp : p.Finishes t ls)
    (hspan : n.span = s.merge t) (hfirst : ∀ m ∈ n.first?, m.tier = n.tier → m.span = s) :
    n.Sits (fs ++ (mid ++ ls)) := by
  have hprecedes : Token.Spaced (fs ++ (mid ++ ls)) → s.Precedes t := fun h => by
    obtain ⟨_, _, hmarks⟩ := hp.closes h.right.right.ordered
    obtain ⟨b, hb, hstart⟩ := hmarks.start
    exact (hs.ends h.left).precedes_last ⟨b, (mem_of_leading? hb).1, hstart⟩ h
  refine ⟨stands_of_pieces ps hn hps.stand hs.opens hp.closes hspan,
    fun h => hspan ▸ (hp.ends h.right.right).merge (hprecedes h),
    fun h => hn.grown_iff.2 ⟨grown_of_len fun m hm htier => ?_, fun m hm => ?_⟩⟩
  · rw [hspan, hfirst m hm htier]
    exact (hprecedes h).len_lt (hp.ends h.right.right).pos
  · have hlast := hp.grown h.right.right m
    rw [← List.append_assoc] at h
    rw [List.flatMap_append, List.mem_append, List.flatMap_singleton] at hm
    exact hm.elim (hps.grown h.left m) hlast

/-- A node that is one token. -/
theorem sits_of_token {accepts : Token → Prop} {t : Token} (hn : n.IsWritten [.token accepts])
    (ht : accepts t) (hspan : n.span = t.span) : n.Sits [t] := by
  obtain ⟨hfirst, hkind⟩ := hn.heads
  refine ⟨stands_of_token hn ht (hkind t ht) hspan, fun h => hspan ▸ Span.ends_token h,
    fun _ => hn.grown_iff.2 ⟨?_, nofun⟩⟩
  rw [Grown, hfirst]
  exact nofun

/-- A node that is another one. -/
theorem sits_of_phrase (hn : n.IsWritten [.phrase m]) (hm : m.Sits ts) (hspan : n.span = m.span)
    (hunder : m.Under n) : n.Sits ts := by
  refine ⟨stands_of_phrase hn hm.stands hspan, fun h => hspan ▸ hm.ends h,
    fun h => hn.grown_iff.2 ⟨?_, by simpa [Piece.nodes] using hm.grown h⟩⟩
  rw [Grown, show n.first? = some m from hn.heads]
  rintro _ ⟨⟩
  exact hunder

/-- A node with the span of its first piece, which a token follows. -/
theorem sits_of_operand {accepts : Token → Prop} {u : Token}
    (hn : n.IsWritten [.operand m, .token accepts]) (hm : m.SitsIn ts) (hu : accepts u)
    (hspan : n.span = m.span) (hunder : m.Under n) : n.Sits (ts ++ [u]) := by
  refine ⟨stands_of_operand hn hm.standsIn hu hspan,
    fun h => hspan ▸ (hm.begins.ends h.left).mono (List.subset_append_left ..),
    fun h => hn.grown_iff.2 ⟨?_, by simpa [Piece.nodes] using hm.grown h.left⟩⟩
  rw [Grown, show n.first? = some m from hn.heads]
  rintro _ ⟨⟩
  exact hunder

/-- A new array, whose type is written around its size. -/
theorem sits_of_creation {tag : Tag} {element : TypeExpr} {size : Expr} {new a l r last : Token}
    {ws init : List Token} (hnew : new.kind = .keyword .newExpr)
    (htype : (Phrase.type element).Sits (a :: us)) (hl : l.kind = .symbol .leftBracket)
    (hsize : (Phrase.expr size).SitsIn ws) (hr : r.kind = .symbol .rightBracket)
    (hlast : r :: us = init ++ [last]) (hkind : last.kind ≠ .symbol .leftParen)
    (hspan : tag.span = new.span.merge last.span) :
    (Phrase.expr (.newArray tag element size)).Sits (new :: a :: l :: (ws ++ r :: us)) := by
  have hsplit : new :: a :: l :: (ws ++ r :: us) =
      [new] ++ ((a :: l :: (ws ++ init)) ++ [last]) := by
    simp [hlast]
  have hn : (Phrase.expr (.newArray tag element size)).IsWritten
      [.word .newExpr, .creation element size] := rfl
  refine ⟨stands_of_creation hnew htype.stands hl hsize.standsIn hr hlast hkind hspan,
    fun h => ?_, fun h => hn.grown_iff.2 ⟨nofun, fun m hm => ?_⟩⟩
  · rw [hsplit] at h ⊢
    have hend := Span.ends_token h.right.right
    change tag.span.Ends _
    exact hspan ▸ hend.merge ((Span.ends_token h.left).precedes_last
      ⟨last, List.mem_singleton_self _, rfl, rfl⟩ h)
  · have htypes : Token.Spaced (a :: us) := h.sublist <| .cons _ <| .cons_cons _ <|
      .cons _ <| (List.sublist_cons_self r us).trans (List.sublist_append_right ..)
    have hsizes : Token.Spaced ws := h.sublist <| .cons _ <| .cons _ <| .cons _ <|
      List.sublist_append_left ..
    have hm : m ∈ Phrase.nodes (.type element) ++ Phrase.nodes (.expr size) := by
      simpa [Piece.nodes, Piece.word] using hm
    exact (List.mem_append.1 hm).elim (htype.grown htypes m) (hsize.grown hsizes m)

end Phrase

end growing

end ObjectLang
