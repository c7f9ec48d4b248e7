import Mathlib.Tactic
import ObjectLang.Proofs.Parsing.Identities
import ObjectLang.Proofs.Parsing.Placing

/-!
# Nodes are told apart by their spans

No two nodes of one sort have the same span in what is read, also if they go over several lines.
Nodes that start at different tokens start at different places. Of the nodes that start at one token
each is made of the next one, which is shorter or of another sort.
-/
namespace ObjectLang

open Parsing

/-- What tells a node from others: its tier, its length and where it starts. -/
def Phrase.mark (n : Phrase) : Nat × Nat × Nat × Nat :=
  (n.tier, n.extent, n.span.line, n.span.col)

/-- Nodes that start at some tokens and are told apart by their marks. -/
structure Spread (ns : List Phrase) (ts : List Token) : Prop where
  apart : (ns.map Phrase.mark).Nodup
  starts : ∀ n ∈ ns, ∃ t ∈ ts, n.span.SameStart t.span

/-- All nodes in a node that start where it starts can be the first one in it. -/
def Phrase.Leads (n : Phrase) : Prop :=
  ∀ m ∈ n.inside, m.span.SameStart n.span → m.Under n

variable {n m : Phrase} {ns ms : List Phrase} {ps : List Piece} {ts us ws : List Token}
  {spans : List Span}

namespace Spread

theorem nil : Spread [] ts :=
  ⟨.nil, nofun⟩

theorem mono (h : Spread ns ts) (hts : ts ⊆ us) : Spread ns us :=
  ⟨h.apart, fun n hn => (h.starts n hn).imp fun _ h => ⟨hts h.1, h.2⟩⟩

theorem perm (h : Spread ns ts) (hns : ns.Perm ms) : Spread ms ts :=
  ⟨(hns.map Phrase.mark).nodup_iff.1 h.apart, fun n hn => h.starts n (hns.mem_iff.2 hn)⟩

/-- What starts at some tokens starts at none of the tokens behind them. -/
theorem not_sameStart (h : Spread ns us) (hapart : Token.StartApart (ts ++ us)) {t : Token}
    (ht : t ∈ ts) {s : Span} (hs : s.SameStart t.span) : ∀ n ∈ ns, ¬ n.span.SameStart s := by
  intro n hn hstart
  obtain ⟨u, hu, hnu⟩ := h.starts n hn
  exact (List.pairwise_append.1 hapart).2.2 t ht u hu (hs.symm.trans (hstart.symm.trans hnu))

theorem append (h : Spread ns ts) (h' : Spread ms us) (hapart : Token.StartApart (ts ++ us)) :
    Spread (ns ++ ms) (ts ++ us) := by
  refine ⟨?_, fun n hn => ?_⟩
  · rw [List.map_append]
    refine h.apart.append h'.apart fun mark hmark hmark' => ?_
    obtain ⟨n, hn, rfl⟩ := List.mem_map.1 hmark
    obtain ⟨m, hm, heq⟩ := List.mem_map.1 hmark'
    obtain ⟨t, ht, hnt⟩ := h.starts n hn
    simp only [Phrase.mark, Prod.mk.injEq] at heq
    exact h'.not_sameStart hapart ht hnt m hm ⟨heq.2.2.1, heq.2.2.2⟩
  · rcases List.mem_append.1 hn with hn | hn
    · exact (h.mono (List.subset_append_left ..)).starts n hn
    · exact (h'.mono (List.subset_append_right ..)).starts n hn

/-- A node with the nodes inside of it, if those that start where it starts can be first in it. -/
theorem node (h : Spread n.inside ts) (hleads : n.Leads)
    (hstart : ∃ t ∈ ts, n.span.SameStart t.span) : Spread n.nodes ts := by
  refine ⟨List.nodup_cons.2 ⟨fun hmem => ?_, h.apart⟩, List.forall_mem_cons.2 ⟨hstart, h.starts⟩⟩
  obtain ⟨m, hm, heq⟩ := List.mem_map.1 hmem
  simp only [Phrase.mark, Prod.mk.injEq] at heq
  have hunder := hleads m hm ⟨heq.2.2.1, heq.2.2.2⟩
  unfold Phrase.Under at hunder
  omega

/-- What is written around something else. -/
theorem around {ls : List Phrase} {t l r : Token}
    (h : Token.StartApart (t :: us) → Spread ns (t :: us))
    (h' : Token.StartApart ws → Spread ms ws) (h'' : Token.StartApart ts → Spread ls ts)
    (hapart : Token.StartApart (t :: l :: (ws ++ r :: (us ++ ts)))) :
    Spread (ns ++ ms ++ ls) (t :: l :: (ws ++ r :: (us ++ ts))) := by
  have hsub : (t :: (ws ++ (us ++ ts))).Sublist (t :: l :: (ws ++ r :: (us ++ ts))) :=
    .cons_cons _ <| .cons _ <| (List.Sublist.refl ws).append (List.sublist_cons_self ..)
  have hperm : (t :: (ws ++ (us ++ ts))).Perm (((t :: us) ++ ws) ++ ts) := by
    rw [← List.append_assoc]
    exact (List.perm_append_comm.append_right ts).cons t
  have hall := (hapart.sublist hsub).perm hperm
  have hspread := ((h hall.left.left).append (h' hall.left.right) hall.left).append
    (h'' hall.right) hall
  exact hspread.mono fun x hx => hsub.subset (hperm.mem_iff.2 hx)

end Spread

/-- Only the node that stands first in a node and what leads there start where the node starts. -/
theorem Phrase.leads_of_first (hm : m.Leads) (hunder : m.Under n)
    (hinside : n.inside.Perm (m.nodes ++ ns)) (hstart : n.span.SameStart m.span)
    (hlater : ∀ l ∈ ns, ¬ l.span.SameStart n.span) : n.Leads := by
  intro l hl hln
  rcases List.mem_append.1 (hinside.mem_iff.1 hl) with hl | hl
  · rcases List.mem_cons.1 hl with rfl | hl
    · exact hunder
    · exact (hm l hl (hln.trans hstart)).trans hunder
  · exact absurd hln (hlater l hl)

theorem leading?_inParens (h : InParens ts us) {a : Token} (ha : leading? ts = some a) :
    leading? us = some a := by
  induction h with
  | none => exact ha
  | some hl _ _ ih =>
      rw [leading?, List.find?_cons_of_neg (by simp [hl])]
      exact leading?_append ih

/-- A node that starts with another one, perhaps with parentheses around it. -/
theorem Phrase.spread_first (hn : n.IsWritten (.operand m :: ps) ∨ n.IsWritten (.phrase m :: ps))
    (hm : Spread m.nodes us ∧ m.Leads) (hfirst : ∃ parts, m.span.Marks us parts)
    (hp : InParens us ws) (hrest : Spread (ps.flatMap Piece.nodes) ts)
    (hapart : Token.StartApart (ws ++ ts)) (hmarks : ∃ parts, n.span.Marks (ws ++ ts) parts)
    (hgrown : n.Grown) : Spread n.nodes (ws ++ ts) ∧ n.Leads := by
  have hheads : n.first? = some m := hn.elim (·.heads) (·.heads)
  have hinside : n.inside.Perm (m.nodes ++ ps.flatMap Piece.nodes) :=
    hn.elim (·.nodes) (·.nodes)
  obtain ⟨_, hmarks⟩ := hmarks
  obtain ⟨_, hfirst⟩ := hfirst
  obtain ⟨a, ha, hma⟩ := hfirst.start
  obtain ⟨b, hb, hnb⟩ := hmarks.start
  obtain rfl : a = b := Option.some.inj ((leading?_append (leading?_inParens hp ha)).symm.trans hb)
  have hws : a ∈ ws := hp.subset (mem_of_leading? ha).1
  have hleads : n.Leads := leads_of_first hm.2 (hgrown m hheads) hinside
    (Span.SameStart.trans hnb ⟨hma.1.symm, hma.2.symm⟩) (hrest.not_sameStart hapart hws hnb)
  have hspread := (hm.1.mono hp.subset).append hrest hapart
  exact ⟨(hspread.perm hinside.symm).node hleads ⟨a, List.mem_append_left _ hws, hnb⟩, hleads⟩

/-- A node that starts with a token. -/
theorem Phrase.spread_token {accepts : Token → Prop} {t : Token}
    (hn : n.IsWritten (.token accepts :: ps)) (ht : accepts t)
    (hrest : Spread (ps.flatMap Piece.nodes) ts) (hapart : Token.StartApart (t :: ts))
    (hmarks : n.span.Marks (t :: ts) spans) : Spread n.nodes (t :: ts) ∧ n.Leads := by
  obtain ⟨a, ha, hna⟩ := hmarks.start
  have hfirst : leading? (t :: ts) = some t :=
    List.find?_cons_of_pos (by simpa using hn.heads.2 t ht)
  obtain rfl : t = a := Option.some.inj (hfirst.symm.trans ha)
  have hahead : Token.StartApart ([t] ++ ts) := hapart
  have hleads : n.Leads := fun m hm hmn => absurd hmn <|
    hrest.not_sameStart hahead (List.mem_singleton_self t) hna m (hn.nodes.mem_iff.1 hm)
  have hspread := hrest.mono (List.subset_cons_self t ts)
  exact ⟨(hspread.perm hn.nodes.symm).node hleads ⟨t, List.mem_cons_self .., hna⟩, hleads⟩

mutual

/-- The nodes in a node that is placed over tokens that keep apart. -/
theorem Phrase.Placed.spread : ∀ {n : Phrase} {ts : List Token} {spans : List Span},
    n.Placed ts spans → Token.StartApart ts → (∀ m ∈ n.nodes, m.Grown) →
      Spread n.nodes ts ∧ n.Leads
  | _, _, _, .intro _ .nil hmarks, _, _ => by
      obtain ⟨_, hnone, _⟩ := hmarks.start
      cases hnone
  | _, _, _, .intro hn (.token ht hps) hmarks, hapart, hgrown => by
      obtain ⟨_, hgrown⟩ := hn.grown_iff.1 hgrown
      exact Phrase.spread_token hn ht
        (hps.spread (hapart.sublist (List.sublist_cons_self ..)) hgrown) hapart hmarks
  | _, _, _, .intro hn (.phrase hm hps) hmarks, hapart, hgrown => by
      obtain ⟨hfirst, hgrown⟩ := hn.grown_iff.1 hgrown
      obtain ⟨hinner, hrest⟩ := List.forall_mem_append.1 hgrown
      exact Phrase.spread_first (.inr hn) (hm.spread hapart.left hinner) ⟨_, hm.marks⟩ .none
        (hps.spread hapart.right hrest) hapart ⟨_, hmarks⟩ hfirst
  | _, _, _, .intro hn (.operand hm hp hps) hmarks, hapart, hgrown => by
      obtain ⟨hfirst, hgrown⟩ := hn.grown_iff.1 hgrown
      obtain ⟨hinner, hrest⟩ := List.forall_mem_append.1 hgrown
      exact Phrase.spread_first (.inl hn) (hm.spread (hapart.left.sublist hp.sublist) hinner)
        ⟨_, hm.marks⟩ hp (hps.spread hapart.right hrest) hapart ⟨_, hmarks⟩ hfirst
  | _, _, _, .intro hn (.creation ..) _, _, _ => hn.heads.elim

theorem PiecesPlaced.spread : ∀ {ps : List Piece} {ts : List Token} {spans : List Span},
    PiecesPlaced ps ts spans → Token.StartApart ts → (∀ m ∈ ps.flatMap Piece.nodes, m.Grown) →
      Spread (ps.flatMap Piece.nodes) ts
  | _, _, _, .nil, _, _ => .nil
  | _, _, _, .token _ hps, hapart, hgrown =>
      (hps.spread (hapart.sublist (List.sublist_cons_self ..)) hgrown).mono
        (List.subset_cons_self ..)
  | _, _, _, .phrase hm hps, hapart, hgrown => by
      obtain ⟨hinner, hrest⟩ := List.forall_mem_append.1 hgrown
      exact (hm.spread hapart.left hinner).1.append (hps.spread hapart.right hrest) hapart
  | _, _, _, .operand hm hp hps, hapart, hgrown => by
      obtain ⟨hinner, hrest⟩ := List.forall_mem_append.1 hgrown
      exact ((hm.spread (hapart.left.sublist hp.sublist) hinner).1.mono hp.subset).append
        (hps.spread hapart.right hrest) hapart
  | _, _, _, .creation htype _ hsize hp _ hps, hapart, hgrown => by
      obtain ⟨hinner, hrest⟩ := List.forall_mem_append.1 hgrown
      obtain ⟨htypes, hsizes⟩ := List.forall_mem_append.1 hinner
      exact Spread.around (fun h => (htype.spread h htypes).1)
        (fun h => ((hsize.spread (h.sublist hp.sublist) hsizes).1.mono hp.subset))
        (fun h => hps.spread h hrest) hapart

end

namespace Program

/-- All nodes of a program. -/
def nodes (p : Program) : List Phrase :=
  p.classes.flatMap (fun c => Phrase.nodes (.cls c))
    ++ p.functions.flatMap fun f => Phrase.nodes (.function f)

theorem nodes_declarations (decls : List (ClassDecl ⊕ FunctionDecl)) :
    ((decls.map fun d => Piece.phrase (d.elim .cls .function)).flatMap Piece.nodes).Perm
      ((decls.filterMap Sum.getLeft?).flatMap (fun c => Phrase.nodes (.cls c))
        ++ (decls.filterMap Sum.getRight?).flatMap fun f => Phrase.nodes (.function f)) := by
  induction decls with
  | nil => exact .rfl
  | cons d decls ih =>
      cases d with
      | inl c =>
          have hmore := ih.append_left (Phrase.nodes (.cls c))
          rwa [← List.append_assoc] at hmore
      | inr f =>
          exact (ih.append_left (Phrase.nodes (.function f))).trans (List.perm_append_comm_assoc ..)

/-- The nodes of a program that was read are told apart by their marks. -/
theorem nodup_marks {source : String} {p : Program} (h : ofText source = .ok p) :
    (p.nodes.map Phrase.mark).Nodup := by
  obtain ⟨_, r, hr, rfl⟩ := ofText_eq_ok.1 h
  obtain ⟨decls, hclasses, hfunctions, hsits⟩ := sits_declarations hr
  have hspaced := Token.spaced_scan source
  obtain ⟨_, hplaced⟩ := hsits.stand hspaced.ordered
  have hspread := hplaced.spread hspaced.startApart (hsits.grown hspaced)
  rw [nodes, hclasses, hfunctions]
  exact (hspread.perm (nodes_declarations decls)).apart

end Program

end ObjectLang
