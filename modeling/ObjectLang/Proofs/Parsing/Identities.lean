import Mathlib.Data.List.Nodup
import Mathlib.Tactic
import ObjectLang.Parsing.Programs

/-!
# Identities are given out once

All identities of the nodes of a tree, and the fact that a reader gives each of them out once: those
of what was read lie between the next identity before and the next identity behind it. Notes are
kept by identity, so this is what makes a note of one node never one of another.
-/
namespace ObjectLang

def TypeExpr.ids : TypeExpr → List Nat
  | .int tag => [tag.id]
  | .bool tag => [tag.id]
  | .named tag _ => [tag.id]
  | .array tag component => tag.id :: component.ids

mutual

/-- The identities of an expression and of all that it is made of. -/
def Expr.ids : Expr → List Nat
  | .unary tag _ operand => tag.id :: operand.ids
  | .binary tag _ left right => tag.id :: (left.ids ++ right.ids)
  | .number tag _ => [tag.id]
  | .bool tag _ => [tag.id]
  | .null tag => [tag.id]
  | .this tag => [tag.id]
  | .read tag location => tag.id :: location.ids
  | .arrayLength tag array => tag.id :: array.ids
  | .newObject tag _ => [tag.id]
  | .newArray tag element size => tag.id :: (element.ids ++ size.ids)
  | .call tag _ args => tag.id :: idsOfArguments args
  | .methodCall tag receiver _ args => tag.id :: (receiver.ids ++ idsOfArguments args)
termination_by structural e => e

def Location.ids : Location → List Nat
  | .var tag _ => [tag.id]
  | .field tag receiver _ => tag.id :: receiver.ids
  | .index tag array index => tag.id :: (array.ids ++ index.ids)
termination_by structural l => l

def idsOfArguments : List Expr → List Nat
  | [] => []
  | e :: es => e.ids ++ idsOfArguments es
termination_by structural es => es

end

def VarDecl.ids (d : VarDecl) : List Nat :=
  d.id :: d.type.ids

mutual

/-- The identities of all nodes in a statement. -/
def Stmt.ids : Stmt → List Nat
  | .declare decl => decl.ids
  | .eval value => value.ids
  | .assign _ target value => target.ids ++ value.ids
  | .branch _ condition onTrue none => condition.ids ++ onTrue.ids
  | .branch _ condition onTrue (some onFalse) => condition.ids ++ (onTrue.ids ++ onFalse.ids)
  | .loop _ condition body => condition.ids ++ body.ids
  | .return _ value => value.ids
  | .block _ body => idsOfBody body
termination_by structural s => s

def idsOfBody : List Stmt → List Nat
  | [] => []
  | s :: rest => s.ids ++ idsOfBody rest
termination_by structural body => body

end

def FunctionDecl.ids (f : FunctionDecl) : List Nat :=
  f.id :: (f.returnType.ids ++ (f.params.flatMap VarDecl.ids ++ idsOfBody f.body))

def ClassDecl.ids (c : ClassDecl) : List Nat :=
  c.id :: (c.fields.flatMap VarDecl.ids ++ c.methods.flatMap FunctionDecl.ids)

/-- The identities of all nodes in a program. -/
def Program.ids (p : Program) : List Nat :=
  p.classes.flatMap ClassDecl.ids ++ p.functions.flatMap FunctionDecl.ids

/-- Identities that differ from each other and lie in a range. -/
structure Numbered (lo hi : Nat) (ids : List Nat) : Prop where
  le : lo ≤ hi
  nodup : ids.Nodup
  mem : ∀ i ∈ ids, lo ≤ i ∧ i < hi

namespace Numbered

variable {lo mid hi : Nat} {ids ids' : List Nat}

theorem nil (n : Nat) : Numbered n n [] :=
  ⟨le_rfl, List.nodup_nil, by simp⟩

theorem append (h : Numbered lo mid ids) (h' : Numbered mid hi ids') :
    Numbered lo hi (ids ++ ids') := by
  refine ⟨h.le.trans h'.le, ?_, ?_⟩
  · refine List.nodup_append.2 ⟨h.nodup, h'.nodup, ?_⟩
    intro i hi j hj hij
    have := (h.mem i hi).2
    have := (h'.mem j hj).1
    omega
  · intro i hi
    have := h.le
    have := h'.le
    rcases List.mem_append.1 hi with hi | hi
    · have := h.mem i hi
      omega
    · have := h'.mem i hi
      omega

theorem perm (h : Numbered lo hi ids) (p : ids.Perm ids') : Numbered lo hi ids' :=
  ⟨h.le, p.nodup h.nodup, fun i hi => h.mem i (p.mem_iff.2 hi)⟩

theorem sublist (h : Numbered lo hi ids) (p : ids'.Sublist ids) : Numbered lo hi ids' :=
  ⟨h.le, h.nodup.sublist p, fun i hi => h.mem i (p.subset hi)⟩

theorem single (n : Nat) : Numbered n (n + 1) [n] :=
  ⟨Nat.le_succ n, List.nodup_singleton n, by simp⟩

/-- A node that gets its identity behind its parts. -/
theorem node (h : Numbered lo hi ids) : Numbered lo (hi + 1) (hi :: ids) :=
  (h.append (single hi)).perm List.perm_append_comm

/-- A node that gets its identity before its parts. -/
theorem early (h : Numbered (lo + 1) hi ids) : Numbered lo hi (lo :: ids) :=
  (single lo).append h

end Numbered

namespace Parsing

theorem next?_eq_some {α : Type} {s : Stream} {accept : Token → Option α} {r : Parsed s 1 α}
    (h : next? s accept = some r) : r.rest.fresh = s.fresh ∧ ∃ t, accept t = some r.value := by
  unfold next? at h
  split at h
  · simp at h
  · next t _ _ =>
    obtain ⟨a, ha, rfl⟩ := Option.map_eq_some_iff.1 h
    exact ⟨rfl, t, ha⟩

theorem fresh_take? {s : Stream} {kind : Token.Kind} {r : Parsed s 1 Token}
    (h : take? s kind = some r) : r.rest.fresh = s.fresh :=
  (next?_eq_some h).1

theorem fresh_expect {s : Stream} {kind : Token.Kind} {r : Parsed s 1 Token}
    (h : expect s kind = .ok r) : r.rest.fresh = s.fresh := by
  unfold expect at h
  split at h
  · next hr =>
    cases h
    exact fresh_take? hr
  · simp at h

theorem fresh_ident {s : Stream} {r : Parsed s 1 Ident} (h : ident s = .ok r) :
    r.rest.fresh = s.fresh := by
  unfold ident at h
  split at h
  · next hr =>
    cases h
    exact (next?_eq_some hr).1
  · simp at h

theorem bind_eq_ok {α β : Type} {x : Reading α} {f : α → Reading β} {b : β} :
    (x >>= f) = .ok b ↔ ∃ a, x = .ok a ∧ f a = .ok b := by
  cases x <;> simp [bind, Except.bind]

theorem numbers_baseType {s : Stream} {r : Parsed s 1 TypeExpr} (h : baseType s = .ok r) :
    Numbered s.fresh r.rest.fresh r.value.ids := by
  unfold baseType at h
  simp only at h
  split at h
  · next type rest used hr =>
    cases h
    obtain ⟨hf, t, ht⟩ := next?_eq_some hr
    simp only at hf ht
    rw [show rest.bump.fresh = s.fresh + 1 by rw [← hf]; rfl]
    split at ht <;> cases ht <;> exact .single _
  · simp at h

/-- The brackets of an array type add identities and keep those of the component. -/
theorem numbers_arraysOf (component : TypeExpr) (stop : Span) (s : Stream) :
    ∃ ids, (arraysOf component stop s).value.1.ids = ids ++ component.ids ∧
      Numbered s.fresh (arraysOf component stop s).rest.fresh ids := by
  rw [arraysOf]
  split
  · next close s₁ h₁ hb =>
    have hf : s₁.fresh = s.fresh := by
      unfold brackets? at hb
      split at hb
      · next hopen =>
        split at hb
        · next hclose =>
          cases hb
          exact (fresh_take? hclose).trans (fresh_take? hopen)
        · simp at hb
      · simp at hb
    obtain ⟨ids, he, hn⟩ := numbers_arraysOf
      (.array (s₁.tag (component.span.merge close.span)) component) close.span s₁.bump
    refine ⟨ids ++ [s₁.fresh], ?_, ?_⟩
    · rw [List.append_assoc]
      exact he
    rw [← hf]
    exact ((Numbered.single s₁.fresh).append hn).perm List.perm_append_comm
  · exact ⟨[], rfl, .nil _⟩
termination_by s.size
decreasing_by simp only [Stream.size_bump]; omega

theorem numbers_typeExpr {s : Stream} {r : Parsed s 1 TypeExpr} (h : typeExpr s = .ok r) :
    Numbered s.fresh r.rest.fresh r.value.ids := by
  simp only [typeExpr, Parsed.andThen, bind_eq_ok] at h
  obtain ⟨base, hb, found, ⟨more, hm, hf⟩, hr⟩ := h
  cases hm
  cases hf
  cases hr
  obtain ⟨ids, he, hn⟩ := numbers_arraysOf base.value base.value.span base.rest
  simp only [Parsed.map, Parsed.join, he]
  exact ((numbers_baseType hb).append hn).perm List.perm_append_comm

theorem numbers_literal? {limit : Nat} {s : Stream} {number : Reading (Parsed s 1 Expr)}
    {r : Parsed s 1 Expr} (h : literal? limit s = some number) (hr : number = .ok r) :
    Numbered s.fresh r.rest.fresh r.value.ids := by
  obtain ⟨⟨t, rest, used⟩, ht, rfl⟩ := Option.map_eq_some_iff.1 h
  have hf : rest.fresh = s.fresh := fresh_take? ht
  simp only at hr
  split at hr
  · cases hr
    rw [← hf]
    exact .single _
  · simp at hr

theorem numbers_constantOf? {s : Stream} {t : Token} {e : Expr} (h : constantOf? s t = some e) :
    e.ids = [s.fresh] := by
  unfold constantOf? at h
  split at h <;> cases h <;> rfl

mutual

theorem numbers_expression {level : Nat} {s : Stream} {r : Parsed s 1 Expr}
    (h : expression level s = .ok r) : Numbered s.fresh r.rest.fresh r.value.ids := by
  rw [expression] at h
  obtain ⟨⟨left, s₁, h₁⟩, hl, h⟩ := bind_eq_ok.1 h
  obtain ⟨⟨e, s₂, h₂⟩, ho, h⟩ := bind_eq_ok.1 h
  cases h
  exact numbers_operations (numbers_operand hl) ho
termination_by (s.size, 3)

theorem numbers_operations {lo level : Nat} {left : Expr} {s : Stream} {r : Parsed s 0 Expr}
    (hleft : Numbered lo s.fresh left.ids) (h : operations level left s = .ok r) :
    Numbered lo r.rest.fresh r.value.ids := by
  rw [operations] at h
  split at h
  · next op s₁ h₁ hn =>
    have hf : s₁.fresh = s.fresh := (next?_eq_some hn).1
    split at h
    · cases h
      exact hleft
    · obtain ⟨⟨right, s₂, h₂⟩, hr, h⟩ := bind_eq_ok.1 h
      obtain ⟨⟨e, s₃, h₃⟩, ho, h⟩ := bind_eq_ok.1 h
      cases h
      refine numbers_operations (s := s₂.bump) ?_ ho
      have hright := numbers_expression hr
      rw [hf] at hright
      exact (hleft.append hright).node
  · cases h
    exact hleft
termination_by (s.size, 0)

theorem numbers_operand {s : Stream} {r : Parsed s 1 Expr} (h : operand s = .ok r) :
    Numbered s.fresh r.rest.fresh r.value.ids := by
  rw [operand] at h
  split at h
  · next op start s₁ h₁ hn =>
    have hf : s₁.fresh = s.fresh := (next?_eq_some hn).1
    simp only at h
    split at h
    · next number hlit =>
      obtain ⟨⟨e, s₂, h₂⟩, hnum, h⟩ := bind_eq_ok.1 h
      obtain ⟨⟨e', s₃, h₃⟩, hacc, h⟩ := bind_eq_ok.1 h
      cases h
      refine Numbered.node (numbers_accesses ?_ hacc)
      rw [← hf]
      refine @numbers_literal? maxNegatedLiteral _ _ _ ?_ hnum
      split at hlit
      · exact hlit
      · simp at hlit
    · obtain ⟨⟨e, s₂, h₂⟩, he, h⟩ := bind_eq_ok.1 h
      cases h
      rw [← hf]
      exact (numbers_operand he).node
  · obtain ⟨⟨e, s₁, h₁⟩, hp, h⟩ := bind_eq_ok.1 h
    obtain ⟨⟨e', s₂, h₂⟩, ha, h⟩ := bind_eq_ok.1 h
    cases h
    exact numbers_accesses (numbers_primary hp) ha
termination_by (s.size, 2)

theorem numbers_accesses {lo : Nat} {e : Expr} {s : Stream} {r : Parsed s 0 Expr}
    (he : Numbered lo s.fresh e.ids) (h : accesses e s = .ok r) :
    Numbered lo r.rest.fresh r.value.ids := by
  rw [accesses] at h
  split at h
  · next _ s₁ h₁ hdot =>
    have hf₁ : s₁.fresh = s.fresh := fresh_take? hdot
    rw [← hf₁] at he
    split at h
    · next _ s₂ h₂ hlen =>
      have hf₂ : s₂.fresh = s₁.fresh := fresh_take? hlen
      rw [← hf₂] at he
      obtain ⟨⟨e', s₃, h₃⟩, ha, h⟩ := bind_eq_ok.1 h
      cases h
      exact numbers_accesses (s := s₂.bump) he.node ha
    · obtain ⟨⟨name, s₂, h₂⟩, hname, h⟩ := bind_eq_ok.1 h
      have hf₂ : s₂.fresh = s₁.fresh := fresh_ident hname
      rw [← hf₂] at he
      simp only at h
      split at h
      · obtain ⟨⟨args, s₃, h₃⟩, hargs, h⟩ := bind_eq_ok.1 h
        obtain ⟨⟨e', s₄, h₄⟩, ha, h⟩ := bind_eq_ok.1 h
        cases h
        exact numbers_accesses (s := s₃.bump) (he.append (numbers_arguments hargs)).node ha
      · obtain ⟨⟨e', s₃, h₃⟩, ha, h⟩ := bind_eq_ok.1 h
        cases h
        exact numbers_accesses (s := s₂.bump.bump) he.node.node ha
  · split at h
    · next _ s₁ h₁ hopen =>
      have hf₁ : s₁.fresh = s.fresh := fresh_take? hopen
      rw [← hf₁] at he
      obtain ⟨⟨index, s₂, h₂⟩, hi, h⟩ := bind_eq_ok.1 h
      obtain ⟨⟨close, s₃, h₃⟩, hclose, h⟩ := bind_eq_ok.1 h
      obtain ⟨⟨e', s₄, h₄⟩, ha, h⟩ := bind_eq_ok.1 h
      cases h
      have hf₃ : s₃.fresh = s₂.fresh := fresh_expect hclose
      have hindex := he.append (numbers_expression hi)
      rw [← hf₃] at hindex
      exact numbers_accesses (s := s₃.bump.bump) hindex.node.node ha
    · cases h
      exact he
termination_by (s.size, 0)

theorem numbers_primary {s : Stream} {r : Parsed s 1 Expr} (h : primary s = .ok r) :
    Numbered s.fresh r.rest.fresh r.value.ids := by
  rw [primary] at h
  split at h
  · next hlit => exact numbers_literal? hlit h
  · split at h
    · next e s₁ h₁ hn =>
      cases h
      obtain ⟨hf, t, ht⟩ := next?_eq_some hn
      rw [numbers_constantOf? ht, ← hf]
      exact .single _
    · split at h
      · next _ s₁ h₁ hopen =>
        obtain ⟨⟨e, s₂, h₂⟩, he, h⟩ := bind_eq_ok.1 h
        obtain ⟨⟨close, s₃, h₃⟩, hclose, h⟩ := bind_eq_ok.1 h
        cases h
        have hf₁ : s₁.fresh = s.fresh := fresh_take? hopen
        have hf₃ : s₃.fresh = s₂.fresh := fresh_expect hclose
        simpa only [hf₁, hf₃] using numbers_expression he
      · split at h
        · next start s₁ h₁ hnew =>
          obtain ⟨⟨e, s₂, h₂⟩, he, h⟩ := bind_eq_ok.1 h
          cases h
          have hf₁ : s₁.fresh = s.fresh := fresh_take? hnew
          simpa only [hf₁] using numbers_creation he
        · split at h
          · next name s₁ h₁ hn =>
            have hf₁ : s₁.fresh = s.fresh := (next?_eq_some hn).1
            split at h
            · obtain ⟨⟨args, s₂, h₂⟩, hargs, h⟩ := bind_eq_ok.1 h
              cases h
              rw [← hf₁]
              exact (numbers_arguments hargs).node
            · cases h
              rw [← hf₁]
              exact (Numbered.single s₁.fresh).node
          · simp at h
termination_by (s.size, 1)

theorem numbers_creation {start : Span} {s : Stream} {r : Parsed s 1 Expr}
    (h : creation start s = .ok r) : Numbered s.fresh r.rest.fresh r.value.ids := by
  rw [creation] at h
  split at h
  · obtain ⟨⟨name, s₁, h₁⟩, hname, h⟩ := bind_eq_ok.1 h
    obtain ⟨⟨_, s₂, h₂⟩, hopen, h⟩ := bind_eq_ok.1 h
    obtain ⟨⟨close, s₃, h₃⟩, hclose, h⟩ := bind_eq_ok.1 h
    cases h
    have hf₁ : s₁.fresh = s.fresh := fresh_ident hname
    have hf₂ : s₂.fresh = s₁.fresh := fresh_expect hopen
    have hf₃ : s₃.fresh = s₂.fresh := fresh_expect hclose
    rw [← hf₁, ← hf₂, ← hf₃]
    exact .single _
  · obtain ⟨⟨base, s₁, h₁⟩, hbase, h⟩ := bind_eq_ok.1 h
    obtain ⟨⟨_, s₂, h₂⟩, hopen, h⟩ := bind_eq_ok.1 h
    obtain ⟨⟨size, s₃, h₃⟩, hsize, h⟩ := bind_eq_ok.1 h
    obtain ⟨⟨close, s₄, h₄⟩, hclose, h⟩ := bind_eq_ok.1 h
    have hf₂ : s₂.fresh = s₁.fresh := fresh_expect hopen
    have hf₄ : s₄.fresh = s₃.fresh := fresh_expect hclose
    have hb := numbers_baseType hbase
    have hs := numbers_expression hsize
    obtain ⟨ids, he, hn⟩ := numbers_arraysOf base close.span s₄
    simp only at h hb hs hf₂ hf₄
    rw [hf₂] at hs
    rw [hf₄] at hn
    cases h
    refine Numbered.node (((hb.append hs).append hn).perm ?_)
    rw [he]
    calc base.ids ++ size.ids ++ ids
      _ |>.Perm (ids ++ (base.ids ++ size.ids)) := List.perm_append_comm
      _ |>.Perm (ids ++ base.ids ++ size.ids) := by rw [List.append_assoc]
termination_by (s.size, 0)

theorem numbers_arguments {s : Stream} {r : Parsed s 1 (List Expr)} (h : arguments s = .ok r) :
    Numbered s.fresh r.rest.fresh (idsOfArguments r.value) := by
  rw [arguments] at h
  obtain ⟨⟨_, s₁, h₁⟩, hopen, h⟩ := bind_eq_ok.1 h
  have hf₁ : s₁.fresh = s.fresh := fresh_expect hopen
  simp only at h
  split at h
  · next _ s₂ h₂ hclose =>
    cases h
    have hf₂ : s₂.fresh = s₁.fresh := fresh_take? hclose
    rw [← hf₁, ← hf₂]
    exact .nil _
  · obtain ⟨⟨args, s₂, h₂⟩, hargs, h⟩ := bind_eq_ok.1 h
    obtain ⟨⟨_, s₃, h₃⟩, hclose, h⟩ := bind_eq_ok.1 h
    cases h
    have hf₃ : s₃.fresh = s₂.fresh := fresh_expect hclose
    simpa only [hf₁, hf₃] using numbers_expressions hargs
termination_by (s.size, 0)

theorem numbers_expressions {s : Stream} {r : Parsed s 1 (List Expr)}
    (h : expressions s = .ok r) : Numbered s.fresh r.rest.fresh (idsOfArguments r.value) := by
  rw [expressions] at h
  obtain ⟨⟨e, s₁, h₁⟩, he, h⟩ := bind_eq_ok.1 h
  have hn := numbers_expression he
  simp only at h
  split at h
  · next _ s₂ h₂ hcomma =>
    obtain ⟨⟨es, s₃, h₃⟩, hes, h⟩ := bind_eq_ok.1 h
    cases h
    have hf₂ : s₂.fresh = s₁.fresh := fresh_take? hcomma
    have hns := numbers_expressions hes
    rw [hf₂] at hns
    exact hn.append hns
  · cases h
    simpa only [idsOfArguments, List.append_nil] using hn
termination_by (s.size, 4)

end

theorem numbers_declaration {s : Stream} {r : Parsed s 1 VarDecl} (h : declaration s = .ok r) :
    Numbered s.fresh r.rest.fresh r.value.ids := by
  simp only [declaration, Parsed.andThen, bind_eq_ok] at h
  obtain ⟨type, ht, name, ⟨n, hn, hname⟩, close, ⟨c, hc, hclose⟩, hr⟩ := h
  cases hname
  cases hclose
  cases hr
  have hf : c.rest.fresh = type.rest.fresh := (fresh_expect hc).trans (fresh_ident hn)
  have hnum := numbers_typeExpr ht
  rw [← hf] at hnum
  exact hnum.node

theorem numbers_condition {s : Stream} {r : Parsed s 1 Expr} (h : condition s = .ok r) :
    Numbered s.fresh r.rest.fresh r.value.ids := by
  simp only [condition, Parsed.andThen, bind_eq_ok] at h
  obtain ⟨start, hs, e, ⟨e', he', he⟩, close, ⟨c, hc, hclose⟩, hr⟩ := h
  cases he
  cases hclose
  cases hr
  have hnum := numbers_expression he'
  have hf : c.rest.fresh = e'.rest.fresh := fresh_expect hc
  rw [fresh_expect hs, ← hf] at hnum
  exact hnum

theorem numbers_evaluation {s : Stream} {r : Parsed s 1 Stmt} (h : evaluation s = .ok r) :
    Numbered s.fresh r.rest.fresh r.value.ids := by
  obtain ⟨e, he, h⟩ := bind_eq_ok.1 h
  have hnum := numbers_expression he
  split at h
  · next sign hsign =>
    split at h
    · next tag target hread =>
      simp only [Parsed.andThen, bind_eq_ok] at h
      obtain ⟨value, ⟨v, hv, hvalue⟩, close, ⟨c, hc, hclose⟩, hr⟩ := h
      cases hvalue
      cases hclose
      cases hr
      have hval := numbers_expression hv
      rw [hread] at hnum
      have htarget : Numbered s.fresh e.rest.fresh target.ids :=
        hnum.sublist (List.sublist_cons_self _ _)
      rw [show (e.join sign).rest.fresh = e.rest.fresh from fresh_take? hsign] at hval
      have hf : c.rest.fresh = v.rest.fresh := fresh_expect hc
      rw [← hf] at hval
      exact htarget.append hval
    · simp at h
  · simp only [Parsed.andThen, bind_eq_ok] at h
    obtain ⟨close, ⟨c, hc, hclose⟩, hr⟩ := h
    cases hclose
    cases hr
    rw [← fresh_expect hc] at hnum
    exact hnum

mutual

theorem numbers_statement {s : Stream} {r : Parsed s 1 Stmt} (h : statement s = .ok r) :
    Numbered s.fresh r.rest.fresh r.value.ids := by
  rw [statement] at h
  split at h
  · next _ s₁ h₁ hstart =>
    have hf₁ : s₁.fresh = s.fresh := fresh_take? hstart
    obtain ⟨⟨test, s₂, h₂⟩, htest, h⟩ := bind_eq_ok.1 h
    obtain ⟨⟨onTrue, s₃, h₃⟩, htrue, h⟩ := bind_eq_ok.1 h
    have htest := numbers_condition htest
    have htrue := numbers_statement htrue
    rw [hf₁] at htest
    simp only at h
    split at h
    · next _ s₄ h₄ helse =>
      obtain ⟨⟨onFalse, s₅, h₅⟩, hfalse, h⟩ := bind_eq_ok.1 h
      cases h
      have hfalse := numbers_statement hfalse
      rw [show s₄.fresh = s₃.fresh from fresh_take? helse] at hfalse
      exact htest.append (htrue.append hfalse)
    · cases h
      exact htest.append htrue
  · split at h
    · next _ s₁ h₁ hstart =>
      obtain ⟨⟨test, s₂, h₂⟩, htest, h⟩ := bind_eq_ok.1 h
      obtain ⟨⟨body, s₃, h₃⟩, hbody, h⟩ := bind_eq_ok.1 h
      cases h
      have htest := numbers_condition htest
      rw [show s₁.fresh = s.fresh from fresh_take? hstart] at htest
      exact htest.append (numbers_statement hbody)
    · split at h
      · next _ s₁ h₁ hstart =>
        obtain ⟨⟨value, s₂, h₂⟩, hvalue, h⟩ := bind_eq_ok.1 h
        obtain ⟨⟨close, s₃, h₃⟩, hclose, h⟩ := bind_eq_ok.1 h
        cases h
        have hvalue := numbers_expression hvalue
        have hf₃ : s₃.fresh = s₂.fresh := fresh_expect hclose
        rw [show s₁.fresh = s.fresh from fresh_take? hstart] at hvalue
        simp only [← hf₃] at hvalue
        exact hvalue
      · split at h
        · obtain ⟨⟨⟨span, body⟩, s₁, h₁⟩, hbody, h⟩ := bind_eq_ok.1 h
          cases h
          exact numbers_block hbody
        · exact numbers_evaluation h
termination_by (s.size, 1)

theorem numbers_block {s : Stream} {r : Parsed s 1 (Span × List Stmt)} (h : block s = .ok r) :
    Numbered s.fresh r.rest.fresh (idsOfBody r.value.2) := by
  rw [block] at h
  obtain ⟨⟨start, s₁, h₁⟩, hopen, h⟩ := bind_eq_ok.1 h
  obtain ⟨⟨body, s₂, h₂⟩, hbody, h⟩ := bind_eq_ok.1 h
  obtain ⟨⟨close, s₃, h₃⟩, hclose, h⟩ := bind_eq_ok.1 h
  cases h
  have hf₃ : s₃.fresh = s₂.fresh := fresh_expect hclose
  have hbody := numbers_blockItems hbody
  rw [show s₁.fresh = s.fresh from fresh_expect hopen] at hbody
  simp only [← hf₃] at hbody
  exact hbody
termination_by (s.size, 0)

theorem numbers_blockItems {s : Stream} {r : Parsed s 0 (List Stmt)}
    (h : blockItems s = .ok r) : Numbered s.fresh r.rest.fresh (idsOfBody r.value) := by
  rw [blockItems] at h
  split at h
  · cases h
    exact .nil _
  · obtain ⟨⟨item, s₁, h₁⟩, hitem, h⟩ := bind_eq_ok.1 h
    obtain ⟨⟨items, s₂, h₂⟩, hitems, h⟩ := bind_eq_ok.1 h
    cases h
    exact (numbers_blockItem hitem).append (numbers_blockItems hitems)
termination_by (s.size, 3)

theorem numbers_blockItem {s : Stream} {r : Parsed s 1 Stmt} (h : blockItem s = .ok r) :
    Numbered s.fresh r.rest.fresh r.value.ids := by
  rw [blockItem] at h
  split at h
  · obtain ⟨⟨decl, s₁, h₁⟩, hdecl, h⟩ := bind_eq_ok.1 h
    cases h
    exact numbers_declaration hdecl
  · exact numbers_statement h
termination_by (s.size, 2)

end

theorem numbers_parameter {s : Stream} {r : Parsed s 1 VarDecl} (h : parameter s = .ok r) :
    Numbered s.fresh r.rest.fresh r.value.ids := by
  simp only [parameter, Parsed.andThen, bind_eq_ok] at h
  obtain ⟨type, ht, name, ⟨n, hn, hname⟩, hr⟩ := h
  cases hname
  cases hr
  have hnum := numbers_typeExpr ht
  rw [← fresh_ident hn] at hnum
  exact hnum.node

theorem numbers_parameters {s : Stream} {r : Parsed s 1 (List VarDecl)}
    (h : parameters s = .ok r) :
    Numbered s.fresh r.rest.fresh (r.value.flatMap VarDecl.ids) := by
  rw [parameters] at h
  obtain ⟨p, hp, h⟩ := bind_eq_ok.1 h
  have hn := numbers_parameter hp
  split at h
  · next comma hcomma =>
    obtain ⟨ps, hps, h⟩ := bind_eq_ok.1 h
    cases h
    have hp := p.used
    have hc := comma.used
    have hns := numbers_parameters hps
    rw [fresh_take? hcomma] at hns
    exact hn.append hns
  · cases h
    simpa only [Parsed.map, List.flatMap_singleton] using hn
termination_by s.size
decreasing_by omega

theorem numbers_parameterList {s : Stream} {r : Parsed s 1 (List VarDecl)}
    (h : parameterList s = .ok r) :
    Numbered s.fresh r.rest.fresh (r.value.flatMap VarDecl.ids) := by
  obtain ⟨start, hstart, h⟩ := bind_eq_ok.1 h
  have hf := fresh_expect hstart
  split at h
  · next close hclose =>
    cases h
    rw [← hf, ← fresh_take? hclose]
    exact .nil _
  · simp only [Parsed.andThen, bind_eq_ok] at h
    obtain ⟨params, ⟨ps, hps, hparams⟩, close, ⟨c, hc, hclose⟩, hr⟩ := h
    cases hparams
    cases hclose
    cases hr
    have hn := numbers_parameters hps
    have hf' : c.rest.fresh = ps.rest.fresh := fresh_expect hc
    rw [hf, ← hf'] at hn
    exact hn

theorem numbers_functionBehind {returnType : TypeExpr} {name : Ident} {lo : Nat} {s : Stream}
    {r : Parsed s 1 FunctionDecl} (hreturn : Numbered lo s.fresh returnType.ids)
    (h : functionBehind returnType name s = .ok r) :
    Numbered lo r.rest.fresh r.value.ids := by
  obtain ⟨⟨params, s₁, h₁⟩, hparams, h⟩ := bind_eq_ok.1 h
  obtain ⟨⟨⟨bodySpan, body⟩, s₂, h₂⟩, hbody, h⟩ := bind_eq_ok.1 h
  cases h
  have hn := hreturn.append ((Numbered.single s.fresh).append
    ((numbers_parameterList hparams).append (numbers_block hbody)))
  refine hn.perm ?_
  simp only [FunctionDecl.ids]
  exact List.perm_middle

def Member.ids : Member → List Nat
  | .field decl => decl.ids
  | .method decl => decl.ids

theorem numbers_member {s : Stream} {r : Parsed s 1 Member} (h : member s = .ok r) :
    Numbered s.fresh r.rest.fresh r.value.ids := by
  simp only [member, Parsed.andThen, bind_eq_ok] at h
  obtain ⟨type, ht, name, ⟨n, hn, hname⟩, h⟩ := h
  cases hname
  have hnum := numbers_typeExpr ht
  rw [← fresh_ident hn] at hnum
  split at h
  · obtain ⟨decl, ⟨d, hd, hdecl⟩, hr⟩ := bind_eq_ok.1 h |>.imp fun _ h => h.imp_left bind_eq_ok.1
    cases hdecl
    cases hr
    exact numbers_functionBehind (s := n.rest) hnum hd
  · obtain ⟨close, ⟨c, hc, hclose⟩, hr⟩ := bind_eq_ok.1 h |>.imp fun _ h => h.imp_left bind_eq_ok.1
    cases hclose
    cases hr
    rw [← show c.rest.fresh = n.rest.fresh from fresh_expect hc] at hnum
    exact hnum.node

theorem numbers_members {s : Stream} {r : Parsed s 0 (List Member)} (h : members s = .ok r) :
    Numbered s.fresh r.rest.fresh (r.value.flatMap Member.ids) := by
  rw [members] at h
  split at h
  · cases h
    exact .nil _
  · obtain ⟨m, hm, h⟩ := bind_eq_ok.1 h
    obtain ⟨ms, hms, h⟩ := bind_eq_ok.1 h
    cases h
    exact (numbers_member hm).append (numbers_members hms)
termination_by s.size
decreasing_by
  have := m.used
  omega

/-- Fields and methods together are the members, in another order. -/
theorem perm_ids_members (ms : List Member) :
    (ms.flatMap Member.ids).Perm ((ms.filterMap Member.field?).flatMap VarDecl.ids ++
      (ms.filterMap Member.method?).flatMap FunctionDecl.ids) := by
  induction ms with
  | nil => exact .nil
  | cons m ms ih =>
      cases m with
      | field decl =>
          simp only [List.flatMap_cons, List.filterMap_cons, Member.field?, Member.method?,
            List.append_assoc]
          exact ih.append_left _
      | method decl =>
          simp only [List.flatMap_cons, List.filterMap_cons, Member.field?, Member.method?]
          exact (ih.append_left _).trans (by
            simp only [← List.append_assoc]
            exact List.perm_append_comm.append_right _)

theorem numbers_classDecl {s : Stream} {r : Parsed s 1 ClassDecl} (h : classDecl s = .ok r) :
    Numbered s.fresh r.rest.fresh r.value.ids := by
  simp only [classDecl, Parsed.andThen, bind_eq_ok] at h
  obtain ⟨start, hstart, name, ⟨n, hn, hname⟩, superclass, ⟨x, hx, hsuper⟩, opened,
    ⟨o, ho, hopen⟩, ms, ⟨m, hm, hms⟩, close, ⟨c, hc, hclose⟩, hr⟩ := h
  cases hname
  cases hsuper
  cases hopen
  cases hms
  cases hclose
  cases hr
  have hx : x.rest.fresh = n.rest.fresh := by
    unfold extending at hx
    split at hx
    · next word hword =>
      simp only [Parsed.andThen, bind_eq_ok] at hx
      obtain ⟨name', ⟨n', hn', hname'⟩, hx⟩ := hx
      cases hname'
      cases hx
      exact (fresh_ident hn').trans (fresh_take? hword)
    · cases hx
      rfl
  have hf : o.rest.fresh = start.rest.fresh + 1 :=
    ((fresh_expect ho).trans hx).trans (fresh_ident hn)
  have hnum := (numbers_members hm).perm (perm_ids_members m.value)
  have hlast : c.rest.fresh = m.rest.fresh := fresh_expect hc
  have hfirst : start.rest.fresh = s.fresh := fresh_expect hstart
  rw [show (Parsed.join _ o).rest.fresh = start.rest.fresh + 1 from hf, ← hlast] at hnum
  rw [← hfirst]
  exact hnum.early

theorem numbers_functionDecl {s : Stream} {r : Parsed s 1 FunctionDecl}
    (h : functionDecl s = .ok r) : Numbered s.fresh r.rest.fresh r.value.ids := by
  simp only [functionDecl, Parsed.andThen, bind_eq_ok] at h
  obtain ⟨type, ht, name, ⟨n, hn, hname⟩, d, hd, hr⟩ := h
  cases hname
  cases hr
  have hnum := numbers_typeExpr ht
  rw [← fresh_ident hn] at hnum
  exact numbers_functionBehind (s := n.rest) hnum hd

theorem numbers_declarations {s : Stream} {r : Parsed s 0 (List ClassDecl × List FunctionDecl)}
    (h : declarations s = .ok r) : Numbered s.fresh r.rest.fresh
      (r.value.1.flatMap ClassDecl.ids ++ r.value.2.flatMap FunctionDecl.ids) := by
  rw [declarations] at h
  split at h
  · cases h
    exact .nil _
  · split at h
    · obtain ⟨c, hc, h⟩ := bind_eq_ok.1 h
      obtain ⟨more, hmore, h⟩ := bind_eq_ok.1 h
      cases h
      have hu := c.used
      have hn := (numbers_classDecl hc).append (numbers_declarations hmore)
      rw [← List.append_assoc] at hn
      exact hn
    · obtain ⟨f, hf, h⟩ := bind_eq_ok.1 h
      obtain ⟨more, hmore, h⟩ := bind_eq_ok.1 h
      cases h
      have hu := f.used
      have hn := (numbers_functionDecl hf).append (numbers_declarations hmore)
      refine hn.perm ?_
      simp only [← List.append_assoc, Parsed.weaken, Parsed.map, Parsed.join, List.flatMap_cons]
      exact List.perm_append_comm.append_right _
termination_by s.size
decreasing_by all_goals omega

end Parsing

/-- A text is read by some reader exactly if its tokens are without errors and the reader reads
them. -/
theorem Parsing.readText_eq_ok {α : Type} {source : String}
    {reader : Stream → Except ParseError α} {a : α} :
    readText source reader = .ok a ↔
      (Token.scan source).errors = [] ∧ reader (.ofScan (Token.scan source)) = .ok a := by
  simp only [readText, List.isEmpty_iff]
  split
  · next herrors => cases reader (.ofScan (Token.scan source)) <;> simp [Except.mapError, herrors]
  · next herrors => simp [herrors]

/-- A program is read from the tokens of its text, if these are without errors. -/
theorem Program.ofText_eq_ok {source : String} {p : Program} :
    ofText source = .ok p ↔ (Token.scan source).errors = [] ∧
      ∃ r, Parsing.declarations (.ofScan (Token.scan source)) = .ok r ∧
        p = ⟨r.value.1, r.value.2, r.rest.fresh⟩ := by
  rw [ofText, Parsing.readText_eq_ok]
  refine and_congr_right fun _ => ⟨fun h => ?_, fun ⟨r, hr, hp⟩ => ?_⟩
  · obtain ⟨r, hr, h⟩ := Parsing.bind_eq_ok.1 h
    exact ⟨r, hr, (Except.ok.inj h).symm⟩
  · rw [hr, hp]
    rfl

/-- What was computed is there if it is found to have a property. -/
theorem exists_ok_of_any {ε α : Type} {r : Except ε α} {f : α → Bool}
    (h : r.toOption.any f = true) : ∃ a, r = .ok a ∧ f a = true := by
  cases r with
  | error e => cases h
  | ok a => exact ⟨a, rfl, h⟩

/-- The identities of the nodes of a program that was read are all different, and below the number
that the program says it uses. -/
theorem Program.numbered_ofText {source : String} {p : Program} (h : ofText source = .ok p) :
    Numbered 0 p.nodeCount p.ids := by
  obtain ⟨_, r, hr, rfl⟩ := ofText_eq_ok.1 h
  exact Parsing.numbers_declarations hr

end ObjectLang
