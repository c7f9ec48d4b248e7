import Mathlib.Tactic
import ObjectLang.Lowering.Programs
import ObjectLang.Proofs.Analysis.Visits
import ObjectLang.Proofs.Lowering.Bodies
import ObjectLang.Proofs.Tree.Renaming

/-!
# Making code twice

Code is made for a tree and for the tree with other names, in states that are related and from facts
that are related. If neither lacks a fact, the operands that are made are the same, and the states
that are left are related again. Which states are related is left open: all that is asked is that
each operation of the builder keeps them so.
-/
namespace ObjectLang

open IR

section combinators

variable {W α β γ δ : Type} [Preorder W]

/-- Two makings of code keep states related, and give what is related. What is related depends on
what was made so far: it is told by a world, and from one world others are reached. -/
def Parallel (R : W → LowerState → LowerState → Prop) (w : W) (Q : W → α → β → Prop) (x : Lower α)
    (y : Lower β) : Prop :=
  ∀ s s' a b t t', R w s s' → x s = .ok (a, t) → y s' = .ok (b, t') → ∃ v ≥ w, Q v a b ∧ R v t t'

variable {R : W → LowerState → LowerState → Prop} {w : W} {Q Q' : W → α → β → Prop} {x : Lower α}
  {y : Lower β}

/-- What was made by two steps in a row was made by the first and then by the second. -/
theorem Lower.of_bind {f : α → Lower γ} {s t : LowerState} {c : γ}
    (h : (x >>= f) s = .ok (c, t)) : ∃ a s', x s = .ok (a, s') ∧ f a s' = .ok (c, t) := by
  change (x s >>= fun r => f r.1 r.2) = _ at h
  cases hx : x s with
  | error e =>
      rw [hx] at h
      cases h
  | ok r =>
      rw [hx] at h
      exact ⟨r.1, r.2, rfl, h⟩

namespace Parallel

theorem bind {f : α → Lower γ} {g : β → Lower δ} {P : W → γ → δ → Prop} (h : Parallel R w Q x y)
    (hf : ∀ {v}, w ≤ v → ∀ a b, Q v a b → Parallel R v P (f a) (g b)) :
    Parallel R w P (x >>= f) (y >>= g) := by
  intro s s' c d t t' hs hx hy
  obtain ⟨a, u, hx, hf'⟩ := Lower.of_bind hx
  obtain ⟨b, u', hy, hg'⟩ := Lower.of_bind hy
  obtain ⟨v, hv, hq, hu⟩ := h s s' a b u u' hs hx hy
  obtain ⟨v', hv', hp, ht⟩ := hf hv a b hq u u' c d t t' hu hf' hg'
  exact ⟨v', hv.trans hv', hp, ht⟩

/-- Two steps where the first gives the same on both sides. -/
theorem bindEq {x y : Lower α} {f : α → Lower γ} {g : α → Lower δ} {P : W → γ → δ → Prop}
    (h : Parallel R w (fun _ => Eq) x y) (hf : ∀ {v}, w ≤ v → ∀ a, Parallel R v P (f a) (g a)) :
    Parallel R w P (x >>= f) (y >>= g) :=
  h.bind fun hv a _ hab => hab ▸ hf hv a

theorem pure {a : α} {b : β} (h : Q w a b) : Parallel R w Q (Pure.pure a) (Pure.pure b) := by
  intro s s' a' b' t t' hs hx hy
  cases hx
  cases hy
  exact ⟨w, le_rfl, h, hs⟩

theorem throw (m m' : MissingFact) :
    Parallel R w Q (MonadExcept.throw m : Lower α) (MonadExcept.throw m' : Lower β) := by
  intro s s' a b t t' _ hx _
  cases hx

theorem get : Parallel R w R MonadState.get MonadState.get := by
  rintro s s' _ _ _ _ hs ⟨⟩ ⟨⟩
  exact ⟨w, le_rfl, hs, hs⟩

/-- Facts that are looked up are there on both sides. -/
theorem known {fact : Option α} {fact' : Option β} {m m' : MissingFact} {f : α → Lower γ}
    {g : β → Lower δ} {P : W → γ → δ → Prop}
    (h : ∀ a ∈ fact, ∀ b ∈ fact', Parallel R w P (f a) (g b)) :
    Parallel R w P (known fact m >>= f) (known fact' m' >>= g) := by
  intro s s' c d t t' hs hx hy
  obtain ⟨a, u, ha, hx⟩ := Lower.of_bind hx
  obtain ⟨b, u', hb, hy⟩ := Lower.of_bind hy
  cases fact with
  | none => cases ha
  | some a =>
      cases fact' with
      | none => cases hb
      | some b =>
          cases ha
          cases hb
          exact h a rfl b rfl s s' c d t t' hs hx hy

theorem fact {fact : Option α} {fact' : Option β} {m m' : MissingFact}
    (h : ∀ a ∈ fact, ∀ b ∈ fact', Q w a b) :
    Parallel R w Q (ObjectLang.known fact m) (ObjectLang.known fact' m') := by
  rw [← bind_pure (ObjectLang.known fact m), ← bind_pure (ObjectLang.known fact' m')]
  exact known fun a ha b hb => pure (h a ha b hb)

/-- The same is given for all of some things, if it is for each of them. -/
theorem mapM {ι κ : Type} {f : ι → Lower α} {g : κ → Lower α} {l : List ι} {l' : List κ}
    (h : List.Forall₂ (fun i j => ∀ v ≥ w, Parallel R v (fun _ => Eq) (f i) (g j)) l l') :
    Parallel R w (fun _ => Eq) (l.mapM f) (l'.mapM g) := by
  suffices hall : ∀ v ≥ w, Parallel R v (fun _ => Eq) (l.mapM f) (l'.mapM g) from hall w le_rfl
  induction h with
  | nil => exact fun _ _ => pure rfl
  | cons hij _ ih =>
      intro v hv
      rw [List.mapM_cons, List.mapM_cons]
      exact (hij v hv).bindEq fun hu a => (ih _ (hv.trans hu)).bindEq fun _ as => pure rfl

theorem forM {ι κ : Type} {f : ι → Lower PUnit} {g : κ → Lower PUnit} {l : List ι} {l' : List κ}
    (h : List.Forall₂ (fun i j => ∀ v ≥ w, Parallel R v (fun _ _ _ => True) (f i) (g j)) l l') :
    Parallel R w (fun _ _ _ => True) (l.forM f) (l'.forM g) := by
  suffices hall : ∀ v ≥ w, Parallel R v (fun _ _ _ => True) (l.forM f) (l'.forM g) from
    hall w le_rfl
  induction h with
  | nil => exact fun _ _ => pure trivial
  | cons hij _ ih => exact fun v hv => (hij v hv).bind fun hu _ _ _ => ih _ (hv.trans hu)

end Parallel

theorem parallel_modify {f g : LowerState → LowerState} (h : ∀ s s', R w s s' → R w (f s) (g s')) :
    Parallel R w (fun _ _ _ => True) (modify f) (modify g) := by
  rintro s s' _ _ _ _ hs ⟨⟩ ⟨⟩
  exact ⟨w, le_rfl, trivial, h s s' hs⟩

end combinators

/-- An instruction that neither names a procedure or a type nor is a comment. -/
def IR.Instruction.isPlain : Instruction → Bool
  | .alloca _ _ | .call _ _ _ | .comment _ => false
  | _ => true

/-- What is asked of related states, where types and procedures are related too: all that the
builder does keeps states related. -/
structure Operations {W : Type} [Preorder W] (R : W → LowerState → LowerState → Prop)
    (T : W → Ty → Ty → Prop) (C : W → Nat → Nat → Prop) : Prop where
  monoType : ∀ {w v t t'}, w ≤ v → T w t t' → T v t t'
  monoCallee : ∀ {w v i j}, w ≤ v → C w i j → C v i j
  int : ∀ {w}, T w .int .int
  bool : ∀ {w}, T w .bool .bool
  byte : ∀ {w}, T w .byte .byte
  void : ∀ {w}, T w .void .void
  pointer : ∀ {w} t t', T w t t' → T w (.pointer t) (.pointer t')
  target : ∀ {w} t t', T w t t' → t.target?.isSome = t'.target?.isSome ∧
    T w (t.target?.getD .void) (t'.target?.getD .void)
  eq_iff : ∀ {w} t t' u u', T w t t' → T w u u' → (t = u ↔ t' = u')
  defaultValue : ∀ {w} t t', T w t t' → t.defaultValue = t'.defaultValue
  typeOf : ∀ {w} x, Parallel R w T (typeOfOperand x) (typeOfOperand x)
  procedure : ∀ {w}, Parallel R w (fun v s s' =>
    s.builder.procedure.params = s'.builder.procedure.params ∧
      T v s.builder.procedure.returnType s'.builder.procedure.returnType) get get
  newBlock : ∀ {w} name,
    Parallel R w (fun _ => Eq) (compute (·.newBlock name)) (compute (·.newBlock name))
  slot : ∀ {w} t t', T w t t' →
    Parallel R w (fun _ => Eq) (compute (·.slot t)) (compute (·.slot t'))
  define : ∀ {w} t t' f, T w t t' → (∀ d, Instruction.isPlain (f d) = true) →
    Parallel R w (fun _ => Eq) (compute (·.define t f)) (compute (·.define t' f))
  load : ∀ {w} x, Parallel R w (fun _ => Eq) (compute (·.load x)) (compute (·.load x))
  call : ∀ {w} i j xs t t', C w i j → T w t t' →
    Parallel R w (fun _ => Eq) (compute (·.call i xs t)) (compute (·.call j xs t'))
  emit : ∀ {w} i, Instruction.isPlain i = true →
    Parallel R w (fun _ _ _ => True) (perform (·.emit i)) (perform (·.emit i))
  terminate : ∀ {w} t,
    Parallel R w (fun _ _ _ => True) (perform (·.terminate t)) (perform (·.terminate t))
  switchTo : ∀ {w} i,
    Parallel R w (fun _ _ _ => True) (perform (·.switchTo i)) (perform (·.switchTo i))

variable {W : Type} [Preorder W]

/-- Two signatures name related procedures with related types, in all worlds. -/
structure Signature.Related (T : W → Ty → Ty → Prop) (C : W → Nat → Nat → Prop)
    (s s' : Signature) : Prop where
  procedure : ∀ w, C w s.procedure s'.procedure
  params : ∀ w, List.Forall₂ (T w) s.params s'.params
  returnType : ∀ w, T w s.returnType s'.returnType

/-- What code is made from on two sides: related types of values and related classes have related
types of code, constructors and allocators, and comments keep states related. -/
structure Body.Related (R : W → LowerState → LowerState → Prop) (T : W → Ty → Ty → Prop)
    (C : W → Nat → Nat → Prop) (V : ValueType → ValueType → Prop) (K : ClassRef → ClassRef → Prop)
    (ρ : String → String) (body body' : Body) : Prop where
  this : body.this = body'.this
  slots : body.slots = body'.slots
  class? : ∀ v v', V v v' → (v.class? = none ∧ v'.class? = none) ∨
    ∃ c c', v.class? = some c ∧ v'.class? = some c' ∧ K c c'
  isSubclass : ∀ c c' d d', K c c' → K d d' → c.isSubclass d = c'.isSubclass d'
  lower : ∀ {w} v v', V v v' → Parallel R w T (body.lower v) (body'.lower v')
  allocator : ∀ {w} v v', V v v' → ∀ c ∈ v.component?, ∀ c' ∈ v'.component?,
    Parallel R w C (allocator body c) (allocator body' c')
  layout : ∀ c c', K c c' → ∀ l ∈ body.layouts.class? c.name, ∀ l' ∈ body'.layouts.class? c'.name,
    ∀ w, T w l.pointerType l'.pointerType ∧ C w l.constructor l'.constructor
  comment : ∀ {w} (s : Stmt), Parallel R w (fun _ _ _ => True) (commentOn body s)
    (commentOn body' (s.relabel (.rename ρ)))

section facts

variable (T : W → Ty → Ty → Prop) (C : W → Nat → Nat → Prop) (V : ValueType → ValueType → Prop)
  (K : ClassRef → ClassRef → Prop) (N N' : Notes) (L L' : Layouts)

/-- A written type means on both sides what is related. -/
def TypeExpr.Related (t t' : TypeExpr) : Prop :=
  ∀ v ∈ N.typeExpr? t.id, ∀ v' ∈ N'.typeExpr? t'.id, V v v'

/-- Two locations refer to the same variable, or to related fields at the same positions. -/
inductive Binding.Related : Binding → Binding → Prop
  | variable {d d' : VarDecl} : d.id = d'.id → Related (.variable d) (.variable d')
  | field {owner owner' : ClassRef} {d d' : VarDecl} : K owner owner' →
      d.type.Related V N N' d'.type →
      (∀ c c', K c c' → ∀ l ∈ L.class? c.name, ∀ l' ∈ L'.class? c'.name,
        ∀ i ∈ l.fieldIndex? owner.name d.name.name, ∀ j ∈ l'.fieldIndex? owner'.name d'.name.name,
          i = j) →
      Related (.field owner d) (.field owner' d')

/-- Two calls call the built-in function, or related procedures. -/
inductive CallTarget.Related : CallTarget → CallTarget → Prop
  | print : Related .print .print
  | function {d d' : FunctionDecl} :
      (∀ s ∈ L.function? d.name.name, ∀ s' ∈ L'.function? d'.name.name, s.Related T C s') →
      Related (.function d) (.function d')
  | method {owner owner' : ClassRef} {d d' : FunctionDecl} : K owner owner' →
      (∀ l ∈ L.class? owner.name, ∀ l' ∈ L'.class? owner'.name,
        ∀ s ∈ l.method? d.name.name, ∀ s' ∈ l'.method? d'.name.name, s.Related T C s') →
      Related (.method owner d) (.method owner' d')

/-- A node is a variable or a field. -/
def Node.isNamed : Node → Bool
  | .location (.var _ _) | .location (.field _ _ _) => true
  | _ => false

/-- A node is a call. -/
def Node.isCall : Node → Bool
  | .expr (.call _ _ _) | .expr (.methodCall _ _ _ _) => true
  | _ => false

/-- What is known of a node on both sides is related. -/
structure Node.Related (n : Node) : Prop where
  type : ∀ v ∈ N.type? n.id, ∀ v' ∈ N'.type? n.id, V v v'
  binding : n.isNamed = true → ∀ b ∈ N.binding? n.id, ∀ b' ∈ N'.binding? n.id,
    b.Related V K N N' L L' b'
  call : n.isCall = true → ∀ c ∈ N.call? n.id, ∀ c' ∈ N'.call? n.id, c.Related T C K L L' c'

end facts

variable {R : W → LowerState → LowerState → Prop} {T : W → Ty → Ty → Prop}
  {C : W → Nat → Nat → Prop} {V : ValueType → ValueType → Prop} {K : ClassRef → ClassRef → Prop}
  {ρ : String → String} {body body' : Body} {w : W}

namespace Operations

variable (O : Operations R T C)
include O

theorem binary (op : Operation) (x y : Operand) :
    Parallel R w (fun _ => Eq) (compute (·.binary op x y)) (compute (·.binary op x y)) := by
  refine O.define _ _ _ ?_ fun _ => rfl
  cases op with
  | add | sub | mul | sdiv => exact O.int
  | slt | eq | and | or => exact O.bool

theorem elementPtr (x : Operand) (indices : List Operand) {t t' : Ty} (ht : T w t t') :
    Parallel R w (fun _ => Eq) (compute (·.elementPtr x indices t))
      (compute (·.elementPtr x indices t')) :=
  O.define _ _ _ (O.pointer t t' ht) fun _ => rfl

theorem bitcast (x : Operand) {t t' : Ty} (ht : T w t t') :
    Parallel R w (fun _ => Eq) (compute (·.bitcast x t)) (compute (·.bitcast x t')) :=
  O.define _ _ _ ht fun _ => rfl

theorem store (x y : Operand) :
    Parallel R w (fun _ _ _ => True) (perform (·.store x y)) (perform (·.store x y)) :=
  O.emit _ rfl

theorem cast (x : Operand) {t t' : Ty} (ht : T w t t') :
    Parallel R w (fun _ => Eq) (cast x t) (cast x t') := by
  refine (O.typeOf x).bind fun hv u u' hu => ?_
  have ht := O.monoType hv ht
  have hcondition : (u.target?.isSome && t.target?.isSome && u ≠ t : Bool) =
      (u'.target?.isSome && t'.target?.isSome && u' ≠ t' : Bool) := by
    rw [(O.target u u' hu).1, (O.target t t' ht).1]
    congr 1
    exact decide_eq_decide.2 (not_congr (O.eq_iff u u' t t' hu ht))
  simp only [hcondition]
  split_ifs
  · exact O.bitcast x ht
  · exact .pure rfl

theorem stopIf (x : Operand) (stopName goName message : String) :
    Parallel R w (fun _ _ _ => True) (stopIf x stopName goName message)
      (stopIf x stopName goName message) :=
  (O.newBlock _).bindEq fun _ _ => (O.newBlock _).bindEq fun _ _ =>
    (O.terminate _).bind fun _ _ _ _ => (O.switchTo _).bind fun _ _ _ _ =>
      (O.terminate _).bind fun _ _ _ _ => O.switchTo _

theorem nullCheck (x : Operand) (span : Span) :
    Parallel R w (fun _ _ _ => True) (nullCheck x span) (nullCheck x span) :=
  (O.binary _ _ _).bindEq fun _ _ => O.stopIf _ _ _ _

theorem arrayLength (x : Operand) : Parallel R w (fun _ => Eq) (arrayLength x) (arrayLength x) :=
  (O.elementPtr _ _ O.int).bindEq fun _ _ => O.load _

theorem boundsCheck (array index : Operand) (span : Span) :
    Parallel R w (fun _ _ _ => True) (boundsCheck array index span)
      (boundsCheck array index span) :=
  (O.arrayLength _).bindEq fun _ _ => (O.binary _ _ _).bindEq fun _ _ =>
  (O.binary _ _ _).bindEq fun _ _ =>
    (O.binary _ _ _).bindEq fun _ _ => (O.binary _ _ _).bindEq fun _ _ => O.stopIf _ _ _ _

theorem quotient (x y : Operand) (span : Span) :
    Parallel R w (fun _ => Eq) (quotient x y span) (quotient x y span) :=
  (O.binary _ _ _).bindEq fun _ _ => (O.stopIf _ _ _ _).bind fun _ _ _ _ =>
    (O.slot _ _ O.int).bindEq fun _ _ => (O.binary _ _ _).bindEq fun _ _ =>
      (O.binary _ _ _).bindEq fun _ _ => (O.binary _ _ _).bindEq fun _ _ =>
        (O.store _ _).bind fun _ _ _ _ => (O.newBlock _).bindEq fun _ _ =>
          (O.newBlock _).bindEq fun _ _ => (O.terminate _).bind fun _ _ _ _ =>
            (O.switchTo _).bind fun _ _ _ _ => (O.binary _ _ _).bindEq fun _ _ =>
              (O.store _ _).bind fun _ _ _ _ => (O.terminate _).bind fun _ _ _ _ =>
                (O.switchTo _).bind fun _ _ _ _ => O.load _

theorem assign (address value : Operand) :
    Parallel R w (fun _ _ _ => True) (assign address value) (assign address value) :=
  (O.typeOf _).bind fun _ t t' ht => (O.cast _ (O.target t t' ht).2).bindEq fun _ _ => O.store _ _

theorem returnValue (value : Operand) :
    Parallel R w (fun _ _ _ => True) (returnValue value) (returnValue value) :=
  O.procedure.bind fun _ _ _ h => (O.cast _ h.2).bindEq fun _ _ => O.terminate _

omit O in
/-- The body of an allocator is built step by step. -/
theorem perform_buildAllocator (size : Operand) (layout : ArrayLayout) (elementSize : Nat) :
    perform (fun b => buildAllocator b size layout elementSize) = (do
      let negative ← compute (·.binary .slt size (.int 0))
      let fail ← compute (·.newBlock "negative_size")
      let good ← compute (·.newBlock "good_size")
      perform (·.branch negative fail good)
      perform (·.switchTo fail)
      perform (·.halt "Array Size must be positive")
      perform (·.switchTo good)
      let bytes ← compute (·.binary .mul size (.int (Int32.ofNat elementSize)))
      let total ← compute (·.binary .add bytes (.int 4))
      let raw ← compute (·.alloc total)
      let array ← compute (·.bitcast raw layout.pointerType)
      let length ← compute (·.elementPtr array [.int 0, .int 0] .int)
      perform (·.store length size)
      let counter ← compute (·.slot .int)
      perform (·.store (.temp counter) (.int 0))
      let check ← compute (·.newBlock "loop_cond")
      let again ← compute (·.newBlock "loop_body")
      let done ← compute (·.newBlock "done")
      perform (·.jump check)
      perform (·.switchTo check)
      let i ← compute (·.load (.temp counter))
      let more ← compute (·.binary .slt i size)
      perform (·.branch more again done)
      perform (·.switchTo again)
      let i ← compute (·.load (.temp counter))
      let element ← compute (·.elementPtr array [.int 0, .int 1, i] layout.element)
      perform (·.store element layout.element.defaultValue)
      let next ← compute (·.binary .add i (.int 1))
      perform (·.store (.temp counter) next)
      perform (·.jump check)
      perform (·.switchTo done)
      perform (·.ret array)) :=
  rfl

theorem buildAllocator (size : Operand) {l l' : ArrayLayout} (elementSize : Nat)
    (hpointer : ∀ v, T v l.pointerType l'.pointerType) (helement : ∀ v, T v l.element l'.element) :
    Parallel R w (fun _ _ _ => True) (perform fun b => buildAllocator b size l elementSize)
      (perform fun b => buildAllocator b size l' elementSize) := by
  rw [perform_buildAllocator, perform_buildAllocator]
  refine (O.binary _ _ _).bindEq fun _ _ => (O.newBlock _).bindEq fun _ _ =>
    (O.newBlock _).bindEq fun _ _ => (O.terminate _).bind fun _ _ _ _ =>
    (O.switchTo _).bind fun _ _ _ _ =>
      (O.terminate _).bind fun _ _ _ _ => (O.switchTo _).bind fun _ _ _ _ => ?_
  refine (O.binary _ _ _).bindEq fun _ _ => (O.binary _ _ _).bindEq fun _ _ =>
    (O.define _ _ _ (O.pointer _ _ O.byte) fun _ => rfl).bindEq fun _ _ =>
      (O.bitcast _ (hpointer _)).bindEq fun _ _ => (O.elementPtr _ _ O.int).bindEq fun _ _ =>
        (O.store _ _).bind fun _ _ _ _ => (O.slot _ _ O.int).bindEq fun _ _ =>
          (O.store _ _).bind fun _ _ _ _ => ?_
  refine (O.newBlock _).bindEq fun _ _ => (O.newBlock _).bindEq fun _ _ =>
    (O.newBlock _).bindEq fun _ _ =>
    (O.terminate _).bind fun _ _ _ _ => (O.switchTo _).bind fun _ _ _ _ =>
    (O.load _).bindEq fun _ _ =>
      (O.binary _ _ _).bindEq fun _ _ => (O.terminate _).bind fun _ _ _ _ => ?_
  rw [O.defaultValue _ _ (helement w)]
  exact (O.switchTo _).bind fun _ _ _ _ => (O.load _).bindEq fun _ _ =>
    (O.elementPtr _ _ (helement _)).bindEq fun _ _ => (O.store _ _).bind fun _ _ _ _ =>
      (O.binary _ _ _).bindEq fun _ _ => (O.store _ _).bind fun _ _ _ _ =>
        (O.terminate _).bind fun _ _ _ _ => (O.switchTo _).bind fun _ _ _ _ => O.terminate _

end Operations

theorem Expr.mem_nodes (e : Expr) : .expr e ∈ e.nodes := by
  cases e <;> exact List.mem_cons_self ..

section bodies

variable (O : Operations R T C) (B : body.Related R T C V K ρ body')

theorem Body.Related.lowerTypeExpr (B : body.Related R T C V K ρ body') {t t' : TypeExpr}
    (ht : t.Related V body.analysis.notes body'.analysis.notes t') :
    Parallel R w T (body.lowerTypeExpr t) (body'.lowerTypeExpr t') :=
  .known fun v hv v' hv' => B.lower v v' (ht v hv v' hv')

include O B

theorem Body.Related.thisAs {c c' : ClassRef} (hc : K c c') :
    Parallel R w (fun _ => Eq) (thisAs body c) (thisAs body' c') := by
  refine .known fun x hx y hy => .known fun l hl l' hl' => ?_
  rw [B.this, hy] at hx
  obtain rfl := Option.some.inj hx
  exact O.cast _ (B.layout c c' hc l hl l' hl' _).1

theorem Body.Related.fieldAddress (x : Operand) {c c' owner owner' : ClassRef} {d d' : VarDecl}
    (hc : K c c') (h : Binding.Related V K body.analysis.notes body'.analysis.notes body.layouts
      body'.layouts (.field owner d) (.field owner' d')) :
    Parallel R w (fun _ => Eq) (fieldAddress body x c owner d)
      (fieldAddress body' x c' owner' d') := by
  cases h with
  | field _ ht hindex =>
      refine .known fun l hl l' hl' => .known fun i hi j hj => ?_
      obtain rfl := hindex c c' hc l hl l' hl' i hi j hj
      exact (B.lowerTypeExpr ht).bind fun _ _ _ htype => O.elementPtr _ _ htype

/-- Two values are compared alike: of two related pairs of classes, the same one is above. -/
theorem Body.Related.equality {v v' u u' : ValueType} (hv : V v v') (hu : V u u')
    (x y : Operand) : Parallel R w (fun _ => Eq) (equality v u x y) (equality v' u' x y) := by
  refine (O.typeOf x).bind fun _ t t' ht => (O.typeOf y).bind fun hnext r r' hr => ?_
  have ht := O.monoType hnext ht
  have hleft := (O.cast x hr).bindEq fun _ x => O.binary .eq x y
  have hright := (O.cast y ht).bindEq fun _ y => O.binary .eq x y
  rcases B.class? v v' hv with ⟨hc, hc'⟩ | ⟨c, c', hc, hc', hcc⟩
  · simp only [hc, hc']
    exact hright
  rcases B.class? u u' hu with ⟨hd, hd'⟩ | ⟨d, d', hd, hd', hdd⟩
  · simp only [hc, hc', hd, hd']
    exact hright
  · simp only [hc, hc', hd, hd', B.isSubclass d d' c c' hdd hcc]
    split
    · exact hright
    · exact hleft

omit O in
theorem Body.Related.classOf {id id' : Nat}
    (hid : ∀ v ∈ body.analysis.notes.type? id, ∀ v' ∈ body'.analysis.notes.type? id', V v v') :
    Parallel R w (fun _ => K) (body.classOf id) (body'.classOf id') := by
  refine .known fun v hv v' hv' => .fact fun c hc c' hc' => ?_
  rcases B.class? v v' (hid v hv v' hv') with ⟨hnone, _⟩ | ⟨d, d', hd, hd', hdd⟩
  · rw [hnone] at hc
    cases hc
  · obtain rfl := Option.some.inj (hd.symm.trans hc)
    obtain rfl := Option.some.inj (hd'.symm.trans hc')
    exact hdd

omit B in
mutual

/-- The operand of an expression is the same on both sides. -/
theorem parallel_expr (B : body.Related R T C V K ρ body') :
    ∀ (e : Expr) {w : W}, (∀ n ∈ e.nodes, n.Related T C V K body.analysis.notes
    body'.analysis.notes body.layouts body'.layouts) →
    Parallel R w (fun _ => Eq) (lowerExpr body e) (lowerExpr body' (e.relabel (.rename ρ)))
  | .unary _ .neg operand, _, h | .unary _ .not operand, _, h => by
      rw [Expr.nodes, List.forall_mem_cons] at h
      exact (parallel_expr B operand h.2).bindEq fun _ _ => O.binary _ _ _
  | .binary tag op left right, w, h => by
      rw [Expr.nodes, List.forall_mem_cons, List.forall_mem_append] at h
      obtain ⟨-, hl, hr⟩ := h
      have hleft := fun v => parallel_expr B left (w := v) hl
      have hright := fun v => parallel_expr B right (w := v) hr
      have hboth : ∀ op : Operation, Parallel R w (fun _ => Eq)
          (do
            let first ← lowerExpr body left
            let second ← lowerExpr body right
            compute (·.binary op first second))
          (do
            let first ← lowerExpr body' (left.relabel (.rename ρ))
            let second ← lowerExpr body' (right.relabel (.rename ρ))
            compute (·.binary op first second)) := fun op =>
        (hleft _).bindEq fun _ _ => (hright _).bindEq fun _ _ => O.binary op _ _
      cases op with
      | and =>
          exact (O.slot _ _ O.bool).bindEq fun _ _ => (hleft _).bindEq fun _ _ =>
            (O.store _ _).bind fun _ _ _ _ => (O.newBlock _).bindEq fun _ _ =>
              (O.newBlock _).bindEq fun _ _ => (O.terminate _).bind fun _ _ _ _ =>
                (O.switchTo _).bind fun _ _ _ _ => (hright _).bindEq fun _ _ =>
                  (O.store _ _).bind fun _ _ _ _ => (O.terminate _).bind fun _ _ _ _ =>
                    (O.switchTo _).bind fun _ _ _ _ => O.load _
      | div => exact (hleft _).bindEq fun _ _ => (hright _).bindEq fun _ _ => O.quotient _ _ _
      | equal =>
          refine (hleft _).bindEq fun _ _ => (hright _).bindEq fun _ _ => ?_
          rw [left.id_rename, right.id_rename]
          exact .known fun v hv v' hv' => .known fun w hw w' hw' =>
            B.equality O ((hl _ left.mem_nodes).type v hv v' hv')
              ((hr _ right.mem_nodes).type w hw w' hw') _ _
      | add => exact hboth .add
      | sub => exact hboth .sub
      | mul => exact hboth .mul
      | less => exact hboth .slt
  | .number _ _, _, _ | .bool _ _, _, _ | .null _, _, _ => .pure rfl
  | .this _, _, _ => by
      refine .known fun x hx y hy => .pure ?_
      rw [B.this, hy] at hx
      exact congrArg Operand.temp (Option.some.inj hx).symm
  | .read _ location, _, h => by
      rw [Expr.nodes, List.forall_mem_cons] at h
      exact (parallel_location B location h.2).bindEq fun _ _ => O.load _
  | .arrayLength _ array, _, h => by
      rw [Expr.nodes, List.forall_mem_cons] at h
      refine (parallel_expr B array h.2).bindEq fun _ _ => ?_
      rw [array.span_rename]
      exact (O.nullCheck _ _).bind fun _ _ _ _ => O.arrayLength _
  | .newObject tag _, _, h => by
      have hn := h _ (List.mem_singleton_self _)
      exact (B.classOf hn.type).bind fun _ c c' hc => .known fun l hl l' hl' =>
        O.call _ _ _ _ _ (B.layout c c' hc l hl l' hl' _).2 (B.layout c c' hc l hl l' hl' _).1
  | .newArray tag _ size, _, h => by
      rw [Expr.nodes, List.forall_mem_cons] at h
      refine .known fun v hv v' hv' => .known fun c hc c' hc' => ?_
      have hvv := h.1.type v hv v' hv'
      exact (B.allocator v v' hvv c hc c' hc').bind fun _ i j hij =>
        (parallel_expr B size h.2).bindEq fun hsize _ =>
          (B.lower v v' hvv).bind fun hlower t t' ht =>
          O.call _ _ _ _ _ (O.monoCallee (hsize.trans hlower) hij) ht
  | .call tag _ args, _, h => by
      rw [Expr.nodes, List.forall_mem_cons] at h
      refine .known fun target ht target' ht' => ?_
      cases h.1.call rfl target ht target' ht' with
      | print =>
          refine (parallel_arguments B args h.2 (.cons O.int .nil)).bindEq fun _ values =>
            .known fun x hx y hy => ?_
          obtain rfl := Option.some.inj (hx.symm.trans hy)
          exact (O.emit _ rfl).bind fun _ _ _ _ => .pure rfl
      | function hs =>
          refine .known fun s hs₁ s' hs₂ => ?_
          have hss := hs s hs₁ s' hs₂
          exact (parallel_arguments B args h.2 (hss.params _)).bindEq fun _ values =>
            O.call _ _ _ _ _ (hss.procedure _) (hss.returnType _)
      | method howner hs =>
          refine (B.thisAs O howner).bindEq fun _ receiver => .known fun l hl l' hl' =>
            .known fun s hs₁ s' hs₂ => ?_
          have hss := hs l hl l' hl' s hs₁ s' hs₂
          exact (parallel_arguments B args h.2 (hss.params _)).bindEq fun _ values =>
            O.call _ _ _ _ _ (hss.procedure _) (hss.returnType _)
  | .methodCall tag receiver _ args, _, h => by
      rw [Expr.nodes, List.forall_mem_cons, List.forall_mem_append] at h
      obtain ⟨hn, hreceiver, hargs⟩ := h
      refine (parallel_expr B receiver hreceiver).bindEq fun _ object => ?_
      rw [receiver.span_rename]
      refine (O.nullCheck _ _).bind fun _ _ _ _ => .known fun target ht target' ht' => ?_
      cases hn.call rfl target ht target' ht' with
      | print => exact .throw _ _
      | function _ => exact .throw _ _
      | @method owner owner' _ _ howner hs =>
          refine .known fun l hl l' hl' => ?_
          refine (O.cast _ (B.layout owner owner' howner l hl l' hl' _).1).bindEq fun _ object =>
            .known fun s hs₁ s' hs₂ => ?_
          have hss := hs l hl l' hl' s hs₁ s' hs₂
          exact (parallel_arguments B args hargs (hss.params _)).bindEq fun _ values =>
            O.call _ _ _ _ _ (hss.procedure _) (hss.returnType _)
termination_by structural e => e

theorem parallel_location (B : body.Related R T C V K ρ body') :
    ∀ (l : Location) {w : W}, (∀ n ∈ l.nodes, n.Related T C V K body.analysis.notes
    body'.analysis.notes body.layouts body'.layouts) →
    Parallel R w (fun _ => Eq) (lowerLocation body l) (lowerLocation body' (l.relabel (.rename ρ)))
  | .var tag _, _, h => by
      have hn := h _ (List.mem_singleton_self _)
      refine .known fun b hb b' hb' => ?_
      cases hn.binding rfl b hb b' hb' with
      | «variable» hid =>
          refine .known fun x hx y hy => .pure ?_
          rw [B.slots, hid] at hx
          rw [Option.some.inj (hx.symm.trans hy)]
      | field howner ht hindex =>
          exact (B.thisAs O howner).bindEq fun _ object =>
            B.fieldAddress O _ howner (.field howner ht hindex)
  | .field tag receiver _, _, h => by
      rw [Location.nodes, List.forall_mem_cons] at h
      refine (parallel_expr B receiver h.2).bindEq fun _ object => ?_
      rw [receiver.span_rename, receiver.id_rename]
      refine (O.nullCheck _ _).bind fun _ _ _ _ =>
        (B.classOf (h.2 _ receiver.mem_nodes).type).bind fun _ c c' hc =>
          .known fun b hb b' hb' => ?_
      cases h.1.binding rfl b hb b' hb' with
      | «variable» _ => exact .throw _ _
      | field howner ht hindex => exact B.fieldAddress O _ hc (.field howner ht hindex)
  | .index tag array index, _, h => by
      rw [Location.nodes, List.forall_mem_cons, List.forall_mem_append] at h
      obtain ⟨hn, harray, hindex⟩ := h
      refine (parallel_expr B array harray).bindEq fun _ base => ?_
      rw [array.span_rename]
      refine (O.nullCheck _ _).bind fun _ _ _ _ =>
        (parallel_expr B index hindex).bindEq fun _ position => ?_
      refine (O.boundsCheck _ _ _).bind fun _ _ _ _ => .known fun v hv v' hv' => ?_
      exact (B.lower v v' (hn.type v hv v' hv')).bind fun _ t t' ht => O.elementPtr _ _ ht
termination_by structural l => l

theorem parallel_arguments (B : body.Related R T C V K ρ body') :
    ∀ (args : List Expr) {params params' : List Ty} {w : W},
    (∀ n ∈ nodesOfArguments args, n.Related T C V K body.analysis.notes body'.analysis.notes
      body.layouts body'.layouts) → List.Forall₂ (T w) params params' →
    Parallel R w (fun _ => Eq) (lowerArguments body args params)
      (lowerArguments body' (relabelArguments (.rename ρ) args) params')
  | [], _, _, _, _, _ => .pure rfl
  | _ :: _, _, _, _, _, .nil => .pure rfl
  | arg :: args, _, _, _, h, .cons ht hts => by
      rw [nodesOfArguments, List.forall_mem_append] at h
      exact (parallel_expr B arg h.1).bindEq fun hv _ =>
        (O.cast _ (O.monoType hv ht)).bindEq fun hu _ => (parallel_arguments B args h.2
          (hts.imp fun _ _ => O.monoType (hv.trans hu))).bindEq fun _ _ => .pure rfl
termination_by structural args => args

end

omit O B in
mutual

theorem parallel_stmt (O : Operations R T C) (B : body.Related R T C V K ρ body') :
    ∀ (s : Stmt) {w : W}, (∀ n ∈ s.nodes, n.Related T C V K body.analysis.notes
    body'.analysis.notes body.layouts body'.layouts) →
    Parallel R w (fun _ _ _ => True) (lowerStmt body s) (lowerStmt body' (s.relabel (.rename ρ)))
  | .declare _, _, _ => .pure trivial
  | .eval value, _, h =>
      (B.comment (.eval value)).bind fun _ _ _ _ => (parallel_expr O B value h).bindEq fun _ _ =>
        .pure trivial
  | .assign span target value, _, h => by
      rw [Stmt.nodes, List.forall_mem_append] at h
      exact (B.comment (.assign span target value)).bind fun _ _ _ _ =>
        (parallel_location O B target h.1).bindEq fun _ _ =>
          (parallel_expr O B value h.2).bindEq fun _ _ => O.assign _ _
  | .branch span test onTrue none, _, h => by
      rw [Stmt.nodes, List.forall_mem_append] at h
      exact (B.comment (.branch span test onTrue none)).bind fun _ _ _ _ =>
        (parallel_expr O B test h.1).bindEq fun _ _ => (O.newBlock _).bindEq fun _ _ =>
          (O.newBlock _).bindEq fun _ _ => (O.newBlock _).bindEq fun _ _ =>
            (O.terminate _).bind fun _ _ _ _ => (O.switchTo _).bind fun _ _ _ _ =>
              (parallel_stmt O B onTrue h.2).bind fun _ _ _ _ => (O.terminate _).bind fun _ _ _ _ =>
                (O.switchTo _).bind fun _ _ _ _ => (O.terminate _).bind fun _ _ _ _ => O.switchTo _
  | .branch span test onTrue (some onFalse), _, h => by
      rw [Stmt.nodes, List.forall_mem_append, List.forall_mem_append] at h
      exact (B.comment (.branch span test onTrue (some onFalse))).bind fun _ _ _ _ =>
        (parallel_expr O B test h.1).bindEq fun _ _ => (O.newBlock _).bindEq fun _ _ =>
          (O.newBlock _).bindEq fun _ _ => (O.newBlock _).bindEq fun _ _ =>
            (O.terminate _).bind fun _ _ _ _ => (O.switchTo _).bind fun _ _ _ _ =>
              (parallel_stmt O B onTrue h.2.1).bind fun _ _ _ _ =>
                (O.terminate _).bind fun _ _ _ _ =>
                (O.switchTo _).bind fun _ _ _ _ =>
                  (parallel_stmt O B onFalse h.2.2).bind fun _ _ _ _ =>
                  (O.terminate _).bind fun _ _ _ _ => O.switchTo _
  | .loop span test repeated, _, h => by
      rw [Stmt.nodes, List.forall_mem_append] at h
      exact (B.comment (.loop span test repeated)).bind fun _ _ _ _ =>
        (O.newBlock _).bindEq fun _ _ => (O.newBlock _).bindEq fun _ _ =>
          (O.newBlock _).bindEq fun _ _ =>
          (O.terminate _).bind fun _ _ _ _ => (O.switchTo _).bind fun _ _ _ _ =>
            (parallel_expr O B test h.1).bindEq fun _ _ => (O.terminate _).bind fun _ _ _ _ =>
              (O.switchTo _).bind fun _ _ _ _ =>
                (parallel_stmt O B repeated h.2).bind fun _ _ _ _ =>
                (O.terminate _).bind fun _ _ _ _ => O.switchTo _
  | .return span value, _, h =>
      (B.comment (.return span value)).bind fun _ _ _ _ =>
        (parallel_expr O B value h).bindEq fun _ _ => O.returnValue _
  | .block span stmts, _, h =>
      (B.comment (.block span stmts)).bind fun _ _ _ _ => parallel_stmts O B stmts h
termination_by structural s => s

theorem parallel_stmts (O : Operations R T C) (B : body.Related R T C V K ρ body') :
    ∀ (stmts : List Stmt) {w : W}, (∀ n ∈ nodesOfBody stmts, n.Related T C V K
    body.analysis.notes body'.analysis.notes body.layouts body'.layouts) →
    Parallel R w (fun _ _ _ => True) (lowerStmts body stmts)
      (lowerStmts body' (relabelBody (.rename ρ) stmts))
  | [], _, _ => .pure trivial
  | s :: rest, _, h => by
      rw [nodesOfBody, List.forall_mem_append] at h
      exact (parallel_stmt O B s h.1).bind fun _ _ _ _ => parallel_stmts O B rest h.2
termination_by structural stmts => stmts

end

omit O in
/-- The receiver and the variables may be anywhere, if they are at the same places. -/
theorem Body.Related.with (this : Option Nat) (slots : List (Nat × Nat)) :
    Body.Related R T C V K ρ { body with this, slots } { body' with this, slots } :=
  ⟨rfl, rfl, B.class?, B.isSubclass, B.lower, B.allocator, B.layout, B.comment⟩

omit B in
theorem parallel_parameter (temp : Nat) {d d' : VarDecl} (hd : d.id = d'.id) :
    Parallel R w (fun _ => Eq) (lowerParameter temp d) (lowerParameter temp d') := by
  refine (O.typeOf _).bind fun _ t t' ht => (O.slot t t' ht).bindEq fun _ slot =>
    (O.store _ _).bind fun _ _ _ _ => .pure ?_
  rw [hd]

theorem parallel_local {d d' : VarDecl} (hd : d.id = d'.id)
    (ht : d.type.Related V body.analysis.notes body'.analysis.notes d'.type) :
    Parallel R w (fun _ => Eq) (lowerLocal body d) (lowerLocal body' d') := by
  refine (B.lowerTypeExpr ht).bind fun _ t t' ht => (O.slot t t' ht).bindEq fun _ slot => ?_
  rw [O.defaultValue t t' ht]
  refine (O.store _ _).bind fun _ _ _ _ => .pure ?_
  rw [hd]

/-- The code of a body is made alike on both sides. -/
theorem parallel_lowerBody (isMethod : Bool) {f : FunctionDecl}
    (hlocals : ∀ d ∈ localsOf f.body, d.type.Related V body.analysis.notes body'.analysis.notes
      (d.type.relabel (.rename ρ)))
    (hnodes : ∀ n ∈ nodesOfBody f.body, n.Related T C V K body.analysis.notes body'.analysis.notes
      body.layouts body'.layouts) :
    Parallel R w (fun _ _ _ => True) (lowerBody body isMethod f)
      (lowerBody body' isMethod (f.relabel (.rename ρ))) := by
  rw [lowerBody_eq, lowerBody_eq]
  refine O.procedure.bind fun _ s s' h => ?_
  simp only [h.1]
  refine (Parallel.mapM ?_).bindEq fun _ params => ?_
  · rw [FunctionDecl.relabel, List.zip_map_right, List.forall₂_map_right_iff, List.forall₂_same]
    exact fun x _ _ _ => parallel_parameter O x.1 rfl
  refine (Parallel.mapM ?_).bindEq fun _ slots => ?_
  · rw [FunctionDecl.relabel, localsOf_relabel, List.forall₂_map_right_iff, List.forall₂_same]
    exact fun d hd _ _ => parallel_local O B rfl (hlocals d hd)
  exact parallel_stmts O (B.with _ _) f.body hnodes

end bodies

end ObjectLang
