import Mathlib.Tactic
import ObjectLang.Proofs.Analysis.Cycles

/-!
# Subtyping is an order

Away from `any`, which is below and above everything, subtyping of value types is a partial order,
whatever is wrong with the classes of a program. A class is below those that it carries as its
ancestors, and as it carries finitely many, two classes that are below each other are one. In terms
of the declarations, a class is below those that it reaches over the superclasses which are left
when all cycles are cut.
-/
namespace ObjectLang

/-- Two classes that are among the ancestors of each other are one. -/
theorem ClassRef.eq_of_mem_ancestors {c d : ClassRef} (h : d ∈ c.ancestors)
    (h' : c ∈ d.ancestors) : c = d := by
  have hall : c.ancestors = d.ancestors :=
    (suffix_ancestors h').eq_of_length_le (suffix_ancestors h).length_le
  have hhead : ∀ c : ClassRef, c.ancestors.head? = some c := by
    rintro (_ | _) <;> rfl
  exact Option.some.inj ((hhead c).symm.trans (hall ▸ hhead d))

namespace ClassTable

variable {decls : List ClassDecl} {t : ClassTable} {c d : ClassRef}

/-- A class keeps the superclass that it names, unless it lies on a cycle. -/
def StillExtends (decls : List ClassDecl) (i j : Nat) : Prop :=
  Resolves decls i j ∧ ¬ Relation.TransGen (Resolves decls) i i

/-- In a table without two classes of one name, what is above a class is one of its ancestors. -/
theorem Closed.isSubclass_iff (h : t.Closed) (hc : c ∈ t.classes) (hd : d ∈ t.classes) :
    c.isSubclass d = true ↔ d ∈ c.ancestors := by
  rw [ClassRef.isSubclass, List.any_eq_true]
  constructor
  · rintro ⟨x, hx, hsame⟩
    rwa [← h.eq_of_name (h.ancestors c hc x hx) hd (by simpa [ClassRef.same] using hsame)]
  · exact fun hmem => ⟨d, hmem, by simp [ClassRef.same]⟩

/-- The ancestors of a class are all that is found on the way upwards. -/
theorem IsChain.mem_ancestors_iff {e : Edges} {i j : Nat} (hc : IsChain decls e i c)
    (hd : IsChain decls e j d) : d ∈ c.ancestors ↔ Relation.ReflTransGen (Up e) i j := by
  constructor
  · intro h
    rw [← hd.decl]
    exact (hc.of_mem_ancestors h).2
  · intro h
    induction h using Relation.ReflTransGen.head_induction_on generalizing c with
    | refl =>
        rw [hc.functional hd]
        exact d.mem_ancestors_self
    | head hup _ ih =>
        cases hc with
        | root hi => exact nomatch hup.symm.trans hi
        | derived hi hc =>
            obtain rfl := Option.some.inj (hup.symm.trans hi)
            exact List.mem_cons_of_mem _ (ih hc)

/-- Of two classes of a table, one is above the other exactly if the superclasses that are left lead
there. -/
theorem mem_ancestors_build (hc : c ∈ (build decls).1.classes) (hd : d ∈ (build decls).1.classes) :
    d ∈ c.ancestors ↔ Relation.ReflTransGen (StillExtends decls) c.decl d.decl := by
  obtain ⟨_, i, _, hchain⟩ := mem_build.1 hc
  obtain ⟨_, j, _, hchain'⟩ := mem_build.1 hd
  have hup : Up (edgesLeft decls) = StillExtends decls := by
    funext i j
    exact propext edge_left_iff
  rw [hchain.mem_ancestors_iff hchain', hup, hchain.decl, hchain'.decl]

end ClassTable

namespace ValueType

variable {t : ClassTable} {a : ArrayTypes} {T U V : ValueType}

/-- A value type is made of `int`, `boolean`, `null`, classes of a table and array types that were
handed out, and it is not `any`. -/
structure Proper (t : ClassTable) (a : ArrayTypes) (T : ValueType) : Prop where
  belongs : T.Belongs t a
  ne_any : T ≠ .any

/-- Value types are the same only if they are equal: a number stands for one component, and a name
for one class. -/
theorem Belongs.same_iff_eq (ht : t.Closed) (hT : T.Belongs t a) (hU : U.Belongs t a) :
    T.same U = true ↔ T = U := by
  constructor
  · intro h
    cases hT with
    | array hi _ =>
        cases hU with
        | array hj _ =>
            obtain rfl : _ = _ := beq_iff_eq.1 h
            rw [Option.some.inj (hi.symm.trans hj)]
        | _ => cases h
    | object hc =>
        cases hU with
        | object hd => rw [ht.eq_of_name hc hd (beq_iff_eq.1 h)]
        | _ => cases h
    | _ => cases hU <;> first | rfl | cases h
  · rintro rfl
    cases T <;> simp [same, ClassRef.same]

namespace Proper

theorem isSubtype_self (h : T.Proper t a) : T.isSubtype T = true := by
  cases T with
  | any => rfl
  | array i V => exact beq_self_eq_true i
  | object c => exact List.any_eq_true.2 ⟨c, c.mem_ancestors_self, beq_self_eq_true c.name⟩
  | _ => rfl

variable (ht : t.Closed)
include ht

/-- What a proper type is below of: itself, array types and classes above `null`, and its
superclasses. -/
theorem isSubtype_iff (hT : T.Proper t a) (hU : U.Proper t a) : T.isSubtype U = true ↔
    T = U ∨ (T = .null ∧ ((∃ i V, U = .array i V) ∨ ∃ d, U = .object d)) ∨
      ∃ c d, T = .object c ∧ U = .object d ∧ d ∈ c.ancestors := by
  constructor
  · intro h
    cases hT.belongs with
    | any => exact (hT.ne_any rfl).elim
    | array hi hV =>
        cases hU.belongs with
        | any => exact (hU.ne_any rfl).elim
        | array hj hW =>
            exact .inl ((Belongs.same_iff_eq ht (.array hi hV) (.array hj hW)).1 h)
        | _ => cases h
    | object hc =>
        cases hU.belongs with
        | any => exact (hU.ne_any rfl).elim
        | object hd => exact .inr (.inr ⟨_, _, rfl, rfl, (ht.isSubclass_iff hc hd).1 h⟩)
        | _ => cases h
    | null =>
        cases hU.belongs with
        | any => exact (hU.ne_any rfl).elim
        | null => exact .inl rfl
        | array => exact .inr (.inl ⟨rfl, .inl ⟨_, _, rfl⟩⟩)
        | object => exact .inr (.inl ⟨rfl, .inr ⟨_, rfl⟩⟩)
        | _ => cases h
    | int | bool =>
        cases hU.belongs with
        | any => exact (hU.ne_any rfl).elim
        | int | bool => first | exact .inl rfl | cases h
        | _ => cases h
  · rintro (rfl | ⟨rfl, ⟨i, V, rfl⟩ | ⟨d, rfl⟩⟩ | ⟨c, d, rfl, rfl, h⟩)
    · exact hT.isSubtype_self
    · rfl
    · rfl
    · cases hT.belongs with | object hc =>
      cases hU.belongs with | object hd =>
      exact (ht.isSubclass_iff hc hd).2 h

theorem isSubtype_trans (hT : T.Proper t a) (hU : U.Proper t a) (hV : V.Proper t a)
    (h : T.isSubtype U = true) (h' : U.isSubtype V = true) : T.isSubtype V = true := by
  rcases (hT.isSubtype_iff ht hU).1 h with rfl | ⟨rfl, habove⟩ | ⟨c, d, rfl, rfl, hd⟩
  · exact h'
  · refine (hT.isSubtype_iff ht hV).2 (.inr (.inl ⟨rfl, ?_⟩))
    rcases (hU.isSubtype_iff ht hV).1 h' with rfl | ⟨_, habove'⟩ | ⟨_, _, _, rfl, _⟩
    · exact habove
    · exact habove'
    · exact .inr ⟨_, rfl⟩
  · rcases (hU.isSubtype_iff ht hV).1 h' with rfl | ⟨h, _⟩ | ⟨_, e, heq, rfl, he⟩
    · exact h
    · cases h
    · obtain rfl := ValueType.object.inj heq
      refine (hT.isSubtype_iff ht hV).2 (.inr (.inr ⟨c, e, rfl, rfl, ?_⟩))
      exact (ClassRef.suffix_ancestors hd).subset he

theorem eq_of_isSubtype (hT : T.Proper t a) (hU : U.Proper t a) (h : T.isSubtype U = true)
    (h' : U.isSubtype T = true) : T = U := by
  rcases (hT.isSubtype_iff ht hU).1 h with rfl | ⟨rfl, habove⟩ | ⟨c, d, rfl, rfl, hd⟩
  · rfl
  · rcases habove with ⟨i, V, rfl⟩ | ⟨d, rfl⟩ <;> cases h'
  · rcases (hU.isSubtype_iff ht hT).1 h' with h | ⟨h, _⟩ | ⟨_, _, h, h', hc⟩
    · exact h.symm
    · cases h
    · cases h
      cases h'
      rw [ClassRef.eq_of_mem_ancestors hd hc]

end Proper

/-- Subtyping of the proper types over a class table is a partial order, in which equality is
equality of types, `null` is the least of the array types and classes, and classes stand as
`above` says of the positions of their declarations. -/
structure SubtypingOrders (t : ClassTable) (a : ArrayTypes) (above : Nat → Nat → Prop) : Prop where
  refl : ∀ T : ValueType, T.Proper t a → T.isSubtype T = true
  trans : ∀ T U V : ValueType, T.Proper t a → U.Proper t a → V.Proper t a →
    T.isSubtype U = true → U.isSubtype V = true → T.isSubtype V = true
  antisymm : ∀ T U : ValueType, T.Proper t a → U.Proper t a →
    T.isSubtype U = true → U.isSubtype T = true → T.same U = true
  isEquivalent : ∀ T U : ValueType, T.Proper t a → U.Proper t a → T.isEquivalent U = T.same U
  null : ∀ T : ValueType, T.Proper t a → (ValueType.null.isSubtype T = true ↔
    T = .null ∨ (∃ i V, T = .array i V) ∨ ∃ c, T = .object c)
  object : ∀ c ∈ t.classes, ∀ d ∈ t.classes,
    ((ValueType.object c).isSubtype (.object d) = true ↔ above c.decl d.decl)

end ValueType

/-- Whatever classes a program declares and whichever array types were handed out, subtyping away
from `any` is a partial order, and of the classes it is what the superclasses that are left make. -/
theorem ClassTable.subtyping_build (decls : List ClassDecl) (a : ArrayTypes) :
    ValueType.SubtypingOrders (build decls).1 a
      (Relation.ReflTransGen (StillExtends decls)) where
  refl _ hT := hT.isSubtype_self
  trans _ _ _ hT hU hV := hT.isSubtype_trans closed_build hU hV
  antisymm T U hT hU h h' :=
    (hT.belongs.same_iff_eq closed_build hU.belongs).2 (hT.eq_of_isSubtype closed_build hU h h')
  isEquivalent T U hT hU := by
    rw [Bool.eq_iff_iff, ValueType.isEquivalent, Bool.and_eq_true,
      hT.belongs.same_iff_eq closed_build hU.belongs]
    constructor
    · rintro ⟨h, h'⟩
      exact hT.eq_of_isSubtype closed_build hU h h'
    · rintro rfl
      exact ⟨hT.isSubtype_self, hT.isSubtype_self⟩
  null T hT := by
    have hnull : ValueType.null.Proper (build decls).1 a := ⟨.null, nofun⟩
    rw [hnull.isSubtype_iff closed_build hT]
    constructor
    · rintro (rfl | ⟨_, habove⟩ | ⟨_, _, h, _⟩)
      · exact .inl rfl
      · exact .inr habove
      · cases h
    · rintro (rfl | habove)
      · exact .inl rfl
      · exact .inr (.inl ⟨rfl, habove⟩)
  object c hc d hd := (closed_build.isSubclass_iff hc hd).trans (mem_ancestors_build hc hd)

end ObjectLang
