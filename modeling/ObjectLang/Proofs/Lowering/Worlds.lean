import Mathlib.Tactic
import ObjectLang.Proofs.Lowering.Alike
import ObjectLang.Proofs.Lowering.Filling
import ObjectLang.Proofs.Lowering.Objects
import ObjectLang.Proofs.Typing.Counterpart

/-!
# Structs and procedures of two programs

Code is made for a program and for a counterpart of it. The structs and the procedures of the two
are told by other numbers, and new ones come while code is made. Structs go together if they stand
for one type, and so do procedures that belong to one class, one function or method, or one type of
arrays. What goes together is known from how far the making of code has got on both sides, and stays
together.
-/
namespace ObjectLang

open IR

/-- What a stock has stands for what a program has. -/
structure Stock.Stands (p : Program) (body : Body) (a : Stock) : Prop where
  target : a.target.Sound p body.analysis.arrays body.layouts.structs
  layouts : body.layouts.Stands p body.analysis.arrays a.target
  allocators : ∀ x ∈ a.allocators, ∃ t, x.1.Denotes p body.analysis.arrays t

/-- More may have come to a stock. -/
structure Stock.Keeps (a b : Stock) : Prop where
  target : a.target.Keeps b.target
  allocators : a.allocators ⊆ b.allocators

theorem Stock.Keeps.rfl {a : Stock} : a.Keeps a :=
  ⟨.rfl, List.Subset.refl _⟩

theorem Stock.Keeps.trans {a b c : Stock} (h : a.Keeps b) (h' : b.Keeps c) : a.Keeps c :=
  ⟨h.target.trans h'.target, List.Subset.trans h.allocators h'.allocators⟩

/-- Making code has added to the stock, and has not touched the procedure that is being built. -/
structure LowerState.Stocks (p : Program) (body : Body) (s s' : LowerState) : Prop where
  keeps : s.stock.Keeps s'.stock
  stands : s'.stock.Stands p body
  builder : s'.builder = s.builder

section stocks

variable {p : Program} {body : Body} {s : LowerState} {V : ValueType} {t : PlainType}
  (hp : p.Prepared body) (h : s.stock.Stands p body) (hV : V.Denotes p body.analysis.arrays t)
include hp h hV

/-- A type is asked for. -/
theorem Stock.Stands.does_lower : Does (body.lower V) s fun ty s' => s.Stocks p body s' ∧
    Represents p body.analysis.arrays body.layouts.structs s'.target t ty := by
  obtain ⟨hleads, hsound, hr⟩ := lowerType_spec hp.accepted.wellFormed.hierarchy
    hp.accepted.arrays h.layouts.exists_struct hV h.target
  exact does_onTarget ⟨⟨⟨hleads.toKeeps, List.Subset.refl _⟩,
    ⟨hsound, h.layouts.mono hleads.toKeeps, h.allocators⟩, rfl⟩, hr⟩

/-- The procedure that makes the arrays of a type is asked for. -/
theorem Stock.Stands.does_allocator (ht : t ≠ .null) : Does (allocator body V) s fun id s' =>
    s.Stocks p body s' ∧ ∃ U, (U, id) ∈ s'.allocators ∧ U.Denotes p body.analysis.arrays t := by
  refine (does_allocator_of_sound (J := ⟨p, "", body, t, none, []⟩)
    hp.accepted.wellFormed.hierarchy hp.accepted.arrays h.layouts h.target h.allocators hV ht).mono
      fun id s' hz => ?_
  obtain ⟨hl, hbuilder, hsound, hallocators, hU⟩ := hz
  refine ⟨⟨⟨hl.target.toKeeps, hl.allocators.subset⟩,
    ⟨hsound, h.layouts.mono hl.target.toKeeps, fun x hx => ?_⟩, hbuilder⟩, hU⟩
  exact (hallocators x hx).elim (h.allocators x) fun ⟨u, hu⟩ => ⟨u, hu.1⟩

end stocks

/-- A class of one program, and the class of its new name in another. -/
structure ClassRef.Paired (ρ : String → String) (p p' : Program) (c c' : ClassRef) : Prop where
  left : c.Faithful p
  right : c'.Faithful p'
  name : c'.name = ρ c.name

/-- A function or a method, and the same one in another program. -/
inductive Routine.Paired (ρ : String → String) (p p' : Program) : Routine → Routine → Prop
  | function {f : FunctionDecl} : f ∈ p.functions →
      Paired ρ p p' ⟨none, f⟩ ⟨none, f.relabel (.rename ρ)⟩
  | method {c c' : ClassRef} {f : FunctionDecl} : c.Paired ρ p p' c' →
      f ∈ (p.classDecl c).methods → Paired ρ p p' ⟨some c, f⟩ ⟨some c', f.relabel (.rename ρ)⟩

/-- Two types of values stand for one type of the language, up to names. -/
def ValueType.Paired (ρ : String → String) (p p' : Program) (a a' : ArrayTypes)
    (V V' : ValueType) : Prop :=
  ∃ t, V.Denotes p a t ∧ V'.Denotes p' a' (t.rename ρ)

/-- How far the making of code has got for two programs. -/
structure StockPair (p p' : Program) (body body' : Body) where
  left : Stock
  right : Stock
  stands : left.Stands p body
  stands' : right.Stands p' body'

/-- A program and a counterpart of it, each with what its code is made from. -/
structure Twins (ρ : String → String) (p p' : Program) (body body' : Body) : Prop where
  counterpart : p.Counterpart ρ p'
  left : p.Prepared body
  right : p'.Prepared body'
  distinct : body.layouts.structs.Distinct p
  distinct' : body'.layouts.structs.Distinct p'
  comments : body'.options.emitComments = body.options.emitComments
  printName : body'.options.printFunction = ρ body.options.printFunction

namespace StockPair

variable (ρ : String → String) {p p' : Program} {body body' : Body}

/-- More may have come on both sides. -/
instance : Preorder (StockPair p p' body body') where
  le w v := w.left.Keeps v.left ∧ w.right.Keeps v.right
  le_refl _ := ⟨.rfl, .rfl⟩
  le_trans _ _ _ h h' := ⟨h.1.trans h'.1, h.2.trans h'.2⟩

variable (w : StockPair p p' body body')

/-- Two structs are those of one type. -/
def Structs (i j : Nat) : Prop :=
  ∃ t, Represents p body.analysis.arrays body.layouts.structs w.left.target t
      (.pointer (.struct i)) ∧
    Represents p' body'.analysis.arrays body'.layouts.structs w.right.target (t.rename ρ)
      (.pointer (.struct j))

/-- Two procedures do the same work. -/
inductive Callees : Nat → Nat → Prop
  | constructor {c c' : ClassRef} {l l' : ClassLayout} : c.Paired ρ p p' c' →
      body.layouts.class? c.name = some l → body'.layouts.class? c'.name = some l' →
      Callees l.constructor l'.constructor
  | routine {r r' : Routine} {s s' : Signature} : r.Paired ρ p p' r' →
      body.layouts.signature? r = some s → body'.layouts.signature? r' = some s' →
      Callees s.procedure s'.procedure
  | allocator {V V' : ValueType} {i j : Nat} :
      V.Paired ρ p p' body.analysis.arrays body'.analysis.arrays V' →
      (V, i) ∈ w.left.allocators → (V', j) ∈ w.right.allocators → Callees i j

/-- Two states have the stocks of a world. -/
def Has (a b : Stock) : Prop :=
  a = w.left ∧ b = w.right

variable {ρ} {w} {v : StockPair p p' body body'}

theorem Structs.mono {i j : Nat} (h : w.Structs ρ i j) (hv : w ≤ v) : v.Structs ρ i j := by
  obtain ⟨t, hr, hr'⟩ := h
  exact ⟨t, hr.mono hv.1.target.arrays, hr'.mono hv.2.target.arrays⟩

theorem Callees.mono {i j : Nat} (h : w.Callees ρ i j) (hv : w ≤ v) : v.Callees ρ i j := by
  cases h with
  | constructor hc hl hl' => exact .constructor hc hl hl'
  | routine hr hs hs' => exact .routine hr hs hs'
  | allocator hV hi hj => exact .allocator hV (hv.1.allocators hi) (hv.2.allocators hj)

/-- What represents one type on both sides is alike. -/
theorem alike_of_represents {t : PlainType} {ty ty' : Ty}
    (h : Represents p body.analysis.arrays body.layouts.structs w.left.target t ty)
    (h' : Represents p' body'.analysis.arrays body'.layouts.structs w.right.target (t.rename ρ)
      ty') : ty.Alike (w.Structs ρ) ty' := by
  cases t with
  | int | bool | null =>
      cases h
      cases h'
      constructor
  | object c =>
      cases h with
      | object hid =>
          cases h' with
          | object hid' => exact .pointer (.struct ⟨.object c, .object hid, .object hid'⟩)
  | array t =>
      cases h with
      | array hm hV =>
          cases h' with
          | array hm' hV' => exact .pointer (.struct ⟨.array t, .array hm hV, .array hm' hV'⟩)

/-- The states of a world build code that is alike. -/
abbrev Building (ρ : String → String) (p p' : Program) (body body' : Body) :
    StockPair p p' body body' → LowerState → LowerState → Prop :=
  LowerState.Alike (Structs ρ) (Callees ρ) Has

variable {α β : Type} {x : Lower α} {y : Lower β}

/-- What is asked for on both sides is there in a world that is reached. -/
theorem parallel_of_does {P : Stock → α → Prop} {R : Stock → β → Prop}
    {Q : StockPair p p' body body' → α → β → Prop}
    (hx : ∀ s, s.stock.Stands p body → Does x s fun a s' => s.Stocks p body s' ∧ P s'.stock a)
    (hy : ∀ s, s.stock.Stands p' body' → Does y s fun b s' => s.Stocks p' body' s' ∧ R s'.stock b)
    (hQ : ∀ v ≥ w, ∀ a b, P v.left a → R v.right b → Q v a b) :
    Parallel (Building ρ p p' body body') w Q x y := by
  rintro s s' a b t t' ⟨⟨hleft, hright⟩, hbuilder⟩ ha hb
  obtain ⟨_, _, hx', hs, hP⟩ := hx s (hleft ▸ w.stands)
  obtain ⟨rfl, rfl⟩ := Prod.mk.inj (Except.ok.inj (hx'.symm.trans ha))
  obtain ⟨_, _, hy', hs', hP'⟩ := hy s' (hright ▸ w.stands')
  obtain ⟨rfl, rfl⟩ := Prod.mk.inj (Except.ok.inj (hy'.symm.trans hb))
  let v : StockPair p p' body body' := ⟨_, _, hs.stands, hs'.stands⟩
  have hv : w ≤ v := ⟨hleft ▸ hs.keeps, hright ▸ hs'.keeps⟩
  refine ⟨v, hv, hQ v hv _ _ hP hP', ⟨rfl, rfl⟩, ?_⟩
  rw [hs.builder, hs'.builder]
  exact hbuilder.mono (fun _ _ h => h.mono hv) fun _ _ h => h.mono hv

end StockPair

namespace Twins

open StockPair

variable {ρ : String → String} {p p' : Program} {body body' : Body} (H : Twins ρ p p' body body')
  {w : StockPair p p' body body'}
include H

/-- A struct goes together with one other struct. -/
theorem struct_iff {i j i' j' : Nat} (h : w.Structs ρ i j) (h' : w.Structs ρ i' j') :
    i = i' ↔ j = j' := by
  obtain ⟨t, hi, hj⟩ := h
  obtain ⟨t', hi', hj'⟩ := h'
  have hleft : i = i' ↔ t = t' := by
    refine ⟨fun heq => w.stands.layouts.injective H.distinct w.stands.target hi (heq ▸ hi'),
      fun heq => ?_⟩
    have hty := hi.functional w.stands.target (heq ▸ hi')
    exact Ty.struct.inj (Ty.pointer.inj hty)
  have hright : j = j' ↔ t.rename ρ = t'.rename ρ := by
    refine ⟨fun heq => w.stands'.layouts.injective H.distinct' w.stands'.target hj (heq ▸ hj'),
      fun heq => ?_⟩
    have hty := hj.functional w.stands'.target (heq ▸ hj')
    exact Ty.struct.inj (Ty.pointer.inj hty)
  rw [hleft, hright, (PlainType.rename_injective H.counterpart.injective).eq_iff]

/-- Whatever the builder does on one side, it does on the other. -/
theorem operations : Operations (Building ρ p p' body body') (fun w => Ty.Alike (w.Structs ρ))
    (Callees ρ) :=
  alike_operations (fun _ _ hv h => h.mono hv) (fun _ _ hv h => h.mono hv)
    fun _ _ _ _ _ h h' => H.struct_iff h h'

/-- The classes above a class are the same ones on both sides. -/
theorem isSubclass {c c' d d' : ClassRef} (hc : c.Paired ρ p p' c') (hd : d.Paired ρ p p' d') :
    c.isSubclass d = c'.isSubclass d' := by
  have hnames : ∀ {p : Program} {c : ClassRef}, p.Hierarchy → c.Faithful p →
      c.ancestors.map ClassRef.name = (p.lineage c.name).map (·.name.name) := by
    intro p c hh hc
    rw [hc.lineage hh, List.map_map]
    exact List.map_congr_left fun e he => (hc.of_mem_ancestors he).classDecl_name.symm
  have hany : ∀ c d : ClassRef, c.isSubclass d =
      (c.ancestors.map ClassRef.name).any (· == d.name) :=
    fun c d => by
      rw [List.any_map]
      rfl
  rw [hany, hany, hnames H.left.accepted.wellFormed.hierarchy hc.left,
    hnames H.right.accepted.wellFormed.hierarchy hc.right, hc.name, hd.name, H.counterpart.lineage,
    List.map_map, List.any_map, List.any_map]
  congr 1
  funext e
  simp [H.counterpart.injective.eq_iff]

/-- What the code of the one program is made from is related to what that of the other is made
from. -/
theorem related : Body.Related (Building ρ p p' body body') (fun w => Ty.Alike (w.Structs ρ))
    (Callees ρ) (ValueType.Paired ρ p p' body.analysis.arrays body'.analysis.arrays)
    (ClassRef.Paired ρ p p') ρ body body' where
  this := H.left.this.trans H.right.this.symm
  slots := H.left.slots.trans H.right.slots.symm
  class? v v' := by
    rintro ⟨t, hv, hv'⟩
    cases hv with
    | @object c name hc hname =>
        cases hv' with
        | @object c' _ hc' hname' =>
            exact .inr ⟨c, c', rfl, rfl, hc, hc', hname'.trans (congrArg ρ hname.symm)⟩
    | _ =>
        cases hv'
        exact .inl ⟨rfl, rfl⟩
  isSubclass c c' d d' := H.isSubclass
  lower v v' := by
    rintro ⟨t, hv, hv'⟩
    exact parallel_of_does
      (P := fun a ty => Represents p body.analysis.arrays body.layouts.structs a.target t ty)
      (R := fun b ty => Represents p' body'.analysis.arrays body'.layouts.structs b.target
        (t.rename ρ) ty)
      (fun s hs => hs.does_lower H.left hv) (fun s hs => hs.does_lower H.right hv')
      fun w _ ty ty' hr hr' => alike_of_represents hr hr'
  allocator v v' := by
    rintro ⟨t, hv, hv'⟩ c hc c' hc'
    cases hv with
    | @array i V t hi hV =>
        cases hv' with
        | @array i' V' _ hi' hV' =>
            cases hc
            cases hc'
            obtain ⟨_, hu, hne⟩ := H.left.accepted.arrays.denotes _ _ hi
            obtain rfl := hV.functional hu
            obtain ⟨_, hu', hne'⟩ := H.right.accepted.arrays.denotes _ _ hi'
            obtain rfl := hV'.functional hu'
            refine parallel_of_does
              (P := fun a id => ∃ U, (U, id) ∈ a.allocators ∧
                U.Denotes p body.analysis.arrays t)
              (R := fun b id => ∃ U, (U, id) ∈ b.allocators ∧
                U.Denotes p' body'.analysis.arrays (t.rename ρ))
              (fun s hs => hs.does_allocator H.left hV hne)
              (fun s hs => hs.does_allocator H.right hV' hne') fun w _ id id' hU hU' => ?_
            obtain ⟨U, hm, hU⟩ := hU
            obtain ⟨U', hm', hU'⟩ := hU'
            exact .allocator ⟨t, hU, hU'⟩ hm hm'
    | _ => cases hc
  layout c c' hc l hl l' hl' w := by
    refine ⟨?_, .constructor hc hl hl'⟩
    have hstands := w.stands.layouts.layout hc.left hl
    have hstands' := w.stands'.layouts.layout hc.right hl'
    have hr := hstands'.represents
    rw [hc.name] at hr
    exact alike_of_represents hstands.represents hr
  comment {w} s := by
    have hdescribe : (s.relabel (.rename ρ)).describe = s.describe := by
      cases s with
      | branch span c s s' => cases s' <;> rfl
      | _ => rfl
    simp only [commentOn, H.comments, s.span_rename, hdescribe]
    split_ifs
    · exact parallel_perform fun b b' hb => hb.emit (.same rfl rfl)
    · exact .pure trivial

end Twins

end ObjectLang
