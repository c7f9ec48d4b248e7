import Mathlib.Tactic
import ObjectLang.Proofs.Typing.Rules

/-!
# Static types

The type that the rules give to an expression can be read off the expression and the place where it
stands, without looking at whether the rules are kept. So an expression has at most one type.
-/
namespace ObjectLang

namespace PlainType

/-- The class of an object type. -/
def class? : PlainType → Option String
  | .object c => some c
  | _ => none

/-- The type of the elements of an array type. -/
def component? : PlainType → Option PlainType
  | .array component => some component
  | _ => none

end PlainType

namespace Context

mutual

/-- The type of an expression that keeps the rules. -/
def typeOf? (Γ : Context) : Expr → Option PlainType
  | .unary _ .neg _ => some .int
  | .unary _ .not _ => some .bool
  | .binary _ op _ _ => some (if op.isArithmetic then .int else .bool)
  | .number _ _ | .arrayLength _ _ => some .int
  | .bool _ _ => some .bool
  | .null _ => some .null
  | .this _ => Γ.current.map .object
  | .read _ location => Γ.typeOfLocation? location
  | .newObject _ c => some (.object c.name)
  | .newArray _ element _ => some (.array element.plain)
  | .call _ f _ => (Γ.callable? f.name).map Callable.returnType
  | .methodCall _ receiver f _ =>
    ((Γ.typeOf? receiver).bind PlainType.class?).bind fun c =>
      (Γ.method? c f.name).map Callable.returnType
termination_by structural e => e

/-- The type of what a location holds that keeps the rules. -/
def typeOfLocation? (Γ : Context) : Location → Option PlainType
  | .var _ x => (Γ.resolve? x.name).map Variable.type
  | .field _ receiver x =>
    ((Γ.typeOf? receiver).bind PlainType.class?).bind fun c =>
      (Γ.field? c x.name).map Variable.type
  | .index _ array _ => (Γ.typeOf? array).bind PlainType.component?
termination_by structural l => l

end

end Context

variable {Γ : Context}

mutual

theorem HasType.typeOf? : ∀ {e : Expr} {t : PlainType}, HasType Γ e t → Γ.typeOf? e = some t
  | _, _, .neg _ | _, _, .not _ | _, _, .and _ _ | _, _, .equal _ _ _ | _, _, .less _ _ => rfl
  | _, _, .arithmetic hop _ _ => by simp [Context.typeOf?, hop]
  | _, _, .number | _, _, .bool | _, _, .null | _, _, .arrayLength _ | _, _, .newObject _
  | _, _, .newArray _ _ => rfl
  | _, _, .this hc => by simp [Context.typeOf?, hc]
  | _, _, .read hl => by
      rw [Context.typeOf?]
      exact hl.typeOfLocation?
  | _, _, .call hf _ => by simp [Context.typeOf?, hf]
  | _, _, .methodCall hr hf _ => by
      simp [Context.typeOf?, hr.typeOf?, PlainType.class?, hf]

theorem Location.HasType.typeOfLocation? : ∀ {l : Location} {t : PlainType},
    Location.HasType Γ l t → Γ.typeOfLocation? l = some t
  | _, _, .var hv => by simp [Context.typeOfLocation?, hv]
  | _, _, .field hr hv => by
      simp [Context.typeOfLocation?, hr.typeOf?, PlainType.class?, hv]
  | _, _, .index ha _ => by
      simp [Context.typeOfLocation?, ha.typeOf?, PlainType.component?]

end

theorem HasType.unique {e : Expr} {t u : PlainType} (ht : HasType Γ e t) (hu : HasType Γ e u) :
    t = u :=
  Option.some.inj (ht.typeOf?.symm.trans hu.typeOf?)

theorem Location.HasType.unique {l : Location} {t u : PlainType} (ht : l.HasType Γ t)
    (hu : l.HasType Γ u) : t = u :=
  Option.some.inj (ht.typeOfLocation?.symm.trans hu.typeOfLocation?)

theorem HaveTypes.length {es : List Expr} {us : List PlainType} (h : HaveTypes Γ es us) :
    es.length = us.length := by
  induction es generalizing us with
  | nil =>
      cases h
      rfl
  | cons e es ih =>
      cases h with
      | cons _ _ h => simp [ih h]

end ObjectLang
