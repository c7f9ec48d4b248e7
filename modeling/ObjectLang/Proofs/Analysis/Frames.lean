import Mathlib.Tactic
import ObjectLang.Proofs.Analysis.Verdict

/-!
# Scopes and frames

A nested block starts with a copy of the scope around it, and that scope comes back behind it. The
same variables are found if each block keeps its own declarations in a frame on a stack, and a name
is looked for in the frames from the innermost one outwards. The scope on top is always the stack of
frames, written as one list.
-/
namespace ObjectLang

/-- What happens to the visible variables on the way through a body. -/
inductive ScopeStep where
  | declare (decl : VarDecl) (type : ValueType)
  | enter
  | leave

/-- The scope on top and the scopes it was copied from, the innermost first. The outermost one is
not left. -/
def Scope.step : List Scope → ScopeStep → Option (List Scope)
  | top :: outer, .declare decl type => some (top.declare decl type :: outer)
  | top :: outer, .enter => some (top.enter :: top :: outer)
  | _ :: top :: outer, .leave => some (top :: outer)
  | [_], .leave => none
  | [], _ => none

/-- The variables that each block declares itself, the latest first, the innermost block first. -/
abbrev Frames :=
  List (List TypedVar)

namespace Frames

/-- A block begins with an empty frame, which goes at its end. -/
def step : Frames → ScopeStep → Option Frames
  | frame :: frames, .declare decl type => some ((⟨decl, type⟩ :: frame) :: frames)
  | frame :: frames, .enter => some ([] :: frame :: frames)
  | _ :: frame :: frames, .leave => some (frame :: frames)
  | [_], .leave => none
  | [], _ => none

/-- The latest variable of a name in the innermost frame that has one. -/
def find? (frames : Frames) (name : String) : Option TypedVar :=
  frames.findSome? fun frame => frame.find? (·.decl.name.name == name)

end Frames

/-- Each of some scopes knows the variables of its own frame and of the frames around it. -/
inductive Scope.Mirrors : List Scope → Frames → Prop
  | nil : Mirrors [] []
  | cons {scope : Scope} {scopes : List Scope} {frame : List TypedVar} {frames : Frames} :
      scope.vars = frame ++ frames.flatten → Mirrors scopes frames →
      Mirrors (scope :: scopes) (frame :: frames)

namespace Scope.Mirrors

variable {scopes : List Scope} {frames : Frames}

/-- What is found in the scope on top is found in the frames. -/
theorem find? (h : Mirrors scopes frames) (name : String) :
    scopes.head?.bind (·.find? name) = frames.find? name := by
  cases h with
  | nil => rfl
  | @cons scope _ frame frames hvars _ =>
      have hflat : scope.vars = (frame :: frames).flatten := hvars
      rw [List.head?_cons, Option.bind_some, Scope.find?, hflat, List.find?_flatten]
      rfl

theorem step (h : Mirrors scopes frames) (s : ScopeStep) :
    Option.Rel Mirrors (Scope.step scopes s) (frames.step s) := by
  cases h with
  | nil => exact .none
  | cons hvars hrest =>
      cases s with
      | declare decl type =>
          exact .some (.cons (congrArg (List.cons (⟨decl, type⟩ : TypedVar)) hvars) hrest)
      | enter => exact .some (.cons hvars (.cons hvars hrest))
      | leave =>
          cases hrest with
          | nil => exact .none
          | cons hvars' hrest' => exact .some (.cons hvars' hrest')

theorem run (h : Mirrors scopes frames) (steps : List ScopeStep) :
    Option.Rel Mirrors (steps.foldlM Scope.step scopes) (steps.foldlM Frames.step frames) := by
  induction steps generalizing scopes frames with
  | nil => exact .some h
  | cons s steps ih =>
      have hstep := h.step s
      rw [List.foldlM_cons, List.foldlM_cons]
      generalize Scope.step scopes s = x, frames.step s = y at hstep
      cases hstep with
      | none => exact .none
      | some h => exact ih h

end Scope.Mirrors

/-- After any steps, the scope on top finds what the frames have. -/
theorem Scope.find?_run (scope : Scope) (steps : List ScopeStep) (name : String) :
    (steps.foldlM Scope.step [scope]).map (fun scopes => scopes.head?.bind (·.find? name)) =
      (steps.foldlM Frames.step [scope.vars]).map (·.find? name) := by
  have hstart : Mirrors [scope] [scope.vars] := .cons (List.append_nil _).symm .nil
  have hrun := hstart.run steps
  generalize steps.foldlM Scope.step [scope] = x, steps.foldlM Frames.step [scope.vars] = y
    at hrun ⊢
  cases hrun with
  | none => rfl
  | some h => exact congrArg some (h.find? name)

end ObjectLang
