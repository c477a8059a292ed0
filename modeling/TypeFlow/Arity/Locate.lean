import TypeFlow.Arity.Mismatch
import TypeFlow.Ty.Read

/-!
# TypeFlow.Arity.Locate

Locating the first generic whose number of arguments differs between two
types. `Ty.locate` walks two types in step; `Text.locateByShape` walks two
texts one level at a time, and a level that does not scan hides what is below
it. `Text.locate` takes the types where both texts can be read and the texts
otherwise.

Both walks visit fields in the order of their names and pair the alternatives
of unions by kind.
-/

namespace TypeFlow

open ArityMismatch

/-! ## types -/

namespace Ty

/-- Whether two alternatives of unions are compared: a record with a record,
an optional with an optional, a generic with a generic of its name, and
anything else with everything. -/
def sameKind : Ty → Ty → Bool
  | .struct _, .struct _ => true
  | .struct _, _ => false
  | .optional _, .optional _ => true
  | .optional _, _ => false
  | .generic n _, .generic m _ => n == m
  | .generic _ _, _ => false
  | _, _ => true

/-- The search with `budget` levels left. -/
def locateAt (limit : Nat) (budget : Nat) (want got : Ty) : Search :=
  match budget with
  | 0 => .error ⟨limit⟩
  | budget + 1 =>
    match want, got with
    | .generic w ws, .generic g gs => amongGenerics (locateAt limit budget) w ws g gs
    | .optional w, .optional g => locateAt limit budget w g
    | .struct ws, .struct gs => amongFields (locateAt limit budget) ws gs
    | .union ws, .union gs => amongAlts (locateAt limit budget) sameKind ws gs
    | _, _ => .ok none

/-- The first arity mismatch between two types. -/
def locate (limits : Limits) (want got : Ty) : Search :=
  locateAt limits.maxDepth limits.maxDepth want got

end Ty

/-! ## texts -/

namespace Text

/-- Whether the texts of two alternatives of unions are compared. -/
def sameKind (want got : Text) : Bool :=
  match Shape.scan want, Shape.scan got with
  | .ok (.struct _), .ok (.struct _) => true
  | .ok (.struct _), _ => false
  | .ok (.generic w _), .ok (.generic g _) => w == "Union" || g == w
  | .ok (.generic w _), _ => w == "Union"
  | _, _ => true

/-- The search on texts with `budget` levels left. -/
def locateByShapeAt (limit : Nat) (budget : Nat) (want got : Text) : Search :=
  match budget with
  | 0 => .error ⟨limit⟩
  | budget + 1 =>
    match Shape.scan want, Shape.scan got with
    | .ok (.struct ws), .ok (.struct gs) =>
      amongFields (locateByShapeAt limit budget) (NameMap.ofList ws) gs
    | .ok (.generic w ws), .ok (.generic g gs) =>
      if w = "Union" ∧ g = "Union" then
        amongAlts (locateByShapeAt limit budget) sameKind ws gs
      else
        match ws, gs with
        | [a], [b] =>
          if w = "Optional" ∧ g = "Optional" then locateByShapeAt limit budget a b
          else amongGenerics (locateByShapeAt limit budget) w [a] g [b]
        | _, _ => amongGenerics (locateByShapeAt limit budget) w ws g gs
    | _, _ => .ok none

/-- The first arity mismatch between two texts, one level at a time. -/
def locateByShape (limits : Limits) (want got : Text) : Search :=
  locateByShapeAt limits.maxDepth limits.maxDepth want got

/-- The first arity mismatch between two texts: between their types, if both
can be read. -/
def locate (limits : Limits) (want got : Text) : Search :=
  match Ty.read limits want, Ty.read limits got with
  | .ok w, .ok g => Ty.locate limits w g
  | _, _ => locateByShape limits want got

/-- The first arity mismatch between two texts, if one is found within the
limits. -/
def locate? (limits : Limits) (want got : Text) : Option ArityMismatch :=
  (locate limits want got).place?

end Text

end TypeFlow
