import TypeFlow.Limits
import TypeFlow.Shape

/-!
# TypeFlow.Compatible

Whether a value of one type text may stand where another is declared, judged
on the texts alone, one level at a time. Equal texts agree, and the wildcard
agrees with everything. Beyond that only a few families of generics are
looked into: those of one argument in `covariant`, and maps. The rules for
optionals, unions and records are those of `TypeFlow.Flow`.
-/

namespace TypeFlow

/-- The generics of one argument that are compared by their argument. -/
def covariant : List String := ["Event", "Error", "Owned", "slice", "set"]

namespace Text

/-- Whether an argument agrees with every other: a type variable or the
wildcard. -/
def absorbs (arg : Text) : Bool := arg.trim.isVar || arg.isWildcard

/-- Compatibility with `budget` levels left. The expected text is scanned
first. -/
def compatibleAt (limit : Nat) (budget : Nat) (want got : Text) : Except ReadError Bool :=
  match budget with
  | 0 => .error (.tooDeep limit)
  | budget + 1 =>
    if want.isWildcard || got.isWildcard then
      .ok true
    else if want.trim = got.trim then
      .ok true
    else do
      let wantShape ← Shape.scan want
      let gotShape ← Shape.scan got
      match wantShape, gotShape with
      | .generic w [a], .generic g [b] =>
        if w = g ∧ w ∈ covariant then
          if absorbs a || absorbs b then .ok true else compatibleAt limit budget a b
        else
          .ok false
      | .generic w [key, value], .generic g [key', value'] =>
        if w = g ∧ w = "map" then
          if ← compatibleAt limit budget key key' then
            compatibleAt limit budget value value'
          else
            .ok false
        else
          .ok false
      | _, _ => .ok false

/-- Whether a value of type `got` may stand where `want` is declared, or why
this cannot be told. -/
def compatible (limits : Limits) (want got : Text) : Except ReadError Bool :=
  compatibleAt limits.maxDepth limits.maxDepth want got

/-- Whether a value of type `got` may stand where `want` is declared. Where
this cannot be told, it may not. -/
def isCompatible (limits : Limits) (want got : Text) : Bool :=
  match compatible limits want got with
  | .ok b => b
  | .error _ => false

/-- Two texts are compatible exactly when the comparison ends and says so. -/
theorem isCompatible_iff {limits : Limits} {want got : Text} :
    isCompatible limits want got = true ↔ compatible limits want got = .ok true := by
  simp only [isCompatible]
  split <;> simp_all

end Text

end TypeFlow
