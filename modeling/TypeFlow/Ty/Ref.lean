import TypeFlow.Ty.Print

/-!
# TypeFlow.Ty.Ref

A type as a declaration uses it: perhaps behind a pointer (`*`), perhaps as
a slice (`[]`), the pointer written first.
-/

namespace TypeFlow

/-- A type with the modifiers that a declaration gives it. -/
structure TyRef where
  pointer : Bool := false
  slice : Bool := false
  ty : Ty
  deriving DecidableEq, Inhabited

namespace TyRef

/-- A type without modifiers. -/
def plain (ty : Ty) : TyRef := { ty }

/-- Whether two references have the same modifiers. -/
def sameModifiers (a b : TyRef) : Bool := a.pointer == b.pointer && a.slice == b.slice

/-- The canonical text of a reference. -/
def chars (r : TyRef) : Text :=
  (if r.pointer then ['*'] else []) ++ (if r.slice then ['[', ']'] else []) ++ r.ty.chars

/-- The canonical text of a reference, as a string. -/
def render (r : TyRef) : String := String.ofList r.chars

@[simp] theorem chars_plain (ty : Ty) : (plain ty).chars = ty.chars := rfl

/-- Modifiers agree when both of them do. -/
theorem sameModifiers_iff {a b : TyRef} :
    a.sameModifiers b = true ↔ a.pointer = b.pointer ∧ a.slice = b.slice := by
  simp [sameModifiers]

end TyRef

end TypeFlow
