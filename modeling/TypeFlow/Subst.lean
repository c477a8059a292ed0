import TypeFlow.Ty.Ref

/-!
# TypeFlow.Subst

Substitutions: types for type variables. A substitution is applied once; what
it puts in is not looked into again, because a bound type comes from another
scope, where the same letter may be another variable.
-/

namespace TypeFlow

/-- The types that type variables are bound to. -/
abbrev Subst := NameMap Ty

namespace Subst

/-- The type in place of the name `n`. -/
def ofName (s : Subst) (n : String) : Ty :=
  if Text.isVar n.toList then (NameMap.find? s n).getD (.named n) else .named n

mutual
/-- The type with its bound variables replaced. -/
def apply (s : Subst) : Ty → Ty
  | .scalar p => .scalar p
  | .named n => ofName s n
  | .generic n args => .generic n (applyList s args)
  | .optional t => .optional (apply s t)
  | .struct fields => .struct (applyFields s fields)
  | .union alts => .union (applyList s alts)

/-- The types with their bound variables replaced. -/
def applyList (s : Subst) : List Ty → List Ty
  | [] => []
  | t :: ts => apply s t :: applyList s ts

/-- The fields with their bound variables replaced. -/
def applyFields (s : Subst) : List (String × Ty) → List (String × Ty)
  | [] => []
  | (n, t) :: es => (n, apply s t) :: applyFields s es
end

/-- The reference with the bound variables of its type replaced. -/
def applyRef (s : Subst) (r : TyRef) : TyRef := { r with ty := s.apply r.ty }

/-- A substitution goes into a list of types one by one. -/
theorem applyList_eq_map (s : Subst) (ts : List Ty) : applyList s ts = ts.map (apply s) := by
  induction ts with
  | nil => rfl
  | cons t ts ih => simp [applyList, ih]

/-- A substitution goes into the fields of a record one by one, and leaves their
names. -/
theorem applyFields_eq_map (s : Subst) (es : List (String × Ty)) :
    applyFields s es = es.map fun e => (e.1, apply s e.2) := by
  induction es with
  | nil => rfl
  | cons e es ih => simp [applyFields, ih]

/-- A substitution without bindings changes nothing. -/
@[simp] theorem apply_nil (t : Ty) : apply [] t = t := by
  induction t using Ty.induct with
  | scalar p => rfl
  | named n => simp [apply, ofName]
  | generic n args ih =>
    rw [apply, applyList_eq_map, List.map_congr_left ih, List.map_id']
  | optional t ih => rw [apply, ih]
  | struct fields ih =>
    have h : ∀ e ∈ fields, (e.1, apply [] e.2) = e := fun e he => by rw [ih e he]
    rw [apply, applyFields_eq_map, List.map_congr_left h, List.map_id']
  | union alts ih =>
    rw [apply, applyList_eq_map, List.map_congr_left ih, List.map_id']

end Subst

end TypeFlow
