import TypeFlow.Ty.Read
import TypeFlow.Unify.Run

/-!
# TypeFlow.Unify.Texts

Unification of type texts: both are read, the declared one first, and the
references they give are unified.
-/

namespace TypeFlow

/-- A reference from its text, where not being readable is a reason not to
unify. -/
def TyRef.readToUnify (limits : Limits) (text : Text) : Except UnifyError TyRef :=
  (TyRef.read limits text).mapError .unreadable

namespace Text

/-- Unifies two texts, starting from the bindings of `s`. -/
def unify (limits : Limits) (want got : Text) (s : Subst) : Except UnifyError Subst := do
  let w ← TyRef.readToUnify limits want
  let g ← TyRef.readToUnify limits got
  (w.unify limits g s).outcome

/-- Whether two texts can be unified. -/
def canUnify (limits : Limits) (want got : Text) : Bool :=
  match unify limits want got [] with
  | .ok _ => true
  | .error _ => false

/-- Unifies pairs of texts one after the other. -/
def unifyAll (limits : Limits) : List (Text × Text) → Subst → Except UnifyError Subst
  | [], s => .ok s
  | p :: ps, s => do unifyAll limits ps (← unify limits p.1 p.2 s)

end Text

end TypeFlow
