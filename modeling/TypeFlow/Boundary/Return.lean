import TypeFlow.Boundary.Site
import TypeFlow.Unify.Texts

/-!
# TypeFlow.Boundary.Return

Checking returned values against the declared results. Each value is unified
with its result; a variable that is then bound to nothing but another variable
is reported as not inferred. Where unification fails, compatibility of the
texts decides.
-/

namespace TypeFlow

/-- The values of a return and the results declared for them. -/
structure Return where
  declared : List Site
  returned : List Site
  position : Option Position := none

namespace Return

/-- The variables bound to variables. -/
def uninferred (s : Subst) : List String := NameMap.names (s.filter fun e => e.2.isVar)

/-- Results that hold variables which are not inferred. -/
def uninferredDiagnostic (index : Nat) (vars : List String) : Diagnostic :=
  let d : Diagnostic :=
    { category := .typeUninferred, message := "return type contains uninferred type variables" }
  (d.withData "resultIndex" (.nat index)).withData "variables" (.strs vars)

/-- A value of another type than the result. -/
def mismatchDiagnostic (index : Nat) (want got : Text) : Diagnostic :=
  let message :=
    "return type mismatch: got " ++ String.ofList got ++ ", want " ++ String.ofList want
  let d : Diagnostic := { category := .returnTypeMismatch, message }
  (d.withData "resultIndex" (.nat index)).withTypes want got

/-- What is wrong with the value at `index`, without a place. -/
def valueDiagnostic? (limits : Limits) (index : Nat) (want got : Text) : Option Diagnostic :=
  match Text.locate? limits want got with
  | some found => some ((Diagnostic.ofArity want got found).withData "resultIndex" (.nat index))
  | none =>
    match Text.unify limits want got [] with
    | .ok s =>
      match uninferred s with
      | [] => none
      | v :: vs => some (uninferredDiagnostic index (v :: vs))
    | .error _ =>
      if Text.isCompatible limits want got then none
      else some (mismatchDiagnostic index want got)

/-- What is wrong with the value at `index`; open types fit everything. A
value without a place of its own is reported at the return. -/
def checkAt (limits : Limits) (position : Option Position) (index : Nat) (want got : Site) :
    Option Diagnostic :=
  if want.isWildcard || got.isAny then none
  else
    (valueDiagnostic? limits index want.ty got.ty).map (·.placed (got.position <|> position))

/-- The wrong number of values. -/
def arityDiagnostic (r : Return) : Diagnostic :=
  let d : Diagnostic := { category := .returnTypeMismatch, message := "return arity mismatch" }
  let d := d.withData "expected" (.arr (r.declared.map (.text ·.ty)))
  (d.withData "actual" (.arr (r.returned.map (.text ·.ty)))).placed r.position

/-- What is wrong with a return. -/
def check (limits : Limits) (r : Return) : List Diagnostic :=
  if r.declared.length ≠ r.returned.length then
    [r.arityDiagnostic]
  else
    (r.declared.zip r.returned).zipIdx.filterMap fun p =>
      checkAt limits r.position p.2 p.1.1 p.1.2

end Return

end TypeFlow
