import TypeFlow.Report.Datum
import TypeFlow.ReadError

/-!
# TypeFlow.Arity.Mismatch

Where two types differ in the number of arguments of a generic, and the three
ways in which a search for such a place goes on below a pair of types: by the
arguments of two generics, by the fields of two records, by the alternatives
of two unions. A search stops at the first place it finds, and at the first
failure.
-/

namespace TypeFlow

/-- A generic with different numbers of arguments in two types. `path` are
the generics on the way to it, outermost first, and at the end the generic
itself; `pathIdx` the argument taken at each of those on the way; `fieldPath`
the record fields crossed on the way. -/
structure ArityMismatch where
  path : List String
  pathIdx : List Nat
  fieldPath : List String
  base : String
  wantArity : Nat
  gotArity : Nat
  deriving DecidableEq, Repr

namespace ArityMismatch

/-- The mismatch at `base` itself. -/
def here (base : String) (wantArity gotArity : Nat) : ArityMismatch where
  path := [base]
  pathIdx := []
  fieldPath := []
  base := base
  wantArity := wantArity
  gotArity := gotArity

/-- The mismatch seen from a generic `base`, of which it is in argument
`index`. -/
def inArg (base : String) (index : Nat) (m : ArityMismatch) : ArityMismatch :=
  { m with path := base :: m.path, pathIdx := index :: m.pathIdx }

/-- The mismatch seen from a record, of which it is in the field `name`. -/
def inField (name : String) (m : ArityMismatch) : ArityMismatch :=
  { m with fieldPath := name :: m.fieldPath }

/-- The mismatch as data. -/
def toDatum (m : ArityMismatch) : Datum :=
  .object
    [("base", .str m.base), ("fieldPath", .strs m.fieldPath), ("gotArity", .nat m.gotArity),
     ("path", .strs m.path), ("pathIdx", .nats m.pathIdx), ("wantArity", .nat m.wantArity)]

/-! ## searching below a pair -/

/-- What a search gives: a place, or none, or too deep a nesting. -/
abbrev Search := Except TooDeep (Option ArityMismatch)

variable {α : Type}

/-- Searches the arguments of two generics `base` in order. -/
def amongArgs (search : α → α → Search) (base : String) (want got : List α) : Search :=
  (want.zip got).zipIdx.findSomeM? fun p => do
    return (← search p.1.1 p.1.2).map (inArg base p.2)

/-- Searches the arguments of two generics, if they have the same name. -/
def amongGenerics (search : α → α → Search) (wantBase : String) (want : List α)
    (gotBase : String) (got : List α) : Search :=
  if wantBase ≠ gotBase then .ok none
  else if want.length ≠ got.length then .ok (some (here wantBase want.length got.length))
  else amongArgs search wantBase want got

/-- Searches the fields that two records share, in the order of the first. -/
def amongFields (search : α → α → Search) (want got : NameMap α) : Search :=
  want.findSomeM? fun e =>
    match got.find? e.1 with
    | none => .ok none
    | some t => do return (← search e.2 t).map (inField e.1)

/-- Searches all pairs of alternatives that `kind` lets through. -/
def amongAlts (search : α → α → Search) (kind : α → α → Bool) (want got : List α) : Search :=
  want.findSomeM? fun w => got.findSomeM? fun g =>
    if kind w g then search w g else .ok none

/-- The place, when the search ended with one. -/
def Search.place? : Search → Option ArityMismatch
  | .ok found => found
  | .error _ => none

end ArityMismatch

end TypeFlow
