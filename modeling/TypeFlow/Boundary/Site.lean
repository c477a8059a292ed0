import TypeFlow.Arity.Locate
import TypeFlow.Compatible
import TypeFlow.Report.Diagnostic

/-!
# TypeFlow.Boundary.Site

A boundary is where a value of one declared type meets another: a call, a
return, an assignment, an edge of a pipeline. Its two sides are sites: a type
text, perhaps with a name and a place.

`Discord` is what can be wrong between two type texts that are compared as
texts: a generic with the wrong number of arguments, which comes first, or
just another type.
-/

namespace TypeFlow

/-- A type text at a place in the source. `name` is that of the parameter,
variable or step, if it has one. -/
structure Site where
  ty : Text
  name : Option String := none
  position : Option Position := none

namespace Site

/-- Whether the site leaves its type open: `any`, or no text. -/
def isWildcard (s : Site) : Bool := s.ty.isWildcard

/-- Whether the site says that its type is open. -/
def isAny (s : Site) : Bool := s.ty.trim == Text.wildcard

end Site

/-- What is wrong between two type texts. -/
inductive Discord where
  | arity (found : ArityMismatch)
  | type
  deriving DecidableEq, Repr

/-- What is wrong with `got` where `want` is declared. -/
def discord? (limits : Limits) (want got : Text) : Option Discord :=
  match Text.locate? limits want got with
  | some found => some (.arity found)
  | none => if Text.isCompatible limits want got then none else some .type

/-- The data on an arity mismatch: where it is, and both numbers of arguments
under both of their names. -/
def ArityMismatch.payload (m : ArityMismatch) : Datum :=
  .object
    [("base", .str m.base), ("path", .strs m.path), ("pathIdx", .nats m.pathIdx),
     ("fieldPath", .strs m.fieldPath), ("expectedArity", .nat m.wantArity),
     ("actualArity", .nat m.gotArity), ("wantArity", .nat m.wantArity),
     ("gotArity", .nat m.gotArity)]

namespace Diagnostic

/-- Adds the two type texts. -/
def withTypes (d : Diagnostic) (want got : Text) : Diagnostic :=
  (d.withData "expected" (.text want)).withData "actual" (.text got)

/-- A generic has different numbers of arguments in `want` and `got`. -/
def ofArity (want got : Text) (found : ArityMismatch) : Diagnostic :=
  ((ofCategory .genericArityMismatch).withPayload found.payload).withTypes want got

end Diagnostic

end TypeFlow
