import TypeFlow.ReadError
import TypeFlow.Report.Datum
import TypeFlow.Ty.Ref

/-!
# TypeFlow.Unify.Step

What happens in a unification: the causes of failure, the steps that a run
goes through, and how both are put into words.
-/

namespace TypeFlow

/-! ## failures -/

/-- Why two types, or a list of arguments, could not be unified. -/
inductive UnifyError where
  | conflict (var : String) (bound got : Ty)
  | headMismatch (want got : Ty)
  | arityMismatch (base : String) (want got : Nat)
  | fieldMismatch (want got : Ty)
  | modifierMismatch (want got : TyRef)
  | argumentCount (want got : Nat)
  | unreadable (cause : ReadError)
  deriving DecidableEq

namespace UnifyError

/-- The cause in words. -/
def message : UnifyError → String
  | conflict v bound got =>
    "type variable `" ++ v ++ "` is bound to `" ++ bound.render ++ "` but also used as `" ++
      got.render ++ "`"
  | headMismatch want got => "expected `" ++ want.render ++ "`, found `" ++ got.render ++ "`"
  | arityMismatch base want got =>
    "`" ++ base ++ "` expects " ++ toString want ++ " type argument(s), found " ++ toString got
  | fieldMismatch want got =>
    "struct fields differ: expected `" ++ want.render ++ "`, found `" ++ got.render ++ "`"
  | modifierMismatch want got =>
    "pointer/slice modifiers differ: expected `" ++ want.render ++ "`, found `" ++ got.render ++
      "`"
  | argumentCount want got =>
    "expected " ++ toString want ++ " argument(s), found " ++ toString got
  | unreadable cause => cause.message

/-- The note that a trace has on a failure. -/
def note : UnifyError → String
  | conflict v bound got => v ++ " bound to " ++ bound.render ++ ", cannot rebind to " ++ got.render
  | headMismatch _ _ => "base names differ"
  | arityMismatch _ _ _ => "arity differs"
  | fieldMismatch _ _ => "struct field sets differ"
  | modifierMismatch want got =>
    "modifier mismatch: `" ++ want.render ++ "` vs `" ++ got.render ++ "`"
  | argumentCount want got => (argumentCount want got).message
  | unreadable cause => cause.message

end UnifyError

/-! ## steps -/

/-- The kinds of steps. -/
inductive Action where
  | identity
  | wildcard
  | bind
  | boundMatch
  | decompose
  | failure
  deriving DecidableEq, Repr

/-- The word for a kind of step. -/
def Action.word : Action → String
  | identity => "identity"
  | wildcard => "wildcard"
  | bind => "bind"
  | boundMatch => "bound_match"
  | decompose => "decompose"
  | failure => "error"

/-- One step of a unification. -/
inductive Step where
  /-- The same head without arguments on both sides. -/
  | identity (want got : Ty)
  /-- The wildcard on one side; nothing is bound. -/
  | wildcard (want got : Ty)
  /-- A variable is bound for the first time. -/
  | bind (var : String) (got : Ty)
  /-- A bound variable meets the type it is bound to. -/
  | boundMatch (var : String) (bound got : Ty)
  /-- The same head on both sides; the parts are unified next. -/
  | decompose (want got : Ty)
  /-- The run ends here. -/
  | failure (want got : Ty) (error : UnifyError)
  deriving DecidableEq

namespace Step

/-- The kind of a step. -/
def action : Step → Action
  | identity _ _ => .identity
  | wildcard _ _ => .wildcard
  | bind _ _ => .bind
  | boundMatch _ _ _ => .boundMatch
  | decompose _ _ => .decompose
  | failure _ _ _ => .failure

/-- The expected side of a step. -/
def want : Step → Ty
  | identity w _ => w
  | wildcard w _ => w
  | bind v _ => .named v
  | boundMatch v _ _ => .named v
  | decompose w _ => w
  | failure w _ _ => w

/-- The actual side of a step. -/
def got : Step → Ty
  | identity _ g => g
  | wildcard _ g => g
  | bind _ g => g
  | boundMatch _ _ g => g
  | decompose _ g => g
  | failure _ g _ => g

/-- What is said about taking two types apart. -/
def partsNote : Ty → Ty → String
  | .struct fields, _ => "unify " ++ toString fields.length ++ " struct field(s)"
  | want, got =>
    want.head ++ "<..> ~ " ++ got.head ++ "<..>: unify " ++ toString want.arity ++ " argument(s)"

/-- What is said about a step. -/
def note : Step → String
  | identity _ _ => "same base"
  | wildcard _ _ => "`any` unifies without binding"
  | bind v got => v ++ " := " ++ got.render
  | boundMatch v bound _ => v ++ " already bound to " ++ bound.render
  | decompose want got => partsNote want got
  | failure _ _ error => error.note

end Step

/-! ## trace entries -/

/-- A step as a trace records it, with its number. -/
structure TraceEntry where
  number : Nat
  action : Action
  want : String
  got : String
  note : String
  deriving DecidableEq, Repr

namespace TraceEntry

/-- The record of a step. -/
def ofStep (number : Nat) (step : Step) : TraceEntry where
  number := number
  action := step.action
  want := step.want.render
  got := step.got.render
  note := step.note

/-- The record as data. -/
def toDatum (e : TraceEntry) : Datum :=
  .object
    [("action", .str e.action.word), ("detail", .str e.note), ("got", .str e.got),
     ("step", .nat e.number), ("want", .str e.want)]

end TraceEntry

end TypeFlow
