import TypeFlow.Boundary.Site

/-!
# TypeFlow.Boundary.Call

Checking a call against the parameters of what is called. A wrong number of
arguments is the only complaint where there is one. Otherwise every argument
that does not fit its parameter is reported in order, and if there are several
of them a summary follows.
-/

namespace TypeFlow

/-- A call: what is called, its parameters and the arguments given. -/
structure Call where
  callee : String
  params : List Site
  args : List Site
  position : Option Position := none

namespace Call

/-- An argument that does not fit its parameter. -/
structure Misfit where
  index : Nat
  param : Site
  arg : Site
  discord : Discord

/-- What is wrong with an argument; open types fit everything. -/
def argDiscord? (limits : Limits) (param arg : Site) : Option Discord :=
  if param.isWildcard || arg.isAny then none else discord? limits param.ty arg.ty

/-- The arguments that do not fit, in order. -/
def misfits (limits : Limits) (call : Call) : List Misfit :=
  (call.params.zip call.args).zipIdx.filterMap fun p =>
    (argDiscord? limits p.1.1 p.1.2).map (⟨p.2, p.1.1, p.1.2, ·⟩)

namespace Misfit

/-- What is reported about an argument, before the call is added. -/
def report (m : Misfit) : Diagnostic :=
  match m.discord with
  | .arity found => .ofArity m.param.ty m.arg.ty found
  | .type =>
    let message :=
      "call argument type mismatch: arg " ++ toString m.index ++ " expected " ++
        String.ofList m.param.ty ++ ", got " ++ String.ofList m.arg.ty
    let d : Diagnostic := { category := .callArgTypeMismatch, message }
    d.withTypes m.param.ty m.arg.ty

/-- What is reported about an argument of a call of `callee`. -/
def diagnostic (callee : String) (m : Misfit) : Diagnostic :=
  let d := (m.report.withData "argIndex" (.nat m.index)).withData "callee" (.str callee)
  (d.withData? "expectedPos" (m.param.position.map Position.toDatum)).placed m.arg.position

/-- The entry of an argument in the list of places, if its trouble has one. -/
def place? (m : Misfit) : Option Datum :=
  match m.discord with
  | .type => none
  | .arity found =>
    let position := match m.param.position with
      | some p => [("expectedPos", p.toDatum)]
      | none => []
    let name := match m.param.name with
      | some n => if n.isEmpty then [] else [("paramName", Datum.str n)]
      | none => []
    some (.object
      ([("argIndex", .nat m.index), ("base", .str found.base), ("path", .strs found.path),
        ("pathIdx", .nats found.pathIdx), ("fieldPath", .strs found.fieldPath)] ++
        position ++ name))

end Misfit

/-- The summary of several arguments that do not fit. -/
def summary (call : Call) (ms : List Misfit) : Diagnostic :=
  let places := ms.filterMap Misfit.place?
  let d := (Diagnostic.ofCategory .callArgsMismatchSummary).withData "count" (.nat ms.length)
  let d := d.withData "indices" (.nats (ms.map Misfit.index))
  let d := d.withData "callee" (.str call.callee)
  (d.withData? "paths" (if places.isEmpty then none else some (.arr places))).placed call.position

/-- The wrong number of arguments. -/
def arityDiagnostic (call : Call) : Diagnostic :=
  let d := (Diagnostic.ofCategory .callArityMismatch).withData "callee" (.str call.callee)
  let d := d.withData "expectedArity" (.nat call.params.length)
  (d.withData "actualArity" (.nat call.args.length)).placed call.position

/-- What is wrong with a call. -/
def check (limits : Limits) (call : Call) : List Diagnostic :=
  if call.params.length ≠ call.args.length then
    [call.arityDiagnostic]
  else
    let ms := call.misfits limits
    ms.map (Misfit.diagnostic call.callee) ++ if 1 < ms.length then [call.summary ms] else []

end Call

end TypeFlow
