import TypeFlow.Unify.Texts

/-!
# TypeFlow.Boundary.Signature

Instantiating a generic signature: the parameters are unified with the
arguments of a call, and the results are given with every variable that this
has found put in.
-/

namespace TypeFlow

/-- The parameters and results of a generic function. -/
structure Signature where
  params : List Text
  results : List Text

namespace Signature

/-- A result with the bindings of `s` put in. -/
def result (limits : Limits) (s : Subst) (text : Text) : Except UnifyError String := do
  let r ← TyRef.readToUnify limits text
  return (s.applyRef r).render

/-- The results of a call with the given arguments. -/
def instantiate (limits : Limits) (sig : Signature) (args : List Text) :
    Except UnifyError (List String) :=
  if sig.params.length ≠ args.length then
    .error (.argumentCount sig.params.length args.length)
  else do
    let s ← Text.unifyAll limits (sig.params.zip args) []
    sig.results.mapM fun text => result limits s text

end Signature

end TypeFlow
