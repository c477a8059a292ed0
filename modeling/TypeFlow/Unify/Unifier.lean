import TypeFlow.Unify.Run

/-!
# TypeFlow.Unify.Unifier

A unifier over time: it keeps the bindings it has found and, once tracing is
on, a record of every step. A call that fails leaves the bindings as they
were; its steps are recorded all the same.

* `take_subst_of_error` — a failed call changes no binding;
* `take_trace` — what a call adds to the trace, and that nothing recorded
  before is altered.
-/

namespace TypeFlow

/-- The state of a unifier. -/
structure Unifier where
  limits : Limits := {}
  subst : Subst := []
  tracing : Bool := false
  trace : List TraceEntry := []

namespace Unifier

/-- The records of steps that follow `count` earlier ones. -/
def number (count : Nat) : List Step → List TraceEntry
  | [] => []
  | step :: steps => .ofStep (count + 1) step :: number (count + 1) steps

/-- What the steps of a call add to the trace. -/
def recorded (u : Unifier) (steps : List Step) : List TraceEntry :=
  if u.tracing then number u.trace.length steps else []

/-- Takes in a run: its steps go to the trace, its bindings count if it
succeeded. -/
def take (u : Unifier) (run : Run) : Except UnifyError Unit × Unifier :=
  let u := { u with trace := u.trace ++ u.recorded run.steps }
  match run.outcome with
  | .ok s => (.ok (), { u with subst := s })
  | .error e => (.error e, u)

/-- Unifies two types. -/
def unify (u : Unifier) (want got : Ty) : Except UnifyError Unit × Unifier :=
  u.take (want.unify u.limits got u.subst)

/-- Unifies two references. -/
def unifyRefs (u : Unifier) (want got : TyRef) : Except UnifyError Unit × Unifier :=
  u.take (want.unify u.limits got u.subst)

/-- Records the steps from now on. -/
def enableTracing (u : Unifier) : Unifier := { u with tracing := true }

/-- The reference with everything found so far put in. -/
def instantiate (u : Unifier) (r : TyRef) : TyRef := u.subst.applyRef r

/-! ## what a call changes -/

/-- A call that succeeds leaves the bindings it has come to, and one that fails those
that were there. -/
theorem take_subst (u : Unifier) (run : Run) :
    (u.take run).2.subst = match run.outcome with | .ok s => s | .error _ => u.subst := by
  simp only [take]
  split <;> rfl

/-- What is recorded of a call comes behind what was recorded before. -/
theorem take_trace (u : Unifier) (run : Run) :
    (u.take run).2.trace = u.trace ++ u.recorded run.steps := by
  simp only [take]
  split <;> rfl

/-- A call answers whether its run has succeeded, with the error if not. -/
theorem take_fst (u : Unifier) (run : Run) :
    (u.take run).1 = run.outcome.map fun _ => () := by
  simp only [take]
  split <;> simp_all [Except.map]

/-- A call that fails changes no binding. -/
theorem take_subst_of_error {u : Unifier} {run : Run} {e : UnifyError}
    (h : (u.take run).1 = .error e) : (u.take run).2.subst = u.subst := by
  rw [take_fst] at h
  rw [take_subst]
  cases hr : run.outcome <;> simp_all [Except.map]

end Unifier

namespace Subst

/-- Unifies two types under the usual limits: whether it succeeded, and the
bindings, which are the old ones if it did not. -/
def unify (s : Subst) (want got : Ty) : Bool × Subst :=
  match (want.unify {} got s).outcome with
  | .ok s' => (true, s')
  | .error _ => (false, s)

end Subst

end TypeFlow
