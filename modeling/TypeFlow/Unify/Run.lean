import TypeFlow.Limits
import TypeFlow.Subst
import TypeFlow.Unify.Step

/-!
# TypeFlow.Unify.Run

Unification of a declared type with an actual one. Variables are those of the
declared side, the first binding of a variable stays, and every later
occurrence has to meet a type that is written alike; so one pass from left to
right is enough.

A run is a value: the steps it went through and, at the end, the extended
substitution or the cause of failure.
-/

namespace TypeFlow

/-- A run of the unifier: its steps and its outcome. -/
structure Run where
  steps : List Step
  outcome : Except UnifyError Subst

namespace Run

/-- A run of one step that succeeds with `s`. -/
def done (step : Step) (s : Subst) : Run := ⟨[step], .ok s⟩

/-- A run that fails at once. -/
def failed (want got : Ty) (error : UnifyError) : Run :=
  ⟨[.failure want got error], .error error⟩

/-- Goes on with `next` where `r` succeeds. -/
def andThen (r : Run) (next : Subst → Run) : Run :=
  match r.outcome with
  | .error _ => r
  | .ok s =>
    let r' := next s
    ⟨r.steps ++ r'.steps, r'.outcome⟩

/-- Runs through a list from left to right, each run from the substitution
that the one before has left. -/
def each {α : Type} (run : α → Subst → Run) : List α → Subst → Run
  | [], s => ⟨[], .ok s⟩
  | a :: as, s => (run a s).andThen (each run as)

/-- After a success the next run goes on from its bindings, and its steps are added. -/
theorem andThen_ok {r : Run} {s : Subst} (h : r.outcome = .ok s) (next : Subst → Run) :
    r.andThen next = ⟨r.steps ++ (next s).steps, (next s).outcome⟩ := by
  simp [andThen, h]

/-- After a failure nothing more is done. -/
theorem andThen_error {r : Run} {e : UnifyError} (h : r.outcome = .error e) (next : Subst → Run) :
    r.andThen next = r := by
  simp [andThen, h]

@[simp] theorem done_andThen (step : Step) (s : Subst) (next : Subst → Run) :
    (done step s).andThen next = ⟨step :: (next s).steps, (next s).outcome⟩ := rfl

end Run

namespace Ty

/-- Whether two heads agree, in upper or lower case as far as ASCII goes. -/
def sameHead (want got : String) : Bool :=
  want.toList.map Char.toLower == got.toList.map Char.toLower

/-- Lets the variable `v` stand for `got`. -/
def bindVar (v : String) (got : Ty) (s : Subst) : Run :=
  match NameMap.find? s v with
  | none => .done (.bind v got) (NameMap.insert s v got)
  | some bound =>
    if bound.chars = got.chars then .done (.boundMatch v bound got) s
    else .failed (.named v) got (.conflict v bound got)

/-- Unification with `budget` levels left. -/
def unifyAt (limit : Nat) (budget : Nat) (want got : Ty) (s : Subst) : Run :=
  match budget with
  | 0 => .failed want got (.unreadable (.tooDeep limit))
  | budget + 1 =>
    if want.isVar then
      bindVar want.head got s
    else if want.isWildcard || got.isWildcard then
      .done (.wildcard want got) s
    else
      match want, got with
      | .struct ws, .struct gs =>
        if NameMap.names ws = NameMap.names gs then
          (Run.done (.decompose want got) s).andThen
            (Run.each (fun p => unifyAt limit budget p.1 p.2)
              ((NameMap.values ws).zip (NameMap.values gs)))
        else
          .failed want got (.fieldMismatch want got)
      | .struct _, _ => .failed want got (.headMismatch want got)
      | _, .struct _ => .failed want got (.headMismatch want got)
      | _, _ =>
        if sameHead want.head got.head = false then
          .failed want got (.headMismatch want got)
        else if want.arity ≠ got.arity then
          .failed want got (.arityMismatch want.head want.arity got.arity)
        else if want.arity = 0 then
          .done (.identity want got) s
        else
          (Run.done (.decompose want got) s).andThen
            (Run.each (fun p => unifyAt limit budget p.1 p.2) (want.args.zip got.args))

/-- Unifies `want` with `got`, starting from the bindings of `s`. -/
def unify (limits : Limits) (want got : Ty) (s : Subst) : Run :=
  unifyAt limits.maxDepth limits.maxDepth want got s

end Ty

namespace TyRef

/-- Unifies two references: their modifiers have to be the same. -/
def unify (limits : Limits) (want got : TyRef) (s : Subst) : Run :=
  if want.sameModifiers got then want.ty.unify limits got.ty s
  else .failed want.ty got.ty (.modifierMismatch want got)

end TyRef

end TypeFlow
