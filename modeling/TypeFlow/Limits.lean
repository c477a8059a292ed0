import TypeFlow.ReadError
import TypeFlow.Report.Datum

/-!
# TypeFlow.Limits

How deeply types may nest. Type texts come from users, so every traversal is
bounded: the outermost type is at depth 1, and a traversal that comes to a
depth past the limit gives up with `TooDeep`.

Traversals take the levels that are left as a number that falls to `0`; with
`limits.maxDepth` of them at the outermost type, there are
`limits.maxDepth - steps` at a type that is `steps` further in.

* `check_succ_eq_error_iff` — no level is left exactly where `check` fails;
* `check_succ_eq_ok_iff` — where it does not, one is left to spend, and the rest
  is what the parts have.
-/

namespace TypeFlow

/-- Bounds on the traversals of a type. -/
structure Limits where
  maxDepth : Nat := 64
  deriving DecidableEq, Repr

namespace Limits

instance : Inhabited Limits := ⟨{}⟩

/-- Whether `depth` is still within the limit. -/
def check (limits : Limits) (depth : Nat) : Except TooDeep Unit :=
  if limits.maxDepth < depth then .error ⟨limits.maxDepth⟩ else .ok ()

section

variable {limits : Limits} {steps : Nat}

/-- The levels are used up exactly where the check fails, and what it fails with
is the limit. -/
theorem check_succ_eq_error_iff {e : TooDeep} :
    limits.check (steps + 1) = .error e ↔
      limits.maxDepth - steps = 0 ∧ e = ⟨limits.maxDepth⟩ := by
  unfold check
  split
  · next hpassed =>
    have hused : limits.maxDepth - steps = 0 := by omega
    rw [Except.error.injEq, eq_comm]
    exact (and_iff_right hused).symm
  · next hwithin =>
    have hleft : limits.maxDepth - steps ≠ 0 := by omega
    simp [hleft]

/-- Where the check succeeds, a level is spent and the parts have what remains. -/
theorem check_succ_eq_ok_iff :
    limits.check (steps + 1) = .ok () ↔
      limits.maxDepth - steps = limits.maxDepth - (steps + 1) + 1 := by
  unfold check
  split
  · next hpassed =>
    have hused : limits.maxDepth - steps ≠ limits.maxDepth - (steps + 1) + 1 := by omega
    simp [hused]
  · next hwithin =>
    have hleft : limits.maxDepth - steps = limits.maxDepth - (steps + 1) + 1 := by omega
    exact iff_of_true rfl hleft

end

/-! ## limits as data -/

/-- The depths that a setting can hold: 64 bits without a sign. -/
def ofDepth? : Datum → Option Limits
  | .int n => if 0 ≤ n ∧ n.toNat < UInt64.size then some ⟨n.toNat⟩ else none
  | _ => none

/-- Limits from a setting: an object, where other keys do not matter, or a
list of at most one depth. What is left out has its usual value. -/
def ofDatum? : Datum → Option Limits
  | .obj entries =>
    match NameMap.find? entries "max_depth" with
    | none => some {}
    | some depth => ofDepth? depth
  | .arr [] => some {}
  | .arr [depth] => ofDepth? depth
  | _ => none

/-- Limits as a setting. -/
def toDatum (limits : Limits) : Datum := .object [("max_depth", .nat limits.maxDepth)]

end Limits

end TypeFlow
