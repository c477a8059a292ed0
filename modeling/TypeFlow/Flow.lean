import TypeFlow.Ty.Read

/-!
# TypeFlow.Flow

Whether a payload of one type may flow to where another is declared:

* a type variable or the wildcard takes anything and flows anywhere;
* an optional takes what its content takes, with or without one optional
  around it;
* a union flows where all of its alternatives flow, and takes what one of its
  alternatives takes;
* a record takes records, whose shared fields have to fit; a shared field may
  be optional;
* a generic takes the generics of its name, argument by argument.

Main statement: `flowsAt_self`, every type flows to where it is declared.
-/

namespace TypeFlow

namespace Ty

/-- The type of a value that is there: one optional is taken off. -/
def present : Ty → Ty
  | .optional t => t
  | t => t

/-- Flow with `budget` levels left. -/
def flowsAt (limit : Nat) (budget : Nat) (want got : Ty) : Except TooDeep Bool :=
  match budget with
  | 0 => .error ⟨limit⟩
  | budget + 1 =>
    if want = got then .ok true
    else if want.isUnconstrained || got.isUnconstrained then .ok true
    else
      match want, got with
      | .optional w, got => flowsAt limit budget w got.present
      | want, .union gs =>
        if gs.isEmpty then .ok false else gs.allM fun g => flowsAt limit budget want g
      | .union ws, got => ws.anyM fun w => flowsAt limit budget w got
      | .struct ws, .struct gs =>
        ws.allM fun e =>
          match NameMap.find? gs e.1 with
          | none => .ok true
          | some g => flowsAt limit budget e.2 g.present
      | .generic w ws, .generic g gs =>
        if w = g ∧ ws.length = gs.length then
          (ws.zip gs).allM fun p => flowsAt limit budget p.1 p.2
        else
          .ok false
      | _, _ => .ok false

/-- Every type flows to where it is declared. -/
@[simp] theorem flowsAt_self (limit budget : Nat) (t : Ty) :
    flowsAt limit (budget + 1) t t = .ok true := by
  simp [flowsAt]

/-- Whether a payload of type `got` may flow to where `want` is declared. -/
def flows (limits : Limits) (want got : Ty) : Except TooDeep Bool :=
  flowsAt limits.maxDepth limits.maxDepth want got

/-- Whether a payload may flow; one that nests too deeply may not. -/
def mayFlow (limits : Limits) (want got : Ty) : Bool :=
  match flows limits want got with
  | .ok b => b
  | .error _ => false

end Ty

namespace Text

/-- Whether a payload may flow, by the texts of the types. What cannot be
read does not flow. -/
def mayFlow (limits : Limits) (want got : Text) : Bool :=
  match Ty.read limits want, Ty.read limits got with
  | .ok w, .ok g => Ty.mayFlow limits w g
  | _, _ => false

end Text

end TypeFlow
