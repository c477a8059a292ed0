import TypeFlow.Ty.Basic

/-!
# TypeFlow.Ty.Field

Following a dotted path into a payload type. The way starts at the payload
of an event. A segment names a field of a record; on the way to it one
optional is opened and given back to the result, and a union gives the union
of what its alternatives give, each of them followed as a payload of its own.
Nothing else has fields.

Types whose values have an order are those that are made of scalars by
optionals and unions.
-/

namespace TypeFlow

namespace Ty

/-- What an event carries; other types carry themselves. -/
def payload : Ty → Ty
  | .generic n [t] => if n = "Event" then t else .generic n [t]
  | t => t

/-- What may still be opened on the way to a field. -/
inductive Opening where
  | event
  | optional
  | nothing
  deriving DecidableEq, Repr

mutual
/-- The type of the field `name`. -/
def field? (name : String) : Opening → Ty → Option Ty
  | .event, .generic n [t] => if n = "Event" then field? name .optional t else none
  | .event, .optional t => (field? name .nothing t).map .optional
  | .optional, .optional t => (field? name .nothing t).map .optional
  | _, .union alts => (fieldOfEach? name alts).map .union
  | _, .struct fields => NameMap.find? fields name
  | _, _ => none

/-- The types of the field `name` in all of a list of payloads. -/
def fieldOfEach? (name : String) : List Ty → Option (List Ty)
  | [] => some []
  | t :: ts =>
    match field? name .event t with
    | none => none
    | some u => (fieldOfEach? name ts).map (u :: ·)
end

/-- A field of each of some types is looked up type by type. -/
theorem fieldOfEach?_eq_mapM (name : String) (ts : List Ty) :
    fieldOfEach? name ts = ts.mapM (field? name .event) := by
  induction ts with
  | nil => rfl
  | cons t ts ih =>
    rw [fieldOfEach?, List.mapM_cons]
    cases field? name .event t with
    | none => rfl
    | some u => cases h : fieldOfEach? name ts <;> simp [← ih, h]

/-- Follows the names in order. `absent` tells whether an optional has been
opened on the way. -/
def follow : Bool → Ty → List String → Option Ty
  | absent, t, [] => some (if absent then .optional t else t)
  | absent, t, name :: names =>
    match t with
    | .optional inner =>
      match field? name .nothing inner with
      | none => none
      | some u => follow true u names
    | t =>
      match field? name .nothing t with
      | none => none
      | some u => follow absent u names

/-- The names of a dotted path: blanks around them do not matter, and neither
do empty ones. -/
def pathNames (path : Text) : List String :=
  (((path.cutAt '.').map Text.trim).filter (· ≠ [])).map String.ofList

/-- The type at the end of a dotted path. -/
def resolve? (root : Ty) (path : Text) : Option Ty := follow false root.payload (pathNames path)

/-! ## order -/

mutual
/-- Whether values of the type can be compared. -/
def isOrderable : Ty → Bool
  | .scalar _ => true
  | .optional t => isOrderable t
  | .union alts => !alts.isEmpty && allOrderable alts
  | .named _ => false
  | .generic _ _ => false
  | .struct _ => false

/-- Whether values of all of a list of types can be compared. -/
def allOrderable : List Ty → Bool
  | [] => true
  | t :: ts => isOrderable t && allOrderable ts
end

/-- All of some types have an order exactly when each of them does. -/
theorem allOrderable_iff {ts : List Ty} :
    allOrderable ts = true ↔ ∀ t ∈ ts, t.isOrderable = true := by
  induction ts with
  | nil => simp [allOrderable]
  | cons t ts ih => simp [allOrderable, ih]

end Ty

end TypeFlow
