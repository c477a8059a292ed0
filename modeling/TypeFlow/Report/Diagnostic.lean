import TypeFlow.Report.Category
import TypeFlow.Report.Datum

/-!
# TypeFlow.Report.Diagnostic

Diagnostics: a category, a message, perhaps a place in the source, and data
that says the same in a structured way. They are built up step by step; a key
that is given again replaces what it held.
-/

namespace TypeFlow

/-- A place in the source: line and column from 1, and the byte offset. -/
structure Position where
  line : Nat
  column : Nat
  offset : Nat
  deriving DecidableEq, Repr

/-- A place as data. -/
def Position.toDatum (p : Position) : Datum :=
  .object [("column", .nat p.column), ("line", .nat p.line), ("offset", .nat p.offset)]

/-- A diagnostic. -/
structure Diagnostic where
  category : Category
  message : String
  position : Option Position := none
  data : NameMap Datum := []

namespace Diagnostic

/-- A diagnostic whose message is the description of its category. -/
def ofCategory (category : Category) : Diagnostic := { category, message := category.description }

/-- Moves a diagnostic to a place, if there is one. -/
def placed (d : Diagnostic) (position : Option Position) : Diagnostic :=
  match position with
  | some p => { d with position := some p }
  | none => d

/-- Puts `value` at `key`. -/
def withData (d : Diagnostic) (key : String) (value : Datum) : Diagnostic :=
  { d with data := d.data.insert key value }

/-- Puts `value` at `key`, if there is one. -/
def withData? (d : Diagnostic) (key : String) (value : Option Datum) : Diagnostic :=
  match value with
  | some v => d.withData key v
  | none => d

/-- Puts in all entries of an object; other data has none. -/
def withPayload (d : Diagnostic) (payload : Datum) : Diagnostic :=
  match payload with
  | .obj entries => { d with data := d.data.insertAll entries }
  | _ => d

/-- The diagnostic on one line. -/
def display (d : Diagnostic) : String :=
  let place := match d.position with
    | some p => " at " ++ toString p.line ++ ":" ++ toString p.column
    | none => ""
  "error[" ++ d.category.code ++ "]: " ++ d.message ++ place

/-- The diagnostic as data; what is not there is left out. -/
def toDatum (d : Diagnostic) : Datum :=
  let position := match d.position with
    | some p => [("pos", p.toDatum)]
    | none => []
  let data := if d.data.isEmpty then [] else [("data", Datum.obj d.data)]
  .object
    ([("level", .str "error"), ("code", .str d.category.code), ("message", .str d.message)] ++
      position ++ data)

/-- Several diagnostics on one line: the first of them speaks for all. -/
def displayAll (ds : List Diagnostic) : String := (ds.head?.map display).getD ""

/-- What is added is seen under its own key and nowhere else. -/
theorem find?_withData (d : Diagnostic) (key other : String) (value : Datum) :
    (d.withData key value).data.find? other =
      if key = other then some value else d.data.find? other :=
  NameMap.find?_insert d.data key other value

/-- What may be added is seen under no other key. -/
theorem find?_withData?_of_ne {key other : String} (h : key ≠ other) (d : Diagnostic)
    (value : Option Datum) : (d.withData? key value).data.find? other = d.data.find? other := by
  cases value with
  | none => rfl
  | some v => rw [withData?, find?_withData, if_neg h]

@[simp] theorem data_placed (d : Diagnostic) (position : Option Position) :
    (d.placed position).data = d.data := by
  cases position <;> rfl

/-! ## what is added keeps the category -/

@[simp] theorem category_placed (d : Diagnostic) (position : Option Position) :
    (d.placed position).category = d.category := by
  cases position <;> rfl

@[simp] theorem category_withData (d : Diagnostic) (key : String) (value : Datum) :
    (d.withData key value).category = d.category := rfl

@[simp] theorem category_withData? (d : Diagnostic) (key : String) (value : Option Datum) :
    (d.withData? key value).category = d.category := by
  cases value <;> rfl

end Diagnostic

end TypeFlow
