import TypeFlow.Ty.Basic

/-!
# TypeFlow.Ty.Print

The canonical text of a type: no blanks, arguments and alternatives in order
between angle brackets, the fields of a record in the order of the map between
braces. `eachChars_eq_map` and `fieldChars_eq_map` give the parts of a type
their texts one by one.
-/

namespace TypeFlow

namespace Text

/-- Texts with commas between them. -/
def commas (parts : List Text) : Text := [','].intercalate parts

/-- Texts with commas between them, in angle brackets. -/
def angled (parts : List Text) : Text := '<' :: commas parts ++ ['>']

/-- Texts with commas between them, in braces. -/
def braced (parts : List Text) : Text := '\x7b' :: commas parts ++ ['\x7d']

@[simp] theorem commas_nil : commas [] = [] := rfl

@[simp] theorem commas_singleton (p : Text) : commas [p] = p := by
  simp [commas, List.intercalate]

theorem commas_cons_cons (p q : Text) (ps : List Text) :
    commas (p :: q :: ps) = p ++ ',' :: commas (q :: ps) := by
  simp [commas, List.intercalate, List.intersperse]

end Text

namespace Ty

/-- The word before the arguments of an optional type. -/
def optionalWord : Text := ['O', 'p', 't', 'i', 'o', 'n', 'a', 'l']

/-- The word before the fields of a record. -/
def structWord : Text := ['S', 't', 'r', 'u', 'c', 't']

/-- The word before the alternatives of a union. -/
def unionWord : Text := ['U', 'n', 'i', 'o', 'n']

mutual
/-- The canonical text of a type. -/
def chars : Ty → Text
  | .scalar s => s.name.toList
  | .named n => n.toList
  | .generic n args => n.toList ++ Text.angled (eachChars args)
  | .optional t => optionalWord ++ Text.angled [chars t]
  | .struct fields => structWord ++ Text.braced (fieldChars fields)
  | .union alts => unionWord ++ Text.angled (eachChars alts)

/-- The texts of a list of types. -/
def eachChars : List Ty → List Text
  | [] => []
  | t :: ts => chars t :: eachChars ts

/-- The texts of a list of fields. -/
def fieldChars : List (String × Ty) → List Text
  | [] => []
  | (n, t) :: es => (n.toList ++ ':' :: chars t) :: fieldChars es
end

/-- Types are printed one by one. -/
theorem eachChars_eq_map (ts : List Ty) : eachChars ts = ts.map chars := by
  induction ts with
  | nil => rfl
  | cons t ts ih => simp [eachChars, ih]

/-- Fields are printed one by one, each with its name and a colon. -/
theorem fieldChars_eq_map (es : List (String × Ty)) :
    fieldChars es = es.map fun e => e.1.toList ++ ':' :: e.2.chars := by
  induction es with
  | nil => rfl
  | cons e es ih => simp [fieldChars, ih]

/-- The canonical text of a type, as a string. -/
def render (t : Ty) : String := String.ofList t.chars

end Ty

end TypeFlow
