import TypeFlow.NameMap

/-!
# TypeFlow.Report.Datum

Structured data: what diagnostics carry and what settings are read from.
Objects keep their keys in the order of `NameMap`.
-/

namespace TypeFlow

/-- A piece of structured data. A number is an integer, or a decimal
`mantissa / 10 ^ exponent` that was written with a fraction or an exponent. -/
inductive Datum where
  | null
  | bool (b : Bool)
  | int (n : Int)
  | decimal (mantissa : Int) (exponent : Nat)
  | str (s : String)
  | arr (items : List Datum)
  | obj (entries : List (String × Datum))

namespace Datum

instance : Inhabited Datum := ⟨.null⟩

/-- A number that counts or indexes something. -/
def nat (n : Nat) : Datum := .int n

/-- Unread text as data. -/
def text (s : List Char) : Datum := .str (String.ofList s)

/-- A list of strings. -/
def strs (l : List String) : Datum := .arr (l.map .str)

/-- A list of counts or indices. -/
def nats (l : List Nat) : Datum := .arr (l.map nat)

/-- An object with the given entries. -/
def object (entries : List (String × Datum)) : Datum := .obj (NameMap.ofList entries)

end Datum

end TypeFlow
