/-!
# TypeFlow.Scalar

The built-in scalar types and their names. `ofName?_eq_some_iff` says that a
scalar is what its name reads as, and that nothing else is.
-/

namespace TypeFlow

/-- The built-in scalar types. -/
inductive Scalar where
  | bool
  | int
  | int8
  | int16
  | int32
  | int64
  | int128
  | uint
  | uint8
  | uint16
  | uint32
  | uint64
  | uint128
  | float32
  | float64
  | string
  | byte
  | rune
  deriving DecidableEq, Repr

namespace Scalar

/-- All scalars. -/
def all : List Scalar :=
  [bool, int, int8, int16, int32, int64, int128, uint, uint8, uint16, uint32, uint64, uint128,
   float32, float64, string, byte, rune]

/-- The name of a scalar. -/
def name : Scalar → String
  | bool => "bool"
  | int => "int"
  | int8 => "int8"
  | int16 => "int16"
  | int32 => "int32"
  | int64 => "int64"
  | int128 => "int128"
  | uint => "uint"
  | uint8 => "uint8"
  | uint16 => "uint16"
  | uint32 => "uint32"
  | uint64 => "uint64"
  | uint128 => "uint128"
  | float32 => "float32"
  | float64 => "float64"
  | string => "string"
  | byte => "byte"
  | rune => "rune"

/-- The scalar of a name. -/
def ofName? (name : String) : Option Scalar := all.find? fun s => s.name == name

/-- Every scalar is the one that its name reads as. -/
theorem ofName?_name (s : Scalar) : ofName? s.name = some s := by
  cases s <;> decide

/-- The scalar of a name is the one that has the name. -/
theorem ofName?_eq_some_iff {n : String} {s : Scalar} : ofName? n = some s ↔ s.name = n := by
  constructor
  · intro h
    simpa using List.find?_some h
  · rintro rfl
    exact ofName?_name s

end Scalar

end TypeFlow
