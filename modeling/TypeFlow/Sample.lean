import TypeFlow.Text.Ranges

/-!
# TypeFlow.Sample

Type texts of any size, to try readers and comparisons on: deep nesting, wide
records, and pairs of types that differ in one place far down.
-/

namespace TypeFlow

namespace Sample

/-- The text `leaf` inside `n` slices. -/
def nestedSlices (n : Nat) (leaf : Text) : Text :=
  (List.replicate n "slice<".toList).flatten ++ leaf ++ List.replicate n '>'

/-- The field at `index` of a wide record, its number written with at least
four digits. -/
def wideField (leaf : Text) (index : Nat) : Text :=
  'f' :: (toString index).toList.leftpad 4 '0' ++
    ":map<string,Owned<".toList ++ leaf ++ ">>".toList

/-- A record with `n` fields. -/
def wideStruct (n : Nat) (leaf : Text) : Text :=
  "Struct\x7b".toList ++ [','].intercalate ((List.range n).map (wideField leaf)) ++ ['\x7d']

/-- A type inside one more layer: a map at even levels, a record at odd
ones. -/
def layer (level : Nat) (inner : Text) : Text :=
  if level % 2 = 0 then "map<string,".toList ++ inner ++ ['>']
  else "Struct\x7bid:int,inner:".toList ++ inner ++ ['\x7d']

/-- A type under `n` layers. -/
def buried : Nat → Text → Text
  | 0, leaf => leaf
  | n + 1, leaf => layer n (buried n leaf)

/-- Two types that differ only in the number of arguments of a generic under
`n` layers. -/
def buriedMismatch (n : Nat) : Text × Text :=
  (buried n "Owned<T>".toList, buried n "Owned<int,string>".toList)

end Sample

end TypeFlow
