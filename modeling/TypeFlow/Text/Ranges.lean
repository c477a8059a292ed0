/-!
# TypeFlow.Text.Ranges

Character classes given as ranges of code points. A class of the Unicode
standard is a table of ranges; a character belongs to the class when one of
the ranges holds its code point.

Main statement: `contains_iff`, which reads the test back as membership.
-/

namespace TypeFlow

/-- Unread type text. Reading works on characters; names that have been read
are `String`s. -/
abbrev Text := List Char

/-- Ranges of code points, each given by its first and its last member. -/
abbrev CodeRanges := List (Nat × Nat)

namespace CodeRanges

/-- Whether some range holds the code point of `c`. -/
def contains (table : CodeRanges) (c : Char) : Bool :=
  table.any fun r => r.1 ≤ c.toNat && c.toNat ≤ r.2

/-- A table contains the characters whose code points lie in one of its ranges. -/
theorem contains_iff {table : CodeRanges} {c : Char} :
    table.contains c = true ↔ ∃ r ∈ table, r.1 ≤ c.toNat ∧ c.toNat ≤ r.2 := by
  simp [contains]

end CodeRanges

end TypeFlow
