import TypeFlow.Text.Blank
import TypeFlow.Text.Letter
import TypeFlow.Text.Numeral

/-!
# TypeFlow.Text.Name

Names as type texts spell them, and the two conventions that some of them
carry:

* a name is a letter or `_`, then letters, numerals, `_` and `.` (a name may
  be qualified by its package);
* one upper-case ASCII letter is a type variable;
* the word `any`, or no text at all, is the wildcard.

Main statement: `ne_of_isNameChar`, by which no character of a name is blank
or has a meaning for the reader.
-/

namespace TypeFlow

/-- Whether a name may start with `c`. -/
def isNameStart (c : Char) : Bool := isLetter c || c == '_'

/-- Whether a name may go on with `c`. -/
def isNameChar (c : Char) : Bool := isLetter c || isNumeral c || c == '_' || c == '.'

/-- What a name can begin with can also go on in it. -/
theorem isNameChar_of_isNameStart {c : Char} (h : isNameStart c = true) : isNameChar c = true := by
  simp only [isNameStart, Bool.or_eq_true] at h
  rcases h with h | h <;> simp [isNameChar, h]

/-- A name does not start with a dot. -/
theorem isNameStart_dot : isNameStart '.' = false := by
  decide +kernel

/-- The wildcard's name. -/
def wildcardName : String := "any"

namespace Text

/-- Whether the text is a name. -/
def isName : Text → Bool
  | [] => false
  | c :: s => isNameStart c && s.all isNameChar

/-- Whether the text is the name of a type variable. -/
def isVar : Text → Bool
  | [c] => c.isUpper
  | _ => false

/-- The wildcard as text. -/
def wildcard : Text := ['a', 'n', 'y']

/-- Whether the text stands for any type: `any`, or nothing but blanks. -/
def isWildcard (s : Text) : Bool := s.trim == [] || s.trim == wildcard

@[simp] theorem isName_nil : isName [] = false := rfl

/-- Every character of a name is a name character. -/
theorem isNameChar_of_mem {s : Text} (h : s.isName = true) : ∀ c ∈ s, isNameChar c = true := by
  cases s with
  | nil => simp
  | cons c s =>
    simp only [isName, Bool.and_eq_true, List.all_eq_true] at h
    intro d hd
    rcases List.mem_cons.1 hd with rfl | hd
    · exact isNameChar_of_isNameStart h.1
    · exact h.2 d hd

theorem ne_nil_of_isName {s : Text} (h : s.isName = true) : s ≠ [] := by
  rintro rfl
  simp at h

/-- A type variable is one letter between `A` and `Z`. -/
theorem isVar_iff {s : Text} : s.isVar = true ↔ ∃ c : Char, c.isUpper = true ∧ s = [c] := by
  constructor
  · intro h
    match s, h with
    | [c], h => exact ⟨c, h, rfl⟩
  · rintro ⟨c, hc, rfl⟩
    exact hc

@[simp] theorem isWildcard_nil : isWildcard [] = true := rfl

end Text

/-! ## name characters have no other meaning -/

/-- The characters that have a meaning of their own in type text. -/
def markChars : List Char :=
  ['"', '\'', '\\', '<', '>', '{', '}', '(', ')', '[', ']', ',', ':', '*']

/-- No character with a meaning is in a name, by going through them. -/
theorem all_markChars : (markChars.all fun c => !isNameChar c) = true := by
  decide +kernel

theorem isNameChar_of_mem_markChars {c : Char} (h : c ∈ markChars) : isNameChar c = false := by
  have := List.all_eq_true.1 all_markChars c h
  simpa using this

/-- Whether the ranges of a table keep clear of the blanks. -/
def clearOfBlanks (table : CodeRanges) : Bool :=
  blankRanges.all fun b => table.all fun r => b.2 < r.1 || r.2 < b.1

/-- No letter is blank, by going through the ranges of both. -/
theorem clearOfBlanks_letterRanges : clearOfBlanks letterRanges = true := by
  decide +kernel

/-- No numeral is blank. -/
theorem clearOfBlanks_numeralRanges : clearOfBlanks numeralRanges = true := by
  decide +kernel

/-- A table that keeps clear of the blanks holds none of them. -/
theorem contains_of_isBlank {table : CodeRanges} (h : clearOfBlanks table = true) {c : Char}
    (hc : isBlank c = true) : table.contains c = false := by
  obtain ⟨b, hb, hlo, hhi⟩ := CodeRanges.contains_iff.1 hc
  refine Bool.eq_false_iff.2 fun ht => ?_
  obtain ⟨r, hr, hrlo, hrhi⟩ := CodeRanges.contains_iff.1 ht
  simp only [clearOfBlanks, List.all_eq_true, Bool.or_eq_true, decide_eq_true_eq] at h
  have := h b hb r hr
  omega

/-- A blank is no part of a name. -/
theorem isNameChar_of_isBlank {c : Char} (h : isBlank c = true) : isNameChar c = false := by
  have hl : isLetter c = false := contains_of_isBlank clearOfBlanks_letterRanges h
  have hn : isNumeral c = false := contains_of_isBlank clearOfBlanks_numeralRanges h
  have hu : c ≠ '_' := by rintro rfl; simp [isBlank, CodeRanges.contains, blankRanges] at h
  have hd : c ≠ '.' := by rintro rfl; simp [isBlank, CodeRanges.contains, blankRanges] at h
  simp [isNameChar, hl, hn, hu, hd]

/-- Names are plain: a character of a name is neither blank nor one of the
reader's marks. -/
theorem ne_of_isNameChar {c : Char} (h : isNameChar c = true) :
    isBlank c = false ∧ c ∉ markChars := by
  constructor
  · cases hb : isBlank c with
    | false => rfl
    | true => simp [isNameChar_of_isBlank hb] at h
  · intro hc
    simp [isNameChar_of_mem_markChars hc] at h

end TypeFlow
