import TypeFlow.Text.Ranges

/-!
# TypeFlow.Text.Blank

Blank characters (the Unicode property `White_Space`) and trimming.

* `trim` — the text without the blanks at both ends, and with everything
  between them;
* `trim_eq_nil_iff` — a text trims to nothing exactly when all of it is blank;
* `trim_trim` — a trimmed text has nothing left to trim.
-/

namespace TypeFlow

/-- The characters with the property `White_Space`. -/
def blankRanges : CodeRanges :=
  [(0x0009, 0x000D), (0x0020, 0x0020), (0x0085, 0x0085), (0x00A0, 0x00A0), (0x1680, 0x1680),
   (0x2000, 0x200A), (0x2028, 0x2029), (0x202F, 0x202F), (0x205F, 0x205F), (0x3000, 0x3000)]

/-- Whether a character is blank. -/
def isBlank (c : Char) : Bool := blankRanges.contains c

namespace Text

/-! ## trimming -/

/-- The text without the blanks at its front. -/
def trimStart (s : Text) : Text := s.dropWhile isBlank

/-- The text without the blanks at its end. -/
def trimEnd (s : Text) : Text := (s.reverse.dropWhile isBlank).reverse

/-- The text without the blanks at its two ends. -/
def trim (s : Text) : Text := trimEnd (trimStart s)

@[simp] theorem trimStart_nil : trimStart [] = [] := rfl

@[simp] theorem trimEnd_nil : trimEnd [] = [] := rfl

@[simp] theorem trim_nil : trim [] = [] := rfl

theorem trimStart_cons_of_blank {c : Char} {s : Text} (h : isBlank c = true) :
    trimStart (c :: s) = trimStart s := by
  simp [trimStart, h]

theorem trimStart_cons_of_not_blank {c : Char} {s : Text} (h : isBlank c = false) :
    trimStart (c :: s) = c :: s := by
  simp [trimStart, h]

/-- Nothing is left at the front exactly when all of the text is blank. -/
theorem trimStart_eq_nil_iff {s : Text} : trimStart s = [] ↔ ∀ c ∈ s, isBlank c = true := by
  induction s with
  | nil => simp
  | cons c s ih => cases h : isBlank c <;> simp_all [trimStart]

/-- Nothing is left at the end exactly when all of the text is blank. -/
theorem trimEnd_eq_nil_iff {s : Text} : trimEnd s = [] ↔ ∀ c ∈ s, isBlank c = true := by
  rw [trimEnd, List.reverse_eq_nil_iff, ← trimStart, trimStart_eq_nil_iff]
  simp

/-- A character that is not blank keeps its place at the front. -/
theorem trimEnd_cons_of_not_blank {c : Char} {s : Text} (h : isBlank c = false) :
    trimEnd (c :: s) = c :: trimEnd s := by
  simp only [trimEnd, List.reverse_cons]
  rw [List.dropWhile_append]
  split
  · next hs =>
    rw [List.isEmpty_iff] at hs
    simp [h, hs]
  · simp

/-- What trimming leaves of a text does not start with a blank. -/
theorem trimStart_eq_self_iff {s : Text} :
    trimStart s = s ↔ ∀ c ∈ s.head?, isBlank c = false := by
  cases s with
  | nil => simp
  | cons c s =>
    cases h : isBlank c with
    | false => simp [trimStart_cons_of_not_blank h, h]
    | true =>
      simp only [trimStart_cons_of_blank h, List.head?_cons, Option.mem_def, Option.some.injEq,
        forall_eq', h, Bool.true_eq_false, iff_false]
      intro hc
      have := (List.dropWhile_suffix isBlank (l := s)).length_le
      rw [trimStart] at hc
      rw [hc, List.length_cons] at this
      omega

/-- What is left begins with no blank. -/
theorem head?_trimStart {s : Text} : ∀ c ∈ (trimStart s).head?, isBlank c = false := by
  intro c hc
  have := List.head?_dropWhile_not isBlank s
  rw [trimStart] at hc
  rw [Option.mem_def] at hc
  simpa [hc] using this

@[simp] theorem trimStart_trimStart (s : Text) : trimStart (trimStart s) = trimStart s :=
  trimStart_eq_self_iff.2 head?_trimStart

@[simp] theorem trimEnd_trimEnd (s : Text) : trimEnd (trimEnd s) = trimEnd s := by
  have := trimStart_trimStart s.reverse
  simp only [trimStart] at this
  simp [trimEnd, this]

/-- Trimming the end leaves the front alone. -/
theorem trimStart_trimEnd_trimStart (s : Text) :
    trimStart (trimEnd (trimStart s)) = trimEnd (trimStart s) := by
  have h := head?_trimStart (s := s)
  generalize trimStart s = t at h
  cases t with
  | nil => rfl
  | cons c t =>
    have hc : isBlank c = false := h c rfl
    rw [trimEnd_cons_of_not_blank hc, trimStart_cons_of_not_blank hc]

/-- Trimming is idempotent: a trimmed text has nothing left to trim. -/
@[simp] theorem trim_trim (s : Text) : trim (trim s) = trim s := by
  rw [trim, trim, trimStart_trimEnd_trimStart, trimEnd_trimEnd]

/-- Exactly the texts of blanks trim to nothing. -/
theorem trim_eq_nil_iff {s : Text} : trim s = [] ↔ ∀ c ∈ s, isBlank c = true := by
  rw [trim, trimEnd_eq_nil_iff]
  constructor
  · intro h
    refine trimStart_eq_nil_iff.1 ?_
    cases hs : trimStart s with
    | nil => rfl
    | cons c t =>
      have hb := head?_trimStart (s := s) c (by simp [hs])
      have := h c (by simp [hs])
      simp [hb] at this
  · intro h
    simp [trimStart_eq_nil_iff.2 h]

/-! ## cutting -/

/-- The text after `word`, if the text starts with it. -/
def after? (word s : Text) : Option Text :=
  if word.isPrefixOf s then some (s.drop word.length) else none

/-- What stands after a word is what is put behind it to give the text. -/
theorem after?_eq_some_iff {word s rest : Text} : after? word s = some rest ↔ s = word ++ rest := by
  simp only [after?]
  split
  · next h =>
    obtain ⟨t, rfl⟩ := List.isPrefixOf_iff_prefix.1 h
    simp [eq_comm]
  · next h =>
    simp only [reduceCtorEq, false_iff]
    rintro rfl
    exact h (List.isPrefixOf_iff_prefix.2 (List.prefix_append _ _))

/-- The text up to the first character with `p`, and the text from there
on. -/
def breakAt (p : Char → Bool) (s : Text) : Text × Text :=
  (s.takeWhile fun c => !p c, s.dropWhile fun c => !p c)

/-- Breaking a text loses nothing. -/
theorem breakAt_append (p : Char → Bool) (s : Text) : (s.breakAt p).1 ++ (s.breakAt p).2 = s := by
  simp [breakAt]

/-- The parts of a text between the occurrences of `sep`; there is always one
more of them than there are separators. -/
def cutAt (sep : Char) : Text → List Text
  | [] => [[]]
  | c :: s =>
    if c = sep then [] :: cutAt sep s
    else match cutAt sep s with
      | [] => [[c]]
      | part :: parts => (c :: part) :: parts

end Text

end TypeFlow
