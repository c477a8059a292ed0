import TypeFlow.Text.Blank

/-!
# TypeFlow.Text.Nesting

Brackets and quotes in type text. One machine reads a text character by
character: it keeps the brackets that are open and whether it stands inside a
quoted part, where brackets and commas mean nothing and a backslash passes
over the next character. Two readers run on it:

* `enclosed` — reads up to the character that brings the machine back to the
  top, which is the end of a bracket or of a quoted part;
* `pieces` — cuts a text at the commas that stand at the top.

A closing bracket that does not close the innermost open one is a fault where
it stands. At the end of the text an open quote is reported before an open
bracket.

* `enclosed_append` — nothing is lost, the text is the enclosed part, the
  closing character and the rest;
* `pieces_join` — the pieces with commas between them are the text.
-/

namespace TypeFlow

/-! ## brackets, quotes and marks -/

/-- The four kinds of brackets. -/
inductive Bracket where
  | angle
  | brace
  | paren
  | square
  deriving DecidableEq, Repr

/-- The two kinds of quotes. -/
inductive Quote where
  | single
  | double
  deriving DecidableEq, Repr

/-- What a character means to the nesting of a text. -/
inductive Mark where
  | quote (q : Quote)
  | escape
  | opening (b : Bracket)
  | closing (b : Bracket)
  | comma
  | plain
  deriving DecidableEq, Repr

/-- The quote that a character is. -/
def Quote.ofChar? (c : Char) : Option Quote :=
  if c = '"' then some .double else if c = '\'' then some .single else none

/-- The mark that a character is. -/
def Mark.ofChar (c : Char) : Mark :=
  match c with
  | '"' => .quote .double
  | '\'' => .quote .single
  | '\\' => .escape
  | '<' => .opening .angle
  | '{' => .opening .brace
  | '(' => .opening .paren
  | '[' => .opening .square
  | '>' => .closing .angle
  | '}' => .closing .brace
  | ')' => .closing .paren
  | ']' => .closing .square
  | ',' => .comma
  | _ => .plain

/-- Whether a character opens a bracket. -/
def isOpening (c : Char) : Bool := c == '<' || c == '{' || c == '(' || c == '['

/-- Whether a character closes a bracket. -/
def isClosing (c : Char) : Bool := c == '>' || c == '}' || c == ')' || c == ']'

/-! ## the machine -/

/-- Where the machine stands with respect to quotes. -/
inductive Quoting where
  | outside
  | inside (q : Quote)
  | escaped (q : Quote)
  deriving DecidableEq, Repr

/-- The state of the machine: quotes, and the open brackets, innermost
first. -/
structure Nest where
  quoting : Quoting
  brackets : List Bracket
  deriving DecidableEq, Repr

namespace Nest

/-- Outside of every bracket and quote. -/
def top : Nest := ⟨.outside, []⟩

/-- Right after an opening bracket. -/
def opened (b : Bracket) : Nest := ⟨.outside, [b]⟩

/-- Right after an opening quote. -/
def quoted (q : Quote) : Nest := ⟨.inside q, []⟩

/-- One character on; `none` at a closing bracket that does not close the
innermost open one. -/
def step (n : Nest) (m : Mark) : Option Nest :=
  match n.quoting, m with
  | .escaped q, _ => some ⟨.inside q, n.brackets⟩
  | .inside q, .escape => some ⟨.escaped q, n.brackets⟩
  | .inside q, .quote r => some ⟨if q = r then .outside else .inside q, n.brackets⟩
  | .inside q, _ => some ⟨.inside q, n.brackets⟩
  | .outside, .quote q => some ⟨.inside q, n.brackets⟩
  | .outside, .opening b => some ⟨.outside, b :: n.brackets⟩
  | .outside, .closing b =>
    match n.brackets with
    | [] => none
    | a :: rest => if a = b then some ⟨.outside, rest⟩ else none
  | .outside, _ => some n

end Nest

/-- What is wrong with the nesting of a text. -/
inductive Fault where
  | unbalanced
  | openQuote
  deriving DecidableEq, Repr

namespace Nest

/-- What is wrong with a text that ends here. -/
def atEnd (n : Nest) : Option Fault :=
  match n.quoting, n.brackets with
  | .outside, [] => none
  | .outside, _ :: _ => some .unbalanced
  | .inside _, _ => some .openQuote
  | .escaped _, _ => some .openQuote

/-- A text ends without a fault exactly when the machine is back at the top. -/
theorem atEnd_eq_none_iff {n : Nest} : n.atEnd = none ↔ n = top := by
  obtain ⟨q, bs⟩ := n
  cases q <;> cases bs <;> simp [atEnd, top]

@[simp] theorem atEnd_top : top.atEnd = none := rfl

/-! ## the two readers -/

/-- The text up to the character that brings the machine back to the top,
and the text after that character. -/
def enclosed : Nest → Text → Except Fault (Text × Text)
  | n, [] => .error (n.atEnd.getD .unbalanced)
  | n, c :: s =>
    match n.step (Mark.ofChar c) with
    | none => .error .unbalanced
    | some n' =>
      if n' = top then .ok ([], s)
      else (enclosed n' s).map fun r => (c :: r.1, r.2)

/-- Nothing is lost: the enclosed part, one closing character and the rest
are the text. -/
theorem enclosed_append {n : Nest} {s inner rest : Text} (h : n.enclosed s = .ok (inner, rest)) :
    ∃ c, s = inner ++ c :: rest := by
  induction s generalizing n inner with
  | nil => simp [enclosed] at h
  | cons c s ih =>
    rw [enclosed] at h
    split at h
    · simp at h
    · next n' _ =>
      split at h
      · simp only [Except.ok.injEq, Prod.mk.injEq] at h
        obtain ⟨rfl, rfl⟩ := h
        exact ⟨c, rfl⟩
      · cases hs : n'.enclosed s with
        | error f => simp [hs, Except.map] at h
        | ok r =>
          simp only [hs, Except.map, Except.ok.injEq, Prod.mk.injEq] at h
          obtain ⟨rfl, rfl⟩ := h
          obtain ⟨d, hd⟩ := ih hs
          exact ⟨d, by rw [hd]; rfl⟩

/-- Puts a character at the front of the first piece. -/
def pushFirst (c : Char) : List Text → List Text
  | [] => [[c]]
  | p :: ps => (c :: p) :: ps

/-- The pieces of a text between the commas at the top. -/
def pieces : Nest → Text → Except Fault (List Text)
  | n, [] =>
    match n.atEnd with
    | none => .ok [[]]
    | some f => .error f
  | n, c :: s =>
    if n = top ∧ c = ',' then (pieces n s).map ([] :: ·)
    else match n.step (Mark.ofChar c) with
      | none => .error .unbalanced
      | some n' => (pieces n' s).map (pushFirst c)

theorem pushFirst_ne_nil (c : Char) (ps : List Text) : pushFirst c ps ≠ [] := by
  cases ps <;> simp [pushFirst]

/-- Every text has a piece, if only an empty one. -/
theorem pieces_ne_nil {n : Nest} {s : Text} {ps : List Text} (h : n.pieces s = .ok ps) :
    ps ≠ [] := by
  cases s with
  | nil =>
    rw [pieces] at h
    split at h <;> simp_all
    simp [← h]
  | cons c s =>
    rw [pieces] at h
    split at h
    · cases hs : n.pieces s with
      | error f => simp [hs, Except.map] at h
      | ok r => simp [hs, Except.map] at h; simp [← h]
    · split at h
      · simp at h
      · next n' _ =>
        cases hs : n'.pieces s with
        | error f => simp [hs, Except.map] at h
        | ok r =>
          simp only [hs, Except.map, Except.ok.injEq] at h
          exact h ▸ pushFirst_ne_nil c r

/-- A character put in front of the first piece comes in front of the text. -/
theorem intercalate_pushFirst (c : Char) {ps : List Text} (h : ps ≠ []) :
    [','].intercalate (pushFirst c ps) = c :: [','].intercalate ps := by
  match ps, h with
  | [p], _ => simp [pushFirst, List.intercalate]
  | p :: q :: ps, _ => simp [pushFirst, List.intercalate, List.intersperse]

/-- Nothing is lost: with commas between them, the pieces are the text. -/
theorem pieces_join {n : Nest} {s : Text} {ps : List Text} (h : n.pieces s = .ok ps) :
    [','].intercalate ps = s := by
  induction s generalizing n ps with
  | nil =>
    rw [pieces] at h
    split at h <;> simp_all
    simp [← h, List.intercalate]
  | cons c s ih =>
    rw [pieces] at h
    split at h
    · next hc =>
      cases hs : n.pieces s with
      | error f => simp [hs, Except.map] at h
      | ok r =>
        simp only [hs, Except.map, Except.ok.injEq] at h
        subst h
        have hr := ih hs
        have hne := pieces_ne_nil hs
        match r, hne with
        | p :: ps, _ => simp [List.intercalate, List.intersperse] at hr ⊢; exact ⟨hc.2.symm, hr⟩
    · split at h
      · simp at h
      · next n' _ =>
        cases hs : n'.pieces s with
        | error f => simp [hs, Except.map] at h
        | ok r =>
          simp only [hs, Except.map, Except.ok.injEq] at h
          subst h
          rw [intercalate_pushFirst c (pieces_ne_nil hs), ih hs]

end Nest

end TypeFlow
