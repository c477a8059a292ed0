import TypeFlow.Proofs.Offsets

/-!
# TypeFlow.Proofs.Indexing

Readers that go through a list of marks by index: to the end of a quoted part, to the end of
a bracket, and from comma to comma.  A quoted part is jumped over at once, and in it a
backslash jumps over two places whatever stands there.  On the bytes of a text such a jump may
end inside of a character or behind the end of the text.

* `quoteEnd_byteMarks`, `bracketEnd_byteMarks`, `ranges_byteMarks` — the readers find the same
  places in the bytes of a text as in its characters;
* `bracketEndAt_step`, `rangesAt_step` — one place on, a reader does what the machine does;
* `quoteEnd_charMarks`, `bracketEnd_charMarks`, `texts_ranges` — the readers find what
  `Nest.enclosed` and `Nest.pieces` do.
-/

namespace TypeFlow

theorem Mark.ofChar_eq_comma_iff {c : Char} : Mark.ofChar c = .comma ↔ c = ',' := by
  constructor
  · intro h
    unfold Mark.ofChar at h
    split at h <;> simp_all
  · rintro rfl
    rfl

namespace Indexed

/-! ## to the end of a quoted part -/

theorem lt_length_of_getElem? {marks : List Mark} {i : Nat} {m : Mark} (h : marks[i]? = some m) :
    i < marks.length :=
  (List.getElem?_eq_some_iff.mp h).1

/-- The place after the quote that closes a part, read from a place inside of the part. -/
def quoteEndFrom (marks : List Mark) (q : Quote) (i : Nat) : Except Fault Nat :=
  match h : marks[i]? with
  | none => .error .openQuote
  | some .escape => quoteEndFrom marks q (i + 2)
  | some (.quote r) => if q = r then .ok (i + 1) else quoteEndFrom marks q (i + 1)
  | some _ => quoteEndFrom marks q (i + 1)
termination_by marks.length - i
decreasing_by all_goals have hi := lt_length_of_getElem? h; omega

/-- The place after the quote that closes the part whose opening quote `q` is at `i`. -/
def quoteEnd (marks : List Mark) (q : Quote) (i : Nat) : Except Fault Nat :=
  quoteEndFrom marks q (i + 1)

/-- A quote that is open at the end is a fault. -/
theorem quoteEndFrom_none {marks : List Mark} {i : Nat} (q : Quote) (h : marks[i]? = none) :
    quoteEndFrom marks q i = .error .openQuote := by
  rw [quoteEndFrom]
  split <;> simp_all

/-- One step inside of a quote: an escape passes over the next mark, the quote's own
kind ends it. -/
theorem quoteEndFrom_some {marks : List Mark} {i : Nat} {m : Mark} (q : Quote) :
    marks[i]? = some m → quoteEndFrom marks q i =
      match m with
      | .escape => quoteEndFrom marks q (i + 2)
      | .quote r => if q = r then .ok (i + 1) else quoteEndFrom marks q (i + 1)
      | _ => quoteEndFrom marks q (i + 1) := by
  intro h
  rw [quoteEndFrom]
  cases m <;> split <;> simp_all

/-- The end of a quote lies behind where it was looked for. -/
theorem lt_of_quoteEndFrom {marks : List Mark} {q : Quote} {i j : Nat}
    (h : quoteEndFrom marks q i = .ok j) : i < j := by
  fun_induction quoteEndFrom marks q i with
  | case1 => cases h
  | case2 i _ ih => have := ih h; omega
  | case3 => cases h; omega
  | case4 i _ _ _ ih => have := ih h; omega
  | case5 i _ _ _ _ ih => have := ih h; omega

/-- The end of a quote lies behind the quote that opened it. -/
theorem lt_of_quoteEnd {marks : List Mark} {q : Quote} {i j : Nat}
    (h : quoteEnd marks q i = .ok j) : i < j := by
  have := lt_of_quoteEndFrom h
  omega

/-! ## to the end of a bracket -/

/-- The place of the character that closes the outermost of the open brackets, innermost
first. -/
def bracketEndFrom (marks : List Mark) (brackets : List Bracket) (i : Nat) : Except Fault Nat :=
  match h : marks[i]? with
  | none => .error .unbalanced
  | some (.quote q) =>
    match hq : quoteEnd marks q i with
    | .error f => .error f
    | .ok j =>
      have : i < j := lt_of_quoteEnd hq
      bracketEndFrom marks brackets j
  | some (.opening b) => bracketEndFrom marks (b :: brackets) (i + 1)
  | some (.closing b) =>
    match brackets with
    | [] => .error .unbalanced
    | a :: rest =>
      if a ≠ b then .error .unbalanced
      else if rest = [] then .ok i
      else bracketEndFrom marks rest (i + 1)
  | some _ => bracketEndFrom marks brackets (i + 1)
termination_by marks.length - i
decreasing_by all_goals have hi := lt_length_of_getElem? h; omega

/-- The place of the character that closes the bracket at `i`. -/
def bracketEnd (marks : List Mark) (i : Nat) : Except Fault Nat := bracketEndFrom marks [] i

/-- A bracket that is open at the end is a fault. -/
theorem bracketEndFrom_none {marks : List Mark} {i : Nat} (brackets : List Bracket)
    (h : marks[i]? = none) : bracketEndFrom marks brackets i = .error .unbalanced := by
  rw [bracketEndFrom]
  split <;> simp_all

/-- One step inside of brackets: quotes are passed over as a whole, and the closing
bracket that leaves none open is the end. -/
theorem bracketEndFrom_some {marks : List Mark} {i : Nat} {m : Mark} (brackets : List Bracket) :
    marks[i]? = some m → bracketEndFrom marks brackets i =
      match m with
      | .quote q => quoteEnd marks q i >>= bracketEndFrom marks brackets
      | .opening b => bracketEndFrom marks (b :: brackets) (i + 1)
      | .closing b =>
        match brackets with
        | [] => .error .unbalanced
        | a :: rest =>
          if a ≠ b then .error .unbalanced
          else if rest = [] then .ok i
          else bracketEndFrom marks rest (i + 1)
      | _ => bracketEndFrom marks brackets (i + 1) := by
  intro h
  rw [bracketEndFrom]
  split
  · next hnone => simp [hnone] at h
  · next q hq =>
    cases h.symm.trans hq
    split <;> simp_all [bind, Except.bind]
  · next b hb => cases h.symm.trans hb; rfl
  · next b hb => cases h.symm.trans hb; rfl
  · next hm => cases h.symm.trans hm; cases m <;> simp_all

/-! ## from comma to comma -/

/-- Where a reader cuts a text, from where to where, and what stops it before the end. -/
structure Cuts where
  ranges : List (Nat × Nat)
  fault : Option Fault
  deriving DecidableEq, Repr

/-- One more range in front. -/
def Cuts.push (r : Nat × Nat) (cuts : Cuts) : Cuts := { cuts with ranges := r :: cuts.ranges }

/-- The cuts at other places. -/
def Cuts.moved (f : Nat → Nat) (cuts : Cuts) : Cuts :=
  { cuts with ranges := cuts.ranges.map fun r => (f r.1, f r.2) }

/-- Nothing is cut any more. -/
def Cuts.stop (f : Fault) : Cuts := ⟨[], some f⟩

/-- The ranges between the commas outside of all brackets, inside of the open ones; the first
range begins at `start`. -/
def rangesFrom (marks : List Mark) (brackets : List Bracket) (start i : Nat) : Cuts :=
  match h : marks[i]? with
  | none => if brackets = [] then ⟨[(start, marks.length)], none⟩ else .stop .unbalanced
  | some (.quote q) =>
    match hq : quoteEnd marks q i with
    | .error f => .stop f
    | .ok j =>
      have : i < j := lt_of_quoteEnd hq
      rangesFrom marks brackets start j
  | some (.opening b) => rangesFrom marks (b :: brackets) start (i + 1)
  | some (.closing b) =>
    match brackets with
    | [] => .stop .unbalanced
    | a :: rest => if a ≠ b then .stop .unbalanced else rangesFrom marks rest start (i + 1)
  | some .comma =>
    if brackets = [] then (rangesFrom marks brackets (i + 1) (i + 1)).push (start, i)
    else rangesFrom marks brackets start (i + 1)
  | some _ => rangesFrom marks brackets start (i + 1)
termination_by marks.length - i
decreasing_by all_goals have hi := lt_length_of_getElem? h; omega

/-- The ranges between the commas outside of all brackets. -/
def ranges (marks : List Mark) : Cuts := rangesFrom marks [] 0 0

/-- At the end the last range is complete, if no bracket is open. -/
theorem rangesFrom_none {marks : List Mark} {i : Nat} (brackets : List Bracket) (start : Nat)
    (h : marks[i]? = none) :
    rangesFrom marks brackets start i =
      if brackets = [] then ⟨[(start, marks.length)], none⟩ else .stop .unbalanced := by
  rw [rangesFrom]
  split <;> simp_all

/-- What a reader that waits for the end of a quoted part goes on with. -/
def Cuts.after (x : Except Fault Nat) (next : Nat → Cuts) : Cuts :=
  match x with
  | .error f => .stop f
  | .ok j => next j

/-- One step of cutting: a comma outside of brackets ends a range, and the next one
starts behind it. -/
theorem rangesFrom_some {marks : List Mark} {i : Nat} {m : Mark} (brackets : List Bracket)
    (start : Nat) :
    marks[i]? = some m → rangesFrom marks brackets start i =
      match m with
      | .quote q => .after (quoteEnd marks q i) (rangesFrom marks brackets start)
      | .opening b => rangesFrom marks (b :: brackets) start (i + 1)
      | .closing b =>
        match brackets with
        | [] => .stop .unbalanced
        | a :: rest => if a ≠ b then .stop .unbalanced else rangesFrom marks rest start (i + 1)
      | .comma =>
        if brackets = [] then (rangesFrom marks brackets (i + 1) (i + 1)).push (start, i)
        else rangesFrom marks brackets start (i + 1)
      | _ => rangesFrom marks brackets start (i + 1) := by
  intro h
  rw [rangesFrom]
  split
  · next hnone => simp [hnone] at h
  · next q hq =>
    cases h.symm.trans hq
    split <;> simp_all [Cuts.after]
  · next b hb => cases h.symm.trans hb; rfl
  · next b hb => cases h.symm.trans hb; rfl
  · next hcomma => cases h.symm.trans hcomma; rfl
  · next hm => cases h.symm.trans hm; cases m <;> simp_all

/-! ## bytes and characters -/

section

open Text

/-- The reader of a quote passes over what has no meaning. -/
theorem passes_quoteEndFrom (marks : List Mark) (q : Quote) :
    Passes marks (quoteEndFrom marks q) where
  plain k hk := by rw [quoteEndFrom_some q hk]
  behind k hk := by
    rw [quoteEndFrom_none q (List.getElem?_eq_none hk),
      quoteEndFrom_none q (List.getElem?_eq_none (by omega))]

/-- The reader of a bracket passes over what has no meaning. -/
theorem passes_bracketEndFrom (marks : List Mark) (brackets : List Bracket) :
    Passes marks (bracketEndFrom marks brackets) where
  plain k hk := by rw [bracketEndFrom_some brackets hk]
  behind k hk := by
    rw [bracketEndFrom_none brackets (List.getElem?_eq_none hk),
      bracketEndFrom_none brackets (List.getElem?_eq_none (by omega))]

/-- The reader of commas passes over what has no meaning. -/
theorem passes_rangesFrom (marks : List Mark) (brackets : List Bracket) (start : Nat) :
    Passes marks (rangesFrom marks brackets start) where
  plain k hk := by rw [rangesFrom_some brackets start hk]
  behind k hk := by
    rw [rangesFrom_none brackets start (List.getElem?_eq_none hk),
      rangesFrom_none brackets start (List.getElem?_eq_none (by omega))]

variable (s : Text)

/-- A quote ends at the same character, whether bytes or characters are counted, by
recursion on the characters that are left. -/
theorem quoteEndFrom_byteMarks (q : Quote) (i : Nat) :
    quoteEndFrom s.byteMarks q (s.offset i) = (quoteEndFrom s.charMarks q i).map s.offset := by
  have hmark := getElem?_byteMarks s i
  have hnext := (passes_quoteEndFrom s.byteMarks q).next
  cases h : s.charMarks[i]? with
  | none => rw [quoteEndFrom_none q h, quoteEndFrom_none q (hmark.trans h)]; rfl
  | some m =>
      have hi : i < s.length := length_charMarks s ▸ lt_length_of_getElem? h
      rw [quoteEndFrom_some q h, quoteEndFrom_some q (hmark.trans h)]
      cases m with
      | escape =>
          -- the second place of the jump may lie inside of the escaped character
          have hjump : s.offset i + 2 = s.offset (i + 1) + 1 := by
            rw [offset_succ_of_mark h (by simp)]
          simp only [hjump, hnext (i + 1)]
          exact quoteEndFrom_byteMarks q (i + 2)
      | quote r =>
          by_cases hr : q = r
          · simp only [if_pos hr, Except.map, offset_succ_of_mark h (by simp)]
          · simp only [if_neg hr, hnext i]
            exact quoteEndFrom_byteMarks q (i + 1)
      | _ => exact (hnext i).trans (quoteEndFrom_byteMarks q (i + 1))
termination_by s.length - i

/-- **Closing quotes**: found at the same places in the bytes of a text and in its characters. -/
theorem quoteEnd_byteMarks (q : Quote) (i : Nat) :
    quoteEnd s.byteMarks q (s.offset i) = (quoteEnd s.charMarks q i).map s.offset :=
  ((passes_quoteEndFrom s.byteMarks q).next i).trans (quoteEndFrom_byteMarks s q (i + 1))

/-- A bracket ends at the same character, whether bytes or characters are counted. -/
theorem bracketEndFrom_byteMarks (brackets : List Bracket) (i : Nat) :
    bracketEndFrom s.byteMarks brackets (s.offset i) =
      (bracketEndFrom s.charMarks brackets i).map s.offset := by
  have hmark := getElem?_byteMarks s i
  have hnext : ∀ brackets, bracketEndFrom s.byteMarks brackets (s.offset i + 1) =
      bracketEndFrom s.byteMarks brackets (s.offset (i + 1)) := fun brackets =>
    (passes_bracketEndFrom s.byteMarks brackets).next i
  cases h : s.charMarks[i]? with
  | none => rw [bracketEndFrom_none brackets h, bracketEndFrom_none brackets (hmark.trans h)]; rfl
  | some m =>
      have hi : i < s.length := length_charMarks s ▸ lt_length_of_getElem? h
      rw [bracketEndFrom_some brackets h, bracketEndFrom_some brackets (hmark.trans h)]
      cases m with
      | quote q =>
          simp only [quoteEnd_byteMarks]
          cases hq : quoteEnd s.charMarks q i with
          | error f => rfl
          | ok j =>
              have hj := lt_of_quoteEnd hq
              exact bracketEndFrom_byteMarks brackets j
      | opening b => exact (hnext _).trans (bracketEndFrom_byteMarks (b :: brackets) (i + 1))
      | closing b =>
          cases brackets with
          | nil => rfl
          | cons a rest =>
              simp only
              split
              · rfl
              · split
                · rfl
                · exact (hnext _).trans (bracketEndFrom_byteMarks rest (i + 1))
      | _ => exact (hnext _).trans (bracketEndFrom_byteMarks brackets (i + 1))
termination_by s.length - i

/-- **Closing brackets**: found at the same places in the bytes of a text and in its
characters. -/
theorem bracketEnd_byteMarks (i : Nat) :
    bracketEnd s.byteMarks (s.offset i) = (bracketEnd s.charMarks i).map s.offset :=
  bracketEndFrom_byteMarks s [] i

/-- The ranges between commas are those of the same characters, whether bytes or
characters are counted. -/
theorem rangesFrom_byteMarks (brackets : List Bracket) (start i : Nat) :
    rangesFrom s.byteMarks brackets (s.offset start) (s.offset i) =
      (rangesFrom s.charMarks brackets start i).moved s.offset := by
  have hmark := getElem?_byteMarks s i
  have hnext : ∀ brackets start, rangesFrom s.byteMarks brackets start (s.offset i + 1) =
      rangesFrom s.byteMarks brackets start (s.offset (i + 1)) := fun brackets start =>
    (passes_rangesFrom s.byteMarks brackets start).next i
  cases h : s.charMarks[i]? with
  | none =>
      rw [rangesFrom_none brackets start h, rangesFrom_none brackets _ (hmark.trans h)]
      split
      · simp [Cuts.moved, offset_of_length_le]
      · rfl
  | some m =>
      have hi : i < s.length := length_charMarks s ▸ lt_length_of_getElem? h
      rw [rangesFrom_some brackets start h, rangesFrom_some brackets _ (hmark.trans h)]
      cases m with
      | quote q =>
          simp only [quoteEnd_byteMarks]
          cases hq : quoteEnd s.charMarks q i with
          | error f => rfl
          | ok j =>
              have hj := lt_of_quoteEnd hq
              exact rangesFrom_byteMarks brackets start j
      | opening b => exact (hnext _ _).trans (rangesFrom_byteMarks (b :: brackets) start (i + 1))
      | closing b =>
          cases brackets with
          | nil => rfl
          | cons a rest =>
              simp only
              split
              · rfl
              · exact (hnext _ _).trans (rangesFrom_byteMarks rest start (i + 1))
      | comma =>
          simp only
          split
          · -- a comma is one byte, so the next range begins with a character
            rw [← offset_succ_of_mark h (by simp), rangesFrom_byteMarks brackets (i + 1) (i + 1)]
            rfl
          · exact (hnext _ _).trans (rangesFrom_byteMarks brackets start (i + 1))
      | _ => exact (hnext _ _).trans (rangesFrom_byteMarks brackets start (i + 1))
termination_by s.length - i

/-- **Commas**: the bytes of a text are cut where its characters are. -/
theorem ranges_byteMarks : ranges s.byteMarks = (ranges s.charMarks).moved s.offset :=
  rangesFrom_byteMarks s [] 0 0

end

/-! ## quoted parts and the machine -/

open Nest

/-- The mark behind `front` is that of the character there. -/
theorem getElem?_charMarks_append (front rest : Text) (c : Char) :
    (Text.charMarks (front ++ c :: rest))[front.length]? = some (Mark.ofChar c) := by
  simp [Text.charMarks]

theorem getElem?_charMarks_end (s : Text) : (Text.charMarks (s ++ []))[s.length]? = none := by
  simp [Text.charMarks]

/-- A backslash is read together with the character after it, so this is a recursion on the
text and not on its characters. -/
theorem quoteEndFrom_charMarks (q : Quote) : (front rest : Text) →
    quoteEndFrom (Text.charMarks (front ++ rest)) q front.length =
      ((quoted q).enclosed rest).map fun p => front.length + p.1.length + 1
  | front, [] => by
      rw [quoteEndFrom_none q (getElem?_charMarks_end front)]
      rfl
  | front, c :: rest => by
      rw [quoteEndFrom_some q (getElem?_charMarks_append front rest c)]
      by_cases hq : c = q.char
      · subst hq
        rw [enclosed_quoted_close, Mark.ofChar_quoteChar]
        simp [Except.map]
      by_cases hc : c = '\\'
      · subst hc
        cases rest with
        | nil =>
            have hend : (Text.charMarks (front ++ ['\\']))[front.length + 2]? = none := by
              simp [Text.charMarks]
            exact quoteEndFrom_none q hend
        | cons d rest =>
            have ih := quoteEndFrom_charMarks q (front ++ ['\\', d]) rest
            simp only [List.append_assoc, List.cons_append, List.nil_append, List.length_append,
              List.length_cons, List.length_nil] at ih
            rw [enclosed_quoted_escape]
            refine Eq.trans ih ?_
            cases (quoted q).enclosed rest with
            | error f => rfl
            | ok p => simp only [Except.map, List.length_cons, Except.ok.injEq]; omega
      · have ih := quoteEndFrom_charMarks q (front ++ [c]) rest
        simp only [List.append_assoc, List.cons_append, List.nil_append, List.length_append,
          List.length_cons, List.length_nil] at ih
        have hnext : quoteEndFrom (Text.charMarks (front ++ c :: rest)) q (front.length + 1) =
            ((quoted q).enclosed (c :: rest)).map fun p => front.length + p.1.length + 1 := by
          rw [enclosed_quoted_char hc hq]
          refine Eq.trans ih ?_
          cases (quoted q).enclosed rest with
          | error f => rfl
          | ok p => simp only [Except.map, List.length_cons, Except.ok.injEq]; omega
        cases hm : Mark.ofChar c with
        | escape => exact absurd (Mark.ofChar_eq_escape_iff.mp hm) hc
        | quote r =>
            have hr : q ≠ r := fun hr => hq (hr ▸ Mark.ofChar_eq_quote_iff.mp hm)
            rw [← hnext]
            simp only [if_neg hr]
        | _ => exact hnext
termination_by _ rest => rest.length

/-- The quoted part at the end of `front` is the one that the machine reads. -/
theorem quoteEnd_charMarks (q : Quote) (front rest : Text) :
    quoteEnd (Text.charMarks (front ++ q.char :: rest)) q front.length =
      ((quoted q).enclosed rest).map fun p => front.length + 1 + p.1.length + 1 := by
  have h := quoteEndFrom_charMarks q (front ++ [q.char]) rest
  rw [← List.append_cons, List.length_append, List.length_singleton] at h
  exact h

/-! ## brackets and the machine -/

/-- What the reader of a bracket has still to do when it has come as far as the machine. -/
def bracketEndAt (marks : List Mark) (n : Nest) (i : Nat) : Except Fault Nat :=
  match n.quoting with
  | .outside => bracketEndFrom marks n.brackets i
  | .inside q => quoteEndFrom marks q i >>= bracketEndFrom marks n.brackets
  | .escaped q => quoteEndFrom marks q (i + 1) >>= bracketEndFrom marks n.brackets

/-- **One place on** inside of a bracket, the reader does what the machine does. -/
theorem bracketEndAt_step {marks : List Mark} {i : Nat} {m : Mark} (h : marks[i]? = some m)
    (n : Nest) (b : Bracket) :
    bracketEndAt marks (n.under [b]) i =
      match (n.under [b]).step m with
      | none => .error .unbalanced
      | some n' => if n' = top then .ok i else bracketEndAt marks n' (i + 1) := by
  obtain ⟨quoting, brackets⟩ := n
  have hne : ∀ quoting, ¬ (⟨quoting, brackets ++ [b]⟩ : Nest) = top := by simp [top]
  cases quoting with
  | outside =>
      simp only [bracketEndAt, under, bracketEndFrom_some _ h]
      cases m with
      | quote q => simp only [step, if_neg (hne _)]; rfl
      | opening d => simp [step, top]
      | closing d =>
          obtain ⟨a, rest, hrest⟩ := List.exists_cons_of_ne_nil (List.append_ne_nil_of_right_ne_nil
            brackets (List.cons_ne_nil b []))
          simp only [step, hrest]
          by_cases had : a = d
          · simp [had, top]
          · simp [had]
      | _ => simp only [step, if_neg (hne _)]
  | inside q =>
      simp only [bracketEndAt, under, quoteEndFrom_some q h]
      cases m with
      | quote r =>
          by_cases hr : q = r
          · simp only [step, if_pos hr, if_neg (hne _)]
            rfl
          · simp only [step, if_neg hr, if_neg (hne _)]
      | _ => simp only [step, if_neg (hne _)]
  | escaped q => simp only [bracketEndAt, under, step, if_neg (hne _)]

/-- At the end the reader of a bracket has the fault of the machine. -/
theorem bracketEndAt_end {marks : List Mark} {i : Nat} (h : marks[i]? = none) (n : Nest)
    (b : Bracket) :
    bracketEndAt marks (n.under [b]) i = .error ((n.under [b]).atEnd.getD .unbalanced) := by
  obtain ⟨quoting, brackets⟩ := n
  have hnext : marks[i + 1]? = none := by
    rw [List.getElem?_eq_none_iff] at h ⊢
    omega
  cases quoting with
  | outside =>
      simp only [bracketEndAt, under, bracketEndFrom_none _ h, atEnd]
      cases brackets <;> rfl
  | inside q => simp only [bracketEndAt, under, quoteEndFrom_none q h, atEnd]; rfl
  | escaped q => simp only [bracketEndAt, under, quoteEndFrom_none q hnext, atEnd]; rfl

/-- **The reader of a bracket and the machine agree**: from wherever they have come to,
the one finds the index where the other finds the enclosed text. -/
theorem bracketEndAt_charMarks (front rest : Text) (n : Nest) (b : Bracket) :
    bracketEndAt (Text.charMarks (front ++ rest)) (n.under [b]) front.length =
      ((n.under [b]).enclosed rest).map fun p => front.length + p.1.length := by
  induction rest generalizing front n with
  | nil =>
      rw [bracketEndAt_end (getElem?_charMarks_end front)]
      rfl
  | cons c rest ih =>
      rw [bracketEndAt_step (getElem?_charMarks_append front rest c), enclosed]
      cases hstep : (n.under [b]).step (Mark.ofChar c) with
      | none => rfl
      | some n' =>
          obtain ⟨-, -, rfl⟩ | ⟨k, -, rfl⟩ := step_under_cases hstep
          · rfl
          · have ih := ih (front ++ [c]) k
            rw [← List.append_cons, List.length_append, List.length_singleton] at ih
            simp only [if_neg (under_ne_top k b), ih]
            cases (k.under [b]).enclosed rest with
            | error f => rfl
            | ok p => simp only [Except.map, List.length_cons, Except.ok.injEq]; omega

/-- The bracket at the end of `front` closes where the machine comes back to the top. -/
theorem bracketEnd_charMarks {c : Char} {b : Bracket} (hc : Mark.ofChar c = .opening b)
    (front rest : Text) :
    bracketEnd (Text.charMarks (front ++ c :: rest)) front.length =
      ((opened b).enclosed rest).map fun p => front.length + 1 + p.1.length := by
  have h := bracketEndAt_charMarks (front ++ [c]) rest top b
  rw [← List.append_cons, List.length_append, List.length_singleton, top_under] at h
  rw [← h, bracketEnd, bracketEndFrom_some [] (getElem?_charMarks_append front rest c), hc]
  rfl

/-! ## commas and the machine -/

/-- What the reader of commas has still to do when it has come as far as the machine. -/
def rangesAt (marks : List Mark) (n : Nest) (start i : Nat) : Cuts :=
  match n.quoting with
  | .outside => rangesFrom marks n.brackets start i
  | .inside q => .after (quoteEndFrom marks q i) (rangesFrom marks n.brackets start)
  | .escaped q => .after (quoteEndFrom marks q (i + 1)) (rangesFrom marks n.brackets start)

/-- **One place on**, the reader of commas does what the machine does. -/
theorem rangesAt_step {marks : List Mark} {i : Nat} {m : Mark} (h : marks[i]? = some m) (n : Nest)
    (start : Nat) :
    rangesAt marks n start i =
      if n = top ∧ m = .comma then (rangesAt marks n (i + 1) (i + 1)).push (start, i)
      else
        match n.step m with
        | none => .stop .unbalanced
        | some n' => rangesAt marks n' start (i + 1) := by
  obtain ⟨quoting, brackets⟩ := n
  cases quoting with
  | outside =>
      simp only [rangesAt, rangesFrom_some _ _ h]
      cases m with
      | comma => by_cases hb : brackets = [] <;> simp [hb, top, step]
      | closing d =>
          cases brackets with
          | nil => simp [step]
          | cons a rest => by_cases had : a = d <;> simp [step, had]
      | _ => simp [step, quoteEnd]
  | inside q =>
      simp only [rangesAt, quoteEndFrom_some q h, top, Nest.mk.injEq, reduceCtorEq, false_and,
        if_false]
      cases m with
      | quote r => by_cases hr : q = r <;> simp [step, hr, Cuts.after]
      | _ => simp [step]
  | escaped q => simp [rangesAt, top, step]

/-- At the end the reader of commas stops as the machine does. -/
theorem rangesAt_end {marks : List Mark} {i : Nat} (h : marks[i]? = none) (n : Nest)
    (start : Nat) :
    rangesAt marks n start i =
      match n.atEnd with
      | none => ⟨[(start, marks.length)], none⟩
      | some f => .stop f := by
  obtain ⟨quoting, brackets⟩ := n
  have hnext : marks[i + 1]? = none := by
    rw [List.getElem?_eq_none_iff] at h ⊢
    omega
  cases quoting with
  | outside =>
      simp only [rangesAt, rangesFrom_none _ _ h, atEnd]
      cases brackets <;> rfl
  | inside q => simp only [rangesAt, quoteEndFrom_none q h, atEnd]; rfl
  | escaped q => simp only [rangesAt, quoteEndFrom_none q hnext, atEnd]; rfl

/-- The texts in the ranges of a text, if nothing stopped the reader. -/
def Cuts.texts (s : Text) (cuts : Cuts) : Except Fault (List Text) :=
  match cuts.fault with
  | none => .ok (cuts.ranges.map fun r => (s.take r.2).drop r.1)
  | some f => .error f

/-- The text of a range put in front is the first of the texts. -/
theorem Cuts.texts_push (s : Text) (r : Nat × Nat) (cuts : Cuts) :
    (cuts.push r).texts s = (cuts.texts s).map (((s.take r.2).drop r.1) :: ·) := by
  unfold texts push
  cases cuts.fault <;> rfl

/-- A character at the end of what is put in front of a piece is put in front of it
first. -/
theorem pushText_append_pushFirst (s : Text) (c : Char) (ps : List Text) :
    pushText (s ++ [c]) ps = pushText s (pushFirst c ps) := by
  simp [pushText]

/-- **The reader of commas and the machine agree**: the texts of the ranges are the
pieces, the first of which has begun at `start`. -/
theorem texts_rangesAt (front rest : Text) (n : Nest) {start : Nat}
    (hstart : start ≤ front.length) :
    (rangesAt (Text.charMarks (front ++ rest)) n start front.length).texts (front ++ rest) =
      (n.pieces rest).map (pushText (front.drop start)) := by
  induction rest generalizing front n start with
  | nil =>
      rw [rangesAt_end (getElem?_charMarks_end front), pieces]
      cases n.atEnd with
      | some f => rfl
      | none => simp [Cuts.texts, Except.map]
  | cons c rest ih =>
      have ih : ∀ n {start}, start ≤ front.length + 1 →
          (rangesAt (Text.charMarks (front ++ c :: rest)) n start (front.length + 1)).texts
            (front ++ c :: rest) = (n.pieces rest).map (pushText ((front ++ [c]).drop start)) := by
        intro n start hstart
        have h := @ih (front ++ [c]) n start (by simpa using hstart)
        rw [← List.append_cons, List.length_append, List.length_singleton] at h
        exact h
      rw [rangesAt_step (getElem?_charMarks_append front rest c), pieces]
      simp only [Mark.ofChar_eq_comma_iff]
      by_cases hc : n = top ∧ c = ','
      · rw [if_pos hc, if_pos hc, Cuts.texts_push, ih n (Nat.le_refl _)]
        have hdrop : (front ++ [c]).drop (front.length + 1) = [] := by simp
        have hpiece : ((front ++ c :: rest).take front.length).drop start = front.drop start := by
          simp
        rw [hdrop, hpiece]
        cases n.pieces rest with
        | error f => rfl
        | ok ps => simp only [Except.map, pushText_piece, List.append_nil]; rfl
      · rw [if_neg hc, if_neg hc]
        cases hstep : n.step (Mark.ofChar c) with
        | none => rfl
        | some n' =>
            simp only [ih n' (Nat.le_succ_of_le hstart)]
            rw [List.drop_append_of_le_length hstart]
            cases n'.pieces rest with
            | error f => rfl
            | ok ps => simp only [Except.map, pushText_append_pushFirst]

/-- The texts between the commas are the pieces that the machine cuts. -/
theorem texts_ranges (s : Text) : (ranges s.charMarks).texts s = top.pieces s := by
  have h := texts_rangesAt [] s top (Nat.le_refl _)
  rw [List.nil_append] at h
  refine Eq.trans h ?_
  cases top.pieces s <;> rfl

/-- No range ends before it begins, also when the reader is stopped later on. -/
theorem le_of_mem_rangesAt (front rest : Text) (n : Nest) {start : Nat}
    (hstart : start ≤ front.length) :
    ∀ r ∈ (rangesAt (Text.charMarks (front ++ rest)) n start front.length).ranges, r.1 ≤ r.2 := by
  induction rest generalizing front n start with
  | nil =>
      rw [rangesAt_end (getElem?_charMarks_end front)]
      cases n.atEnd with
      | some f => simp [Cuts.stop]
      | none => simpa using hstart
  | cons c rest ih =>
      have ih : ∀ n {start}, start ≤ front.length + 1 → ∀ r ∈ (rangesAt
          (Text.charMarks (front ++ c :: rest)) n start (front.length + 1)).ranges, r.1 ≤ r.2 := by
        intro n start hstart
        have h := @ih (front ++ [c]) n start (by simpa using hstart)
        rw [← List.append_cons, List.length_append, List.length_singleton] at h
        exact h
      rw [rangesAt_step (getElem?_charMarks_append front rest c)]
      split
      · exact List.forall_mem_cons.mpr ⟨hstart, ih n (Nat.le_refl _)⟩
      · cases n.step (Mark.ofChar c) with
        | none => simp [Cuts.stop]
        | some n' => exact ih n' (Nat.le_succ_of_le hstart)

/-- No range ends before it starts. -/
theorem le_of_mem_ranges (s : Text) : ∀ r ∈ (ranges s.charMarks).ranges, r.1 ≤ r.2 :=
  le_of_mem_rangesAt [] s top (Nat.le_refl _)

end Indexed

end TypeFlow
