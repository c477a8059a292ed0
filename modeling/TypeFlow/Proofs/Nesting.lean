import TypeFlow.Proofs.Outcome
import TypeFlow.Text.Nesting
import TypeFlow.Ty.Print

/-!
# TypeFlow.Proofs.Nesting

What the two readers of the nesting machine accept, said without the machine's
loops.  `walk` runs the machine over a whole text; a text that walks from the
top to the top is well nested, and because a bracket outside of it only adds
to the bottom of the stack (`under`), it is so in every context.

* `enclosed_opened_iff` — what a bracket encloses is the well-nested text up
  to its own closing character;
* `enclosed_quoted_iff` — what a quote encloses is a `QuotedBody`;
* `pieces_eq_ok_iff` — the pieces of a text are `Unbroken` texts that give the
  text when commas are put between them, and no other list of texts is.
-/

namespace TypeFlow

/-! ## marks and their characters -/

/-- The character that closes a bracket. -/
def Bracket.closer : Bracket → Char
  | .angle => '>'
  | .brace => '\x7d'
  | .paren => ')'
  | .square => ']'

/-- The character of a quote. -/
def Quote.char : Quote → Char
  | .single => '\''
  | .double => '"'

/-- A quote is known by its character. -/
theorem Quote.ofChar?_eq_some_iff {c : Char} {q : Quote} :
    Quote.ofChar? c = some q ↔ c = q.char := by
  unfold Quote.ofChar?
  by_cases hd : c = '"'
  · cases q <;> simp [hd, Quote.char]
  · by_cases hs : c = '\''
    · cases q <;> simp [hs, Quote.char]
    · cases q <;> simp [hd, hs, Quote.char]

/-- A closing bracket is known by its character. -/
theorem Mark.ofChar_eq_closing_iff {c : Char} {b : Bracket} :
    Mark.ofChar c = .closing b ↔ c = b.closer := by
  constructor
  · intro h
    unfold Mark.ofChar at h
    split at h <;> simp_all [Bracket.closer] <;> subst h <;> rfl
  · rintro rfl
    cases b <;> rfl

@[simp] theorem Mark.ofChar_closer (b : Bracket) : Mark.ofChar b.closer = .closing b :=
  Mark.ofChar_eq_closing_iff.mpr rfl

/-- The mark of a quote is known by its character. -/
theorem Mark.ofChar_eq_quote_iff {c : Char} {q : Quote} :
    Mark.ofChar c = .quote q ↔ c = q.char := by
  constructor
  · intro h
    unfold Mark.ofChar at h
    split at h <;> simp_all [Quote.char] <;> subst h <;> rfl
  · rintro rfl
    cases q <;> rfl

@[simp] theorem Mark.ofChar_quoteChar (q : Quote) : Mark.ofChar q.char = .quote q :=
  Mark.ofChar_eq_quote_iff.mpr rfl

/-- The backslash is the only escape. -/
theorem Mark.ofChar_eq_escape_iff {c : Char} : Mark.ofChar c = .escape ↔ c = '\\' := by
  constructor
  · intro h
    unfold Mark.ofChar at h
    split at h <;> simp_all
  · rintro rfl
    rfl

/-- A character without a meaning of its own is plain to the machine. -/
theorem Mark.ofChar_of_not_mem {c : Char} (h : c ∉ markChars) : Mark.ofChar c = .plain := by
  unfold Mark.ofChar
  split <;> simp_all [markChars]

namespace Nest

/-! ## walking a whole text -/

/-- The state after a text, if every closing bracket in it is in place. -/
def walk : Nest → Text → Option Nest
  | n, [] => some n
  | n, c :: s =>
    match n.step (Mark.ofChar c) with
    | none => none
    | some n' => walk n' s

/-- The state with further brackets around those that are open. -/
def under (n : Nest) (outer : List Bracket) : Nest := ⟨n.quoting, n.brackets ++ outer⟩

@[simp] theorem top_under (b : Bracket) : top.under [b] = opened b := rfl

/-- Above an open bracket the machine is never back at the top. -/
theorem under_ne_top (n : Nest) (b : Bracket) : n.under [b] ≠ top := by
  unfold under top
  simp

/-- Brackets further out do not matter to a step that the inner ones allow. -/
theorem step_under {n n' : Nest} {m : Mark} (h : n.step m = some n') (outer : List Bracket) :
    (n.under outer).step m = some (n'.under outer) := by
  obtain ⟨q, bs⟩ := n
  cases q <;> cases m <;> simp only [step, under] at h ⊢ <;> try (cases h; rfl)
  next b =>
    cases bs with
    | nil => simp at h
    | cons a bs =>
        simp only [List.cons_append] at h ⊢
        by_cases hab : a = b
        · rw [if_pos hab] at h ⊢
          cases h; rfl
        · rw [if_neg hab] at h; contradiction

/-- A step under a bracket either closes that bracket or is a step of what
stands inside of it. -/
theorem step_under_cases {n n' : Nest} {m : Mark} {b : Bracket}
    (h : (n.under [b]).step m = some n') :
    (n = top ∧ m = .closing b ∧ n' = top) ∨ ∃ k, n.step m = some k ∧ n' = k.under [b] := by
  obtain ⟨q, bs⟩ := n
  cases q <;> cases m <;> simp only [step, under] at h ⊢ <;>
    try (cases h; exact .inr ⟨_, rfl, rfl⟩)
  next d =>
    cases bs with
    | nil =>
        simp only [List.nil_append] at h
        by_cases hbd : b = d
        · rw [if_pos hbd] at h
          cases h
          exact .inl ⟨rfl, by rw [hbd], rfl⟩
        · rw [if_neg hbd] at h; contradiction
    | cons a bs =>
        simp only [List.cons_append] at h ⊢
        by_cases had : a = d
        · rw [if_pos had] at h ⊢
          cases h
          exact .inr ⟨_, rfl, rfl⟩
        · rw [if_neg had] at h; contradiction

/-! ## what a bracket encloses -/

/-- A text that walks inside a bracket is passed over. -/
theorem enclosed_under_append {n n' : Nest} {s : Text} (h : n.walk s = some n') (b : Bracket)
    (rest : Text) :
    (n.under [b]).enclosed (s ++ rest) =
      ((n'.under [b]).enclosed rest).map fun r => (s ++ r.1, r.2) := by
  induction s generalizing n with
  | nil =>
      rw [walk, Option.some.injEq] at h
      subst h
      cases hr : (n.under [b]).enclosed rest <;> simp [hr, Except.map]
  | cons c s ih =>
      rw [walk] at h
      cases hstep : n.step (Mark.ofChar c) with
      | none => simp [hstep] at h
      | some k =>
          simp only [hstep] at h
          rw [List.cons_append, enclosed, step_under hstep [b]]
          simp only [if_neg (under_ne_top k b)]
          rw [ih h]
          cases hr : (n'.under [b]).enclosed rest <;> simp [Except.map]

/-- What is enclosed under a bracket walks to the top, and the bracket's own
closing character ends it. -/
theorem walk_of_enclosed_under {n : Nest} {b : Bracket} {s inner rest : Text}
    (h : (n.under [b]).enclosed s = .ok (inner, rest)) :
    n.walk inner = some top ∧ s = inner ++ b.closer :: rest := by
  induction s generalizing n inner with
  | nil => simp [enclosed] at h
  | cons c s ih =>
      rw [enclosed] at h
      cases hstep : (n.under [b]).step (Mark.ofChar c) with
      | none => simp [hstep] at h
      | some n' =>
          simp only [hstep] at h
          obtain ⟨hn, hm, hn'⟩ | ⟨k, hk, hn'⟩ := step_under_cases hstep
          · rw [if_pos hn', Except.ok.injEq, Prod.mk.injEq] at h
            obtain ⟨hinner, hrest⟩ := h
            subst hn hinner hrest
            rw [Mark.ofChar_eq_closing_iff] at hm
            exact ⟨rfl, by rw [hm]; rfl⟩
          · subst hn'
            rw [if_neg (under_ne_top k b)] at h
            obtain ⟨r, hs, hr⟩ := map_eq_ok_iff.mp h
            cases hr
            obtain ⟨hw, hs'⟩ := ih hs
            refine ⟨?_, by rw [hs']; rfl⟩
            rw [walk, hk]
            exact hw

/-- **What a bracket encloses**: the text up to the bracket's own closing
character, and that text is well nested by itself. -/
theorem enclosed_opened_iff {b : Bracket} {s inner rest : Text} :
    (opened b).enclosed s = .ok (inner, rest) ↔
      top.walk inner = some top ∧ s = inner ++ b.closer :: rest := by
  constructor
  · intro h
    rw [← top_under] at h
    exact walk_of_enclosed_under h
  · rintro ⟨hw, hs⟩
    rw [hs, ← top_under, enclosed_under_append hw b, enclosed]
    simp [step, under, top, Except.map]

/-! ## what a quote encloses -/

/-- The text between two quotes `q`: a backslash goes with the character after
it, and no other character is the quote. -/
inductive QuotedBody (q : Quote) : Text → Prop where
  | nil : QuotedBody q []
  | escape {s : Text} (c : Char) (h : QuotedBody q s) : QuotedBody q ('\\' :: c :: s)
  | char {s : Text} {c : Char} (hc : c ≠ '\\') (hq : c ≠ q.char) (h : QuotedBody q s) :
      QuotedBody q (c :: s)

/-- The quote's own character ends it. -/
theorem enclosed_quoted_close (q : Quote) (s : Text) :
    (quoted q).enclosed (q.char :: s) = .ok ([], s) := by
  rw [enclosed, Mark.ofChar_quoteChar]
  simp [step, quoted, top]

/-- An escape takes the next character with it, whatever that is. -/
theorem enclosed_quoted_escape (q : Quote) (c : Char) (s : Text) :
    (quoted q).enclosed ('\\' :: c :: s) =
      ((quoted q).enclosed s).map fun r => ('\\' :: c :: r.1, r.2) := by
  rw [enclosed, Mark.ofChar_eq_escape_iff.mpr rfl]
  simp only [step, quoted, top, Nest.mk.injEq, reduceCtorEq, false_and, if_false]
  rw [enclosed]
  simp only [step, top, Nest.mk.injEq, reduceCtorEq, false_and, if_false]
  cases hs : enclosed ⟨.inside q, []⟩ s <;> simp [Except.map]

/-- A character that neither escapes nor closes leaves the machine in the quote. -/
theorem step_quoted_char {q : Quote} {c : Char} (hc : c ≠ '\\') (hq : c ≠ q.char) :
    (quoted q).step (Mark.ofChar c) = some (quoted q) := by
  have he : Mark.ofChar c ≠ .escape := fun h => hc (Mark.ofChar_eq_escape_iff.mp h)
  have hquote : ∀ r, Mark.ofChar c = .quote r → q ≠ r := by
    intro r hr hqr
    rw [Mark.ofChar_eq_quote_iff, ← hqr] at hr
    exact hq hr
  cases hm : Mark.ofChar c <;> simp_all [step, quoted]

/-- A character that neither escapes nor closes belongs to the quoted part. -/
theorem enclosed_quoted_char {q : Quote} {c : Char} (hc : c ≠ '\\') (hq : c ≠ q.char) (s : Text) :
    (quoted q).enclosed (c :: s) = ((quoted q).enclosed s).map fun r => (c :: r.1, r.2) := by
  have hne : quoted q ≠ top := by simp [quoted, top]
  rw [enclosed, step_quoted_char hc hq]
  simp only [if_neg hne]

/-- A quoted part ends at the quote behind its body. -/
theorem enclosed_quoted_append {q : Quote} {body : Text} (h : QuotedBody q body) (rest : Text) :
    (quoted q).enclosed (body ++ q.char :: rest) = .ok (body, rest) := by
  induction h with
  | nil => exact enclosed_quoted_close q rest
  | escape c _ ih =>
      rw [List.cons_append, List.cons_append, enclosed_quoted_escape, ih]
      rfl
  | char hc hq _ ih =>
      rw [List.cons_append, enclosed_quoted_char hc hq, ih]
      rfl

/-- Reading a quoted part goes by one or two characters at a time, as an
escape does, so this is a recursion on the text and not on its characters. -/
theorem quotedBody_of_enclosed (q : Quote) : (s inner rest : Text) →
    (quoted q).enclosed s = .ok (inner, rest) →
    QuotedBody q inner ∧ s = inner ++ q.char :: rest
  | [], inner, rest, h => by simp [enclosed] at h
  | c :: s, inner, rest, h => by
      by_cases hq : c = q.char
      · rw [hq, enclosed_quoted_close, Except.ok.injEq, Prod.mk.injEq] at h
        obtain ⟨hinner, hrest⟩ := h
        subst hinner hrest
        exact ⟨.nil, by rw [hq]; rfl⟩
      by_cases hc : c = '\\'
      · cases s with
        | nil =>
            rw [hc, enclosed, Mark.ofChar_eq_escape_iff.mpr rfl] at h
            simp [step, quoted, top, enclosed, Except.map] at h
        | cons d s =>
            rw [hc, enclosed_quoted_escape] at h
            obtain ⟨r, hs, hr⟩ := map_eq_ok_iff.mp h
            cases hr
            obtain ⟨hbody, hs'⟩ := quotedBody_of_enclosed q s r.1 r.2 hs
            exact ⟨.escape d hbody, by rw [hc, hs']; rfl⟩
      · rw [enclosed_quoted_char hc hq] at h
        obtain ⟨r, hs, hr⟩ := map_eq_ok_iff.mp h
        cases hr
        obtain ⟨hbody, hs'⟩ := quotedBody_of_enclosed q s r.1 r.2 hs
        exact ⟨.char hc hq hbody, by rw [hs']; rfl⟩

/-- **What a quote encloses**: the text up to the first quote of its kind that
is not escaped. -/
theorem enclosed_quoted_iff {q : Quote} {s inner rest : Text} :
    (quoted q).enclosed s = .ok (inner, rest) ↔
      QuotedBody q inner ∧ s = inner ++ q.char :: rest := by
  constructor
  · exact quotedBody_of_enclosed q s inner rest
  · rintro ⟨hbody, hs⟩
    rw [hs]
    exact enclosed_quoted_append hbody rest

/-! ## pieces of an appended text -/

/-- Puts a text in front of the first piece. -/
def pushText (s : Text) (ps : List Text) : List Text := s.foldr pushFirst ps

@[simp] theorem pushText_cons (c : Char) (s : Text) (ps : List Text) :
    pushText (c :: s) ps = pushFirst c (pushText s ps) := rfl

@[simp] theorem pushText_piece (s p : Text) (ps : List Text) :
    pushText s (p :: ps) = (s ++ p) :: ps := by
  induction s with
  | nil => rfl
  | cons c s ih => rw [pushText_cons, ih, pushFirst, List.cons_append]

/-- The pieces of two texts written one after the other: the last piece of the
first and the first piece of the second are one. -/
def glue : List Text → List Text → List Text
  | [], qs => qs
  | [p], qs => pushText p qs
  | p :: p' :: ps, qs => p :: glue (p' :: ps) qs

/-- Where the second text begins with a comma, nothing is joined. -/
theorem glue_nil_piece {ps : List Text} (h : ps ≠ []) (qs : List Text) :
    glue ps ([] :: qs) = ps ++ qs := by
  induction ps with
  | nil => contradiction
  | cons p ps ih =>
      cases ps with
      | nil => simp [glue]
      | cons p' ps => rw [glue, ih (by simp)]; rfl

/-- A character in front of the first text stays in front. -/
theorem glue_pushFirst (c : Char) {ps : List Text} (h : ps ≠ []) (qs : List Text) :
    glue (pushFirst c ps) qs = pushFirst c (glue ps qs) := by
  match ps, h with
  | [p], _ => rfl
  | p :: p' :: ps, _ => rfl

/-- Pieces before the last one of the first text stay as they are. -/
theorem glue_cons (p : Text) {ps : List Text} (h : ps ≠ []) (qs : List Text) :
    glue (p :: ps) qs = p :: glue ps qs := by
  match ps, h with
  | p' :: ps, _ => rfl

/-- Once a text is cut without a fault, the machine is at the top, and what
follows is cut from there. -/
theorem pieces_append {n : Nest} {s : Text} {ps : List Text} (h : n.pieces s = .ok ps) (t : Text) :
    n.pieces (s ++ t) = (top.pieces t).map (glue ps) := by
  induction s generalizing n ps with
  | nil =>
      rw [pieces] at h
      cases hn : n.atEnd with
      | some f => simp [hn] at h
      | none =>
          simp only [hn, Except.ok.injEq] at h
          rw [atEnd_eq_none_iff.mp hn, ← h, List.nil_append]
          have hid : glue [[]] = id := by funext qs; rfl
          rw [hid]
          cases top.pieces t <;> rfl
  | cons c s ih =>
      rw [List.cons_append, pieces]
      rw [pieces] at h
      by_cases hc : n = top ∧ c = ','
      · rw [if_pos hc] at h ⊢
        obtain ⟨qs, hs, hps⟩ := map_eq_ok_iff.mp h
        rw [ih hs, ← hps]
        cases top.pieces t <;> simp [Except.map, glue_cons [] (pieces_ne_nil hs)]
      · rw [if_neg hc] at h ⊢
        cases hstep : n.step (Mark.ofChar c) with
        | none => simp [hstep] at h
        | some n' =>
            simp only [hstep] at h ⊢
            obtain ⟨qs, hs, hps⟩ := map_eq_ok_iff.mp h
            rw [ih hs, ← hps]
            cases top.pieces t <;> simp [Except.map, glue_pushFirst c (pieces_ne_nil hs)]

/-- What stands between commas is cut by itself. -/
theorem pieces_append_comma {n : Nest} {s : Text} {ps : List Text} (h : n.pieces s = .ok ps)
    (t : Text) : n.pieces (s ++ ',' :: t) = (top.pieces t).map (ps ++ ·) := by
  have hcomma : top.pieces (',' :: t) = (top.pieces t).map ([] :: ·) := by
    rw [pieces, if_pos ⟨rfl, rfl⟩]
  rw [pieces_append h, hcomma]
  cases top.pieces t <;> simp [Except.map, glue_nil_piece (pieces_ne_nil h)]

/-- A text is cut without a fault exactly when it walks to the top. -/
theorem walk_eq_top_iff {n : Nest} {s : Text} : n.walk s = some top ↔ ∃ ps, n.pieces s = .ok ps := by
  induction s generalizing n with
  | nil =>
      rw [walk, pieces, Option.some.injEq, ← atEnd_eq_none_iff]
      cases n.atEnd <;> simp
  | cons c s ih =>
      rw [walk, pieces]
      by_cases hc : n = top ∧ c = ','
      · have hstep : n.step (Mark.ofChar c) = some n := by rw [hc.1, hc.2]; rfl
        rw [if_pos hc, hstep]
        simp only [ih]
        cases n.pieces s <;> simp [Except.map]
      · rw [if_neg hc]
        cases n.step (Mark.ofChar c) with
        | none => simp
        | some n' =>
            simp only [ih]
            cases n'.pieces s <;> simp [Except.map]

/-! ## unbroken texts -/

/-- A text that is well nested and has no comma outside of its brackets and
quotes: it is its only piece. -/
def Unbroken (s : Text) : Prop := top.pieces s = .ok [s]

theorem unbroken_nil : Unbroken [] := rfl

/-- Unbroken texts can be written one after the other. -/
theorem Unbroken.append {s t : Text} (hs : Unbroken s) (ht : Unbroken t) : Unbroken (s ++ t) := by
  unfold Unbroken at ht ⊢
  rw [pieces_append hs, ht]
  simp [Except.map, glue]

/-- An unbroken text leaves the machine at the top. -/
theorem Unbroken.walk {s : Text} (h : Unbroken s) : top.walk s = some top :=
  walk_eq_top_iff.mpr ⟨_, h⟩

/-- Characters without a meaning to the machine break nothing. -/
theorem unbroken_of_plain {s : Text} (h : ∀ c ∈ s, Mark.ofChar c = .plain) : Unbroken s := by
  induction s with
  | nil => exact unbroken_nil
  | cons c s ih =>
      have hc : Mark.ofChar c = .plain := h c List.mem_cons_self
      have hs : top.pieces s = .ok [s] := ih fun d hd => h d (List.mem_cons_of_mem c hd)
      have hcomma : ¬ (top = top ∧ c = ',') := by
        rintro ⟨-, rfl⟩
        simp [Mark.ofChar] at hc
      unfold Unbroken
      rw [pieces, if_neg hcomma, hc]
      simp only [step, top]
      rw [← top, hs]
      rfl

/-- Away from the top no comma cuts: up to where the machine is back there, a
text stays in one piece. -/
theorem pieces_of_enclosed {n : Nest} {s inner rest : Text} (hn : n ≠ top)
    (h : n.enclosed s = .ok (inner, rest)) :
    ∃ c, s = inner ++ c :: rest ∧ n.pieces s = (top.pieces rest).map (pushText (inner ++ [c])) := by
  induction s generalizing n inner with
  | nil => simp [enclosed] at h
  | cons c s ih =>
      have hcomma : ¬ (n = top ∧ c = ',') := fun hc => hn hc.1
      rw [enclosed] at h
      rw [pieces, if_neg hcomma]
      cases hstep : n.step (Mark.ofChar c) with
      | none => simp [hstep] at h
      | some n' =>
          simp only [hstep] at h ⊢
          by_cases hn' : n' = top
          · rw [if_pos hn', Except.ok.injEq, Prod.mk.injEq] at h
            obtain ⟨hinner, hrest⟩ := h
            subst hinner hrest hn'
            exact ⟨c, rfl, rfl⟩
          · rw [if_neg hn'] at h
            obtain ⟨r, hs, hr⟩ := map_eq_ok_iff.mp h
            cases hr
            obtain ⟨d, hd, hp⟩ := ih hn' hs
            refine ⟨d, by rw [hd]; rfl, ?_⟩
            rw [hp]
            cases top.pieces r.2 <;> simp [Except.map]

/-- A character that opens a part which lasts to the end of the text. -/
theorem unbroken_of_enclosed {c : Char} {n : Nest} {s inner : Text} (hc : c ≠ ',')
    (hstep : top.step (Mark.ofChar c) = some n) (hn : n ≠ top)
    (h : n.enclosed s = .ok (inner, [])) : Unbroken (c :: s) := by
  obtain ⟨d, hd, hp⟩ := pieces_of_enclosed hn h
  have hcomma : ¬ (top = top ∧ c = ',') := fun hc' => hc hc'.2
  subst hd
  unfold Unbroken
  rw [pieces, if_neg hcomma, hstep]
  simp only [hp]
  simp [pieces, Except.map, pushFirst]

/-- A quoted part is unbroken, whatever stands in it. -/
theorem unbroken_of_quotedBody {q : Quote} {body : Text} (h : QuotedBody q body) :
    Unbroken (q.char :: body ++ [q.char]) := by
  refine unbroken_of_enclosed (n := quoted q) ?_ ?_ ?_ (enclosed_quoted_append h [])
  · cases q <;> decide
  · rw [Mark.ofChar_quoteChar]; rfl
  · simp [quoted, top]

/-- A well nested text in angle brackets is unbroken, whether it has commas or not. -/
theorem unbroken_angled {inner : Text} (h : top.walk inner = some top) :
    Unbroken ('<' :: inner ++ ['>']) :=
  unbroken_of_enclosed (n := opened .angle) (by decide) rfl (by simp [opened, top])
    (enclosed_opened_iff.mpr ⟨h, rfl⟩)

/-- A well nested text in braces is unbroken, whether it has commas or not. -/
theorem unbroken_braced {inner : Text} (h : top.walk inner = some top) :
    Unbroken ('\x7b' :: inner ++ ['\x7d']) :=
  unbroken_of_enclosed (n := opened .brace) (by decide) rfl (by simp [opened, top])
    (enclosed_opened_iff.mpr ⟨h, rfl⟩)

/-! ## the pieces of a text -/

/-- **Unbroken texts with commas between them are cut into these texts.** -/
theorem pieces_commas {ps : List Text} (hne : ps ≠ []) (h : ∀ p ∈ ps, Unbroken p) :
    top.pieces (Text.commas ps) = .ok ps := by
  induction ps with
  | nil => contradiction
  | cons p ps ih =>
      have hp : Unbroken p := h p List.mem_cons_self
      cases ps with
      | nil => rw [Text.commas_singleton]; exact hp
      | cons p' ps =>
          have hps := ih (by simp) fun q hq => h q (List.mem_cons_of_mem p hq)
          rw [Text.commas_cons_cons, pieces_append_comma hp, hps]
          rfl

/-- Pieces cannot be cut again. -/
theorem unbroken_of_pieces {n : Nest} {s p : Text} {ps : List Text}
    (h : n.pieces s = .ok (p :: ps)) : n.pieces p = .ok [p] ∧ ∀ q ∈ ps, Unbroken q := by
  induction s generalizing n p ps with
  | nil =>
      rw [pieces] at h
      cases hn : n.atEnd with
      | some f => simp [hn] at h
      | none =>
          simp only [hn, Except.ok.injEq, List.cons.injEq] at h
          obtain ⟨rfl, rfl⟩ := h
          exact ⟨by simp [pieces, hn], by simp⟩
  | cons c s ih =>
      rw [pieces] at h
      by_cases hc : n = top ∧ c = ','
      · rw [if_pos hc] at h
        obtain ⟨qs, hs, hps⟩ := map_eq_ok_iff.mp h
        cases hps
        obtain ⟨q, qs, rfl⟩ := List.exists_cons_of_ne_nil (pieces_ne_nil hs)
        obtain ⟨hq, hqs⟩ := ih hs
        rw [hc.1] at hq ⊢
        exact ⟨rfl, List.forall_mem_cons.mpr ⟨hq, hqs⟩⟩
      · rw [if_neg hc] at h
        cases hstep : n.step (Mark.ofChar c) with
        | none => simp [hstep] at h
        | some n' =>
            simp only [hstep] at h
            obtain ⟨qs, hs, hps⟩ := map_eq_ok_iff.mp h
            obtain ⟨q, qs, rfl⟩ := List.exists_cons_of_ne_nil (pieces_ne_nil hs)
            cases hps
            obtain ⟨hq, hqs⟩ := ih hs
            refine ⟨?_, hqs⟩
            rw [pieces, if_neg hc, hstep]
            simp [hq, Except.map, pushFirst]

/-- **The pieces of a text**: unbroken texts that give the text when commas are
put between them. -/
theorem pieces_eq_ok_iff {s : Text} {ps : List Text} :
    top.pieces s = .ok ps ↔ ps ≠ [] ∧ (∀ p ∈ ps, Unbroken p) ∧ s = Text.commas ps := by
  constructor
  · intro h
    refine ⟨pieces_ne_nil h, ?_, (pieces_join h).symm⟩
    obtain ⟨p, ps, rfl⟩ := List.exists_cons_of_ne_nil (pieces_ne_nil h)
    exact List.forall_mem_cons.mpr (unbroken_of_pieces h)
  · rintro ⟨hne, hps, rfl⟩
    exact pieces_commas hne hps

end Nest

end TypeFlow
