import TypeFlow.Proofs.Exchange

/-!
# TypeFlow.Proofs.Segments

Which texts are cut at their commas, and where.  The language of these texts is given in two
steps that know nothing of the machine: `Text.Unquoted` takes the quoted parts out of a text,
and `Text.Balanced` says that the brackets of what is left match.

* `walk_eq_top_iff_balanced` — a text walks from the top to the top exactly when it is in
  this language;
* `split_eq_singleton_iff` — a text that is cut into one segment is unbroken;
* `split_segments` — when a text is cut, the pieces it is cut into, and that texts with a comma
  between them are cut one by one.
-/

namespace TypeFlow

/-- The character that opens a bracket. -/
def Bracket.opener : Bracket → Char
  | .angle => '<'
  | .brace => '\x7b'
  | .paren => '('
  | .square => '['

/-- An opening bracket is known by its character. -/
theorem Mark.ofChar_eq_opening_iff {c : Char} {b : Bracket} :
    Mark.ofChar c = .opening b ↔ c = b.opener := by
  constructor
  · intro h
    unfold Mark.ofChar at h
    split at h <;> simp_all [Bracket.opener] <;> subst h <;> rfl
  · rintro rfl
    cases b <;> rfl

@[simp] theorem Mark.ofChar_opener (b : Bracket) : Mark.ofChar b.opener = .opening b :=
  Mark.ofChar_eq_opening_iff.mpr rfl

namespace Text

/-! ## the language -/

/-- A text, and what is left of it without its quoted parts.  Every quote in the text opens
such a part, stands inside of one or closes one. -/
inductive Unquoted : Text → Text → Prop where
  | nil : Unquoted [] []
  | quoted {q : Quote} {body s bare : Text} (hbody : Nest.QuotedBody q body)
      (h : Unquoted s bare) : Unquoted (q.char :: body ++ q.char :: s) bare
  | char {c : Char} {s bare : Text} (hc : ∀ q : Quote, c ≠ q.char) (h : Unquoted s bare) :
      Unquoted (c :: s) (c :: bare)

/-- A text in which every bracket is closed by its own closing character, and closes in the
order in which brackets open. -/
inductive Balanced : Text → Prop where
  | nil : Balanced []
  | char {c : Char} {s : Text} (hopen : ∀ b : Bracket, c ≠ b.opener)
      (hclose : ∀ b : Bracket, c ≠ b.closer) (h : Balanced s) : Balanced (c :: s)
  | bracket (b : Bracket) {inner s : Text} (hinner : Balanced inner) (h : Balanced s) :
      Balanced (b.opener :: inner ++ b.closer :: s)

/-- Quoted parts are left out of two texts one after the other. -/
theorem Unquoted.append {s t bare bare' : Text} (hs : Unquoted s bare) (ht : Unquoted t bare') :
    Unquoted (s ++ t) (bare ++ bare') := by
  induction hs with
  | nil => exact ht
  | quoted hbody _ ih =>
      rw [List.append_assoc, List.cons_append]
      exact .quoted hbody ih
  | char hc _ ih => exact .char hc ih

/-- What is left has no quotes. -/
theorem Unquoted.ne_quote {s bare : Text} (h : Unquoted s bare) :
    ∀ c ∈ bare, ∀ q : Quote, c ≠ q.char := by
  induction h with
  | nil => simp
  | quoted _ _ ih => exact ih
  | char hc _ ih => exact List.forall_mem_cons.mpr ⟨hc, ih⟩

end Text

namespace Nest

open Text

/-! ## texts of the language walk -/

/-- Outside of quotes, another character than a quote leaves the machine outside. -/
theorem quoting_of_step {n n' : Nest} {c : Char} (hn : n.quoting = .outside)
    (hc : ∀ q : Quote, c ≠ q.char) (h : n.step (Mark.ofChar c) = some n') :
    n'.quoting = .outside := by
  obtain ⟨_, brackets⟩ := n
  subst hn
  cases hm : Mark.ofChar c with
  | quote q => exact absurd (Mark.ofChar_eq_quote_iff.mp hm) (hc q)
  | closing b =>
      simp only [hm, step] at h
      cases brackets with
      | nil => cases h
      | cons a rest =>
          by_cases hab : a = b
          · simp only [if_pos hab, Option.some.injEq] at h
            rw [← h]
          · simp [if_neg hab] at h
  | _ =>
      rw [hm] at h
      cases h
      rfl

/-- Quoted parts do not matter to a walk that starts outside of quotes. -/
theorem walk_unquoted {s bare : Text} (h : Unquoted s bare) {n : Nest}
    (hn : n.quoting = .outside) : n.walk s = n.walk bare := by
  induction h generalizing n with
  | nil => rfl
  | @quoted q body s bare hbody _ ih =>
      have hpart := (unbroken_of_quotedBody hbody).walk_eq hn
      rw [List.append_cons, walk_append, hpart, Option.bind_some]
      exact ih hn
  | @char c s bare hc _ ih =>
      rw [walk, walk]
      cases hstep : n.step (Mark.ofChar c) with
      | none => rfl
      | some n' => exact ih (quoting_of_step hn hc hstep)

/-- A character that is neither a quote nor a bracket leaves the machine where it is. -/
theorem step_of_ne {n : Nest} {c : Char} (hn : n.quoting = .outside)
    (hquote : ∀ q : Quote, c ≠ q.char) (hopen : ∀ b : Bracket, c ≠ b.opener)
    (hclose : ∀ b : Bracket, c ≠ b.closer) : n.step (Mark.ofChar c) = some n := by
  obtain ⟨_, brackets⟩ := n
  subst hn
  cases hm : Mark.ofChar c with
  | quote q => exact absurd (Mark.ofChar_eq_quote_iff.mp hm) (hquote q)
  | opening b => exact absurd (Mark.ofChar_eq_opening_iff.mp hm) (hopen b)
  | closing b => exact absurd (Mark.ofChar_eq_closing_iff.mp hm) (hclose b)
  | _ => rfl

/-- Outside of quotes, a text of matching brackets leaves the machine where it was. -/
theorem walk_balanced {s : Text} (h : Balanced s) (hs : ∀ c ∈ s, ∀ q : Quote, c ≠ q.char)
    {n : Nest} (hn : n.quoting = .outside) : n.walk s = some n := by
  induction h generalizing n with
  | nil => rfl
  | char hopen hclose _ ih =>
      rw [List.forall_mem_cons] at hs
      rw [walk, step_of_ne hn hs.1 hopen hclose]
      exact ih hs.2 hn
  | @bracket b inner s _ _ ihinner ih =>
      rw [List.cons_append, List.forall_mem_cons, List.forall_mem_append,
        List.forall_mem_cons] at hs
      obtain ⟨_, brackets⟩ := n
      subst hn
      have hinner := ihinner hs.2.1 (n := ⟨.outside, b :: brackets⟩) rfl
      rw [List.cons_append, walk, Mark.ofChar_opener]
      simp only [step]
      rw [walk_append, hinner, Option.bind_some, walk, Mark.ofChar_closer]
      simp only [step, if_true]
      exact ih hs.2.2.2 rfl

/-! ## texts that walk are of the language -/

/-- A walk that ends at the top comes there for a first time. -/
theorem exists_enclosed_of_walk {n : Nest} {s : Text} (hn : n ≠ top) (h : n.walk s = some top) :
    ∃ inner rest, n.enclosed s = .ok (inner, rest) ∧ top.walk rest = some top := by
  induction s generalizing n with
  | nil => exact absurd (Option.some.inj h) hn
  | cons c s ih =>
      rw [walk] at h
      rw [enclosed]
      cases hstep : n.step (Mark.ofChar c) with
      | none => simp [hstep] at h
      | some n' =>
          simp only [hstep] at h ⊢
          by_cases hn' : n' = top
          · rw [if_pos hn']
            exact ⟨[], s, rfl, hn' ▸ h⟩
          · obtain ⟨inner, rest, hs, hrest⟩ := ih hn' h
            rw [if_neg hn', hs]
            exact ⟨c :: inner, rest, rfl, hrest⟩

/-- The quoted part or the bracket at the front of a text is taken off whole, so this is a
recursion on the text and not on its characters. -/
theorem exists_unquoted : (s : Text) → top.walk s = some top →
    ∃ bare, Unquoted s bare ∧ Balanced bare
  | [], _ => ⟨[], .nil, .nil⟩
  | c :: s, h => by
      rw [walk] at h
      by_cases hquote : ∃ q : Quote, c = q.char
      · obtain ⟨q, rfl⟩ := hquote
        rw [Mark.ofChar_quoteChar] at h
        obtain ⟨body, rest, hs, hrest⟩ :=
          exists_enclosed_of_walk (n := quoted q) (by simp [quoted, top]) h
        obtain ⟨hbody, rfl⟩ := enclosed_quoted_iff.mp hs
        obtain ⟨bare, hbare, hbalanced⟩ := exists_unquoted rest hrest
        exact ⟨bare, .quoted hbody hbare, hbalanced⟩
      by_cases hopen : ∃ b : Bracket, c = b.opener
      · obtain ⟨b, rfl⟩ := hopen
        rw [Mark.ofChar_opener] at h
        obtain ⟨inner, rest, hs, hrest⟩ :=
          exists_enclosed_of_walk (n := opened b) (by simp [opened, top]) h
        obtain ⟨hinner, rfl⟩ := enclosed_opened_iff.mp hs
        obtain ⟨bare, hbare, hbalanced⟩ := exists_unquoted inner hinner
        obtain ⟨bare', hbare', hbalanced'⟩ := exists_unquoted rest hrest
        have hcloser : ∀ q : Quote, b.closer ≠ q.char := by
          cases b <;> intro q <;> cases q <;> decide
        exact ⟨b.opener :: bare ++ b.closer :: bare',
          .char (not_exists.mp hquote) (hbare.append (.char hcloser hbare')),
          .bracket b hbalanced hbalanced'⟩
      have hclose : ∀ b : Bracket, c ≠ b.closer := by
        rintro b rfl
        simp [step, top] at h
      rw [step_of_ne rfl (not_exists.mp hquote) (not_exists.mp hopen) hclose] at h
      obtain ⟨bare, hbare, hbalanced⟩ := exists_unquoted s h
      exact ⟨c :: bare, .char (not_exists.mp hquote) hbare,
        .char (not_exists.mp hopen) hclose hbalanced⟩
termination_by s => s.length
decreasing_by all_goals simp_all <;> omega

/-- **Well-nested texts**: without its quoted parts, the text is one of matching brackets. -/
theorem walk_eq_top_iff_balanced {s : Text} :
    top.walk s = some top ↔ ∃ bare, Unquoted s bare ∧ Balanced bare := by
  constructor
  · exact exists_unquoted s
  · rintro ⟨bare, hbare, hbalanced⟩
    rw [walk_unquoted hbare rfl]
    exact walk_balanced hbalanced hbare.ne_quote rfl

end Nest

namespace Text

open Nest

/-! ## segments -/

/-- A text is split into its pieces, trimmed. -/
theorem split_eq_ok_iff {s : Text} {xs : List Text} :
    s.split = .ok xs ↔ ∃ ps, top.pieces s = .ok ps ∧ xs = ps.map trim := by
  unfold split
  cases top.pieces s <;> simp [eq_comm]

/-- A text is cut into one segment exactly when it is unbroken. -/
theorem split_eq_singleton_iff {p x : Text} : p.split = .ok [x] ↔ Unbroken p ∧ x = p.trim := by
  rw [split_eq_ok_iff]
  constructor
  · rintro ⟨ps, hps, hx⟩
    obtain ⟨q, rfl, hq⟩ := List.map_eq_singleton_iff.mp hx.symm
    obtain ⟨-, hunbroken, rfl⟩ := pieces_eq_ok_iff.mp hps
    rw [commas_singleton]
    exact ⟨hunbroken q List.mem_cons_self, hq.symm⟩
  · rintro ⟨hp, rfl⟩
    exact ⟨[p], hp, rfl⟩

/-- **Segments**: a text is cut exactly when the brackets outside of its quoted parts match and
its quotes are closed.  It is cut into the trimmed pieces of the one list of texts that give it
with commas between them and are each cut into one segment.  Texts with a comma between them
are cut one by one. -/
theorem split_segments (s : Text) :
    ((∃ xs, s.split = .ok xs) ↔ ∃ bare, Unquoted s bare ∧ Balanced bare) ∧
      (∀ xs, s.split = .ok xs ↔ ∃ ps, ps ≠ [] ∧ s = commas ps ∧ xs = ps.map trim ∧
        ∀ p ∈ ps, p.split = .ok [p.trim]) ∧
      ∀ (t : Text) xs ys, s.split = .ok xs → t.split = .ok ys →
        Text.split (s ++ ',' :: t) = .ok (xs ++ ys) := by
  have hsingle : ∀ p : Text, p.split = .ok [p.trim] ↔ Unbroken p := fun p =>
    split_eq_singleton_iff.trans (and_iff_left rfl)
  refine ⟨?_, fun xs => ?_, fun t xs ys hs ht => ?_⟩
  · rw [← walk_eq_top_iff_balanced, walk_eq_top_iff]
    simp only [split_eq_ok_iff]
    constructor
    · rintro ⟨_, ps, hps, -⟩
      exact ⟨ps, hps⟩
    · rintro ⟨ps, hps⟩
      exact ⟨_, ps, hps, rfl⟩
  · simp only [split_eq_ok_iff (s := s), pieces_eq_ok_iff, hsingle]
    constructor
    · rintro ⟨ps, ⟨hne, hps, hs⟩, hxs⟩
      exact ⟨ps, hne, hs, hxs, hps⟩
    · rintro ⟨ps, hne, hs, hxs, hps⟩
      exact ⟨ps, ⟨hne, hps, hs⟩, hxs⟩
  · obtain ⟨ps, hps, rfl⟩ := split_eq_ok_iff.mp hs
    obtain ⟨qs, hqs, rfl⟩ := split_eq_ok_iff.mp ht
    refine split_eq_ok_iff.mpr ⟨ps ++ qs, ?_, List.map_append.symm⟩
    rw [pieces_append_comma hps, hqs]
    rfl

/-- The quoted part holds a comma, a bracket that closes nothing and an escaped quote;
none of them counts.  The commas in the brackets do not cut either, so the two texts have
two segments and one, and joined by a comma they have the three. -/
theorem split_segments_quoted :
    let s : Text := "a<b,c> , \"p,)\\\"\"".toList
    let t : Text := " [m,n]".toList
    let xs : List Text := ["a<b,c>".toList, "\"p,)\\\"\"".toList]
    let ys : List Text := ["[m,n]".toList]
    s.split = .ok xs ∧ t.split = .ok ys ∧ (∃ bare, Unquoted s bare ∧ Balanced bare) ∧
      Text.split (s ++ ',' :: t) = .ok (xs ++ ys) := by
  intro s t xs ys
  have hs : s.split = .ok xs := rfl
  have ht : t.split = .ok ys := rfl
  obtain ⟨hlanguage, -, hjoin⟩ := split_segments s
  exact ⟨hs, ht, hlanguage.mp ⟨xs, hs⟩, hjoin t xs ys hs ht⟩

end Text

end TypeFlow
