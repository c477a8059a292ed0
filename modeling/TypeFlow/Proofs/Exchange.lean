import Mathlib.Logic.Relation
import TypeFlow.Proofs.Outline
import TypeFlow.Proofs.Search

/-!
# TypeFlow.Proofs.Exchange

Texts in which a record has been written with its fields in another order.  The record
may stand anywhere outside of quotes, so nothing is known about what surrounds it: it may
be the whole text, or stand deep inside of parts that the scanner reads, of parts that it
refuses, or of no part at all.  What a level of the two texts looks like to the scanner is
the same, but for the order of the fields and for one part, in which again a record has
been written in another order.

* `pieces_exchange` — of the pieces of a text, only the one that holds an unbroken part
  depends on this part;
* `Text.Rearranging` — one record in a text is written with its fields in another order;
* `Text.rearranging_of_perm` — the segments of a record in another order are such a text;
* `Text.Near.scan` — what the scanner finds in the two texts.
-/

namespace TypeFlow

namespace Nest

/-! ## walking and cutting around a part -/

/-- A text is walked in two parts. -/
theorem walk_append (n : Nest) (s t : Text) : n.walk (s ++ t) = (n.walk s).bind (walk · t) := by
  induction s generalizing n with
  | nil => rfl
  | cons c s ih =>
      rw [List.cons_append, walk, walk]
      cases n.step (Mark.ofChar c) with
      | none => rfl
      | some n' => exact ih n'

/-- Brackets further out do not matter to a walk that the inner ones allow. -/
theorem walk_under {n k : Nest} {s : Text} (h : n.walk s = some k) (outer : List Bracket) :
    (n.under outer).walk s = some (k.under outer) := by
  induction s generalizing n with
  | nil =>
      cases h
      rfl
  | cons c s ih =>
      rw [walk] at h ⊢
      cases hstep : n.step (Mark.ofChar c) with
      | none => simp [hstep] at h
      | some n' =>
          simp only [hstep] at h
          rw [step_under hstep]
          exact ih h

/-- Outside of quotes, an unbroken text leaves the machine where it was. -/
theorem Unbroken.walk_eq {u : Text} (hu : Unbroken u) {k : Nest} (hk : k.quoting = .outside) :
    k.walk u = some k := by
  obtain ⟨_, brackets⟩ := k
  subst hk
  exact walk_under hu.walk brackets

/-- Outside of quotes, an unbroken text stays in one piece. -/
theorem Unbroken.pieces_append {u : Text} (hu : Unbroken u) {k : Nest}
    (hk : k.quoting = .outside) (t : Text) : k.pieces (u ++ t) = (k.pieces t).map (pushText u) := by
  have hunder : ∀ {n : Nest} {s : Text} (outer : List Bracket), n.pieces s = .ok [s] →
      (n.under outer).pieces (s ++ t) = ((top.under outer).pieces t).map (pushText s) := by
    intro n s outer h
    induction s generalizing n with
    | nil =>
        have hn : n = top := Option.some.inj (walk_eq_top_iff.mpr ⟨_, h⟩)
        rw [hn, List.nil_append]
        cases (top.under outer).pieces t <;> rfl
    | cons c s ih =>
        rw [pieces] at h
        by_cases hc : n = top ∧ c = ','
        · rw [if_pos hc] at h
          obtain ⟨qs, -, hqs⟩ := map_eq_ok_iff.mp h
          cases hqs
        rw [if_neg hc] at h
        cases hstep : n.step (Mark.ofChar c) with
        | none => simp [hstep] at h
        | some n' =>
            simp only [hstep] at h
            obtain ⟨qs, hs, hqs⟩ := map_eq_ok_iff.mp h
            obtain ⟨q, qs, rfl⟩ := List.exists_cons_of_ne_nil (pieces_ne_nil hs)
            cases hqs
            have hc' : ¬ (n.under outer = top ∧ c = ',') := by
              rintro ⟨htop, hcomma⟩
              obtain ⟨quoting, brackets⟩ := n
              simp only [under, top, Nest.mk.injEq, List.append_eq_nil_iff] at htop
              exact hc ⟨by rw [htop.1, htop.2.1]; rfl, hcomma⟩
            rw [List.cons_append, pieces, if_neg hc', step_under hstep]
            simp only [ih hs]
            cases (top.under outer).pieces t <;> rfl
  obtain ⟨_, brackets⟩ := k
  subst hk
  exact hunder brackets hu

/-- What stands in front of a text adds pieces before its first piece, and the rest of the
front to this piece.  That rest walks to where the whole front does, from the last comma
at the top or else from the start. -/
theorem exists_pieces_front {n k : Nest} {front : Text} (h : n.walk front = some k) :
    ∃ before p, (if before = [] then n else top).walk p = some k ∧
      ∀ t, n.pieces (front ++ t) = (k.pieces t).map fun qs => before ++ pushText p qs := by
  induction front generalizing n with
  | nil =>
      cases h
      refine ⟨[], [], rfl, fun t => ?_⟩
      rw [List.nil_append]
      cases k.pieces t <;> rfl
  | cons c front ih =>
      rw [walk] at h
      cases hstep : n.step (Mark.ofChar c) with
      | none => simp [hstep] at h
      | some n' =>
          simp only [hstep] at h
          obtain ⟨before, p, hp, hpieces⟩ := ih h
          by_cases hc : n = top ∧ c = ','
          · have hn' : n' = top := by
              rw [hc.1, hc.2] at hstep
              exact (Option.some.inj hstep).symm
            rw [hn', ite_self] at hp
            refine ⟨[] :: before, p, by simpa using hp, fun t => ?_⟩
            rw [List.cons_append, pieces, if_pos hc, hc.1, ← hn', hpieces t]
            cases k.pieces t <;> rfl
          · cases before with
            | nil =>
                refine ⟨[], c :: p, ?_, fun t => ?_⟩
                · rw [if_pos rfl] at hp ⊢
                  rw [walk, hstep]
                  exact hp
                · rw [List.cons_append, pieces, if_neg hc, hstep]
                  simp only [hpieces t]
                  cases k.pieces t <;> rfl
            | cons q before =>
                refine ⟨(c :: q) :: before, p, by simpa using hp, fun t => ?_⟩
                rw [List.cons_append, pieces, if_neg hc, hstep]
                simp only [hpieces t]
                cases k.pieces t <;> rfl

/-- Before its last character a quoted text is inside of its quotes. -/
theorem QuotedBody.walk_front {q : Quote} {front rest : Text} (h : QuotedBody q (front ++ rest)) :
    ∃ n, (quoted q).walk front = some n ∧ n.quoting ≠ .outside := by
  generalize hbody : front ++ rest = body at h
  induction h generalizing front with
  | nil =>
      rw [(List.append_eq_nil_iff.mp hbody).1]
      exact ⟨quoted q, rfl, by simp [quoted]⟩
  | escape c _ ih =>
      cases front with
      | nil => exact ⟨quoted q, rfl, by simp [quoted]⟩
      | cons d front =>
          cases front with
          | nil =>
              cases hbody
              exact ⟨⟨.escaped q, []⟩, rfl, by simp⟩
          | cons d' front =>
              cases hbody
              exact @ih front rfl
  | char hc hq _ ih =>
      cases front with
      | nil => exact ⟨quoted q, rfl, by simp [quoted]⟩
      | cons d front =>
          cases hbody
          rw [walk, step_quoted_char hc hq]
          exact ih rfl

/-- **Exchanging an unbroken part**: the part stands in one piece of the text, and with
another part in its place all other pieces are the same. -/
theorem pieces_exchange {front back u : Text} {k : Nest} {ps : List Text}
    (hfront : top.walk front = some k) (hk : k.quoting = .outside) (hu : Unbroken u)
    (h : top.pieces (front ++ u ++ back) = .ok ps) :
    ∃ before p q after, top.walk p = some k ∧ ps = before ++ (p ++ u ++ q) :: after ∧
      ∀ u', Unbroken u' →
        top.pieces (front ++ u' ++ back) = .ok (before ++ (p ++ u' ++ q) :: after) := by
  obtain ⟨before, p, hp, hpieces⟩ := exists_pieces_front hfront
  rw [ite_self] at hp
  have hpart : ∀ v, Unbroken v → top.pieces (front ++ v ++ back) =
      (k.pieces back).map fun qs => before ++ pushText p (pushText v qs) := by
    intro v hv
    rw [List.append_assoc, hpieces, hv.pieces_append hk]
    cases k.pieces back <;> rfl
  rw [hpart u hu] at h
  obtain ⟨qs, hback, hps⟩ := map_eq_ok_iff.mp h
  obtain ⟨q, after, rfl⟩ := List.exists_cons_of_ne_nil (pieces_ne_nil hback)
  rw [pushText_piece, pushText_piece, ← List.append_assoc] at hps
  refine ⟨before, p, q, after, hp, hps.symm, fun u' hu' => ?_⟩
  rw [hpart u' hu', hback]
  simp only [Except.map, pushText_piece, List.append_assoc]

end Nest

namespace Text

/-! ## a part in the middle of a text -/

/-- What stands in front of a part leaves no quote open. -/
def OutsideQuotes (front : Text) : Prop :=
  ∀ n, Nest.top.walk front = some n → n.quoting = .outside

/-- Brackets that are left open further out are not quotes. -/
theorem OutsideQuotes.of_append {lead front : Text} (h : OutsideQuotes (lead ++ front))
    (outer : List Bracket) (hlead : Nest.top.walk lead = some (Nest.top.under outer)) :
    OutsideQuotes front := by
  intro n hn
  have hwalk := Nest.walk_append Nest.top lead front
  rw [hlead, Option.bind_some, Nest.walk_under hn] at hwalk
  exact h (n.under outer) hwalk

/-- Blanks at the front open no quote, so they may be left out. -/
theorem OutsideQuotes.trimStart {front : Text} (h : OutsideQuotes front) :
    OutsideQuotes front.trimStart := by
  obtain ⟨pre, hpre, hfront⟩ := exists_trimStart front
  rw [hfront] at h
  exact h.of_append [] (Shape.walk_of_blank hpre)

/-- Where `t` begins with no blank, the blanks at the front are those of `s`. -/
theorem trimStart_append {t : Text} (ht : t.trimStart = t) (s : Text) :
    trimStart (s ++ t) = s.trimStart ++ t := by
  by_cases hs : Blank s
  · rw [trimStart_padded hs, ht, trimStart_eq_nil_iff.mpr hs, List.nil_append]
  · have hne : (List.dropWhile isBlank s).isEmpty = false := by
      rw [List.isEmpty_eq_false_iff, ← trimStart]
      exact fun h => hs (trimStart_eq_nil_iff.mp h)
    rw [trimStart, List.dropWhile_append, hne, trimStart]
    rfl

/-- Of what stands around a part without blanks at its ends, only the ends are trimmed. -/
theorem trim_around {u : Text} (hu : u.trim = u) (hblank : ¬ u.Blank) (p q : Text) :
    trim (p ++ u ++ q) = p.trimStart ++ u ++ q.trimEnd := by
  have hstart : trimStart (u ++ q) = u ++ q := by
    have hne : u ≠ [] := by
      rintro rfl
      exact hblank blank_nil
    obtain ⟨c, u, rfl⟩ := List.exists_cons_of_ne_nil hne
    have hc := trimStart_eq_self_iff.mp (trimStart_of_trim hu) c rfl
    exact trimStart_cons_of_not_blank hc
  have hend : trimEnd (u ++ q) = u ++ q.trimEnd := by
    by_cases hq : Blank q
    · have hu' : trimEnd u = u := by
        rw [trim, trimStart_of_trim hu] at hu
        exact hu
      have hq' := trimEnd_padded hq []
      rw [List.nil_append, trimEnd_nil] at hq'
      rw [trimEnd_padded hq, hu', hq', List.append_nil]
    · exact trimEnd_append hq u
  have hne : ¬ Blank (u ++ q) := fun h => hblank fun c hc => h c (List.mem_append_left q hc)
  rw [trim, List.append_assoc, trimStart_append hstart, trimEnd_append hne, hend, List.append_assoc]

/-- The first mark of a text is found in one place. -/
theorem first_mark_unique {s t rest rest' : Text} {c d : Char} (hs : ∀ e ∈ s, e ∉ markChars)
    (ht : ∀ e ∈ t, e ∉ markChars) (hc : c ∈ markChars) (hd : d ∈ markChars)
    (h : s ++ c :: rest = t ++ d :: rest') : s = t ∧ c = d ∧ rest = rest' := by
  have hbreak : ∀ {s : Text} {c : Char} (rest : Text), (∀ e ∈ s, e ∉ markChars) → c ∈ markChars →
      (s ++ c :: rest).breakAt (· ∈ markChars) = (s, c :: rest) := by
    intro s c rest hs hc
    exact breakAt_append_cons (fun e he => by simpa using hs e he) (by simpa using hc) rest
  have heq := hbreak rest hs hc
  rw [h, hbreak rest' ht hd, Prod.mk.injEq, List.cons.injEq] at heq
  exact ⟨heq.1.symm, heq.2.1.symm, heq.2.2.symm⟩

/-- A mark that is the first of a text stands in front of a part, or is the first of the part. -/
theorem first_mark_cases {front word rest label rest' : Text} {c d : Char}
    (hword : ∀ e ∈ word, e ∉ markChars) (hc : c ∈ markChars) (hlabel : ∀ e ∈ label, e ∉ markChars)
    (hd : d ∈ markChars) (h : front ++ (word ++ c :: rest) = label ++ d :: rest') :
    (∃ front', front = label ++ d :: front' ∧ rest' = front' ++ (word ++ c :: rest)) ∨
      (label = front ++ word ∧ d = c ∧ rest' = rest) := by
  obtain ⟨mid, rfl, hrest⟩ | ⟨mid, rfl, hrest⟩ := List.append_eq_append_iff.mp h
  · have hmid : ∀ e ∈ mid, e ∉ markChars := fun e he => hlabel e (List.mem_append_right front he)
    obtain ⟨rfl, rfl, rfl⟩ := first_mark_unique hword hmid hc hd hrest
    exact .inr ⟨rfl, rfl, rfl⟩
  · cases mid with
    | nil =>
        obtain ⟨rfl, rfl, rfl⟩ := first_mark_unique (s := []) (by simp) hword hd hc hrest
        exact .inr ⟨by simp, rfl, rfl⟩
    | cons e front' =>
        rw [List.cons_append, List.cons.injEq] at hrest
        obtain ⟨rfl, hrest⟩ := hrest
        exact .inl ⟨front', rfl, hrest⟩

end Text

namespace Shape

open Nest

/-! ## a record in the middle of a text -/

/-- A name and blanks have no meaning for the machine. -/
theorem not_mem_markChars_label {name pad : Text} (hname : name.isName = true) (hpad : pad.Blank) :
    ∀ c ∈ name ++ pad, c ∉ markChars := by
  intro c hc
  obtain hc | hc := List.mem_append.mp hc
  · exact Text.not_mem_markChars_of_isName hname c hc
  · exact hpad.not_mem_markChars c hc

/-- A record is written as its word and a well-nested text in braces. -/
theorem Outline.exists_braces {u : Text} {fs : List (String × Text)} (h : Outline u (.struct fs)) :
    ∃ pad inner, Text.Blank pad ∧ top.walk inner = some top ∧
      u = Ty.structWord ++ pad ++ ('\x7b' :: inner ++ ['\x7d']) := by
  cases h with
  | bareRecord hpad hinner => exact ⟨_, _, hpad, walk_of_blank hinner, rfl⟩
  | record hpad hne hlabels htypes _ =>
      exact ⟨_, _, hpad, walk_fields hne hlabels htypes, rfl⟩

/-- Another mark than a brace that is the first of a text stands in front of its records. -/
theorem Outline.exists_front {front u back label rest : Text} {fs : List (String × Text)} {m : Char}
    (hu : Outline u (.struct fs)) (hlabel : ∀ c ∈ label, c ∉ markChars) (hm : m ∈ markChars)
    (hbrace : m ≠ '\x7b') (h : front ++ u ++ back = label ++ m :: rest) :
    ∃ front', front = label ++ m :: front' ∧ rest = front' ++ u ++ back := by
  obtain ⟨pad, inner, hpad, -, hbraces⟩ := hu.exists_braces
  have hsplit : front ++ (Ty.structWord ++ pad ++ '\x7b' :: (inner ++ ['\x7d'] ++ back)) =
      label ++ m :: rest := by
    rw [← h, hbraces]
    simp
  obtain ⟨front', hfront, hrest⟩ | ⟨-, hm', -⟩ :=
    Text.first_mark_cases (not_mem_markChars_label isName_structWord hpad) (by decide) hlabel hm
      hsplit
  · refine ⟨front', hfront, ?_⟩
    rw [hrest, hbraces]
    simp
  · exact absurd hm' hbrace

/-- What stands around an unbroken part inside of brackets that end the text. -/
theorem exists_inside {label front u back inner : Text} {o : Char} {b : Bracket}
    (hopen : top.walk (label ++ [o]) = some (opened b)) (hinner : top.walk inner = some top)
    (hu : Unbroken u) (hne : u ≠ []) (hfront : Text.OutsideQuotes (label ++ o :: front))
    (h : inner ++ [b.closer] = front ++ u ++ back) :
    ∃ back' k, back = back' ++ [b.closer] ∧ inner = front ++ u ++ back' ∧
      top.walk front = some k ∧ k.quoting = .outside := by
  have hfront' : Text.OutsideQuotes front := by
    rw [List.append_cons] at hfront
    exact hfront.of_append [b] hopen
  have hbefore : ∀ {rest : Text}, inner = front ++ rest →
      ∃ k, top.walk front = some k ∧ k.quoting = .outside ∧ k.walk rest = some top := by
    intro rest hrest
    rw [hrest, walk_append] at hinner
    obtain ⟨k, hk, hrest⟩ := Option.bind_eq_some_iff.mp hinner
    exact ⟨k, hk, hfront' k hk, hrest⟩
  obtain rfl | ⟨back', c, rfl⟩ := List.eq_nil_or_concat back
  · -- the part would end with the bracket's closing character, which does not fit inside
    obtain rfl | ⟨u', c, rfl⟩ := List.eq_nil_or_concat u
    · contradiction
    rw [List.append_nil, List.concat_eq_append, ← List.append_assoc] at h
    obtain ⟨rfl, hc⟩ := List.append_inj' h rfl
    obtain ⟨k, -, hk, hwalk⟩ := hbefore rfl
    have hpart := hu.walk_eq hk
    rw [List.concat_eq_append, ← hc, walk_append, hwalk, Option.bind_some, walk,
      Mark.ofChar_closer] at hpart
    cases hpart
  · rw [List.concat_eq_append, ← List.append_assoc] at h
    obtain ⟨rfl, hc⟩ := List.append_inj' h rfl
    obtain ⟨k, hk, hquoting, -⟩ := hbefore (List.append_assoc front u back')
    exact ⟨back', k, by rw [List.concat_eq_append, ← hc], rfl, hk, hquoting⟩

/-- The word of a record is written once in the label of one. -/
theorem eq_nil_of_structWord {front pad pad' : Text} (hpad : pad.Blank) (hpad' : pad'.Blank)
    (h : Ty.structWord ++ pad = front ++ (Ty.structWord ++ pad')) : front = [] := by
  have hblank : ∀ {p : Text}, p.Blank → p.count 'S' = 0 := fun hp =>
    List.count_eq_zero.mpr fun hmem => by
      have hs := hp 'S' hmem
      revert hs
      decide
  cases front with
  | nil => rfl
  | cons c front =>
      have hcount := congrArg (List.count 'S') h
      have hc : c = 'S' := by
        rw [Ty.structWord] at h
        exact (List.cons.inj h).1.symm
      rw [List.count_append, List.count_append, List.count_append, hblank hpad, hblank hpad', hc,
        List.count_cons_self] at hcount
      omega

/-- A record is the whole text, or a part inside of a record that is. -/
theorem Outline.whole_or_inside {front u back pad inner : Text} {fs : List (String × Text)}
    (hu : Outline u (.struct fs)) (hpad : pad.Blank) (hinner : top.walk inner = some top)
    (h : front ++ u ++ back = Ty.structWord ++ pad ++ ('\x7b' :: inner ++ ['\x7d'])) :
    (front = [] ∧ back = []) ∨
      ∃ front', front = Ty.structWord ++ pad ++ '\x7b' :: front' ∧
        inner ++ ['\x7d'] = front' ++ u ++ back := by
  obtain ⟨pad', inner', hpad', hinner', hbraces⟩ := hu.exists_braces
  have hsplit : front ++ (Ty.structWord ++ pad' ++ '\x7b' :: (inner' ++ '\x7d' :: back)) =
      Ty.structWord ++ pad ++ '\x7b' :: (inner ++ ['\x7d']) := by
    refine Eq.trans ?_ h
    rw [hbraces]
    simp
  obtain ⟨front', hfront, hrest⟩ | ⟨hlabel, -, hrest⟩ :=
    Text.first_mark_cases (not_mem_markChars_label isName_structWord hpad') (by decide)
      (not_mem_markChars_label isName_structWord hpad) (by decide) hsplit
  · refine .inr ⟨front', hfront, ?_⟩
    rw [hrest, hbraces]
    simp
  · -- the two braces are the same, so they close at the same place
    have hclose : (opened .brace).enclosed (inner ++ ['\x7d']) = .ok (inner, []) :=
      enclosed_opened_iff.mpr ⟨hinner, rfl⟩
    have hclose' : (opened .brace).enclosed (inner ++ ['\x7d']) = .ok (inner', back) :=
      enclosed_opened_iff.mpr ⟨hinner', hrest⟩
    cases hclose.symm.trans hclose'
    exact .inl ⟨eq_nil_of_structWord hpad hpad' hlabel, rfl⟩

/-- Exchanging an unbroken part of the parts inside of brackets that end the text. -/
theorem exchange_inside {label front u back : Text} {o : Char} {b : Bracket} {ps : List Text}
    (hopen : top.walk (label ++ [o]) = some (opened b)) (hps : ps ≠ [])
    (hparts : ∀ p ∈ ps, Unbroken p) (hu : Unbroken u) (hne : u ≠ [])
    (hfront : Text.OutsideQuotes (label ++ o :: front))
    (h : Text.commas ps ++ [b.closer] = front ++ u ++ back) :
    ∃ before p q after, Text.OutsideQuotes p ∧ ps = before ++ (p ++ u ++ q) :: after ∧
      ∀ u', Unbroken u' → (∀ r ∈ before ++ (p ++ u' ++ q) :: after, Unbroken r) ∧
        front ++ u' ++ back = Text.commas (before ++ (p ++ u' ++ q) :: after) ++ [b.closer] := by
  obtain ⟨back', k, rfl, hinner, hk, hquoting⟩ :=
    exists_inside hopen (walk_commas hps hparts) hu hne hfront h
  have hpieces := pieces_commas hps hparts
  rw [hinner] at hpieces
  obtain ⟨before, p, q, after, hp, rfl, hexchange⟩ := pieces_exchange hk hquoting hu hpieces
  refine ⟨before, p, q, after, ?_, rfl, fun u' hu' => ?_⟩
  · intro n hn
    cases hp.symm.trans hn
    exact hquoting
  · obtain ⟨-, hunbroken, hjoin⟩ := pieces_eq_ok_iff.mp (hexchange u' hu')
    exact ⟨hunbroken, by rw [← hjoin, List.append_assoc _ back']⟩

/-- The machine goes past a label and opens the bracket behind it. -/
theorem walk_label {label : Text} {o : Char} {b : Bracket} (hlabel : ∀ c ∈ label, c ∉ markChars)
    (ho : top.walk [o] = some (opened b)) : top.walk (label ++ [o]) = some (opened b) := by
  rw [walk_append, (Text.unbroken_of_not_mem_markChars hlabel).walk, Option.bind_some, ho]

/-- A text has one shape. -/
theorem Outline.unique {s : Text} {a b : Shape} (ha : Outline s a) (hb : Outline s b) : a = b :=
  Except.ok.inj (ha.scan_eq.symm.trans hb.scan_eq)

/-- A text with a shape is not blank, whatever stands around it. -/
theorem Outline.not_blank_around {u : Text} {shape : Shape} (h : Outline u shape) (p q : Text) :
    ¬ Text.Blank (p ++ u ++ q) :=
  fun hblank => h.not_blank fun c hc => hblank c (by simp [hc])

/-- A record has its brace. -/
theorem Outline.brace_mem {u : Text} {fs : List (String × Text)} (h : Outline u (.struct fs)) :
    '\x7b' ∈ u := by
  obtain ⟨pad, inner, -, -, rfl⟩ := h.exists_braces
  simp

section

variable {front u u' back pad : Text} {fs gs : List (String × Text)}

/-- Brackets around nothing but blanks have no record inside of them. -/
theorem Outline.not_blank_inside {inner : Text} {b : Bracket} (hu : Outline u (.struct fs))
    (hinner : inner.Blank) : inner ++ [b.closer] ≠ front ++ u ++ back := by
  intro h
  have hbrace : '\x7b' ∈ inner ++ [b.closer] := by simp [h, hu.brace_mem]
  obtain hblank | hclose := List.mem_append.mp hbrace
  · have hb := hinner _ hblank
    revert hb
    decide
  · revert hclose
    cases b <;> decide

/-- A record inside of a generic stands in one of its arguments. -/
theorem Outline.exchange_arg {base : String} {args : List Text} (hu : Outline u (.struct fs))
    (hu' : Outline u' (.struct gs)) (hfront : front.OutsideQuotes)
    (hbase : Text.isName base.toList = true) (hpad : pad.Blank) (hne : args ≠ [])
    (hargs : ∀ a ∈ args, Unbroken a ∧ ¬ a.Blank)
    (h : front ++ u ++ back = base.toList ++ pad ++ Text.angled args) :
    ∃ before p q after, Text.OutsideQuotes p ∧ args = before ++ (p ++ u ++ q) :: after ∧
      Outline (front ++ u' ++ back)
        (.generic base ((before ++ (p ++ u' ++ q) :: after).map Text.trim)) := by
  have hlabel := not_mem_markChars_label hbase hpad
  rw [Text.angled, List.cons_append] at h
  obtain ⟨front', rfl, hinner⟩ := hu.exists_front hlabel (by decide) (by decide) h
  obtain ⟨before, p, q, after, hp, rfl, hexchange⟩ :=
    exchange_inside (b := .angle) (walk_label hlabel rfl) hne (fun a ha => (hargs a ha).1)
      hu.unbroken (List.ne_nil_of_mem hu.brace_mem) hfront hinner
  obtain ⟨hparts, hinner'⟩ := hexchange u' hu'.unbroken
  refine ⟨before, p, q, after, hp, rfl, ?_⟩
  have hargs' : ∀ a ∈ before ++ (p ++ u' ++ q) :: after, Unbroken a ∧ ¬ a.Blank := by
    rw [List.forall_mem_append, List.forall_mem_cons] at hargs hparts ⊢
    exact ⟨hargs.1, ⟨hparts.2.1, hu'.not_blank_around p q⟩, hargs.2.2⟩
  have hgeneric := Outline.generic hbase hpad (by simp) hargs'
  rw [Text.angled, List.cons_append] at hgeneric
  rw [List.append_assoc, List.append_assoc, List.cons_append, ← List.append_assoc front', hinner']
  exact hgeneric

/-- The type of one field of a record may be any other text that breaks nothing. -/
theorem outline_record_replaced {before after : List FieldText} {f : FieldText} {type' : Text}
    (hpad : pad.Blank) (hlabels : ∀ g ∈ before ++ f :: after, g.Labelled)
    (htypes : ∀ g ∈ before ++ f :: after, Unbroken g.type ∧ ¬ g.type.Blank)
    (hnames : ((before ++ f :: after).map FieldText.name).Nodup)
    (htype' : Unbroken type' ∧ ¬ type'.Blank) :
    let fields := before ++ { f with type := type' } :: after
    Outline (Ty.structWord ++ pad ++ Text.braced (fields.map FieldText.chars))
      (.struct (fields.map FieldText.entry)) := by
  intro fields
  rw [List.forall_mem_append, List.forall_mem_cons] at hlabels htypes
  refine .record hpad (by simp [fields]) ?_ ?_ (by simpa [fields] using hnames)
  · rw [List.forall_mem_append, List.forall_mem_cons]
    exact ⟨hlabels.1, ⟨hlabels.2.1.pre, hlabels.2.1.name, hlabels.2.1.post⟩, hlabels.2.2⟩
  · rw [List.forall_mem_append, List.forall_mem_cons]
    exact ⟨htypes.1, htype', htypes.2.2⟩

/-- A record inside of a record stands in the type of one of its fields. -/
theorem Outline.exchange_field {fields : List FieldText} (hu : Outline u (.struct fs))
    (hu' : Outline u' (.struct gs))
    (hfront : Text.OutsideQuotes (Ty.structWord ++ pad ++ '\x7b' :: front)) (hpad : pad.Blank)
    (hne : fields ≠ []) (hlabels : ∀ f ∈ fields, f.Labelled)
    (htypes : ∀ f ∈ fields, Unbroken f.type ∧ ¬ f.type.Blank)
    (hnames : (fields.map FieldText.name).Nodup)
    (hinner : Text.commas (fields.map FieldText.chars) ++ ['\x7d'] = front ++ u ++ back) :
    ∃ before f p q after, Text.OutsideQuotes p ∧ f.type = p ++ u ++ q ∧
      fields = before ++ f :: after ∧
      Outline (Ty.structWord ++ pad ++ '\x7b' :: front ++ u' ++ back)
        (.struct ((before ++ { f with type := p ++ u' ++ q } :: after).map FieldText.entry)) := by
  have hchars : ∀ r ∈ fields.map FieldText.chars, Unbroken r :=
    List.forall_mem_map.mpr fun f hf => (hlabels f hf).unbroken_iff.mpr (htypes f hf).1
  obtain ⟨before, p, q, after, hp, hsplit, hexchange⟩ :=
    exchange_inside (b := .brace) (walk_label (not_mem_markChars_label isName_structWord hpad) rfl)
      (by simpa using hne) hchars hu.unbroken (List.ne_nil_of_mem hu.brace_mem) hfront hinner
  obtain ⟨hparts, hinner'⟩ := hexchange u' hu'.unbroken
  -- the piece that holds the record is a field, and its colon stands in front of the record
  obtain ⟨before, rest, rfl, rfl, hrest⟩ := List.map_eq_append_iff.mp hsplit
  obtain ⟨f, after, rfl, hf, rfl⟩ := List.map_eq_cons_iff.mp hrest
  have hflabel : f.Labelled := hlabels f (by simp)
  obtain ⟨p, rfl, htype⟩ :=
    hu.exists_front hflabel.not_mem_markChars (by decide) (by decide) hf.symm
  rw [List.append_cons] at hp
  refine ⟨before, f, p, q, after, hp.of_append [] hflabel.unbroken_label.walk, htype, rfl, ?_⟩
  let f' : FieldText := { f with type := p ++ u' ++ q }
  have hflabel' : f'.Labelled := ⟨hflabel.pre, hflabel.name, hflabel.post⟩
  have hfchars : f'.chars = f.pre ++ f.name.toList ++ f.post ++ ':' :: p ++ u' ++ q := by
    simp [f', FieldText.chars]
  rw [← hfchars] at hparts hinner'
  have hunbroken : Unbroken f'.type := hflabel'.unbroken_iff.mp (hparts f'.chars (by simp))
  have hrecord := outline_record_replaced hpad hlabels htypes hnames
    ⟨hunbroken, hu'.not_blank_around p q⟩
  rw [List.append_assoc, List.append_assoc, List.cons_append, ← List.append_assoc front, hinner']
  simpa [f', Text.braced, Bracket.closer] using hrecord

end

end Shape

/-! ## fields in another order -/

namespace Text

/-- One record in a text, outside of quotes, is written with its fields in another order. -/
inductive Rearranging : Text → Text → Prop where
  | fields {front u u' back : Text} {fs gs : List (String × Text)} (hfront : front.OutsideQuotes)
      (hu : Shape.Outline u (.struct fs)) (hu' : Shape.Outline u' (.struct gs))
      (hperm : fs.Perm gs) : Rearranging (front ++ u ++ back) (front ++ u' ++ back)

/-- At most one record is written with its fields in another order. -/
def Near : Text → Text → Prop := Relation.ReflGen Rearranging

/-- Records in a text are written with their fields in another order, one after the other. -/
def Rearranged : Text → Text → Prop := Relation.ReflTransGen Rearranging

/-- The segments of a record in another order, wherever the record stands outside of quotes. -/
theorem rearranging_of_perm {front pad back : Text} {fs gs : List Shape.FieldText}
    (hfront : front.OutsideQuotes) (hpad : pad.Blank) (hne : fs ≠ [])
    (hlabels : ∀ f ∈ fs, f.Labelled) (htypes : ∀ f ∈ fs, Nest.Unbroken f.type ∧ ¬ f.type.Blank)
    (hnames : (fs.map Shape.FieldText.name).Nodup) (h : fs.Perm gs) :
    Rearranging (front ++ (Ty.structWord ++ pad ++ braced (fs.map Shape.FieldText.chars)) ++ back)
      (front ++ (Ty.structWord ++ pad ++ braced (gs.map Shape.FieldText.chars)) ++ back) := by
  have hgs : gs ≠ [] := by
    rintro rfl
    exact hne h.eq_nil
  refine .fields hfront (.record hpad hne hlabels htypes hnames) ?_ (h.map Shape.FieldText.entry)
  exact .record hpad hgs (fun f hf => hlabels f (h.mem_iff.mpr hf))
    (fun f hf => htypes f (h.mem_iff.mpr hf)) ((h.map Shape.FieldText.name).nodup_iff.mp hnames)

/-- Fields that have changed places can change them back. -/
theorem Rearranging.symm {s s' : Text} (h : Rearranging s s') : Rearranging s' s := by
  obtain ⟨hfront, hu, hu', hperm⟩ := h
  exact .fields hfront hu' hu hperm.symm

/-- Blanks at the ends are not between any fields, so they may be left out before or
after. -/
theorem Rearranging.trim {s s' : Text} (h : Rearranging s s') : Rearranging s.trim s'.trim := by
  obtain ⟨hfront, hu, hu', hperm⟩ := h
  rw [trim_around hu.trim_eq hu.not_blank, trim_around hu'.trim_eq hu'.not_blank]
  exact .fields hfront.trimStart hu hu' hperm

end Text

namespace Shape

open Nest

/-- Shapes that differ in the order of fields, and otherwise in parts that `R` relates. -/
inductive Alike (R : Text → Text → Prop) : Shape → Shape → Prop where
  | atom (n : String) : Alike R (.atom n) (.atom n)
  | generic (base : String) (args : List (Text × Text)) (h : ∀ a ∈ args, R a.1 a.2) :
      Alike R (.generic base (args.map Prod.fst)) (.generic base (args.map Prod.snd))
  | struct (fields : NameMap (Text × Text)) {fs gs : List (String × Text)}
      (h : ∀ f ∈ fields, R f.2.1 f.2.2) (hfs : fs.Perm (NameMap.mapValues Prod.fst fields))
      (hgs : gs.Perm (NameMap.mapValues Prod.snd fields)) : Alike R (.struct fs) (.struct gs)

variable {R : Text → Text → Prop}

/-- Generics with one argument replaced are alike. -/
theorem alike_arg (hR : ∀ s, R s s) (base : String) {a a' : Text} (h : R a a')
    (before after : List Text) :
    Alike R (.generic base (before ++ a :: after)) (.generic base (before ++ a' :: after)) := by
  let pairs := before.map (fun s => (s, s)) ++ (a, a') :: after.map fun s => (s, s)
  have hpairs : ∀ p ∈ pairs, R p.1 p.2 := by
    intro p hp
    simp only [pairs, List.mem_append, List.mem_cons, List.mem_map] at hp
    obtain ⟨s, -, rfl⟩ | rfl | ⟨s, -, rfl⟩ := hp
    · exact hR s
    · exact h
    · exact hR s
  have halike := Alike.generic base pairs hpairs
  simp only [pairs, List.map_append, List.map_cons, List.map_map, Function.comp_def,
    List.map_id'] at halike
  exact halike

/-- Records with one field replaced are alike. -/
theorem alike_field (hR : ∀ s, R s s) (name : String) {s s' : Text} (h : R s s')
    (before after : List (String × Text)) :
    Alike R (.struct (before ++ (name, s) :: after)) (.struct (before ++ (name, s') :: after)) := by
  let twins (es : NameMap Text) := NameMap.mapValues (fun s => (s, s)) es
  refine .struct (twins before ++ (name, (s, s')) :: twins after) ?_ ?_ ?_
  · intro f hf
    simp only [twins, NameMap.mapValues, List.mem_append, List.mem_cons, List.mem_map] at hf
    obtain ⟨e, -, rfl⟩ | rfl | ⟨e, -, rfl⟩ := hf
    · exact hR e.2
    · exact h
    · exact hR e.2
  · simp [twins, NameMap.mapValues, Function.comp_def]
  · simp [twins, NameMap.mapValues, Function.comp_def]

/-- Records with the same fields in another order are alike. -/
theorem alike_perm (hR : ∀ s, R s s) {fs gs : List (String × Text)} (h : fs.Perm gs) :
    Alike R (.struct fs) (.struct gs) := by
  refine .struct (NameMap.mapValues (fun s => (s, s)) fs) ?_ ?_ ?_
  · exact List.forall_mem_map.mpr fun e _ => hR e.2
  · simp [NameMap.mapValues, Function.comp_def]
  · simpa [NameMap.mapValues, Function.comp_def] using h.symm

/-- Every shape is like itself. -/
theorem Alike.refl (hR : ∀ s, R s s) (shape : Shape) : Alike R shape shape := by
  cases shape with
  | atom n => exact .atom n
  | generic base args =>
      have halike := Alike.generic (R := R) base (args.map fun s => (s, s))
        (List.forall_mem_map.mpr fun s _ => hR s)
      simp only [List.map_map, Function.comp_def, List.map_id'] at halike
      exact halike
  | struct fs => exact alike_perm hR (List.Perm.refl fs)

end Shape

namespace Text

/-! ## what the scanner finds -/

/-- A quoted text has no record outside of its quotes. -/
theorem not_isQuoted_around {front u back : Text} {fs : List (String × Text)}
    (hu : Shape.Outline u (.struct fs)) (hfront : OutsideQuotes front) :
    ¬ IsQuoted (front ++ u ++ back) := by
  rintro ⟨q, body, hbody, h⟩
  obtain ⟨pad, inner, -, -, hbraces⟩ := hu.exists_braces
  cases front with
  | nil =>
      rw [hbraces, Ty.structWord] at h
      have hq := (List.cons.inj h).1
      cases q <;> simp [Quote.char] at hq
  | cons c front =>
      rw [List.cons_append, List.cons_append, List.cons_append, List.cons.injEq] at h
      obtain ⟨rfl, h⟩ := h
      have hne : u ++ back ≠ [] := by simp [List.ne_nil_of_mem hu.brace_mem]
      rw [List.append_assoc, ← List.dropLast_concat_getLast hne, ← List.append_assoc] at h
      obtain ⟨rfl, -⟩ := List.append_inj' h rfl
      obtain ⟨n, hn, hquoting⟩ := hbody.walk_front
      refine hquoting (hfront n ?_)
      rw [Nest.walk, Mark.ofChar_quoteChar]
      exact hn

/-- **A rearranged text keeps its shape**: the rearranged record is either the text
itself, with its fields in another order, or stands in one argument or field. -/
theorem Rearranging.outline {s s' : Text} {shape : Shape} (h : Rearranging s s')
    (hs : Shape.Outline s shape) :
    ∃ shape', Shape.Outline s' shape' ∧ Shape.Alike Near shape shape' := by
  obtain @⟨front, u, u', back, fs, gs, hfront, hu, hu', hperm⟩ := h
  have hbrace : '\x7b' ∈ front ++ u ++ back := by simp [hu.brace_mem]
  have hrefl : ∀ t, Near t t := fun _ => .refl
  have hpart : ∀ {p q : Text}, OutsideQuotes p →
      Near (Text.trim (p ++ u ++ q)) (Text.trim (p ++ u' ++ q)) :=
    fun hp => .single (Rearranging.fields hp hu hu' hperm).trim
  by_cases hall : front = [] ∧ back = []
  · obtain ⟨rfl, rfl⟩ := hall
    rw [List.nil_append, List.append_nil] at hs ⊢
    rw [hs.unique hu]
    exact ⟨_, hu', Shape.alike_perm hrefl hperm⟩
  generalize hwhole : front ++ u ++ back = whole at hs hbrace
  cases hs with
  | atom hatom =>
      obtain hname | hquoted := hatom
      · exact absurd (by decide) (not_mem_markChars_of_isName hname _ hbrace)
      · rw [← hwhole] at hquoted
        exact absurd hquoted (not_isQuoted_around hu hfront)
  | @bare base pad inner hbase hpad hinner =>
      rw [List.cons_append] at hwhole
      obtain ⟨front', -, hinside⟩ :=
        hu.exists_front (Shape.not_mem_markChars_label hbase hpad) (by decide) (by decide) hwhole
      exact absurd hinside (hu.not_blank_inside (b := .angle) hinner)
  | @generic base pad args hbase hpad hne hargs =>
      obtain ⟨before, p, q, after, hp, rfl, houtline⟩ :=
        hu.exchange_arg hu' hfront hbase hpad hne hargs hwhole
      refine ⟨_, houtline, ?_⟩
      rw [List.map_append, List.map_cons, List.map_append, List.map_cons]
      exact Shape.alike_arg hrefl base (hpart hp) _ _
  | @bareRecord pad inner hpad hinner =>
      obtain ⟨front', -, hinside⟩ :=
        (hu.whole_or_inside hpad (Shape.walk_of_blank hinner) hwhole).resolve_left hall
      exact absurd hinside (hu.not_blank_inside (b := .brace) hinner)
  | @record pad fields hpad hne hlabels htypes hnames =>
      have hwalk := Shape.walk_fields hne hlabels htypes
      obtain ⟨front', rfl, hinside⟩ := (hu.whole_or_inside hpad hwalk hwhole).resolve_left hall
      obtain ⟨before, f, p, q, after, hp, htype, rfl, houtline⟩ :=
        hu.exchange_field hu' hfront hpad hne hlabels htypes hnames hinside
      refine ⟨_, houtline, ?_⟩
      rw [List.map_append, List.map_cons, List.map_append, List.map_cons, Shape.FieldText.entry,
        htype]
      exact Shape.alike_field hrefl f.name (hpart hp) _ _

/-- What the scanner finds in two texts: a fault in both, or shapes that are alike. -/
inductive ScansAlike (s s' : Text) : Prop where
  | fault {e e' : ReadError} (h : Shape.scan s = .error e) (h' : Shape.scan s' = .error e')
  | shape {a b : Shape} (h : Shape.scan s = .ok a) (h' : Shape.scan s' = .ok b)
      (halike : Shape.Alike Near a b)

/-- The scanner finds shapes that are alike in rearranged texts, or complains about
both. -/
theorem Rearranging.scan {s s' : Text} (h : Rearranging s s') : ScansAlike s s' := by
  cases hs : Shape.scan s with
  | ok a =>
      obtain ⟨b, houtline, halike⟩ := h.trim.outline (Shape.scan_eq_ok_iff.mp hs)
      exact .shape hs (Shape.scan_eq_ok_iff.mpr houtline) halike
  | error e =>
      cases hs' : Shape.scan s' with
      | error e' => exact .fault hs hs'
      | ok b =>
          obtain ⟨a, houtline, -⟩ := h.symm.trim.outline (Shape.scan_eq_ok_iff.mp hs')
          rw [Shape.scan_eq_ok_iff.mpr houtline] at hs
          contradiction

/-- **What the scanner finds** in texts that differ in the order of the fields of one record:
the same, but for the order of fields and for one part that differs in the same way. -/
theorem Near.scan {s s' : Text} (h : Near s s') : ScansAlike s s' := by
  cases h with
  | refl =>
      cases hs : Shape.scan s with
      | error e => exact .fault hs hs
      | ok a => exact .shape hs hs (Shape.Alike.refl (fun _ => .refl) a)
  | single h => exact h.scan

end Text

end TypeFlow
