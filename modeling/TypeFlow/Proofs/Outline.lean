import TypeFlow.Proofs.Nesting
import TypeFlow.Shape

/-!
# TypeFlow.Proofs.Outline

The outermost level of a type text as a small grammar.  `Shape.Outline s shape`
says how a text without blanks around it is put together: which character
stands where, where blanks may stand, and that the texts of the parts are
`Unbroken` and not blank.  The scanner looks for the first bracket, matches it
and cuts what it finds; the grammar knows nothing of this.

* `trim_padded` — blanks around a text are all that trimming takes off;
* `scan_eq_ok_iff` — the scanner finds a shape exactly where the grammar has
  one;
* `Outline.trim_eq`, `Outline.unbroken` — the texts of the grammar have no
  blanks around them and no commas outside of their brackets and quotes.
-/

namespace TypeFlow

namespace Text

/-! ## blanks around a text -/

/-- Nothing but blanks. -/
def Blank (s : Text) : Prop := ∀ c ∈ s, isBlank c = true

instance (s : Text) : Decidable s.Blank :=
  decidable_of_iff (s.all isBlank = true) List.all_eq_true

theorem blank_nil : Blank [] := fun _ hc => absurd hc List.not_mem_nil

theorem Blank.append {s t : Text} (hs : Blank s) (ht : Blank t) : Blank (s ++ t) := by
  intro c hc
  obtain hc | hc := List.mem_append.mp hc
  · exact hs c hc
  · exact ht c hc

/-- Blanks put in front are trimmed off again. -/
theorem trimStart_padded {pre : Text} (h : Blank pre) (s : Text) :
    trimStart (pre ++ s) = trimStart s := by
  rw [trimStart, List.dropWhile_append_of_pos h, ← trimStart]

/-- Blanks put behind are trimmed off again. -/
theorem trimEnd_padded {post : Text} (h : Blank post) (s : Text) :
    trimEnd (s ++ post) = trimEnd s := by
  have hrev : Blank post.reverse := fun c hc => h c (List.mem_reverse.mp hc)
  rw [trimEnd, List.reverse_append, List.dropWhile_append_of_pos hrev, ← trimEnd]

/-- What is not blank keeps all that stands before it. -/
theorem trimEnd_append {t : Text} (h : ¬ Blank t) (s : Text) :
    trimEnd (s ++ t) = s ++ trimEnd t := by
  have hne : (List.dropWhile isBlank t.reverse).isEmpty = false := by
    rw [List.isEmpty_eq_false_iff, ← trimStart]
    exact fun ht => h fun c hc => trimStart_eq_nil_iff.mp ht c (List.mem_reverse.mpr hc)
  rw [trimEnd, List.reverse_append, List.dropWhile_append, hne]
  simp [trimEnd]

/-- The blanks that trimming the front takes off. -/
theorem exists_trimStart (s : Text) : ∃ pre, Blank pre ∧ s = pre ++ trimStart s :=
  ⟨s.takeWhile isBlank, List.all_eq_true.mp List.all_takeWhile,
    List.takeWhile_append_dropWhile.symm⟩

/-- The blanks that trimming the end takes off. -/
theorem exists_trimEnd (s : Text) : ∃ post, Blank post ∧ s = trimEnd s ++ post := by
  obtain ⟨pre, hpre, hs⟩ := exists_trimStart s.reverse
  refine ⟨pre.reverse, fun c hc => hpre c (List.mem_reverse.mp hc), ?_⟩
  rw [trimEnd, ← trimStart, ← List.reverse_append, ← hs, List.reverse_reverse]

/-- A text is what trimming leaves of it, with blanks around. -/
theorem exists_padding (s : Text) :
    ∃ pre post, Blank pre ∧ Blank post ∧ s = pre ++ s.trim ++ post := by
  obtain ⟨pre, hpre, hs⟩ := exists_trimStart s
  obtain ⟨post, hpost, hs'⟩ := exists_trimEnd (trimStart s)
  refine ⟨pre, post, hpre, hpost, ?_⟩
  rw [trim, List.append_assoc, ← hs', ← hs]

/-- Blanks around a text are all that trimming takes off. -/
theorem trim_padded {pre post : Text} (hpre : Blank pre) (hpost : Blank post) (s : Text) :
    trim (pre ++ s ++ post) = trim s := by
  rw [trim, List.append_assoc, trimStart_padded hpre]
  by_cases hs : Blank s
  · have hall : Blank (s ++ post) := hs.append hpost
    rw [trimStart_eq_nil_iff.mpr hall, trim_eq_nil_iff.mpr hs, trimEnd_nil]
  · have hne : (List.dropWhile isBlank s).isEmpty = false := by
      rw [List.isEmpty_eq_false_iff, ← trimStart]
      exact fun h => hs (trimStart_eq_nil_iff.mp h)
    rw [trimStart, List.dropWhile_append, hne]
    simp only [Bool.false_eq_true, if_false]
    rw [trimEnd_padded hpost, ← trimStart, ← trim]

theorem trim_trimEnd (s : Text) : trim (trimEnd s) = trim s := by
  obtain ⟨post, hpost, hs⟩ := exists_trimEnd s
  have hp := trim_padded blank_nil hpost (trimEnd s)
  rw [List.nil_append, ← hs] at hp
  exact hp.symm

theorem trimStart_of_trim {s : Text} (h : s.trim = s) : s.trimStart = s := by
  have hs := trimStart_trimEnd_trimStart s
  rw [← trim, h] at hs
  exact hs

/-- A text that neither starts nor ends with a blank has nothing to trim. -/
theorem trim_eq_self {s : Text} (hhead : ∀ c ∈ s.head?, isBlank c = false)
    (hlast : ∀ c ∈ s.getLast?, isBlank c = false) : s.trim = s := by
  have hrev : trimStart s.reverse = s.reverse := by
    rw [trimStart_eq_self_iff, List.head?_reverse]
    exact hlast
  rw [trim, trimStart_eq_self_iff.mpr hhead, trimEnd, ← trimStart, hrev, List.reverse_reverse]

/-- A text that begins with a character, blanks aside, has nothing else but blanks
before it. -/
theorem trimStart_eq_cons_iff {c : Char} {s rest : Text} (hc : isBlank c = false) :
    trimStart s = c :: rest ↔ ∃ pad, Blank pad ∧ s = pad ++ c :: rest := by
  constructor
  · intro h
    obtain ⟨pad, hpad, hs⟩ := exists_trimStart s
    rw [h] at hs
    exact ⟨pad, hpad, hs⟩
  · rintro ⟨pad, hpad, rfl⟩
    rw [trimStart_padded hpad, trimStart_cons_of_not_blank hc]

/-! ## names and blanks are plain -/

/-- No character with a meaning is blank. -/
theorem isBlank_of_mem_markChars {c : Char} (h : c ∈ markChars) : isBlank c = false := by
  have hall : (markChars.all fun c => !isBlank c) = true := by decide +kernel
  simpa using List.all_eq_true.mp hall c h

/-- Blanks have no meaning. -/
theorem Blank.not_mem_markChars {s : Text} (h : Blank s) : ∀ c ∈ s, c ∉ markChars := by
  intro c hc hm
  have hb := h c hc
  rw [isBlank_of_mem_markChars hm] at hb
  contradiction

/-- The characters of a name have no meaning. -/
theorem not_mem_markChars_of_isName {s : Text} (h : s.isName = true) : ∀ c ∈ s, c ∉ markChars :=
  fun c hc => (ne_of_isNameChar (isNameChar_of_mem h c hc)).2

/-- Texts of characters without a meaning of their own break nothing. -/
theorem unbroken_of_not_mem_markChars {s : Text} (h : ∀ c ∈ s, c ∉ markChars) : Nest.Unbroken s :=
  Nest.unbroken_of_plain fun c hc => Mark.ofChar_of_not_mem (h c hc)

/-- A name starts and ends with a character that is not blank. -/
theorem trim_of_isName {s : Text} (h : s.isName = true) : s.trim = s := by
  have hb : ∀ c ∈ s, isBlank c = false := fun c hc =>
    (ne_of_isNameChar (isNameChar_of_mem h c hc)).1
  exact trim_eq_self (fun c hc => hb c (List.mem_of_mem_head? hc))
    fun c hc => hb c (List.mem_of_mem_getLast? hc)

/-- A name begins with no blank. -/
theorem trimStart_name_append {s : Text} (h : s.isName = true) (t : Text) :
    trimStart (s ++ t) = s ++ t := by
  obtain ⟨c, s, rfl⟩ := List.exists_cons_of_ne_nil (ne_nil_of_isName h)
  have hc := (ne_of_isNameChar (isNameChar_of_mem h c List.mem_cons_self)).1
  exact trimStart_cons_of_not_blank hc

/-- A name is left when the blanks behind it are trimmed. -/
theorem trim_name_padded {s pad : Text} (h : s.isName = true) (hpad : Blank pad) :
    (s ++ pad).trim = s := by
  have hp := trim_padded blank_nil hpad s
  rw [List.nil_append, trim_of_isName h] at hp
  exact hp

/-! ## breaking at a character -/

/-- A text is broken at the first character of a kind. -/
theorem breakAt_append_cons {p : Char → Bool} {s : Text} {c : Char} (hs : ∀ d ∈ s, p d = false)
    (hc : p c = true) (rest : Text) : (s ++ c :: rest).breakAt p = (s, c :: rest) := by
  have hs' : ∀ d ∈ s, (!p d) = true := fun d hd => by rw [hs d hd]; rfl
  unfold breakAt
  rw [List.takeWhile_append_of_pos hs', List.dropWhile_append_of_pos hs']
  simp [hc]

theorem breakAt_of_forall {p : Char → Bool} {s : Text} (hs : ∀ d ∈ s, p d = false) :
    s.breakAt p = (s, []) := by
  have hs' : ∀ d ∈ s, (!p d) = true := fun d hd => by rw [hs d hd]; rfl
  have htake := @List.takeWhile_append_of_pos _ _ s [] hs'
  have hdrop := @List.dropWhile_append_of_pos _ _ s [] hs'
  rw [List.append_nil] at htake hdrop
  unfold breakAt
  rw [htake, hdrop]
  simp

/-- What stands before the break has no character of the kind. -/
theorem breakAt_eq_cons {p : Char → Bool} {s front rest : Text} {c : Char}
    (h : s.breakAt p = (front, c :: rest)) :
    s = front ++ c :: rest ∧ p c = true := by
  have happ := breakAt_append p s
  unfold breakAt at h happ
  rw [Prod.mk.injEq] at h
  obtain ⟨hfront, hrest⟩ := h
  rw [hfront, hrest] at happ
  have hnot := List.head?_dropWhile_not (fun d => !p d) s
  rw [hrest] at hnot
  refine ⟨happ.symm, ?_⟩
  simpa using hnot

theorem isOpening_of_not_mem {c : Char} (h : c ∉ markChars) : isOpening c = false := by
  simp only [markChars, List.mem_cons, not_or] at h
  simp [isOpening, h]

theorem isClosing_of_not_mem {c : Char} (h : c ∉ markChars) : isClosing c = false := by
  simp only [markChars, List.mem_cons, not_or] at h
  simp [isClosing, h]

/-- One complete quoted part. -/
def IsQuoted (s : Text) : Prop :=
  ∃ (q : Quote) (body : Text), Nest.QuotedBody q body ∧ s = q.char :: body ++ [q.char]

end Text

namespace Shape

open Nest

/-! ## the grammar of one level -/

/-- A field as it stands in the text of a record: blanks, the name, blanks, a
colon and the text of the type. -/
structure FieldText where
  pre : Text
  name : String
  post : Text
  type : Text

namespace FieldText

/-- The characters of a field. -/
def chars (f : FieldText) : Text := f.pre ++ f.name.toList ++ f.post ++ ':' :: f.type

/-- The name and the type's text, without the blanks around them. -/
def entry (f : FieldText) : String × Text := (f.name, f.type.trim)

/-- What stands before the colon is a name, with blanks around it. -/
structure Labelled (f : FieldText) : Prop where
  pre : f.pre.Blank
  name : Text.isName f.name.toList = true
  post : f.post.Blank

end FieldText

/-- How a text without blanks around it makes up a shape. -/
inductive Outline : Text → Shape → Prop where
  | atom {n : String} (h : Text.isName n.toList = true ∨ Text.IsQuoted n.toList) :
      Outline n.toList (.atom n)
  | bare {base : String} {pad inner : Text} (hbase : Text.isName base.toList = true)
      (hpad : pad.Blank) (hinner : inner.Blank) :
      Outline (base.toList ++ pad ++ ('<' :: inner ++ ['>'])) (.generic base [])
  | generic {base : String} {pad : Text} {args : List Text} (hbase : Text.isName base.toList = true)
      (hpad : pad.Blank) (hne : args ≠ []) (hargs : ∀ a ∈ args, Unbroken a ∧ ¬ a.Blank) :
      Outline (base.toList ++ pad ++ Text.angled args) (.generic base (args.map Text.trim))
  | bareRecord {pad inner : Text} (hpad : pad.Blank) (hinner : inner.Blank) :
      Outline (Ty.structWord ++ pad ++ ('\x7b' :: inner ++ ['\x7d'])) (.struct [])
  | record {pad : Text} {fields : List FieldText} (hpad : pad.Blank) (hne : fields ≠ [])
      (hlabels : ∀ f ∈ fields, f.Labelled) (htypes : ∀ f ∈ fields, Unbroken f.type ∧ ¬ f.type.Blank)
      (hnames : (fields.map FieldText.name).Nodup) :
      Outline (Ty.structWord ++ pad ++ Text.braced (fields.map FieldText.chars))
        (.struct (fields.map FieldText.entry))

/-! ## brackets and their parts -/

/-- **What a bracket holds**: a well nested text, if the closing bracket comes last. -/
theorem body_eq_ok_iff {whole rest inner : Text} {b : Bracket} :
    body whole b rest = .ok inner ↔ top.walk inner = some top ∧ rest = inner ++ [b.closer] := by
  rw [← enclosed_opened_iff]
  unfold body
  cases h : (opened b).enclosed rest with
  | error f => simp
  | ok r =>
      obtain ⟨inner', rest'⟩ := r
      cases rest' <;> simp

theorem parts_of_blank {inner : Text} (h : inner.Blank) : parts inner = .ok [] := by
  rw [parts, if_pos (Text.trim_eq_nil_iff.mpr h)]

/-- Every part stands somewhere in the list of parts. -/
theorem sublist_commas {ps : List Text} {p : Text} (hp : p ∈ ps) : p.Sublist (Text.commas ps) := by
  induction ps with
  | nil => exact absurd hp List.not_mem_nil
  | cons q ps ih =>
      cases ps with
      | nil =>
          rw [List.mem_singleton] at hp
          simp [hp]
      | cons q' ps =>
          rw [Text.commas_cons_cons]
          obtain hp | hp := List.mem_cons.mp hp
          · rw [hp]
            exact List.sublist_append_left q _
          · exact ((ih hp).cons ',').trans (List.sublist_append_right q _)

/-- The parts of texts with commas between them are these texts, trimmed. -/
theorem parts_commas {ps : List Text} (hne : ps ≠ []) (h : ∀ p ∈ ps, Unbroken p ∧ ¬ p.Blank) :
    parts (Text.commas ps) = .ok (ps.map Text.trim) := by
  obtain ⟨p, hp⟩ := List.exists_mem_of_ne_nil ps hne
  have hblank : ¬ (Text.commas ps).trim = [] := fun hb => (h p hp).2 fun c hc =>
    Text.trim_eq_nil_iff.mp hb c ((sublist_commas hp).subset hc)
  rw [parts, if_neg hblank, Text.split, pieces_commas hne fun q hq => (h q hq).1]

/-- Parts come from a blank text, which has none, or from texts with commas between
them. -/
theorem parts_eq_ok {inner : Text} {args : List Text} (h : parts inner = .ok args) :
    (inner.Blank ∧ args = []) ∨
      ∃ ps, ps ≠ [] ∧ (∀ p ∈ ps, Unbroken p) ∧ inner = Text.commas ps ∧ args = ps.map Text.trim := by
  unfold parts at h
  by_cases hb : inner.trim = []
  · rw [if_pos hb, Except.ok.injEq] at h
    exact .inl ⟨Text.trim_eq_nil_iff.mp hb, h.symm⟩
  · rw [if_neg hb, Text.split] at h
    cases hp : top.pieces inner with
    | error f => simp [hp] at h
    | ok ps =>
        simp only [hp, Except.ok.injEq] at h
        obtain ⟨hne, hps, hinner⟩ := pieces_eq_ok_iff.mp hp
        exact .inr ⟨ps, hne, hps, hinner, h.symm⟩

/-! ## fields -/

/-- Nothing in front of the colon of a field has a meaning. -/
theorem FieldText.Labelled.not_mem_markChars {f : FieldText} (h : f.Labelled) :
    ∀ c ∈ f.pre ++ f.name.toList ++ f.post, c ∉ markChars := by
  intro c hc
  rw [List.mem_append, List.mem_append] at hc
  obtain (hc | hc) | hc := hc
  · exact h.pre.not_mem_markChars c hc
  · exact Text.not_mem_markChars_of_isName h.name c hc
  · exact h.post.not_mem_markChars c hc

/-- What stands before the type of a field breaks nothing. -/
theorem FieldText.Labelled.unbroken_label {f : FieldText} (h : f.Labelled) :
    Unbroken (f.pre ++ f.name.toList ++ f.post ++ [':']) :=
  (Text.unbroken_of_not_mem_markChars h.not_mem_markChars).append rfl

theorem FieldText.chars_eq (f : FieldText) :
    f.chars = (f.pre ++ f.name.toList ++ f.post ++ [':']) ++ f.type := by
  simp [chars]

/-- A field breaks exactly where its type does. -/
theorem FieldText.Labelled.unbroken_iff {f : FieldText} (h : f.Labelled) :
    Unbroken f.chars ↔ Unbroken f.type := by
  rw [FieldText.chars_eq]
  constructor
  · intro hf
    unfold Unbroken at hf ⊢
    rw [pieces_append h.unbroken_label] at hf
    obtain ⟨ps, ht, hglue⟩ := map_eq_ok_iff.mp hf
    obtain ⟨p, ps, rfl⟩ := List.exists_cons_of_ne_nil (pieces_ne_nil ht)
    rw [glue, pushText_piece, List.cons.injEq, List.append_cancel_left_eq] at hglue
    rw [ht, hglue.1, hglue.2]
  · exact h.unbroken_label.append

/-- A field has at least its colon. -/
theorem FieldText.not_blank_chars (f : FieldText) : ¬ f.chars.Blank := by
  intro hb
  have hcolon := hb ':' (by simp [FieldText.chars])
  simp [isBlank, CodeRanges.contains, blankRanges] at hcolon

/-- Trimming a field takes the blanks before its name and behind its type. -/
theorem FieldText.Labelled.trim_chars {f : FieldText} (h : f.Labelled) :
    f.chars.trim = (f.name.toList ++ f.post) ++ ':' :: f.type.trimEnd := by
  have hcolon : isBlank ':' = false := by decide
  have hnot : ¬ Text.Blank (':' :: f.type) := fun hb => by
    rw [hb ':' List.mem_cons_self] at hcolon
    contradiction
  have hchars : f.chars = f.pre ++ (f.name.toList ++ (f.post ++ ':' :: f.type)) := by
    simp [FieldText.chars]
  rw [hchars, Text.trim, Text.trimStart_padded h.pre, Text.trimStart_name_append h.name,
    ← List.append_assoc, Text.trimEnd_append hnot, Text.trimEnd_cons_of_not_blank hcolon]

/-- A field is read back from its text, cut at the first colon. -/
theorem field_chars {f : FieldText} (h : f.Labelled) (hne : ¬ f.type.Blank) (whole : Text) :
    field whole f.chars.trim = .ok f.entry := by
  have hlabel : ∀ c ∈ f.name.toList ++ f.post, (c == ':') = false := by
    intro c hc
    have hm := h.not_mem_markChars c (by rw [List.append_assoc]; exact List.mem_append_right _ hc)
    simp only [markChars, List.mem_cons, not_or] at hm
    simp [hm]
  have htype : ¬ f.type.trim = [] := fun ht => hne (Text.trim_eq_nil_iff.mp ht)
  rw [h.trim_chars, field, Text.breakAt_append_cons hlabel (by simp)]
  simp [Text.trim_name_padded h.name h.post, h.name, Text.trim_trimEnd, htype, FieldText.entry]

/-- A field that is read stands in the text with its colon. -/
theorem exists_fieldText {whole segment : Text} {e : String × Text}
    (h : field whole segment.trim = .ok e) :
    ∃ f : FieldText, f.Labelled ∧ ¬ f.type.Blank ∧ segment = f.chars ∧ e = f.entry := by
  obtain ⟨pre, post, hpre, hpost, hsegment⟩ := Text.exists_padding segment
  unfold field at h
  cases hb : segment.trim.breakAt (· == ':') with
  | mk front rest =>
      cases rest with
      | nil => simp [hb] at h
      | cons c type =>
          simp only [hb] at h
          obtain ⟨hseg, hc⟩ := Text.breakAt_eq_cons hb
          rw [beq_iff_eq] at hc
          rw [guard_eq_ok_iff, guard_eq_ok_iff, Bool.not_eq_false, Except.ok.injEq] at h
          obtain ⟨hname, htype, he⟩ := h
          obtain ⟨npre, npost, hnpre, hnpost, hfront⟩ := Text.exists_padding front
          have htrim : Text.trim (type ++ post) = Text.trim type := by
            have hp := Text.trim_padded Text.blank_nil hpost type
            rwa [List.nil_append] at hp
          refine ⟨⟨pre ++ npre, String.ofList front.trim, npost, type ++ post⟩, ?_, ?_, ?_, ?_⟩
          · exact ⟨hpre.append hnpre, by rw [String.toList_ofList]; exact hname, hnpost⟩
          · intro hblank
            exact htype (htrim ▸ Text.trim_eq_nil_iff.mpr hblank)
          · have hall : segment = pre ++ ((npre ++ front.trim ++ npost) ++ ':' :: type) ++ post := by
              rw [← hfront, ← hc, ← hseg]
              exact hsegment
            rw [hall]
            simp [FieldText.chars]
          · rw [← he, FieldText.entry, htrim]

/-- The fields of a record are read back from their texts. -/
theorem fields_chars {whole : Text} {fs : List FieldText} {seen : List String}
    (hlabels : ∀ f ∈ fs, f.Labelled) (htypes : ∀ f ∈ fs, ¬ f.type.Blank)
    (hnames : (fs.map FieldText.name).Nodup) (hseen : ∀ f ∈ fs, f.name ∉ seen) :
    fields whole seen ((fs.map FieldText.chars).map Text.trim) =
      .ok (fs.map FieldText.entry) := by
  induction fs generalizing seen with
  | nil => rfl
  | cons f fs ih =>
      rw [List.map_cons, List.nodup_cons] at hnames
      have hf : f ∈ f :: fs := List.mem_cons_self
      have hrest : ∀ g ∈ fs, g.name ∉ f.name :: seen := by
        intro g hg hmem
        obtain hmem | hmem := List.mem_cons.mp hmem
        · exact hnames.1 (hmem ▸ List.mem_map_of_mem hg)
        · exact hseen g (List.mem_cons_of_mem f hg) hmem
      have hih := ih (fun g hg => hlabels g (List.mem_cons_of_mem f hg))
        (fun g hg => htypes g (List.mem_cons_of_mem f hg)) hnames.2 hrest
      rw [List.map_cons, List.map_cons, fields, field_chars (hlabels f hf) (htypes f hf)]
      simp only [FieldText.entry, bind, Except.bind, if_neg (hseen f hf), hih, pure, Except.pure]
      rfl

/-- Fields that are read have different names, and each stands in its own
segment. -/
theorem exists_fieldTexts {whole : Text} {segments : List Text} {seen : List String}
    {es : List (String × Text)} (h : fields whole seen (segments.map Text.trim) = .ok es) :
    ∃ fs : List FieldText, (∀ f ∈ fs, f.Labelled) ∧ (∀ f ∈ fs, ¬ f.type.Blank) ∧
      (fs.map FieldText.name).Nodup ∧ (∀ f ∈ fs, f.name ∉ seen) ∧
      segments = fs.map FieldText.chars ∧ es = fs.map FieldText.entry := by
  induction segments generalizing seen es with
  | nil =>
      rw [List.map_nil, fields, Except.ok.injEq] at h
      exact ⟨[], by simp, by simp, by simp, by simp, rfl, h.symm⟩
  | cons s segments ih =>
      rw [List.map_cons, fields] at h
      obtain ⟨e, hf, h⟩ := bind_eq_ok_iff.mp h
      obtain ⟨hmem, h⟩ := guard_eq_ok_iff.mp h
      obtain ⟨es', hr, h⟩ := bind_eq_ok_iff.mp h
      cases h
      obtain ⟨f, hl, ht, hs, he⟩ := exists_fieldText hf
      obtain ⟨fs, hls, hts, hnd, hseen, hss, hes⟩ := ih hr
      have hname : e.1 = f.name := by rw [he]; rfl
      refine ⟨f :: fs, ?_, ?_, ?_, ?_, ?_, ?_⟩
      · exact List.forall_mem_cons.mpr ⟨hl, hls⟩
      · exact List.forall_mem_cons.mpr ⟨ht, hts⟩
      · rw [List.map_cons, List.nodup_cons]
        refine ⟨fun hin => ?_, hnd⟩
        obtain ⟨g, hg, hgn⟩ := List.mem_map.mp hin
        exact hseen g hg (by rw [hname, hgn]; exact List.mem_cons_self)
      · refine List.forall_mem_cons.mpr ⟨hname ▸ hmem, fun g hg hin => ?_⟩
        exact hseen g hg (List.mem_cons_of_mem _ hin)
      · rw [hs, hss]; rfl
      · rw [hes, List.map_cons, ← he]

/-! ## from the scanner to the grammar -/

/-- A name or a quoted part is an atom. -/
theorem outline_atom {s : Text} (h : s.isName = true ∨ s.IsQuoted) :
    Outline s (.atom (String.ofList s)) := by
  have hs : (String.ofList s).toList = s := String.toList_ofList
  rw [← hs] at h
  have hatom := Outline.atom h
  rw [hs] at hatom
  exact hatom

/-- What the scanner takes for a quoted part is one. -/
theorem outline_of_ofQuoted {c : Char} {rest : Text} {q : Quote} {shape : Shape}
    (hq : Quote.ofChar? c = some q) (h : ofQuoted (c :: rest) q rest = .ok shape) :
    Outline (c :: rest) shape := by
  rw [Quote.ofChar?_eq_some_iff] at hq
  unfold ofQuoted at h
  cases he : (quoted q).enclosed rest with
  | error f => simp [he] at h
  | ok r =>
      obtain ⟨body, after⟩ := r
      cases after with
      | cons d after => simp [he] at h
      | nil =>
          simp only [he, Except.ok.injEq] at h
          obtain ⟨hbody, hrest⟩ := enclosed_quoted_iff.mp he
          rw [← h]
          exact outline_atom (.inr ⟨q, body, hbody, by rw [hq, hrest]; rfl⟩)

/-- What it takes for a word is a name. -/
theorem outline_of_ofWord {s : Text} {shape : Shape} (h : ofWord s = .ok shape) :
    Outline s shape := by
  unfold ofWord at h
  obtain ⟨-, h⟩ := guard_eq_ok_iff.mp h
  by_cases hname : s.isName = true
  · rw [if_pos hname, Except.ok.injEq] at h
    rw [← h]
    exact outline_atom (.inl hname)
  · rw [if_neg hname] at h; contradiction

/-- What it takes for a generic is one, with blanks between base and bracket at most. -/
theorem outline_of_ofGeneric {whole base pad rest : Text} {shape : Shape} (hpad : pad.Blank)
    (h : ofGeneric whole base rest = .ok shape) : Outline (base ++ pad ++ '<' :: rest) shape := by
  rw [ofGeneric, guard_eq_ok_iff, guard_eq_ok_iff, Bool.not_eq_false] at h
  obtain ⟨-, hname, h⟩ := h
  obtain ⟨inner, hb, h⟩ := bind_eq_ok_iff.mp h
  obtain ⟨args, hp, h⟩ := bind_eq_ok_iff.mp h
  obtain ⟨hmem, h⟩ := guard_eq_ok_iff.mp h
  obtain ⟨-, hrest⟩ := body_eq_ok_iff.mp hb
  have hbase : Text.isName (String.ofList base).toList = true := by
    rw [String.toList_ofList]
    exact hname
  cases h
  obtain ⟨hinner, hargs⟩ | ⟨ps, hne, hps, hinner, hargs⟩ := parts_eq_ok hp
  · have hbare := Outline.bare hbase hpad hinner
    rw [String.toList_ofList] at hbare
    rw [hrest, hargs]
    exact hbare
  · have hfull : ∀ p ∈ ps, Unbroken p ∧ ¬ p.Blank := by
      intro p hp'
      refine ⟨hps p hp', fun hblank => hmem ?_⟩
      rw [hargs, ← Text.trim_eq_nil_iff.mpr hblank]
      exact List.mem_map_of_mem hp'
    have hgeneric := Outline.generic hbase hpad hne hfull
    rw [String.toList_ofList] at hgeneric
    rw [hrest, hargs, hinner]
    exact hgeneric

/-- A text without a quote or a record in front is a word or a generic. -/
theorem outline_of_ofPlain {s : Text} {shape : Shape} (hs : s.trim = s)
    (h : ofPlain s = .ok shape) : Outline s shape := by
  unfold ofPlain at h
  cases hb : s.breakAt isOpening with
  | mk front rest =>
      cases rest with
      | nil =>
          simp only [hb] at h
          exact outline_of_ofWord h
      | cons c rest =>
          simp only [hb] at h
          obtain ⟨hfront, -⟩ := Text.breakAt_eq_cons hb
          by_cases hc : c = '<'
          · rw [if_pos hc] at h
            have hempty : front ≠ [] := by
              rintro rfl
              simp [ofGeneric] at h
            -- the text does not start with a blank, so neither does the base
            have hstart : front.trimStart = front := by
              obtain ⟨d, front, rfl⟩ := List.exists_cons_of_ne_nil hempty
              refine Text.trimStart_cons_of_not_blank (Text.head?_trimStart (s := s) d ?_)
              rw [Text.trimStart_of_trim hs, hfront]
              rfl
            obtain ⟨pad, hpad, hpadded⟩ := Text.exists_trimEnd front
            have hgeneric := outline_of_ofGeneric hpad h
            rw [Text.trim, hstart, ← hpadded, ← hc, ← hfront] at hgeneric
            exact hgeneric
          · rw [if_neg hc] at h; contradiction

/-- A record begins with its word, blanks and a brace. -/
theorem recordRest?_eq_some_iff {s rest : Text} :
    recordRest? s = some rest ↔
      ∃ pad, Text.Blank pad ∧ s = Ty.structWord ++ pad ++ '\x7b' :: rest := by
  have hbrace : isBlank '\x7b' = false := by decide
  unfold recordRest?
  cases ha : Text.after? ['S', 't', 'r', 'u', 'c', 't'] s with
  | none =>
      simp only [reduceCtorEq, false_iff, not_exists, not_and]
      intro pad _ hs
      have hsome := Text.after?_eq_some_iff.mpr (hs.trans (List.append_assoc ..))
      rw [Ty.structWord, ha] at hsome
      contradiction
  | some r =>
      rw [Text.after?_eq_some_iff] at ha
      simp only [Text.after?_eq_some_iff, List.singleton_append,
        Text.trimStart_eq_cons_iff hbrace]
      constructor
      · rintro ⟨pad, hpad, hr⟩
        exact ⟨pad, hpad, by rw [ha, hr, Ty.structWord, List.append_assoc]⟩
      · rintro ⟨pad, hpad, hs⟩
        refine ⟨pad, hpad, ?_⟩
        rw [ha, Ty.structWord, List.append_assoc] at hs
        exact List.append_cancel_left hs

/-- What the scanner takes for a record is one. -/
theorem outline_of_ofRecord {whole pad rest : Text} {shape : Shape} (hpad : pad.Blank)
    (h : ofRecord whole rest = .ok shape) :
    Outline (Ty.structWord ++ pad ++ '\x7b' :: rest) shape := by
  obtain ⟨inner, hb, h⟩ := bind_eq_ok_iff.mp h
  obtain ⟨segments, hp, h⟩ := bind_eq_ok_iff.mp h
  obtain ⟨es, hf, h⟩ := bind_eq_ok_iff.mp h
  obtain ⟨-, hrest⟩ := body_eq_ok_iff.mp hb
  cases h
  obtain ⟨hinner, hsegments⟩ | ⟨ps, hne, hps, hinner, hsegments⟩ := parts_eq_ok hp
  · rw [hsegments, fields, Except.ok.injEq] at hf
    rw [← hf, hrest]
    exact .bareRecord hpad hinner
  · rw [hsegments] at hf
    obtain ⟨fs, hlabels, htypes, hnames, -, hchars, hes⟩ := exists_fieldTexts hf
    have hne' : fs ≠ [] := by
      rintro rfl
      exact hne hchars
    have hparts : ∀ f ∈ fs, Unbroken f.type ∧ ¬ f.type.Blank := by
      intro f hmem
      refine ⟨(hlabels f hmem).unbroken_iff.mp (hps _ ?_), htypes f hmem⟩
      rw [hchars]
      exact List.mem_map_of_mem hmem
    rw [hes, hrest, hinner, hchars]
    exact .record hpad hne' hlabels hparts hnames

/-- **What the scanner accepts has the shape that it says**, by the branches of the
scanner. -/
theorem outline_of_ofTrimmed {s : Text} {shape : Shape} (hs : s.trim = s)
    (h : ofTrimmed s = .ok shape) : Outline s shape := by
  unfold ofTrimmed at h
  cases s with
  | nil => simp at h
  | cons c rest =>
      cases hq : Quote.ofChar? c with
      | some q =>
          simp only [hq] at h
          exact outline_of_ofQuoted hq h
      | none =>
          simp only [hq] at h
          cases hr : recordRest? (c :: rest) with
          | some inner =>
              simp only [hr] at h
              obtain ⟨pad, hpad, hwhole⟩ := recordRest?_eq_some_iff.mp hr
              have hrecord := outline_of_ofRecord hpad h
              rw [← hwhole] at hrecord
              exact hrecord
          | none =>
              simp only [hr] at h
              exact outline_of_ofPlain hs h

/-! ## from the grammar to the scanner -/

theorem isName_structWord : Text.isName Ty.structWord = true := by decide +kernel

/-- The first bracket of a text decides between a generic and a record. -/
theorem recordRest?_eq_none {front rest : Text} (hfront : ∀ c ∈ front, isOpening c = false) :
    recordRest? (front ++ '<' :: rest) = none := by
  cases hr : recordRest? (front ++ '<' :: rest) with
  | none => rfl
  | some inner =>
      obtain ⟨pad, hpad, hs⟩ := recordRest?_eq_some_iff.mp hr
      have hword : ∀ c ∈ Ty.structWord ++ pad, isOpening c = false := by
        intro c hc
        obtain hc | hc := List.mem_append.mp hc
        · exact Text.isOpening_of_not_mem (Text.not_mem_markChars_of_isName isName_structWord c hc)
        · exact Text.isOpening_of_not_mem (hpad.not_mem_markChars c hc)
      have h₁ := Text.breakAt_append_cons (p := isOpening) (c := '<') hfront rfl rest
      have h₂ := Text.breakAt_append_cons (p := isOpening) (c := '\x7b') hword rfl inner
      rw [hs, h₂] at h₁
      simp at h₁

/-- A name is no record, not even the word that records begin with. -/
theorem recordRest?_of_isName {s : Text} (h : s.isName = true) : recordRest? s = none := by
  cases hr : recordRest? s with
  | none => rfl
  | some inner =>
      obtain ⟨pad, -, hs⟩ := recordRest?_eq_some_iff.mp hr
      have hbrace : '\x7b' ∈ s := by rw [hs]; simp
      exact absurd (by decide) (Text.not_mem_markChars_of_isName h _ hbrace)

theorem ofChar?_of_not_mem {c : Char} (h : c ∉ markChars) : Quote.ofChar? c = none := by
  simp only [markChars, List.mem_cons, not_or] at h
  simp [Quote.ofChar?, h]

/-- A name is scanned as an atom. -/
theorem ofTrimmed_of_isName {n : String} (h : Text.isName n.toList = true) :
    ofTrimmed n.toList = .ok (.atom n) := by
  have hmarks := Text.not_mem_markChars_of_isName h
  have hword : ofPlain n.toList = .ok (.atom n) := by
    have hclosing : ¬ n.toList.any isClosing = true := by
      rw [Bool.not_eq_true, List.any_eq_false]
      intro c hc
      rw [Text.isClosing_of_not_mem (hmarks c hc)]
      simp
    rw [ofPlain, Text.breakAt_of_forall fun c hc => Text.isOpening_of_not_mem (hmarks c hc)]
    simp only [ofWord]
    rw [if_neg hclosing, if_pos h, String.ofList_toList]
  have hrecord := recordRest?_of_isName h
  obtain ⟨c, rest, hc⟩ := List.exists_cons_of_ne_nil (Text.ne_nil_of_isName h)
  rw [hc] at hmarks hword hrecord ⊢
  simp only [ofTrimmed, ofChar?_of_not_mem (hmarks c List.mem_cons_self), hrecord, hword]

/-- A quoted part is scanned as an atom. -/
theorem ofTrimmed_of_isQuoted {n : String} (h : Text.IsQuoted n.toList) :
    ofTrimmed n.toList = .ok (.atom n) := by
  obtain ⟨q, body, hbody, hn⟩ := h
  have hq : Quote.ofChar? q.char = some q := Quote.ofChar?_eq_some_iff.mpr rfl
  have henclosed := enclosed_quoted_append hbody []
  rw [hn, List.cons_append]
  simp only [ofTrimmed, hq, ofQuoted, henclosed]
  rw [← List.cons_append, ← hn, String.ofList_toList]

/-- A name, blanks and an angle bracket start a generic. -/
theorem ofTrimmed_generic {base : String} {pad rest : Text}
    (hbase : Text.isName base.toList = true) (hpad : pad.Blank) :
    ofTrimmed (base.toList ++ pad ++ '<' :: rest) =
      ofGeneric (base.toList ++ pad ++ '<' :: rest) base.toList rest := by
  have hmarks := Text.not_mem_markChars_of_isName hbase
  have hfront : ∀ c ∈ base.toList ++ pad, isOpening c = false := by
    intro c hc
    obtain hc | hc := List.mem_append.mp hc
    · exact Text.isOpening_of_not_mem (hmarks c hc)
    · exact Text.isOpening_of_not_mem (hpad.not_mem_markChars c hc)
  have hplain : ofPlain (base.toList ++ pad ++ '<' :: rest) =
      ofGeneric (base.toList ++ pad ++ '<' :: rest) base.toList rest := by
    rw [ofPlain, Text.breakAt_append_cons hfront rfl]
    simp only [if_true, Text.trim_name_padded hbase hpad]
  have hrecord : recordRest? (base.toList ++ pad ++ '<' :: rest) = none :=
    recordRest?_eq_none hfront
  obtain ⟨c, cs, hc⟩ := List.exists_cons_of_ne_nil (Text.ne_nil_of_isName hbase)
  rw [← hplain]
  rw [hc] at hmarks hrecord ⊢
  simp only [List.cons_append] at hrecord ⊢
  simp only [ofTrimmed, ofChar?_of_not_mem (hmarks c List.mem_cons_self), hrecord]

/-- The word of a record, blanks and a brace start a record. -/
theorem ofTrimmed_record {pad rest : Text} (hpad : pad.Blank) :
    ofTrimmed (Ty.structWord ++ pad ++ '\x7b' :: rest) =
      ofRecord (Ty.structWord ++ pad ++ '\x7b' :: rest) rest := by
  have hrecord : recordRest? (Ty.structWord ++ pad ++ '\x7b' :: rest) = some rest :=
    recordRest?_eq_some_iff.mpr ⟨pad, hpad, rfl⟩
  simp only [Ty.structWord, List.cons_append, List.nil_append] at hrecord ⊢
  simp [ofTrimmed, Quote.ofChar?, hrecord]

/-- A name and parts in angle brackets are scanned as a generic, if no part is empty. -/
theorem ofGeneric_of_parts {base : String} {inner : Text} {args : List Text}
    (hbase : Text.isName base.toList = true) (hwalk : top.walk inner = some top)
    (hparts : parts inner = .ok args) (hargs : [] ∉ args) (whole : Text) :
    ofGeneric whole base.toList (inner ++ ['>']) = .ok (.generic base args) := by
  have hbody : body whole .angle (inner ++ ['>']) = .ok inner :=
    body_eq_ok_iff.mpr ⟨hwalk, rfl⟩
  rw [ofGeneric, if_neg (Text.ne_nil_of_isName hbase), if_neg (by rw [hbase]; simp)]
  simp [hbody, hparts, hargs, bind, Except.bind, pure, Except.pure]

/-- Fields in braces are scanned as a record. -/
theorem ofRecord_of_parts {inner : Text} {segments : List Text} {es : List (String × Text)}
    {whole : Text} (hwalk : top.walk inner = some top) (hparts : parts inner = .ok segments)
    (hfields : fields whole [] segments = .ok es) :
    ofRecord whole (inner ++ ['\x7d']) = .ok (.struct es) := by
  have hbody : body whole .brace (inner ++ ['\x7d']) = .ok inner :=
    body_eq_ok_iff.mpr ⟨hwalk, rfl⟩
  simp [ofRecord, hbody, hparts, hfields, bind, Except.bind, pure, Except.pure]

theorem walk_of_blank {s : Text} (h : s.Blank) : top.walk s = some top :=
  (Text.unbroken_of_not_mem_markChars h.not_mem_markChars).walk

/-- Unbroken texts with commas between them are well nested. -/
theorem walk_commas {ps : List Text} (hne : ps ≠ []) (h : ∀ p ∈ ps, Unbroken p) :
    top.walk (Text.commas ps) = some top :=
  walk_eq_top_iff.mpr ⟨ps, pieces_commas hne h⟩

/-- Fields with commas between them are well nested. -/
theorem walk_fields {fields : List FieldText} (hne : fields ≠ [])
    (hlabels : ∀ f ∈ fields, f.Labelled) (htypes : ∀ f ∈ fields, Unbroken f.type ∧ ¬ f.type.Blank) :
    top.walk (Text.commas (fields.map FieldText.chars)) = some top :=
  walk_commas (by simpa using hne) <| List.forall_mem_map.mpr fun f hf =>
    (hlabels f hf).unbroken_iff.mpr (htypes f hf).1

/-- **What has a shape is scanned as that**, by the kinds of shapes. -/
theorem ofTrimmed_of_outline {s : Text} {shape : Shape} (h : Outline s shape) :
    ofTrimmed s = .ok shape := by
  cases h with
  | atom h =>
      obtain h | h := h
      · exact ofTrimmed_of_isName h
      · exact ofTrimmed_of_isQuoted h
  | bare hbase hpad hinner =>
      rw [List.cons_append, ofTrimmed_generic hbase hpad]
      exact ofGeneric_of_parts hbase (walk_of_blank hinner) (parts_of_blank hinner) (by simp) _
  | generic hbase hpad hne hargs =>
      have hmem : [] ∉ List.map Text.trim _ := fun hin => by
        obtain ⟨a, ha, htrim⟩ := List.mem_map.mp hin
        exact (hargs a ha).2 (Text.trim_eq_nil_iff.mp htrim)
      rw [Text.angled, List.cons_append, ofTrimmed_generic hbase hpad]
      exact ofGeneric_of_parts hbase (walk_commas hne fun a ha => (hargs a ha).1)
        (parts_commas hne hargs) hmem _
  | bareRecord hpad hinner =>
      rw [List.cons_append, ofTrimmed_record hpad]
      exact ofRecord_of_parts (walk_of_blank hinner) (parts_of_blank hinner) rfl
  | @record pad fs hpad hne hlabels htypes hnames =>
      have hne' : fs.map FieldText.chars ≠ [] := by simpa using hne
      have hsegments : ∀ p ∈ fs.map FieldText.chars, Unbroken p ∧ ¬ p.Blank := by
        intro p hp
        obtain ⟨f, hf, rfl⟩ := List.mem_map.mp hp
        exact ⟨(hlabels f hf).unbroken_iff.mpr (htypes f hf).1, f.not_blank_chars⟩
      rw [Text.braced, List.cons_append, ofTrimmed_record hpad]
      exact ofRecord_of_parts (walk_commas hne' fun p hp => (hsegments p hp).1)
        (parts_commas hne' hsegments)
        (fields_chars hlabels (fun f hf => (htypes f hf).2) hnames (by simp))

/-! ## the scanner and the grammar -/

/-- A text between two characters that are not blank has nothing to trim. -/
theorem trim_between {c d : Char} (hc : isBlank c = false) (hd : isBlank d = false) (s : Text) :
    Text.trim (c :: s ++ [d]) = c :: s ++ [d] := by
  refine Text.trim_eq_self ?_ ?_
  · intro e he
    rw [List.cons_append, List.head?_cons, Option.mem_some] at he
    exact he ▸ hc
  · intro e he
    rw [List.getLast?_concat, Option.mem_some] at he
    exact he ▸ hd

/-- A name and what follows it up to a character that is not blank. -/
theorem trim_name_between {n : Text} {d : Char} (hn : n.isName = true) (hd : isBlank d = false)
    (s : Text) : Text.trim (n ++ s ++ [d]) = n ++ s ++ [d] := by
  obtain ⟨c, n, rfl⟩ := List.exists_cons_of_ne_nil (Text.ne_nil_of_isName hn)
  have hc := (ne_of_isNameChar (Text.isNameChar_of_mem hn c List.mem_cons_self)).1
  exact trim_between hc hd (n ++ s)

/-- The texts of the grammar have no blanks around them. -/
theorem Outline.trim_eq {s : Text} {shape : Shape} (h : Outline s shape) : s.trim = s := by
  have hangle : isBlank '>' = false := by decide
  have hbrace : isBlank '\x7d' = false := by decide
  cases h with
  | atom h =>
      obtain h | ⟨q, body, -, h⟩ := h
      · exact Text.trim_of_isName h
      · have hq : isBlank q.char = false := by cases q <;> decide
        rw [h]
        exact trim_between hq hq body
  | @bare base pad inner hbase _ _ =>
      rw [← List.append_assoc, List.append_assoc base.toList pad]
      exact trim_name_between hbase hangle _
  | @generic base pad args hbase _ _ _ =>
      rw [Text.angled, ← List.append_assoc, List.append_assoc base.toList pad]
      exact trim_name_between hbase hangle _
  | @bareRecord pad inner _ _ =>
      rw [← List.append_assoc, List.append_assoc Ty.structWord pad]
      exact trim_name_between isName_structWord hbrace _
  | @record pad fs _ _ _ _ _ =>
      rw [Text.braced, ← List.append_assoc, List.append_assoc Ty.structWord pad]
      exact trim_name_between isName_structWord hbrace _

/-- **The scanner and the grammar**: what the scanner finds in a text is what
the grammar says of it without the blanks around. -/
theorem scan_eq_ok_iff {text : Text} {shape : Shape} :
    scan text = .ok shape ↔ Outline text.trim shape :=
  ⟨outline_of_ofTrimmed (Text.trim_trim text), ofTrimmed_of_outline⟩

/-- The scanner finds the shape of every text that has one. -/
theorem Outline.scan_eq {s : Text} {shape : Shape} (h : Outline s shape) : scan s = .ok shape := by
  rw [scan_eq_ok_iff, h.trim_eq]
  exact h

/-! ## outlined texts as parts of others -/

/-- A text of the grammar has no comma outside of its brackets and quotes. -/
theorem Outline.unbroken {s : Text} {shape : Shape} (h : Outline s shape) : Unbroken s := by
  have hname : ∀ {n : Text}, n.isName = true → Unbroken n := fun hn =>
    Text.unbroken_of_not_mem_markChars (Text.not_mem_markChars_of_isName hn)
  have hblank : ∀ {pad : Text}, pad.Blank → Unbroken pad := fun hpad =>
    Text.unbroken_of_not_mem_markChars hpad.not_mem_markChars
  cases h with
  | atom h =>
      obtain h | ⟨q, body, hbody, h⟩ := h
      · exact hname h
      · rw [h]
        exact unbroken_of_quotedBody hbody
  | bare hbase hpad hinner =>
      exact ((hname hbase).append (hblank hpad)).append (unbroken_angled (walk_of_blank hinner))
  | generic hbase hpad hne hargs =>
      have hwalk := walk_commas hne fun a ha => (hargs a ha).1
      exact ((hname hbase).append (hblank hpad)).append (unbroken_angled hwalk)
  | bareRecord hpad hinner =>
      exact ((hname isName_structWord).append (hblank hpad)).append
        (unbroken_braced (walk_of_blank hinner))
  | record hpad hne hlabels htypes _ =>
      exact ((hname isName_structWord).append (hblank hpad)).append
        (unbroken_braced (walk_fields hne hlabels htypes))

theorem Outline.not_blank {s : Text} {shape : Shape} (h : Outline s shape) : ¬ s.Blank := by
  intro hblank
  have hscan := h.scan_eq
  rw [scan, Text.trim_eq_nil_iff.mpr hblank] at hscan
  cases hscan

/-- A generic written without blanks around its arguments. -/
theorem outline_of_args {base : String} {args : List Text} (hbase : Text.isName base.toList = true)
    (hne : args ≠ []) (h : ∀ a ∈ args, ∃ shape, Outline a shape) :
    Outline (base.toList ++ Text.angled args) (.generic base args) := by
  have hparts : ∀ a ∈ args, Unbroken a ∧ ¬ a.Blank := fun a ha =>
    (h a ha).elim fun _ houtline => ⟨houtline.unbroken, houtline.not_blank⟩
  have htrim : args.map Text.trim = args := by
    rw [List.map_congr_left fun a ha => (h a ha).elim fun _ houtline => houtline.trim_eq,
      List.map_id']
  have hgeneric := Outline.generic hbase Text.blank_nil hne hparts
  rw [htrim, List.append_nil] at hgeneric
  exact hgeneric

/-- A record written without blanks around its names and types. -/
theorem outline_of_fields {fields : List (String × Text)} (hne : fields ≠ [])
    (hnames : ∀ f ∈ fields, Text.isName f.1.toList = true) (hnodup : (fields.map Prod.fst).Nodup)
    (h : ∀ f ∈ fields, ∃ shape, Outline f.2 shape) :
    Outline (Ty.structWord ++ Text.braced (fields.map fun f => f.1.toList ++ ':' :: f.2))
      (.struct fields) := by
  let written := fields.map fun f => (⟨[], f.1, [], f.2⟩ : FieldText)
  have hlabels : ∀ f ∈ written, f.Labelled := List.forall_mem_map.mpr fun f hf =>
    ⟨Text.blank_nil, hnames f hf, Text.blank_nil⟩
  have hparts : ∀ f ∈ written, Unbroken f.type ∧ ¬ f.type.Blank :=
    List.forall_mem_map.mpr fun f hf =>
      (h f hf).elim fun _ houtline => ⟨houtline.unbroken, houtline.not_blank⟩
  have hentries : written.map FieldText.entry = fields := by
    rw [List.map_map]
    refine (List.map_congr_left fun f hf => ?_).trans (List.map_id fields)
    obtain ⟨_, houtline⟩ := h f hf
    simp [FieldText.entry, houtline.trim_eq]
  have hchars : written.map FieldText.chars = fields.map fun f => f.1.toList ++ ':' :: f.2 := by
    rw [List.map_map]
    exact List.map_congr_left fun f _ => by simp [FieldText.chars]
  have hrecord := Outline.record Text.blank_nil (by simpa [written] using hne) hlabels hparts
    (by rw [List.map_map]; exact hnodup)
  rw [hentries, hchars, List.append_nil] at hrecord
  exact hrecord

end Shape

end TypeFlow
