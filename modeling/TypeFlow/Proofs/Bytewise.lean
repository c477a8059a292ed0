import TypeFlow.Proofs.Indexing
import TypeFlow.Proofs.Segments

/-!
# TypeFlow.Proofs.Bytewise

The scanner once more, on the bytes of a text.  It finds quotes, brackets and commas by index,
with the readers of `Indexed`, and takes the parts of the text out at the byte offsets that it
found.  An offset that lies inside of a character or behind the end gives no outcome at all,
not even a fault; `sure` is an outcome that is reached without one.

* `split_eq`, `body_eq`, `scan_eq` — the scanner always has an outcome, and it is the one of the
  scanner on characters;
* `bytes_read_as_characters` — this, and that the three readers find the same places;
* `between_brackets_split` — what stands between two brackets can be cut at its commas.
-/

namespace TypeFlow

open Indexed

/-- A step that takes a text apart by byte offsets: it has an outcome, which may be a fault, or
the text cannot be cut where it should be. -/
abbrev Checked := ExceptT ReadError Option

namespace Bytewise

/-! ## the scanner on bytes -/

/-- The text between two byte offsets. -/
def slice (s : Text) (i j : Nat) : Checked Text := ExceptT.lift (s.slice? i j)

/-- An outcome that is reached. -/
def sure {α : Type} (x : Except ReadError α) : Checked α := ExceptT.mk (some x)

/-- The pieces of a text between the commas outside of all brackets and quotes, each trimmed. -/
def split (s : Text) : Checked (List Text) := do
  let cuts := ranges s.byteMarks
  let pieces ← cuts.ranges.mapM fun r => slice s r.1 r.2
  match cuts.fault with
  | none => return pieces.map Text.trim
  | some f => throw (f.of s)

/-- What the bracket at byte `i` encloses, when its closing bracket is the last byte. -/
def body (s : Text) (i : Nat) : Checked Text :=
  match bracketEnd s.byteMarks i with
  | .error f => throw (f.of s)
  | .ok j => if j ≠ s.byteSize - 1 then throw (.unbalanced s) else slice s (i + 1) j

/-- The comma-separated parts of what a bracket encloses; a blank inside has none. -/
def parts (inner : Text) : Checked (List Text) :=
  if inner.trim = [] then return [] else split inner

/-- A text that starts with the quote `q`. -/
def ofQuoted (s : Text) (q : Quote) : Checked Shape :=
  match quoteEnd s.byteMarks q 0 with
  | .error f => throw (f.of s)
  | .ok j => if j ≠ s.byteSize then throw (.invalidName s) else return .atom (String.ofList s)

/-- The byte of the opening brace of a record. -/
def recordBrace? (s : Text) : Option Nat :=
  match Text.after? Ty.structWord s with
  | none => none
  | some rest =>
    if rest.trimStart.head? = some '\x7b' then some (s.byteSize - rest.trimStart.byteSize)
    else none

/-- A record with its opening brace at byte `i`. -/
def ofRecord (s : Text) (i : Nat) : Checked Shape := do
  let inner ← body s i
  let segments ← parts inner
  let fields ← sure (Shape.fields s [] segments)
  return .struct fields

/-- A generic with its opening bracket at byte `i`, when `base` stands before it. -/
def ofGeneric (s base : Text) (i : Nat) : Checked Shape :=
  if base = [] then throw (.emptyBase s)
  else if base.isName = false then throw (.invalidName base)
  else do
    let inner ← body s i
    let args ← parts inner
    if args.any List.isEmpty then throw (.emptyArgument s)
    else return .generic (String.ofList base) args

/-- A text that is no quoted part and no record, by its first opening bracket. -/
def ofPlain (s : Text) : Checked Shape :=
  match s.breakAt isOpening with
  | (_, []) => sure (Shape.ofWord s)
  | (front, _ :: _) => do
    let m ← ExceptT.lift (s.byteMarks[front.byteSize]?)
    if m ≠ .opening .angle then throw (.invalidName s)
    else
      let base ← slice s 0 front.byteSize
      ofGeneric s base.trim front.byteSize

/-- The outermost level of a type text, found in its bytes. -/
def scan (text : Text) : Checked Shape :=
  match text.trim with
  | [] => throw .empty
  | c :: rest =>
    match Quote.ofChar? c with
    | some q => ofQuoted (c :: rest) q
    | none =>
      match recordBrace? (c :: rest) with
      | some i => ofRecord (c :: rest) i
      | none => ofPlain (c :: rest)

/-! ## outcomes that are reached -/

/-- A step that is reached, and goes on with steps that are, is reached. -/
theorem sure_bind {α β : Type} {x : Except ReadError α} {f : α → Except ReadError β}
    {g : α → Checked β} (h : ∀ a, g a = sure (f a)) : (sure x >>= g) = sure (x >>= f) := by
  cases x with
  | error e => rfl
  | ok a => exact h a

theorem sure_ok_bind {α β : Type} (a : α) (f : α → Checked β) : (sure (.ok a) >>= f) = f a := rfl

/-- A list of parts that can all be taken out can be taken out. -/
theorem mapM_sure {α β : Type} {f : α → Checked β} {g : α → β} {xs : List α}
    (h : ∀ x ∈ xs, f x = sure (.ok (g x))) : xs.mapM f = sure (.ok (xs.map g)) := by
  induction xs with
  | nil => rfl
  | cons x xs ih =>
      rw [List.forall_mem_cons] at h
      rw [List.mapM_cons, h.1, ih h.2]
      rfl

/-- Between the offsets of two characters a text can be cut, and has these
characters. -/
theorem slice_offset (s : Text) {i j : Nat} (h : i ≤ j) :
    slice s (s.offset i) (s.offset j) = sure (.ok ((s.take j).drop i)) := by
  rw [slice, Text.slice?_offset h]
  rfl

/-- **Segments**: every range of a text between commas is there to be taken out. -/
theorem split_eq (s : Text) : split s = sure s.split := by
  have hslices : (ranges s.byteMarks).ranges.mapM (fun r => slice s r.1 r.2) =
      sure (.ok ((ranges s.charMarks).ranges.map fun r => (s.take r.2).drop r.1)) := by
    rw [ranges_byteMarks, Cuts.moved, List.mapM_map]
    exact mapM_sure fun r hr => slice_offset s (le_of_mem_ranges s r hr)
  have hfault : (ranges s.byteMarks).fault = (ranges s.charMarks).fault := by
    rw [ranges_byteMarks, Cuts.moved]
  rw [split, hslices, sure_ok_bind, hfault, Text.split, ← texts_ranges, Cuts.texts]
  cases (ranges s.charMarks).fault <;> rfl

/-- In the bytes of a text, a quoted part ends where it does for the machine. -/
theorem quoteEnd_enclosed (q : Quote) (front rest : Text) :
    quoteEnd (Text.byteMarks (front ++ q.char :: rest)) q front.byteSize =
      ((Nest.quoted q).enclosed rest).map fun p =>
        Text.byteSize (front ++ q.char :: p.1 ++ [q.char]) := by
  have hend := quoteEnd_byteMarks (front ++ q.char :: rest) q front.length
  rw [Text.offset_length_append] at hend
  rw [hend, quoteEnd_charMarks]
  cases h : (Nest.quoted q).enclosed rest with
  | error f => rfl
  | ok p =>
      obtain ⟨-, rfl⟩ := Nest.enclosed_quoted_iff.mp h
      have hplace : front.length + 1 + p.1.length + 1 =
          (front ++ q.char :: p.1 ++ [q.char]).length := by
        simp only [List.length_append, List.length_cons, List.length_nil]
        omega
      have hwhole : front ++ q.char :: (p.1 ++ q.char :: p.2) =
          (front ++ q.char :: p.1 ++ [q.char]) ++ p.2 := by simp
      simp only [Except.map, hplace, hwhole, Text.offset_length_append]

/-- In the bytes of a text, a bracket closes where it does for the machine. -/
theorem bracketEnd_enclosed {c : Char} {b : Bracket} (hc : Mark.ofChar c = .opening b)
    (front rest : Text) :
    bracketEnd (Text.byteMarks (front ++ c :: rest)) front.byteSize =
      ((Nest.opened b).enclosed rest).map fun p => Text.byteSize (front ++ c :: p.1) := by
  have hend := bracketEnd_byteMarks (front ++ c :: rest) front.length
  rw [Text.offset_length_append] at hend
  rw [hend, bracketEnd_charMarks hc]
  cases h : (Nest.opened b).enclosed rest with
  | error f => rfl
  | ok p =>
      obtain ⟨d, rfl⟩ := Nest.enclosed_append h
      have hplace : front.length + 1 + p.1.length = (front ++ c :: p.1).length := by
        simp only [List.length_append, List.length_cons]
        omega
      have hwhole : front ++ c :: (p.1 ++ d :: p.2) = (front ++ c :: p.1) ++ d :: p.2 := by simp
      simp only [Except.map, hplace, hwhole, Text.offset_length_append]

/-- What a bracket encloses is there to be taken out. -/
theorem slice?_enclosed {c : Char} {b : Bracket} (hc : Mark.ofChar c = .opening b) (front : Text)
    {rest inner after : Text} (h : (Nest.opened b).enclosed rest = .ok (inner, after)) :
    Text.slice? (front ++ c :: rest) (front.byteSize + 1) (Text.byteSize (front ++ c :: inner)) =
      some inner := by
  have hopen : c.utf8Size = 1 := utf8Size_of_ofChar_ne (by simp [hc])
  obtain ⟨d, rfl⟩ := Nest.enclosed_append h
  exact Text.slice?_eq_some_iff.mpr ⟨front ++ [c], d :: after, by simp, by simp [hopen], by simp⟩

/-- **What a bracket encloses**, when its closing bracket is the last byte of the text. -/
theorem body_eq {c : Char} {b : Bracket} (hc : Mark.ofChar c = .opening b) (front rest : Text) :
    body (front ++ c :: rest) front.byteSize = sure (Shape.body (front ++ c :: rest) b rest) := by
  rw [body, bracketEnd_enclosed hc, Shape.body]
  cases henclosed : (Nest.opened b).enclosed rest with
  | error f => rfl
  | ok p =>
      obtain ⟨inner, after⟩ := p
      have hslice := slice?_enclosed hc front henclosed
      obtain ⟨-, rfl⟩ := Nest.enclosed_opened_iff.mp henclosed
      have hclose : b.closer.utf8Size = 1 := utf8Size_of_ofChar_ne (by simp)
      have hlast : Text.byteSize (front ++ c :: inner) =
          Text.byteSize (front ++ c :: (inner ++ b.closer :: after)) - 1 ↔ after = [] := by
        rw [← Text.byteSize_eq_zero_iff]
        simp only [Text.byteSize_append, Text.byteSize_cons, hclose]
        omega
      cases after with
      | nil =>
          simp only [Except.map, ne_eq, hlast, not_true_eq_false, if_false, slice, hslice]
          rfl
      | cons d after =>
          simp only [Except.map, ne_eq, hlast, reduceCtorEq, not_false_eq_true, if_true]
          rfl

/-! ## the scanner -/

/-- The parts of an enclosed text are those that the characters give. -/
theorem parts_eq (inner : Text) : parts inner = sure (Shape.parts inner) := by
  unfold parts Shape.parts
  split
  · rfl
  · exact split_eq inner

/-- A quoted text ends at the same quote, counted in bytes or in characters. -/
theorem ofQuoted_eq (q : Quote) (rest : Text) :
    ofQuoted (q.char :: rest) q = sure (Shape.ofQuoted (q.char :: rest) q rest) := by
  have hend := quoteEnd_enclosed q [] rest
  rw [List.nil_append, Text.byteSize_nil] at hend
  rw [ofQuoted, hend, Shape.ofQuoted]
  cases henclosed : (Nest.quoted q).enclosed rest with
  | error f => rfl
  | ok p =>
      obtain ⟨inner, after⟩ := p
      obtain ⟨-, rfl⟩ := Nest.enclosed_quoted_iff.mp henclosed
      have hlast : Text.byteSize ([] ++ q.char :: inner ++ [q.char]) =
          Text.byteSize (q.char :: (inner ++ q.char :: after)) ↔ after = [] := by
        rw [← Text.byteSize_eq_zero_iff]
        simp only [Text.byteSize_append, Text.byteSize_cons, Text.byteSize_nil]
        omega
      simp only [Except.map, ne_eq, hlast]
      cases after <;> rfl

/-- A record is found in the bytes from its brace on, which stands behind all bytes of
`front`. -/
theorem ofRecord_eq (front rest : Text) :
    ofRecord (front ++ '\x7b' :: rest) front.byteSize =
      sure (Shape.ofRecord (front ++ '\x7b' :: rest) rest) := by
  rw [ofRecord, body_eq (b := .brace) rfl, Shape.ofRecord]
  refine sure_bind fun inner => ?_
  rw [parts_eq]
  exact sure_bind fun segments => sure_bind fun fields => rfl

/-- A generic is found in the bytes from its bracket on, which stands behind all bytes
of `front`. -/
theorem ofGeneric_eq (base front rest : Text) :
    ofGeneric (front ++ '<' :: rest) base front.byteSize =
      sure (Shape.ofGeneric (front ++ '<' :: rest) base rest) := by
  rw [ofGeneric, Shape.ofGeneric, body_eq (b := .angle) rfl]
  split
  · rfl
  split
  · rfl
  refine sure_bind fun inner => ?_
  rw [parts_eq]
  refine sure_bind fun args => ?_
  have hempty : args.any List.isEmpty = true ↔ [] ∈ args := by simp
  simp only [hempty]
  split <;> rfl

/-- The first opening bracket is a byte of its own, so the front that it ends can be cut
off. -/
theorem ofPlain_eq (s : Text) : ofPlain s = sure (Shape.ofPlain s) := by
  rw [ofPlain, Shape.ofPlain]
  obtain ⟨⟨front, tail⟩, hbreak⟩ : ∃ p, s.breakAt isOpening = p := ⟨_, rfl⟩
  rw [hbreak]
  cases tail with
  | nil => rfl
  | cons c rest =>
      obtain ⟨rfl, -⟩ := Text.breakAt_eq_cons hbreak
      have hmark : (Text.byteMarks (front ++ c :: rest))[front.byteSize]? =
          some (Mark.ofChar c) := by
        rw [← Text.offset_length_append front (c :: rest), Text.getElem?_byteMarks,
          getElem?_charMarks_append]
      have hslice : Text.slice? (front ++ c :: rest) 0 front.byteSize = some front :=
        Text.slice?_eq_some_iff.mpr ⟨[], c :: rest, rfl, rfl, rfl⟩
      simp only [slice, hmark, hslice]
      by_cases hc : c = '<'
      · subst hc
        exact ofGeneric_eq front.trim front rest
      · have hne : Mark.ofChar c ≠ .opening .angle := fun h =>
          hc (Mark.ofChar_eq_opening_iff.mp h)
        rw [if_neg hc]
        exact if_pos hne

/-- The brace of a record stands as many bytes before the end as the rest of the text
has. -/
theorem recordBrace?_eq (s : Text) :
    recordBrace? s =
      (Shape.recordRest? s).map fun rest => s.byteSize - Text.byteSize ('\x7b' :: rest) := by
  unfold recordBrace? Shape.recordRest?
  rw [Ty.structWord]
  cases Text.after? ['S', 't', 'r', 'u', 'c', 't'] s with
  | none => rfl
  | some rest =>
      simp only
      cases rest.trimStart with
      | nil => rfl
      | cons c after =>
          by_cases hc : c = '\x7b'
          · simp [Text.after?, hc]
          · simp [Text.after?, hc, Ne.symm hc]

/-- **The scanner** on bytes has an outcome on every text, the one of the scanner on
characters. -/
theorem scan_eq (text : Text) : scan text = sure (Shape.scan text) := by
  rw [scan, Shape.scan]
  unfold Shape.ofTrimmed
  cases text.trim with
  | nil => rfl
  | cons c rest =>
      simp only
      cases hq : Quote.ofChar? c with
      | some q =>
          rw [Quote.ofChar?_eq_some_iff] at hq
          subst hq
          exact ofQuoted_eq q rest
      | none =>
          simp only [recordBrace?_eq]
          cases hrecord : Shape.recordRest? (c :: rest) with
          | none => exact ofPlain_eq _
          | some after =>
              obtain ⟨pad, -, hs⟩ := Shape.recordRest?_eq_some_iff.mp hrecord
              simp only [Option.map_some, hs, Text.byteSize_append _ ('\x7b' :: after),
                Nat.add_sub_cancel]
              exact ofRecord_eq (Ty.structWord ++ pad) after

/-- **Bytes and characters**: in the UTF-8 bytes of a text, the ends of quoted parts, the ends
of brackets and the commas are found at the offsets of the characters at which they are found
when the text is read by characters.  Cutting and scanning the bytes never come to a place at
which the text cannot be cut, and give what they give for the characters. -/
theorem bytes_read_as_characters (s : Text) :
    s.bytes.toByteArray = (String.ofList s).toByteArray ∧
      (∀ q i, quoteEnd s.byteMarks q (s.offset i) = (quoteEnd s.charMarks q i).map s.offset) ∧
      (∀ i, bracketEnd s.byteMarks (s.offset i) = (bracketEnd s.charMarks i).map s.offset) ∧
      ranges s.byteMarks = (ranges s.charMarks).moved s.offset ∧
      split s = sure s.split ∧ scan s = sure (Shape.scan s) :=
  ⟨rfl, quoteEnd_byteMarks s, bracketEnd_byteMarks s, ranges_byteMarks s, split_eq s, scan_eq s⟩

/-! ## between two brackets -/

/-- What a bracket encloses is well nested by itself, so it can be cut. -/
theorem exists_split_of_enclosed {b : Bracket} {rest inner after : Text}
    (h : (Nest.opened b).enclosed rest = .ok (inner, after)) :
    ∃ segments, inner.split = .ok segments := by
  obtain ⟨hwalk, -⟩ := Nest.enclosed_opened_iff.mp h
  obtain ⟨ps, hps⟩ := Nest.walk_eq_top_iff.mp hwalk
  exact ⟨ps.map Text.trim, Text.split_eq_ok_iff.mpr ⟨ps, hps, rfl⟩⟩

/-- **Between two brackets**: where the end of a bracket is found, the text from the bracket to
there can be cut at its commas, by bytes and by characters.  So the scanner, having found the
body of a record or a generic, never fails to cut it into parts. -/
theorem between_brackets_split :
    (∀ (s : Text) (i j : Nat) (b : Bracket), s.byteMarks[i]? = some (.opening b) →
      bracketEnd s.byteMarks i = .ok j →
      ∃ inner segments, s.slice? (i + 1) j = some inner ∧ inner.split = .ok segments ∧
        split inner = sure (.ok segments)) ∧
      ∀ (whole rest : Text) (b : Bracket) (e : ReadError),
        (Shape.body whole b rest >>= Shape.parts) = .error e →
          Shape.body whole b rest = .error e := by
  constructor
  · intro s i j b hopen hend
    obtain ⟨front, c, rest, rfl, rfl, hc⟩ := Text.exists_char_of_mark hopen (by simp)
    rw [bracketEnd_enclosed hc, map_eq_ok_iff] at hend
    obtain ⟨⟨inner, after⟩, henclosed, rfl⟩ := hend
    obtain ⟨segments, hsegments⟩ := exists_split_of_enclosed henclosed
    have hslice := slice?_enclosed hc front henclosed
    exact ⟨inner, segments, hslice, hsegments, by rw [split_eq, hsegments]⟩
  · intro whole rest b e h
    cases hbody : Shape.body whole b rest with
    | error e' =>
        rw [hbody] at h
        cases h
        rfl
    | ok inner =>
        have henclosed := Nest.enclosed_opened_iff.mpr (Shape.body_eq_ok_iff.mp hbody)
        obtain ⟨segments, hsegments⟩ := exists_split_of_enclosed henclosed
        have hparts : ∃ args, Shape.parts inner = .ok args := by
          rw [Shape.parts, hsegments]
          split
          · exact ⟨_, rfl⟩
          · exact ⟨_, rfl⟩
        obtain ⟨args, hargs⟩ := hparts
        rw [hbody] at h
        cases hargs.symm.trans h

/-- Characters of two bytes stand before the bracket and, after a backslash, inside of
quotes; the bracket in the quotes is not the end.  A text that is cut off in its brackets
fails there, and not when its parts are to be cut. -/
theorem between_brackets_split_escaped :
    let s : Text := "é<'\\é>',(x,y)>".toList
    let cut : Text := "Foo<int".toList
    s.byteMarks[2]? = some (.opening .angle) ∧ bracketEnd s.byteMarks 2 = .ok 15 ∧
      (∃ inner segments, s.slice? 3 15 = some inner ∧ inner.split = .ok segments ∧
        split inner = sure (.ok segments)) ∧
      Shape.body cut .angle "int".toList = .error (.unbalanced cut) := by
  intro s cut
  have hopen : s.byteMarks[2]? = some (.opening .angle) := by decide
  have hend : bracketEnd s.byteMarks 2 = .ok 15 :=
    bracketEnd_enclosed (c := '<') rfl ['é'] "'\\é>',(x,y)>".toList
  obtain ⟨hsplit, hbody⟩ := between_brackets_split
  exact ⟨hopen, hend, hsplit s 2 15 .angle hopen hend, hbody cut "int".toList .angle _ rfl⟩

end Bytewise

end TypeFlow
