import TypeFlow.Proofs.Outline

/-!
# TypeFlow.Proofs.Offsets

A text as its UTF-8 bytes.  A byte means to the nesting what the character with its code
means, so a character with a meaning is one byte with this meaning, and every other
character is some bytes without one.  Places in a text are numbers of characters or byte
offsets, and `offset` leads from the first to the second.

* `getElem?_byteMarks` — at the offset of a character stands what the character means;
* `Passes.next` — a reader that passes over bytes without a meaning comes from one character
  to the next;
* `cut?_eq_some_iff` — a text can be cut at the byte offsets where its characters start and at
  its end, and nowhere else.
-/

namespace TypeFlow

/-! ## what a byte means -/

/-- The mark that a byte is: that of the character with the same code. -/
def Mark.ofByte (b : UInt8) : Mark := Mark.ofChar (Char.ofUInt8 b)

/-- All characters with a meaning are ASCII. -/
theorem toNat_lt_of_mem_markChars {c : Char} (h : c ∈ markChars) : c.toNat < 128 := by
  have hall : (markChars.all fun c => decide (c.toNat < 128)) = true := by decide
  simpa using List.all_eq_true.mp hall c h

/-- Characters that take several bytes have no meaning. -/
theorem Mark.ofChar_of_utf8Size_ne {c : Char} (hc : c.utf8Size ≠ 1) : Mark.ofChar c = .plain := by
  refine Mark.ofChar_of_not_mem fun hmem => hc ?_
  have hlt := toNat_lt_of_mem_markChars hmem
  rw [Char.utf8Size_eq_one_iff, UInt32.le_iff_toNat_le]
  exact Nat.le_of_lt_succ hlt

/-- A character with a meaning has one byte. -/
theorem utf8Size_of_ofChar_ne {c : Char} (h : Mark.ofChar c ≠ .plain) : c.utf8Size = 1 :=
  Decidable.byContradiction fun hc => h (Mark.ofChar_of_utf8Size_ne hc)

/-- A byte that is no ASCII character has no meaning. -/
theorem Mark.ofByte_of_le {b : UInt8} (h : 128 ≤ b.toNat) : Mark.ofByte b = .plain := by
  refine Mark.ofChar_of_not_mem fun hmem => ?_
  have hlt := toNat_lt_of_mem_markChars hmem
  have hb : (Char.ofUInt8 b).toNat = b.toNat := rfl
  omega

/-- The bytes of a character that takes several are all beyond those with a meaning. -/
theorem le_of_mem_utf8EncodeChar {c : Char} (hc : c.utf8Size ≠ 1) {b : UInt8}
    (hb : b ∈ String.utf8EncodeChar c) : 128 ≤ b.toNat := by
  rw [ne_eq, Char.utf8Size_eq_one_iff, UInt32.le_iff_toNat_le] at hc
  unfold String.utf8EncodeChar at hb
  simp only [show ¬ c.val.toNat ≤ 127 from hc, if_false] at hb
  have hbyte : ∀ n : Nat, 128 ≤ n % 256 → 128 ≤ (UInt8.ofNat n).toNat := by
    intro n hn
    rw [UInt8.toNat_ofNat']
    exact hn
  split at hb
  · simp only [List.mem_cons, List.not_mem_nil, or_false] at hb
    rcases hb with rfl | rfl <;> exact hbyte _ (by omega)
  · split at hb <;> simp only [List.mem_cons, List.not_mem_nil, or_false] at hb
    · rcases hb with rfl | rfl | rfl <;> exact hbyte _ (by omega)
    · rcases hb with rfl | rfl | rfl | rfl <;> exact hbyte _ (by omega)

/-- A character's bytes: the first has the meaning of the character, the others have none. -/
theorem map_ofByte_utf8EncodeChar (c : Char) :
    (String.utf8EncodeChar c).map Mark.ofByte =
      Mark.ofChar c :: List.replicate (c.utf8Size - 1) .plain := by
  by_cases hc : c.utf8Size = 1
  · have hle : c.val.toNat ≤ 127 := by
      rw [Char.utf8Size_eq_one_iff, UInt32.le_iff_toNat_le] at hc
      exact hc
    have hchar : Char.ofUInt8 c.val.toUInt8 = c := by
      apply Char.toNat_inj.mp
      change c.val.toUInt8.toNat = c.val.toNat
      rw [UInt32.toNat_toUInt8]
      omega
    rw [String.utf8EncodeChar_eq_singleton hc, hc, List.map_singleton, Mark.ofByte, hchar]
    rfl
  · have hsize : c.utf8Size - 1 + 1 = c.utf8Size := Nat.sub_add_cancel c.utf8Size_pos
    rw [Mark.ofChar_of_utf8Size_ne hc, ← List.replicate_succ, hsize, List.eq_replicate_iff]
    refine ⟨by rw [List.length_map, String.length_utf8EncodeChar], ?_⟩
    exact List.forall_mem_map.mpr fun b hb => Mark.ofByte_of_le (le_of_mem_utf8EncodeChar hc hb)

namespace Text

/-! ## bytes and offsets -/

/-- The UTF-8 bytes of a text. -/
def bytes (s : Text) : List UInt8 := s.flatMap String.utf8EncodeChar

/-- The number of bytes of a text. -/
def byteSize (s : Text) : Nat := s.bytes.length

/-- The byte offset at which the character with number `i` starts; that of the end, if there
are no more than `i` characters. -/
def offset (s : Text) (i : Nat) : Nat := byteSize (s.take i)

/-- What the characters of a text mean. -/
def charMarks (s : Text) : List Mark := s.map Mark.ofChar

/-- What the bytes of a text mean. -/
def byteMarks (s : Text) : List Mark := s.bytes.map Mark.ofByte

@[simp] theorem byteSize_nil : byteSize [] = 0 := rfl

@[simp] theorem byteSize_cons (c : Char) (s : Text) :
    byteSize (c :: s) = c.utf8Size + byteSize s := by
  simp [byteSize, bytes]

@[simp] theorem byteSize_append (s t : Text) : byteSize (s ++ t) = s.byteSize + t.byteSize := by
  simp [byteSize, bytes]

/-- A text without bytes is empty. -/
theorem byteSize_eq_zero_iff {s : Text} : s.byteSize = 0 ↔ s = [] := by
  cases s with
  | nil => simp
  | cons c s =>
      have hpos := c.utf8Size_pos
      simp only [byteSize_cons, reduceCtorEq, iff_false]
      omega

@[simp] theorem offset_zero (s : Text) : s.offset 0 = 0 := rfl

@[simp] theorem offset_cons_succ (c : Char) (s : Text) (i : Nat) :
    offset (c :: s) (i + 1) = c.utf8Size + s.offset i := by
  simp [offset]

/-- Behind the last character all bytes have been passed. -/
theorem offset_of_length_le {s : Text} {i : Nat} (h : s.length ≤ i) : s.offset i = s.byteSize := by
  rw [offset, List.take_of_length_le h]

/-- The offset of what stands behind a text is its number of bytes. -/
theorem offset_length_append (s t : Text) : offset (s ++ t) s.length = s.byteSize := by
  rw [offset, List.take_left]

/-- Some characters further on, the offset has grown by their bytes. -/
theorem offset_add (s : Text) (i k : Nat) :
    s.offset (i + k) = s.offset i + byteSize ((s.drop i).take k) := by
  rw [offset, List.take_add, byteSize_append, offset]

@[simp] theorem length_charMarks (s : Text) : s.charMarks.length = s.length :=
  List.length_map _

@[simp] theorem length_byteMarks (s : Text) : s.byteMarks.length = s.byteSize :=
  List.length_map _

/-- The first byte of a character has its mark, and the others have no meaning. -/
theorem byteMarks_cons (c : Char) (s : Text) :
    byteMarks (c :: s) =
      Mark.ofChar c :: (List.replicate (c.utf8Size - 1) .plain ++ s.byteMarks) := by
  rw [byteMarks, bytes, List.flatMap_cons, List.map_append, map_ofByte_utf8EncodeChar]
  rfl

/-- Behind the bytes of the first character come those of the others. -/
theorem getElem?_byteMarks_cons (c : Char) (s : Text) (k : Nat) :
    (byteMarks (c :: s))[c.utf8Size + k]? = s.byteMarks[k]? := by
  have hpos := c.utf8Size_pos
  have hk : c.utf8Size + k = (c.utf8Size - 1 + k) + 1 := by omega
  have hle : (List.replicate (c.utf8Size - 1) Mark.plain).length ≤ c.utf8Size - 1 + k := by
    rw [List.length_replicate]
    omega
  rw [byteMarks_cons, hk, List.getElem?_cons_succ, List.getElem?_append_right hle,
    List.length_replicate, Nat.add_sub_cancel_left]

/-- **Characters and bytes**: at the offset of a character stands what the character means. -/
theorem getElem?_byteMarks (s : Text) (i : Nat) :
    s.byteMarks[s.offset i]? = s.charMarks[i]? := by
  induction s generalizing i with
  | nil => simp [byteMarks, bytes, charMarks]
  | cons c s ih =>
      cases i with
      | zero => rw [offset_zero, byteMarks_cons]; rfl
      | succ i => rw [offset_cons_succ, getElem?_byteMarks_cons, ih]; rfl

/-- Between the starts of two characters stand bytes without a meaning. -/
theorem getElem?_byteMarks_plain {s : Text} {i k : Nat} (hlo : s.offset i < k)
    (hhi : k < s.offset (i + 1)) : s.byteMarks[k]? = some .plain := by
  induction s generalizing i k with
  | nil => simp [offset] at hhi
  | cons c s ih =>
      have hpos := c.utf8Size_pos
      cases i with
      | zero =>
          rw [offset_zero] at hlo
          rw [offset_cons_succ, offset_zero, Nat.add_zero] at hhi
          obtain ⟨k, rfl⟩ := Nat.exists_eq_add_of_lt hlo
          have hk : k < (List.replicate (c.utf8Size - 1) Mark.plain).length := by
            rw [List.length_replicate]
            omega
          rw [Nat.zero_add, byteMarks_cons, List.getElem?_cons_succ, List.getElem?_append_left hk,
            List.getElem?_replicate_of_lt (by simpa using hk)]
      | succ i =>
          rw [offset_cons_succ] at hlo hhi
          obtain ⟨k, rfl⟩ := Nat.exists_eq_add_of_le (show c.utf8Size ≤ k by omega)
          rw [getElem?_byteMarks_cons]
          exact @ih i k (by omega) (by omega)

/-- Every character takes a byte. -/
theorem offset_lt_succ {s : Text} {i : Nat} (h : i < s.length) : s.offset i < s.offset (i + 1) := by
  have hpos := (s.get ⟨i, h⟩).utf8Size_pos
  have hdrop : s.drop i = s.get ⟨i, h⟩ :: s.drop (i + 1) := List.drop_eq_getElem_cons h
  rw [offset_add, hdrop, List.take_succ_cons, byteSize_cons]
  omega

/-- After a character with a meaning the next one starts a byte further on. -/
theorem offset_succ_of_mark {s : Text} {i : Nat} {m : Mark} (h : s.charMarks[i]? = some m)
    (hm : m ≠ .plain) : s.offset (i + 1) = s.offset i + 1 := by
  rw [charMarks, List.getElem?_map, Option.map_eq_some_iff] at h
  obtain ⟨c, hc, rfl⟩ := h
  obtain ⟨hi, rfl⟩ := List.getElem?_eq_some_iff.mp hc
  have hdrop : s.drop i = s[i] :: s.drop (i + 1) := List.drop_eq_getElem_cons hi
  rw [offset_add, hdrop, List.take_succ_cons, List.take_zero, byteSize_cons, byteSize_nil,
    utf8Size_of_ofChar_ne hm]

/-- A byte with a meaning is a character with this meaning. -/
theorem exists_char_of_mark {s : Text} {k : Nat} {m : Mark} (h : s.byteMarks[k]? = some m)
    (hm : m ≠ .plain) :
    ∃ front c rest, s = front ++ c :: rest ∧ k = byteSize front ∧ Mark.ofChar c = m := by
  induction s generalizing k with
  | nil => simp [byteMarks, bytes] at h
  | cons c s ih =>
      by_cases hk : k < c.utf8Size
      · cases k with
        | zero =>
            rw [byteMarks_cons] at h
            exact ⟨[], c, s, rfl, rfl, Option.some.inj h⟩
        | succ k =>
            have hplain := getElem?_byteMarks_plain (s := c :: s) (i := 0) (k := k + 1) (by simp)
              (by simpa using hk)
            rw [hplain, Option.some.injEq] at h
            exact absurd h.symm hm
      · obtain ⟨k, rfl⟩ := Nat.exists_eq_add_of_le (Nat.le_of_not_lt hk)
        rw [getElem?_byteMarks_cons] at h
        obtain ⟨front, d, rest, rfl, rfl, hd⟩ := ih h
        exact ⟨c :: front, d, rest, rfl, (byteSize_cons c front).symm, hd⟩

/-! ## readers of bytes -/

/-- A reader passes over what has no meaning, and finds nothing behind the end. -/
structure Passes {α : Type} (marks : List Mark) (read : Nat → α) : Prop where
  plain : ∀ k, marks[k]? = some .plain → read k = read (k + 1)
  behind : ∀ k, marks.length ≤ k → read k = read (k + 1)

variable {α : Type} {s : Text} {read : Nat → α}

/-- Inside of a character the reader goes on to the next one. -/
theorem Passes.run (h : Passes s.byteMarks read) {i k : Nat} (hlo : s.offset i < k)
    (hhi : k ≤ s.offset (i + 1)) : read k = read (s.offset (i + 1)) := by
  obtain hlt | rfl := Nat.lt_or_eq_of_le hhi
  · rw [h.plain k (getElem?_byteMarks_plain hlo hlt)]
    exact h.run (Nat.lt_succ_of_lt hlo) hlt
  · rfl
termination_by s.offset (i + 1) - k

/-- **One character on**: read from the second byte of a character, a text gives what it gives
read from the next character. -/
theorem Passes.next (h : Passes s.byteMarks read) (i : Nat) :
    read (s.offset i + 1) = read (s.offset (i + 1)) := by
  by_cases hi : i < s.length
  · exact h.run (Nat.lt_succ_self _) (offset_lt_succ hi)
  · have hend : s.offset (i + 1) = s.offset i := by
      rw [offset_of_length_le (by omega), offset_of_length_le (by omega)]
    rw [hend]
    have hlen : s.byteMarks.length = s.offset i := by
      rw [length_byteMarks, offset_of_length_le (Nat.le_of_not_lt hi)]
    exact (h.behind _ (Nat.le_of_eq hlen)).symm

/-! ## cutting at a byte offset -/

/-- The text before a byte offset and the text after it; `none` where the offset lies inside of
a character or behind the end. -/
def cut? : Text → Nat → Option (Text × Text)
  | s, 0 => some ([], s)
  | [], _ + 1 => none
  | c :: s, n + 1 =>
    if n + 1 < c.utf8Size then none
    else (cut? s (n + 1 - c.utf8Size)).map fun p => (c :: p.1, p.2)

/-- **Where a text can be cut**: at the size of what stands in front. -/
theorem cut?_eq_some_iff {s front back : Text} {n : Nat} :
    s.cut? n = some (front, back) ↔ s = front ++ back ∧ n = front.byteSize := by
  induction s generalizing n front with
  | nil =>
      cases n with
      | zero =>
          rw [cut?, Option.some.injEq, Prod.mk.injEq]
          constructor
          · rintro ⟨rfl, rfl⟩
            exact ⟨rfl, rfl⟩
          · rintro ⟨h, -⟩
            obtain ⟨rfl, rfl⟩ := List.append_eq_nil_iff.mp h.symm
            exact ⟨rfl, rfl⟩
      | succ n =>
          simp only [cut?, reduceCtorEq, false_iff, not_and]
          intro h
          rw [(List.append_eq_nil_iff.mp h.symm).1]
          simp
  | cons c s ih =>
      have hpos := c.utf8Size_pos
      cases n with
      | zero =>
          rw [cut?, Option.some.injEq, Prod.mk.injEq, eq_comm (a := 0), byteSize_eq_zero_iff]
          constructor
          · rintro ⟨rfl, rfl⟩
            exact ⟨rfl, rfl⟩
          · rintro ⟨h, rfl⟩
            exact ⟨rfl, h⟩
      | succ n =>
          rw [cut?]
          by_cases hn : n + 1 < c.utf8Size
          · rw [if_pos hn]
            simp only [reduceCtorEq, false_iff, not_and]
            intro h
            cases front with
            | nil => simp
            | cons d front =>
                rw [List.cons_append, List.cons.injEq] at h
                rw [byteSize_cons, ← h.1]
                omega
          · rw [if_neg hn, Option.map_eq_some_iff]
            constructor
            · rintro ⟨⟨front', back'⟩, h, heq⟩
              cases heq
              obtain ⟨rfl, hsize⟩ := ih.mp h
              exact ⟨rfl, by simp only [byteSize_cons]; omega⟩
            · rintro ⟨h, hsize⟩
              cases front with
              | nil => simp at hsize
              | cons d front =>
                  rw [List.cons_append, List.cons.injEq] at h
                  obtain ⟨rfl, rfl⟩ := h
                  rw [byteSize_cons] at hsize
                  exact ⟨(front, back), ih.mpr ⟨rfl, by omega⟩, rfl⟩

/-- The text between two byte offsets; `none` where it cannot be cut there. -/
def slice? (s : Text) (i j : Nat) : Option Text :=
  match s.cut? j with
  | none => none
  | some (front, _) => (front.cut? i).map Prod.snd

/-- **What can be cut out**: the text between two offsets that lie at the ends of
characters, and nothing else. -/
theorem slice?_eq_some_iff {s mid : Text} {i j : Nat} :
    s.slice? i j = some mid ↔
      ∃ front back, s = front ++ mid ++ back ∧ i = front.byteSize ∧
        j = byteSize (front ++ mid) := by
  unfold slice?
  constructor
  · intro h
    cases hj : s.cut? j with
    | none => simp [hj] at h
    | some p =>
        obtain ⟨whole, back⟩ := p
        simp only [hj] at h
        obtain ⟨⟨front, mid'⟩, hi, rfl⟩ := Option.map_eq_some_iff.mp h
        obtain ⟨rfl, hsize⟩ := cut?_eq_some_iff.mp hj
        obtain ⟨rfl, hsize'⟩ := cut?_eq_some_iff.mp hi
        exact ⟨front, back, rfl, hsize', hsize⟩
  · rintro ⟨front, back, hs, hi, hj⟩
    rw [cut?_eq_some_iff.mpr ⟨hs, hj⟩]
    simp only [cut?_eq_some_iff.mpr ⟨rfl, hi⟩, Option.map_some]

/-- What stands between two characters is found between their offsets. -/
theorem slice?_offset {s : Text} {i j : Nat} (h : i ≤ j) :
    s.slice? (s.offset i) (s.offset j) = some ((s.take j).drop i) := by
  have htake : (s.take j).take i = s.take i := by rw [List.take_take, Nat.min_eq_left h]
  have hjoin : s.take i ++ (s.take j).drop i = s.take j := by
    rw [← htake, List.take_append_drop]
  refine slice?_eq_some_iff.mpr ⟨s.take i, s.drop j, ?_, rfl, ?_⟩
  · rw [hjoin, List.take_append_drop]
  · rw [hjoin, offset]

end Text

end TypeFlow
