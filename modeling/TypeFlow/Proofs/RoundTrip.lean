import TypeFlow.Proofs.Grammar

/-!
# TypeFlow.Proofs.RoundTrip

Writing a type and reading it back.  `Readable` are the types that some text
stands for: names are names or quoted parts, no name is taken by another
constructor, unions have alternatives and the fields of records are maps.
Both directions go through the grammar of `TypeFlow.Proofs.Grammar`:

* `Readable.derives_chars` — the canonical text of a readable type is derived
  with that type;
* `Derives.readable` — a derived type is readable;
* `chars_injective` — readable types that are written alike are the same.
-/

namespace TypeFlow

namespace Ty

/-! ## readable types -/

/-- A type that has a text. -/
inductive Readable : Ty → Prop where
  | scalar (s : Scalar) : Readable (.scalar s)
  | named {n : String} (hname : Text.isName n.toList = true) (hscalar : ∀ s : Scalar, s.name ≠ n) :
      Readable (.named n)
  | quoted {n : String} (h : Text.IsQuoted n.toList) : Readable (.named n)
  | generic {n : String} {args : List Ty} (hname : Text.isName n.toList = true)
      (ho : n ≠ "Optional") (hu : n ≠ "Union") (hargs : ∀ t ∈ args, Readable t) :
      Readable (.generic n args)
  | optional {t : Ty} (h : Readable t) : Readable (.optional t)
  | struct {fields : NameMap Ty} (hsorted : fields.Sorted)
      (hnames : ∀ e ∈ fields, Text.isName e.1.toList = true) (hfields : ∀ e ∈ fields, Readable e.2) :
      Readable (.struct fields)
  | union {alts : List Ty} (hne : alts ≠ []) (halts : ∀ t ∈ alts, Readable t) :
      Readable (.union alts)

/-! ## the canonical text is derived -/

/-- A type as it stands in a list of parts, with its canonical text. -/
def spelled (t : Ty) : Text × Ty := (t.chars, t)

/-- A field with its canonical text, which has no blanks. -/
def spelledField (e : String × Ty) : Shape.FieldText × Ty := (⟨[], e.1, [], e.2.chars⟩, e.2)

/-- A field is printed with its name and without blanks. -/
theorem labelled_spelledField {e : String × Ty} (h : Text.isName e.1.toList = true) :
    (spelledField e).1.Labelled :=
  ⟨Text.blank_nil, h, Text.blank_nil⟩

/-- Each type is printed as it is spelled. -/
theorem eachChars_eq_spelled (ts : List Ty) : eachChars ts = (ts.map spelled).map Prod.fst := by
  rw [eachChars_eq_map, List.map_map]
  rfl

theorem map_snd_spelled (ts : List Ty) : (ts.map spelled).map Prod.snd = ts := by
  rw [List.map_map]
  exact List.map_id' ts

/-- Each field is printed as it is spelled. -/
theorem fieldChars_eq_spelled (es : List (String × Ty)) :
    fieldChars es = (es.map spelledField).map fun f => f.1.chars := by
  rw [fieldChars_eq_map, List.map_map]
  refine List.map_congr_left fun e _ => ?_
  simp [spelledField, Shape.FieldText.chars]

/-- A name in front of the canonical texts of its arguments. -/
theorem derives_applied {base : String} {args : List Ty} {t : Ty}
    (hbase : Text.isName base.toList = true) (hargs : ∀ u ∈ args, Derives u.chars u)
    (happlied : Applied base args t) :
    Derives (base.toList ++ Text.angled (eachChars args)) t := by
  by_cases hne : args = []
  · subst hne
    have hbare := Derives.bare hbase Text.blank_nil Text.blank_nil happlied
    rw [List.append_nil] at hbare
    exact hbare
  · rw [← map_snd_spelled args] at happlied
    have hgeneric := Derives.generic hbase Text.blank_nil (by simpa using hne)
      (List.forall_mem_map.mpr hargs) happlied
    rw [List.append_nil, ← eachChars_eq_spelled] at hgeneric
    exact hgeneric

/-- A record derives from what is printed of it, if its fields are in order and named by
names, and their types do. -/
theorem derives_struct {fields : NameMap Ty} (hsorted : fields.Sorted)
    (hnames : ∀ e ∈ fields, Text.isName e.1.toList = true)
    (hfields : ∀ e ∈ fields, Derives e.2.chars e.2) :
    Derives (structWord ++ Text.braced (fieldChars fields)) (.struct fields) := by
  by_cases hne : fields = []
  · subst hne
    exact @Derives.bareRecord [] [] Text.blank_nil Text.blank_nil
  · have hsame : ((fields.map spelledField).map fun f => (f.1.name, f.2)) = fields := by
      rw [List.map_map]
      exact List.map_id' fields
    have hnodup : ((fields.map spelledField).map fun f => f.1.name).Nodup := by
      rw [List.map_map]
      exact NameMap.nodup_names hsorted
    have hlabels : ∀ f ∈ fields.map spelledField, f.1.Labelled :=
      List.forall_mem_map.mpr fun e he => labelled_spelledField (hnames e he)
    have hrecord := Derives.record Text.blank_nil (by simpa using hne) hlabels hnodup
      (List.forall_mem_map.mpr hfields) hsorted (by rw [hsame])
    rw [List.append_nil, ← fieldChars_eq_spelled] at hrecord
    exact hrecord

theorem isName_optionalWord : Text.isName "Optional".toList = true := by decide +kernel

theorem isName_unionWord : Text.isName "Union".toList = true := by decide +kernel

/-- The canonical text of a readable type is derived with that type. -/
theorem Readable.derives_chars {t : Ty} (h : Readable t) : Derives t.chars t := by
  induction h with
  | scalar s => exact .scalar s
  | named hname hscalar => exact .named hname hscalar
  | quoted h => exact .quoted h
  | generic hname ho hu _ ih => exact derives_applied hname ih (.generic ho hu)
  | @optional t _ ih =>
      have hargs : ∀ u ∈ [t], Derives u.chars u := by simpa using ih
      exact derives_applied isName_optionalWord hargs (.optional t)
  | struct hsorted hnames _ ih => exact derives_struct hsorted hnames ih
  | union hne _ ih => exact derives_applied isName_unionWord ih (.union hne)

/-! ## derived types are readable -/

/-- A name applied to readable types makes a readable type. -/
theorem Applied.readable {base : String} {args : List Ty} {t : Ty} (h : Applied base args t)
    (hbase : Text.isName base.toList = true) (hargs : ∀ u ∈ args, Readable u) : Readable t := by
  cases h with
  | optional t => exact .optional (hargs t List.mem_cons_self)
  | union hne => exact .union hne hargs
  | generic ho hu => exact .generic hbase ho hu hargs

/-- **What derives from a text is readable.** -/
theorem Derives.readable {s : Text} {t : Ty} (h : Derives s t) : Readable t := by
  induction h with
  | padded _ _ _ ih => exact ih
  | scalar s => exact .scalar s
  | named hname hscalar => exact .named hname hscalar
  | quoted h => exact .quoted h
  | bare hbase _ _ happlied => exact happlied.readable hbase (by simp)
  | generic hbase _ _ _ happlied ih => exact happlied.readable hbase (List.forall_mem_map.mpr ih)
  | bareRecord _ _ => exact .struct NameMap.sorted_nil (by simp) (by simp)
  | record _ _ hlabels _ _ hsorted hperm ih =>
      refine .struct hsorted (fun e he => ?_) (fun e he => ?_)
      · obtain ⟨f, hf, rfl⟩ := List.mem_map.mp (hperm.mem_iff.mp he)
        exact (hlabels f hf).name
      · obtain ⟨f, hf, rfl⟩ := List.mem_map.mp (hperm.mem_iff.mp he)
        exact ih f hf

/-- Readable types that are written alike are the same. -/
theorem chars_injective {t u : Ty} (ht : Readable t) (hu : Readable u) (h : t.chars = u.chars) :
    t = u := by
  have htext := ht.derives_chars
  rw [h] at htext
  exact htext.unique hu.derives_chars

/-! ## modifiers -/

/-- What starts with a name starts with none of the modifiers' characters. -/
theorem exists_head_of_isName {n : Text} (hn : n.isName = true) (rest : Text) :
    ∃ c s, n ++ rest = c :: s ∧ isBlank c = false ∧ c ≠ '*' ∧ c ≠ '[' := by
  obtain ⟨c, n, rfl⟩ := List.exists_cons_of_ne_nil (Text.ne_nil_of_isName hn)
  have hc := ne_of_isNameChar (Text.isNameChar_of_mem hn c List.mem_cons_self)
  simp only [markChars, List.mem_cons, not_or] at hc
  exact ⟨c, n ++ rest, rfl, hc.1, by simp [hc.2], by simp [hc.2]⟩

/-- The first character of a type's text is none of the modifiers'. -/
theorem Readable.exists_head {t : Ty} (h : Readable t) :
    ∃ c s, t.chars = c :: s ∧ isBlank c = false ∧ c ≠ '*' ∧ c ≠ '[' := by
  cases h with
  | scalar s =>
      obtain ⟨c, rest, hs⟩ := exists_head_of_isName (isName_scalar s) []
      rw [List.append_nil] at hs
      exact ⟨c, rest, hs⟩
  | named hn _ =>
      obtain ⟨c, rest, hs⟩ := exists_head_of_isName hn []
      rw [List.append_nil] at hs
      exact ⟨c, rest, hs⟩
  | quoted hq =>
      obtain ⟨q, body, -, hn⟩ := hq
      refine ⟨q.char, body ++ [q.char], by rw [chars, hn]; rfl, ?_⟩
      cases q <;> decide
  | generic hn _ _ _ => exact exists_head_of_isName hn _
  | optional _ => exact exists_head_of_isName isName_optionalWord _
  | struct _ _ _ => exact exists_head_of_isName Shape.isName_structWord _
  | union _ _ => exact exists_head_of_isName isName_unionWord _

/-- A text with a shape begins with neither a blank nor a modifier. -/
theorem exists_head_of_outline {s : Text} {shape : Shape} (h : Shape.Outline s shape) :
    ∃ c rest, s = c :: rest ∧ isBlank c = false ∧ c ≠ '*' ∧ c ≠ '[' := by
  cases h with
  | atom h =>
      obtain hn | ⟨q, body, -, hn⟩ := h
      · obtain ⟨c, rest, hc⟩ := exists_head_of_isName hn []
        rw [List.append_nil] at hc
        exact ⟨c, rest, hc⟩
      · refine ⟨q.char, body ++ [q.char], by rw [hn]; rfl, ?_⟩
        cases q <;> decide
  | bare hbase _ _ =>
      rw [List.append_assoc]
      exact exists_head_of_isName hbase _
  | generic hbase _ _ _ =>
      rw [List.append_assoc]
      exact exists_head_of_isName hbase _
  | bareRecord _ _ =>
      rw [List.append_assoc]
      exact exists_head_of_isName Shape.isName_structWord _
  | record _ _ _ _ _ =>
      rw [List.append_assoc]
      exact exists_head_of_isName Shape.isName_structWord _

end Ty

namespace TyRef

/-- A modifier in front is taken off, with the blanks behind it. -/
theorem modifier_append (word rest : Text) : modifier word (word ++ rest) = (true, rest.trimStart) := by
  rw [modifier, Text.after?_eq_some_iff.mpr rfl]

/-- Where another character stands, there is no modifier. -/
theorem modifier_of_ne {c d : Char} (h : c ≠ d) (word s : Text) :
    modifier (d :: word) (c :: s) = (false, c :: s) := by
  have hnone : Text.after? (d :: word) (c :: s) = none := by
    cases hafter : Text.after? (d :: word) (c :: s) with
    | none => rfl
    | some rest =>
        have heq := Text.after?_eq_some_iff.mp hafter
        rw [List.cons_append, List.cons.injEq] at heq
        exact absurd heq.1 h
  rw [modifier, hnone]

/-- The modifiers of a reference, as they are written. -/
def marks (r : TyRef) : Text :=
  (if r.pointer then ['*'] else []) ++ if r.slice then ['[', ']'] else []

/-- Trimming the text of a reference only takes blanks off the end of its
type's text. -/
theorem trim_chars {r : TyRef} {c : Char} {s : Text} (hchars : r.ty.chars = c :: s)
    (hc : isBlank c = false) : r.chars.trim = r.marks ++ c :: Text.trimEnd s := by
  have hstar : isBlank '*' = false := by decide
  have hsquare : isBlank '[' = false := by decide
  have hnot : ¬ Text.Blank (c :: s) := Ty.not_blank_of_mem List.mem_cons_self hc
  have hstart : Text.trimStart (r.marks ++ c :: s) = r.marks ++ c :: s := by
    rw [Text.trimStart_eq_self_iff]
    intro d hd
    unfold marks at hd
    cases hp : r.pointer <;> cases hs : r.slice <;>
      simp only [hp, hs, Bool.false_eq_true, if_true, if_false, List.nil_append, List.cons_append,
        List.head?_cons, Option.mem_def, Option.some.injEq] at hd <;> subst hd <;> assumption
  rw [chars, ← marks, hchars, Text.trim, hstart, Text.trimEnd_append hnot,
    Text.trimEnd_cons_of_not_blank hc]

/-- Reading takes the modifiers off and leaves the type's text. -/
theorem read_of_trim {limits : Limits} {r : TyRef} {text s : Text} {c : Char}
    (htrim : text.trim = r.marks ++ c :: s) (hc : isBlank c = false) (hstar : c ≠ '*')
    (hsquare : c ≠ '[') (hread : Ty.read limits (c :: s) = .ok r.ty) :
    read limits text = .ok r := by
  have hstart : ∀ d : Char, isBlank d = false → ∀ s : Text, Text.trimStart (d :: s) = d :: s :=
    fun d hd s => Text.trimStart_cons_of_not_blank hd
  have hbracket : isBlank '[' = false := by decide
  obtain ⟨pointer, slice, t⟩ := r
  unfold read
  rw [htrim]
  cases pointer <;> cases slice <;> simp only [marks, Bool.false_eq_true, if_true, if_false,
    List.nil_append, List.append_nil, List.append_assoc]
  · rw [modifier_of_ne hstar]
    simp only
    rw [modifier_of_ne hsquare, hread]
    rfl
  · have hne : '[' ≠ '*' := by decide
    rw [List.cons_append, modifier_of_ne hne, ← List.cons_append]
    simp only
    rw [modifier_append, hstart c hc, hread]
    rfl
  · rw [modifier_append]
    simp only
    rw [hstart c hc, modifier_of_ne hsquare, hread]
    rfl
  · rw [modifier_append]
    simp only
    rw [List.cons_append, hstart _ hbracket, ← List.cons_append, modifier_append, hstart c hc, hread]
    rfl

/-- A reference is read back from its canonical text as soon as its type is. -/
theorem read_chars {limits : Limits} {r : TyRef} (h : r.ty.Readable)
    (hread : Ty.read limits r.ty.chars = .ok r.ty) : read limits r.chars = .ok r := by
  obtain ⟨c, s, hchars, hblank, hstar, hsquare⟩ := h.exists_head
  have hrest : Text.trimEnd r.ty.chars = c :: Text.trimEnd s := by
    rw [hchars, Text.trimEnd_cons_of_not_blank hblank]
  have hty : Ty.read limits (c :: Text.trimEnd s) = .ok r.ty := by
    rw [← hrest, ← Ty.read_trim, Text.trim_trimEnd, Ty.read_trim]
    exact hread
  exact read_of_trim (trim_chars hchars hblank) hblank hstar hsquare hty

/-- A text that is read as a type is read as a reference without modifiers. -/
theorem read_of_ty_read {limits : Limits} {text : Text} {t : Ty}
    (h : Ty.read limits text = .ok t) : read limits text = .ok (plain t) := by
  obtain ⟨budget, hbudget⟩ := Ty.exists_budget (Ty.read_eq_ok_iff.mp h).2
  have hread : Ty.readAt limits.maxDepth (budget + 1) text = .ok t := hbudget ▸ h
  obtain ⟨shape, hscan, -⟩ := Ty.readAt_succ_eq_ok_iff.mp hread
  obtain ⟨c, s, htrim, hblank, hstar, hsquare⟩ :=
    Ty.exists_head_of_outline (Shape.scan_eq_ok_iff.mp hscan)
  have hty : Ty.read limits (c :: s) = .ok t := by
    rw [← htrim, Ty.read_trim]
    exact h
  exact read_of_trim (r := plain t) htrim hblank hstar hsquare hty

end TyRef

/-! ## printing and reading -/

namespace Ty

theorem read_chars {limits : Limits} {t : Ty} (h : t.Readable) (hdepth : t.depth ≤ limits.maxDepth) :
    read limits t.chars = .ok t :=
  read_eq_ok_iff.mpr ⟨h.derives_chars, hdepth⟩

/-- What has been read is readable, and no deeper than the limit. -/
theorem Readable.of_read {limits : Limits} {text : Text} {t : Ty} (h : read limits text = .ok t) :
    t.Readable ∧ t.depth ≤ limits.maxDepth :=
  ⟨(read_eq_ok_iff.mp h).1.readable, (read_eq_ok_iff.mp h).2⟩

/-- **Printing and reading are inverse**: the text of every readable type and
reference within the limit is read back as it is, and whatever is read is
readable and within the limit, so that it survives another round. -/
theorem read_render_inverse (limits : Limits) :
    (∀ t : Ty, t.Readable → t.depth ≤ limits.maxDepth → read limits t.render.toList = .ok t) ∧
      (∀ r : TyRef, r.ty.Readable → r.ty.depth ≤ limits.maxDepth →
        TyRef.read limits r.render.toList = .ok r) ∧
      ∀ (text : Text) (t : Ty), read limits text = .ok t →
        t.Readable ∧ t.depth ≤ limits.maxDepth ∧ read limits t.render.toList = .ok t := by
  have htypes : ∀ t : Ty, t.Readable → t.depth ≤ limits.maxDepth →
      read limits t.render.toList = .ok t := by
    intro t ht hdepth
    rw [render, String.toList_ofList]
    exact read_chars ht hdepth
  refine ⟨htypes, fun r hr hdepth => ?_, fun text t hread => ?_⟩
  · rw [TyRef.render, String.toList_ofList]
    exact TyRef.read_chars hr (read_chars hr hdepth)
  · obtain ⟨ht, hdepth⟩ := Readable.of_read hread
    exact ⟨ht, hdepth, htypes t ht hdepth⟩

/-- A quoted part with brackets, a comma and an escaped quote in it, and a record with
its fields out of order: four levels are just enough to read the text, and to read again
what the type and a reference with both modifiers are printed as. -/
theorem read_render_inverse_pair :
    let text := " Pair<'a,>\\'',\tStruct\x7bb : Optional<int>, a:Union< T,string >\x7d>".toList
    let t : Ty := .generic "Pair" [.named "'a,>\\''",
      .struct [("a", .union [.named "T", .scalar .string]), ("b", .optional (.scalar .int))]]
    read ⟨4⟩ text = .ok t ∧ t.Readable ∧ t.depth ≤ 4 ∧ read ⟨4⟩ t.render.toList = .ok t ∧
      TyRef.read ⟨4⟩ (TyRef.render ⟨true, true, t⟩).toList = .ok ⟨true, true, t⟩ := by
  intro text t
  have hread : read ⟨4⟩ text = .ok t := rfl
  obtain ⟨ht, hdepth, hagain⟩ := (read_render_inverse ⟨4⟩).2.2 text t hread
  exact ⟨hread, ht, hdepth, hagain, (read_render_inverse ⟨4⟩).2.1 ⟨true, true, t⟩ ht hdepth⟩

end Ty

end TypeFlow
