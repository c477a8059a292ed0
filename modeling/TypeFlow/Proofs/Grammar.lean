import TypeFlow.Proofs.Levels
import TypeFlow.Proofs.Outline

/-!
# TypeFlow.Proofs.Grammar

The language of type texts and the types its texts stand for, as a grammar:

```
type   ::=  ws type ws
         |  name  |  quoted
         |  name ws '<' ws '>'         |  name ws '<' type (',' type)* '>'
         |  'Struct' ws '{' ws '}'     |  'Struct' ws '{' field (',' field)* '}'
field  ::=  ws name ws ':' type
```

`Derives s t` says that the grammar gives the text `s` the type `t`.  The
reader is not written after the grammar: it looks for brackets, matches them
and cuts at commas, and reads the parts afterwards.  That it comes to the same
is shown in two halves, which meet at the one-level grammar of
`TypeFlow.Proofs.Outline`:

* `derives_of_readAt` — whatever is read is derived;
* `Derives.readAt` — whatever is derived is read, if it is within the limit;
* `Derives.depth_le_length` — a text is at least as long as its type is deep,
  so a limit past the length of the text never matters.
-/

namespace TypeFlow

open Nest

namespace Ty

/-! ## the grammar -/

/-- The grammar of type texts.  The arguments of a name and the fields of a
record are listed together with their types; the map of a record's fields is
their one arrangement by name. -/
inductive Derives : Text → Ty → Prop where
  | padded {pre s post : Text} {t : Ty} (hpre : pre.Blank) (hpost : post.Blank)
      (h : Derives s t) : Derives (pre ++ s ++ post) t
  | scalar (s : Scalar) : Derives s.name.toList (.scalar s)
  | named {n : String} (hname : Text.isName n.toList = true) (hscalar : ∀ s : Scalar, s.name ≠ n) :
      Derives n.toList (.named n)
  | quoted {n : String} (h : Text.IsQuoted n.toList) : Derives n.toList (.named n)
  | bare {base : String} {pad inner : Text} {t : Ty} (hbase : Text.isName base.toList = true)
      (hpad : pad.Blank) (hinner : inner.Blank) (happlied : Applied base [] t) :
      Derives (base.toList ++ pad ++ ('<' :: inner ++ ['>'])) t
  | generic {base : String} {pad : Text} {args : List (Text × Ty)} {t : Ty}
      (hbase : Text.isName base.toList = true) (hpad : pad.Blank) (hne : args ≠ [])
      (hargs : ∀ a ∈ args, Derives a.1 a.2) (happlied : Applied base (args.map Prod.snd) t) :
      Derives (base.toList ++ pad ++ Text.angled (args.map Prod.fst)) t
  | bareRecord {pad inner : Text} (hpad : pad.Blank) (hinner : inner.Blank) :
      Derives (structWord ++ pad ++ ('\x7b' :: inner ++ ['\x7d'])) (.struct [])
  | record {pad : Text} {fields : List (Shape.FieldText × Ty)} {m : NameMap Ty} (hpad : pad.Blank)
      (hne : fields ≠ []) (hlabels : ∀ f ∈ fields, f.1.Labelled)
      (hnames : (fields.map fun f => f.1.name).Nodup) (htypes : ∀ f ∈ fields, Derives f.1.type f.2)
      (hsorted : m.Sorted) (hperm : m.Perm (fields.map fun f => (f.1.name, f.2))) :
      Derives (structWord ++ pad ++ Text.braced (fields.map fun f => f.1.chars)) (.struct m)

/-! ## derived texts as parts of others -/

/-- The names of scalars are names. -/
theorem isName_scalar (s : Scalar) : Text.isName s.name.toList = true := by
  cases s <;> decide +kernel

/-- A name is unbroken, as none of its characters has a meaning. -/
theorem unbroken_of_isName {s : Text} (h : s.isName = true) : Unbroken s :=
  Text.unbroken_of_not_mem_markChars (Text.not_mem_markChars_of_isName h)

/-- Blanks are unbroken, as they have no meaning. -/
theorem unbroken_of_blank {s : Text} (h : s.Blank) : Unbroken s :=
  Text.unbroken_of_not_mem_markChars h.not_mem_markChars

/-- A derived text has no comma outside of its brackets and quotes. -/
theorem Derives.unbroken {s : Text} {t : Ty} (h : Derives s t) : Unbroken s := by
  induction h with
  | padded hpre hpost _ ih =>
      exact ((unbroken_of_blank hpre).append ih).append (unbroken_of_blank hpost)
  | scalar s => exact unbroken_of_isName (isName_scalar s)
  | named hname _ => exact unbroken_of_isName hname
  | quoted h =>
      obtain ⟨q, body, hbody, hn⟩ := h
      rw [hn]
      exact unbroken_of_quotedBody hbody
  | bare hbase hpad hinner _ =>
      have hfront := (unbroken_of_isName hbase).append (unbroken_of_blank hpad)
      exact hfront.append (unbroken_angled (Shape.walk_of_blank hinner))
  | @generic base pad args t hbase hpad hne _ _ ih =>
      have hfront := (unbroken_of_isName hbase).append (unbroken_of_blank hpad)
      have hparts : ∀ p ∈ args.map Prod.fst, Unbroken p := by
        intro p hp
        obtain ⟨a, ha, rfl⟩ := List.mem_map.mp hp
        exact ih a ha
      have hne' : args.map Prod.fst ≠ [] := by simpa using hne
      exact hfront.append (unbroken_angled (Shape.walk_commas hne' hparts))
  | bareRecord hpad hinner =>
      have hfront := (unbroken_of_isName Shape.isName_structWord).append (unbroken_of_blank hpad)
      exact hfront.append (unbroken_braced (Shape.walk_of_blank hinner))
  | @record pad fields m hpad hne hlabels _ _ _ _ ih =>
      have hfront := (unbroken_of_isName Shape.isName_structWord).append (unbroken_of_blank hpad)
      have hparts : ∀ p ∈ fields.map (fun f => f.1.chars), Unbroken p := by
        intro p hp
        obtain ⟨f, hf, rfl⟩ := List.mem_map.mp hp
        exact (hlabels f hf).unbroken_iff.mpr (ih f hf)
      have hne' : fields.map (fun f => f.1.chars) ≠ [] := by simpa using hne
      exact hfront.append (unbroken_braced (Shape.walk_commas hne' hparts))

theorem not_blank_of_mem {s : Text} {c : Char} (hc : c ∈ s) (hb : isBlank c = false) :
    ¬ s.Blank := by
  intro h
  rw [h c hc] at hb
  contradiction

theorem not_blank_of_isName {s : Text} (h : s.isName = true) : ¬ s.Blank := by
  obtain ⟨c, s, rfl⟩ := List.exists_cons_of_ne_nil (Text.ne_nil_of_isName h)
  have hc := (ne_of_isNameChar (Text.isNameChar_of_mem h c List.mem_cons_self)).1
  exact not_blank_of_mem List.mem_cons_self hc

/-- A derived text is no blank text. -/
theorem Derives.not_blank {s : Text} {t : Ty} (h : Derives s t) : ¬ s.Blank := by
  have hangle : isBlank '<' = false := by decide
  have hbrace : isBlank '\x7b' = false := by decide
  induction h with
  | padded _ _ _ ih =>
      intro hb
      refine ih fun c hc => hb c ?_
      exact List.mem_append_left _ (List.mem_append_right _ hc)
  | scalar s => exact not_blank_of_isName (isName_scalar s)
  | named hname _ => exact not_blank_of_isName hname
  | quoted h =>
      obtain ⟨q, body, -, hn⟩ := h
      have hq : isBlank q.char = false := by cases q <;> decide
      rw [hn]
      exact not_blank_of_mem List.mem_cons_self hq
  | bare _ _ _ _ => exact not_blank_of_mem (c := '<') (by simp) hangle
  | generic _ _ _ _ _ _ => exact not_blank_of_mem (c := '<') (by simp [Text.angled]) hangle
  | bareRecord _ _ => exact not_blank_of_mem (c := '\x7b') (by simp) hbrace
  | record _ _ _ _ _ _ _ _ => exact not_blank_of_mem (c := '\x7b') (by simp [Text.braced]) hbrace

/-! ## depth and length -/

theorem length_pos_of_isName {s : Text} (h : s.isName = true) : 0 < s.length :=
  List.length_pos_iff.mpr (Text.ne_nil_of_isName h)

/-- A text is at least as long as its type is deep: every level has a name of
its own in front of the brackets. -/
theorem Derives.depth_le_length {s : Text} {t : Ty} (h : Derives s t) : t.depth ≤ s.length := by
  induction h with
  | padded _ _ _ ih =>
      simp only [List.length_append]
      omega
  | scalar s => exact length_pos_of_isName (isName_scalar s)
  | named hname _ => exact length_pos_of_isName hname
  | quoted h =>
      obtain ⟨q, body, -, hn⟩ := h
      rw [hn, depth]
      simp
  | bare hbase _ _ happlied =>
      have hpos := length_pos_of_isName hbase
      rw [happlied.depth_eq, depthList]
      simp only [List.length_append]
      omega
  | @generic base pad args t hbase _ _ _ happlied ih =>
      have hpos := length_pos_of_isName hbase
      have hle : depthList (args.map Prod.snd) ≤ (Text.commas (args.map Prod.fst)).length := by
        rw [depthList_le_iff]
        intro u hu
        obtain ⟨a, ha, rfl⟩ := List.mem_map.mp hu
        have hsub := Shape.sublist_commas (List.mem_map_of_mem (f := Prod.fst) ha)
        exact Nat.le_trans (ih a ha) hsub.length_le
      rw [happlied.depth_eq, Text.angled]
      simp only [List.length_append, List.length_cons]
      omega
  | bareRecord _ _ =>
      rw [depth, depthFields]
      simp [structWord]
  | @record pad fields m _ _ _ _ _ _ hperm ih =>
      have hle : depthFields m ≤ (Text.commas (fields.map fun f => f.1.chars)).length := by
        rw [depthFields_le_iff]
        intro e he
        obtain ⟨f, hf, rfl⟩ := List.mem_map.mp (hperm.mem_iff.mp he)
        have hsub := Shape.sublist_commas (List.mem_map_of_mem (f := fun f => f.1.chars) hf)
        have htype : f.1.type.length ≤ f.1.chars.length := by
          simp only [Shape.FieldText.chars, List.length_append, List.length_cons]
          omega
        exact Nat.le_trans (ih f hf) (Nat.le_trans htype hsub.length_le)
      rw [depth, Text.braced]
      simp only [List.length_append, List.length_cons, structWord]
      omega

/-! ## whatever is derived is read -/

/-- Blanks around a text do not change what it is read as. -/
theorem readAt_padded {pre post : Text} (hpre : pre.Blank) (hpost : post.Blank)
    (limit budget : Nat) (s : Text) :
    readAt limit budget (pre ++ s ++ post) = readAt limit budget s := by
  rw [← readAt_trim, Text.trim_padded hpre hpost, readAt_trim]

/-- A text of the one-level grammar is read by filling its shape. -/
theorem readAt_of_outline {limit budget : Nat} {s : Text} {shape : Shape} {t : Ty}
    (houtline : Shape.Outline s shape)
    (hfills : Fills (fun s u => readAt limit budget s = .ok u) shape t) :
    readAt limit (budget + 1) s = .ok t :=
  readAt_succ_eq_ok_iff.mpr ⟨shape, houtline.scan_eq, hfills⟩

/-- The name of a scalar stands for it. -/
theorem ofName_scalar (s : Scalar) : ofName s.name = .scalar s := by
  rw [ofName, Scalar.ofName?_name]

/-- A name that no scalar has stands for itself. -/
theorem ofName_of_ne {n : String} (h : ∀ s : Scalar, s.name ≠ n) : ofName n = .named n := by
  unfold ofName
  cases hn : Scalar.ofName? n with
  | none => rfl
  | some s => exact absurd (Scalar.ofName?_eq_some_iff.mp hn) (h s)

/-- A quoted part is no name, so it is no scalar's name. -/
theorem name_ne_of_isQuoted {n : String} (h : Text.IsQuoted n.toList) (s : Scalar) : s.name ≠ n := by
  obtain ⟨q, body, -, hn⟩ := h
  rintro rfl
  have hq : q.char ∈ s.name.toList := by rw [hn]; exact List.mem_cons_self
  have hmark : q.char ∈ markChars := by cases q <;> decide
  exact Text.not_mem_markChars_of_isName (isName_scalar s) _ hq hmark

theorem exists_budget {t : Ty} {budget : Nat} (h : t.depth ≤ budget) : ∃ k, budget = k + 1 :=
  Nat.exists_eq_add_one.mpr (Nat.lt_of_lt_of_le (depth_pos t) h)

/-- A name or a quoted part takes one level. -/
theorem readAt_atom {limit budget : Nat} {n : String} {t : Ty}
    (h : Text.isName n.toList = true ∨ Text.IsQuoted n.toList) (hdepth : t.depth ≤ budget) :
    readAt limit budget n.toList = .ok (ofName n) := by
  obtain ⟨budget, rfl⟩ := exists_budget hdepth
  exact readAt_of_outline (.atom h) (.atom n)

/-- A generic is read from the texts of its arguments, with one level less. -/
theorem readAt_generic {limit budget : Nat} {base : String} {pad : Text} {args : List (Text × Ty)}
    {t : Ty} (hbase : Text.isName base.toList = true) (hpad : pad.Blank) (hne : args ≠ [])
    (hparts : ∀ a ∈ args, Unbroken a.1 ∧ ¬ a.1.Blank)
    (hread : ∀ a ∈ args, readAt limit budget a.1 = .ok a.2)
    (happlied : Applied base (args.map Prod.snd) t) :
    readAt limit (budget + 1) (base.toList ++ pad ++ Text.angled (args.map Prod.fst)) = .ok t := by
  -- the scanner hands on the arguments without the blanks around them
  let trimmed := args.map fun a => (a.1.trim, a.2)
  have htexts : (args.map Prod.fst).map Text.trim = trimmed.map Prod.fst := by
    simp [trimmed]
  have htypes : args.map Prod.snd = trimmed.map Prod.snd := by
    simp [trimmed]
  have houtline := Shape.Outline.generic hbase hpad (by simpa using hne)
    (List.forall_mem_map.mpr hparts)
  rw [htexts] at houtline
  rw [htypes] at happlied
  refine readAt_of_outline houtline (.generic ?_ happlied)
  intro a ha
  obtain ⟨b, hb, rfl⟩ := List.mem_map.mp ha
  rw [readAt_trim]
  exact hread b hb

/-- A record is read from the texts of its fields, with one level less. -/
theorem readAt_record {limit budget : Nat} {pad : Text} {fields : List (Shape.FieldText × Ty)}
    {m : NameMap Ty} (hpad : pad.Blank) (hne : fields ≠ []) (hlabels : ∀ f ∈ fields, f.1.Labelled)
    (hparts : ∀ f ∈ fields, Unbroken f.1.type ∧ ¬ f.1.type.Blank)
    (hnames : (fields.map fun f => f.1.name).Nodup)
    (hread : ∀ f ∈ fields, readAt limit budget f.1.type = .ok f.2)
    (hsorted : m.Sorted) (hperm : m.Perm (fields.map fun f => (f.1.name, f.2))) :
    readAt limit (budget + 1)
      (structWord ++ pad ++ Text.braced (fields.map fun f => f.1.chars)) = .ok (.struct m) := by
  let entries := fields.map fun f => (f.1.entry, f.2)
  have htexts : (fields.map Prod.fst).map Shape.FieldText.entry = entries.map Prod.fst := by
    simp [entries]
  have hchars : (fields.map Prod.fst).map Shape.FieldText.chars = fields.map fun f => f.1.chars := by
    simp
  have hfields : m = NameMap.ofList (entries.map fun e => (e.1.1, e.2)) := by
    have hsame : (entries.map fun e => (e.1.1, e.2)) = fields.map fun f => (f.1.name, f.2) := by
      simp [entries, Shape.FieldText.entry]
    have hnodup : (NameMap.names (fields.map fun f => (f.1.name, f.2))).Nodup := by
      rw [NameMap.names, List.map_map]
      exact hnames
    rw [hsame, NameMap.eq_ofList_iff_perm hnodup]
    exact ⟨hsorted, hperm⟩
  have houtline := Shape.Outline.record hpad (by simpa using hne)
    (List.forall_mem_map.mpr hlabels) (List.forall_mem_map.mpr hparts)
    (by rw [List.map_map]; exact hnames)
  rw [htexts, hchars] at houtline
  rw [hfields, ← Ty.record]
  refine readAt_of_outline houtline (.record ?_)
  intro e he
  obtain ⟨f, hf, rfl⟩ := List.mem_map.mp he
  rw [Shape.FieldText.entry, readAt_trim]
  exact hread f hf

/-- **Completeness**: whatever the grammar derives is read, if there are levels
enough. -/
theorem Derives.readAt {limit budget : Nat} {s : Text} {t : Ty} (h : Derives s t)
    (hdepth : t.depth ≤ budget) : Ty.readAt limit budget s = .ok t := by
  induction h generalizing budget with
  | padded hpre hpost _ ih =>
      rw [readAt_padded hpre hpost]
      exact ih hdepth
  | scalar s =>
      rw [readAt_atom (.inl (isName_scalar s)) hdepth, ofName_scalar]
  | named hname hscalar =>
      rw [readAt_atom (.inl hname) hdepth, ofName_of_ne hscalar]
  | quoted hquoted =>
      rw [readAt_atom (.inr hquoted) hdepth, ofName_of_ne (name_ne_of_isQuoted hquoted)]
  | @bare base pad inner t hbase hpad hinner happlied =>
      obtain ⟨budget, rfl⟩ := exists_budget hdepth
      have hfills : Fills (fun s u => Ty.readAt limit budget s = .ok u) (.generic base []) t :=
        @Fills.generic _ base [] t (by simp) happlied
      exact readAt_of_outline (.bare hbase hpad hinner) hfills
  | @generic base pad args t hbase hpad hne hargs happlied ih =>
      obtain ⟨budget, rfl⟩ := exists_budget hdepth
      have hle : depthList (args.map Prod.snd) ≤ budget := by
        rw [happlied.depth_eq] at hdepth
        omega
      rw [depthList_le_iff] at hle
      refine readAt_generic hbase hpad hne (fun a ha => ?_) (fun a ha => ?_) happlied
      · exact ⟨(hargs a ha).unbroken, (hargs a ha).not_blank⟩
      · exact ih a ha (hle a.2 (List.mem_map_of_mem ha))
  | bareRecord hpad hinner =>
      obtain ⟨budget, rfl⟩ := exists_budget hdepth
      have hfills : Fills (fun s u => Ty.readAt limit budget s = .ok u) (.struct []) (.struct []) :=
        @Fills.record _ [] (by simp)
      exact readAt_of_outline (.bareRecord hpad hinner) hfills
  | @record pad fields m hpad hne hlabels hnames htypes hsorted hperm ih =>
      obtain ⟨budget, rfl⟩ := exists_budget hdepth
      have hle : depthFields m ≤ budget := by
        rw [depth] at hdepth
        omega
      rw [depthFields_le_iff] at hle
      refine readAt_record hpad hne hlabels (fun f hf => ?_) hnames (fun f hf => ?_) hsorted hperm
      · exact ⟨(htypes f hf).unbroken, (htypes f hf).not_blank⟩
      · exact ih f hf (hle _ (hperm.mem_iff.mpr (List.mem_map_of_mem hf)))

/-! ## whatever is read is derived -/

/-- A name or a quoted part derives what it stands for. -/
theorem derives_ofName {n : String} (h : Text.isName n.toList = true ∨ Text.IsQuoted n.toList) :
    Derives n.toList (ofName n) := by
  obtain hname | hquoted := h
  · unfold ofName
    cases hn : Scalar.ofName? n with
    | some s =>
        rw [← Scalar.ofName?_eq_some_iff.mp hn]
        exact .scalar s
    | none =>
        refine .named hname fun s hs => ?_
        rw [Scalar.ofName?_eq_some_iff.mpr hs] at hn
        contradiction
  · rw [ofName_of_ne (name_ne_of_isQuoted hquoted)]
    exact .quoted hquoted

/-- Blanks at both ends of a text are part of the grammar. -/
theorem Derives.of_trim {s : Text} {t : Ty} (h : Derives s.trim t) : Derives s t := by
  obtain ⟨pre, post, hpre, hpost, hs⟩ := Text.exists_padding s
  rw [hs]
  exact .padded hpre hpost h

/-- A shape of the one-level grammar, filled with derived types, is derived. -/
theorem derives_of_outline {s : Text} {shape : Shape} {t : Ty} (houtline : Shape.Outline s shape)
    (hfills : Fills Derives shape t) : Derives s t := by
  cases houtline with
  | atom h =>
      cases hfills with
      | atom n => exact derives_ofName h
  | bare hbase hpad hinner =>
      obtain ⟨args, htexts, -, happlied⟩ := hfills.exists_args
      rw [List.map_eq_nil_iff.mp htexts] at happlied
      exact .bare hbase hpad hinner happlied
  | generic hbase hpad hne _ =>
      obtain ⟨args, htexts, hargs, happlied⟩ := hfills.exists_args
      obtain ⟨parts, htexts, hparts⟩ := exists_zip_of_map_eq htexts
      subst htexts hparts
      rw [List.map_map] at happlied
      refine .generic hbase hpad (by simpa using hne) (fun p hp => .of_trim ?_) happlied
      exact hargs _ (List.mem_map_of_mem hp)
  | bareRecord hpad hinner =>
      obtain ⟨fields, htexts, -, ht⟩ := hfills.exists_fields
      rw [ht, List.map_eq_nil_iff.mp htexts]
      exact .bareRecord hpad hinner
  | record hpad hne hlabels _ hnames =>
      obtain ⟨entries, htexts, htypes, ht⟩ := hfills.exists_fields
      obtain ⟨fields, htexts, hentries⟩ := exists_zip_of_map_eq htexts
      subst htexts hentries
      rw [List.map_map] at hnames
      have hnodup : (NameMap.names (fields.map fun f => (f.1.name, f.2))).Nodup := by
        rw [NameMap.names, List.map_map]
        exact hnames
      obtain ⟨hsorted, hperm⟩ := (NameMap.eq_ofList_iff_perm hnodup).mp rfl
      rw [ht, Ty.record, List.map_map, List.map_map]
      refine .record hpad (by simpa using hne) (List.forall_mem_map.mp hlabels) hnames
        (fun f hf => .of_trim ?_) hsorted hperm
      exact htypes _ (List.mem_map_of_mem hf)

/-- **Soundness**: whatever is read is derived by the grammar. -/
theorem derives_of_readAt {limit budget : Nat} {text : Text} {t : Ty}
    (h : Ty.readAt limit budget text = .ok t) : Derives text t := by
  induction budget generalizing text t with
  | zero => simp [Ty.readAt] at h
  | succ budget ih =>
      obtain ⟨shape, hscan, hfills⟩ := readAt_succ_eq_ok_iff.mp h
      have houtline := Shape.scan_eq_ok_iff.mp hscan
      exact (derives_of_outline houtline (hfills.mono fun s u hu => ih hu)).of_trim

/-! ## the reader and the grammar -/

/-- What is read with a number of levels is what the grammar derives within
that depth. -/
theorem readAt_eq_ok_iff {limit budget : Nat} {text : Text} {t : Ty} :
    Ty.readAt limit budget text = .ok t ↔ Derives text t ∧ t.depth ≤ budget :=
  ⟨fun h => ⟨derives_of_readAt h, depth_le_of_readAt h⟩, fun h => h.1.readAt h.2⟩

/-- **What is read**: the one tree of the text, if it is no deeper than the limit. -/
theorem read_eq_ok_iff {limits : Limits} {text : Text} {t : Ty} :
    read limits text = .ok t ↔ Derives text t ∧ t.depth ≤ limits.maxDepth :=
  readAt_eq_ok_iff

/-- The grammar gives a text no more than one type. -/
theorem Derives.unique {text : Text} {t u : Ty} (ht : Derives text t) (hu : Derives text u) :
    t = u := by
  have hread : ∀ v, Derives text v → Ty.readAt 0 text.length text = .ok v := fun v hv =>
    hv.readAt hv.depth_le_length
  have heq := (hread t ht).symm.trans (hread u hu)
  rwa [Except.ok.injEq] at heq

/-- **The reader accepts exactly its grammar**: with a limit past the length of
the text, a text is read as a type exactly when the grammar derives it with
that type; no text is derived with two types, and a text outside of the
language is refused. -/
theorem read_iff_derives (limits : Limits) (text : Text) (h : text.length < limits.maxDepth) :
    (∀ t, read limits text = .ok t ↔ Derives text t) ∧
      (∀ t u, Derives text t → Derives text u → t = u) ∧
      ((∀ t, ¬ Derives text t) → ∃ e, read limits text = .error e) := by
  have hiff : ∀ t, read limits text = .ok t ↔ Derives text t := by
    intro t
    rw [read_eq_ok_iff]
    constructor
    · exact fun ht => ht.1
    · intro ht
      have hlength := ht.depth_le_length
      exact ⟨ht, by omega⟩
  refine ⟨hiff, fun t u ht hu => ht.unique hu, fun hnone => ?_⟩
  cases hread : read limits text with
  | error e => exact ⟨e, rfl⟩
  | ok t => exact absurd ((hiff t).mp hread) (hnone t)

/-- Blanks around every part, a quoted part with a bracket and an escaped quote, a
record with its fields out of order and a generic without arguments: the text is in the
language, and has this one tree. -/
theorem read_iff_derives_pair :
    let text := " Pair < 'a,>\\'' , Struct\x7b b : Optional<int>,a:Union< T > \x7d,Foo< > >\t".toList
    let t : Ty := .generic "Pair" [.named "'a,>\\''",
      .struct [("a", .union [.named "T"]), ("b", .optional (.scalar .int))], .generic "Foo" []]
    text.length < 100 ∧ Derives text t ∧ ∀ u, Derives text u → u = t := by
  intro text t
  have hlength : text.length < 100 := by decide +kernel
  obtain ⟨hiff, hunique, -⟩ := read_iff_derives ⟨100⟩ text hlength
  have hderives : Derives text t := (hiff t).mp rfl
  exact ⟨hlength, hderives, fun u hu => hunique u t hu hderives⟩

end Ty

end TypeFlow
