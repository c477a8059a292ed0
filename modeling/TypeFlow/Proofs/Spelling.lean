import TypeFlow.Proofs.Acceptance
import TypeFlow.Proofs.RoundTrip

/-!
# TypeFlow.Proofs.Spelling

How far compatibility of texts depends on how their types are spelled.  One type has
many texts, which differ in their blanks and in the order of the fields of records.
Which pairs of parts a comparison comes to is a matter of the types, and so is whether
it passes them, but for one rule: a type that is not looked into agrees with itself
only if both texts are the same.

* `Accords` — which types agree, whatever their texts are;
* `SpelledAlike` — the comparison comes to no type that is spelled in two ways, of those
  that it does not look into;
* `compatibleAt_iff_accords` — texts are compatible exactly when their types accord and
  are spelled alike;
* `spelledAlike_of_canonical`, `spelledAlike_of_loose` — canonical texts are spelled
  alike, and so are those of types that are looked into all the way down;
* `isCompatible_respelled` — compatibility in other spellings.
-/

namespace TypeFlow

open Text

namespace Ty

/-! ## texts and their types -/

/-- What is derived is read, with enough levels. -/
theorem Derives.exists_readAt {text : Text} {t : Ty} (h : Derives text t) :
    ∃ budget, Ty.readAt 0 (budget + 1) text = .ok t := by
  obtain ⟨budget, hbudget⟩ := exists_budget h.depth_le_length
  exact ⟨budget, h.readAt (hbudget ▸ h.depth_le_length)⟩

/-- **One level of the grammar**: the shape of the text, filled with what the grammar
derives from its parts. -/
theorem derives_iff_fills {text : Text} {t : Ty} :
    Derives text t ↔ ∃ shape, Shape.scan text = .ok shape ∧ Fills Derives shape t := by
  constructor
  · intro h
    obtain ⟨budget, hread⟩ := h.exists_readAt
    obtain ⟨shape, hscan, hfills⟩ := readAt_succ_eq_ok_iff.mp hread
    exact ⟨shape, hscan, hfills.mono fun s u hu => derives_of_readAt hu⟩
  · rintro ⟨shape, hscan, hfills⟩
    exact (derives_of_outline (Shape.scan_eq_ok_iff.mp hscan) hfills).of_trim

/-- Blanks around a text do not matter to its type. -/
theorem Derives.of_trim_eq {text text' : Text} {t : Ty} (h : Derives text t)
    (htrim : text.trim = text'.trim) : Derives text' t := by
  obtain ⟨shape, hscan, hfills⟩ := derives_iff_fills.mp h
  refine derives_iff_fills.mpr ⟨shape, ?_, hfills⟩
  rw [← Shape.scan_trim, ← htrim, Shape.scan_trim, hscan]

/-- A type without parts. -/
def isAtom : Ty → Bool
  | scalar _ => true
  | named _ => true
  | _ => false

/-- A name stands for a type without parts. -/
theorem isAtom_ofName (n : String) : (ofName n).isAtom = true := by
  unfold ofName
  cases Scalar.ofName? n <;> rfl

/-- A name is printed as it is written, whatever it stands for. -/
theorem chars_ofName (n : String) : (ofName n).chars = n.toList := by
  unfold ofName
  cases hn : Scalar.ofName? n with
  | none => rfl
  | some s => rw [chars, Scalar.ofName?_eq_some_iff.mp hn]

/-- A name with arguments makes a type with parts. -/
theorem Applied.isAtom_eq {base : String} {args : List Ty} {t : Ty} (h : Applied base args t) :
    t.isAtom = false := by
  cases h <;> rfl

/-- A type without parts is spelled in one way, and other types have texts with
parts. -/
theorem Derives.atom_or_parts {text : Text} {t : Ty} (h : Derives text t) :
    t.isAtom = true ∧ text.trim = t.chars ∧ text.trim ≠ [] ∨ t.isAtom = false ∧ text.HasParts := by
  obtain ⟨shape, hscan, hfills⟩ := derives_iff_fills.mp h
  cases hfills with
  | atom n =>
      have hne : text.trim ≠ [] := by
        intro hnil
        rw [Shape.scan, hnil] at hscan
        cases hscan
      have houtline := Shape.scan_eq_ok_iff.mp hscan
      generalize text.trim = s at houtline hne ⊢
      cases houtline with
      | atom _ => exact .inl ⟨isAtom_ofName n, (chars_ofName n).symm, hne⟩
  | generic _ happlied => exact .inr ⟨happlied.isAtom_eq, hasParts_of_generic hscan⟩
  | record _ => exact .inr ⟨rfl, hasParts_of_struct hscan⟩

/-- Whether a text is open is a matter of its type. -/
theorem Derives.isWildcard_eq {text : Text} {t : Ty} (h : Derives text t) :
    text.isWildcard = t.isWildcard := by
  rcases h.atom_or_parts with ⟨hatom, htrim, hne⟩ | ⟨hatom, hparts⟩
  · rw [Text.isWildcard, beq_eq_false_iff_ne.mpr hne, Bool.false_or, htrim]
    cases t with
    | scalar s => cases s <;> decide
    | named n =>
        rw [Bool.eq_iff_iff, beq_iff_eq, isWildcard, beq_iff_eq, ← String.toList_inj]
        rfl
    | _ => cases hatom
  · rw [(Bool.or_eq_false_iff.mp hparts.absorbs_eq_false).2]
    cases t with
    | named _ => cases hatom
    | _ => rfl

/-- Whether a text agrees with every other is a matter of its type. -/
theorem Derives.absorbs_eq {text : Text} {t : Ty} (h : Derives text t) :
    text.absorbs = t.isUnconstrained := by
  have hvar : text.trim.isVar = t.isVar := by
    rcases h.atom_or_parts with ⟨hatom, htrim, -⟩ | ⟨hatom, hparts⟩
    · rw [htrim]
      cases t with
      | scalar s => cases s <;> decide
      | named n => rfl
      | _ => cases hatom
    · rw [(Bool.or_eq_false_iff.mp hparts.absorbs_eq_false).1]
      cases t with
      | named _ => cases hatom
      | _ => rfl
  rw [absorbs, isUnconstrained, hvar, h.isWildcard_eq]

/-- The arguments of a generic in its text, with their types. -/
theorem Derives.exists_args {text : Text} {base : String} {ts : List Ty}
    (h : Derives text (.generic base ts)) :
    ∃ args : List (Text × Ty), Shape.scan text = .ok (.generic base (args.map Prod.fst)) ∧
      (∀ a ∈ args, Derives a.1 a.2) ∧ args.map Prod.snd = ts := by
  obtain ⟨shape, hscan, hfills⟩ := derives_iff_fills.mp h
  generalize ht : Ty.generic base ts = t at hfills
  cases hfills with
  | atom n =>
      have hatom := isAtom_ofName n
      rw [← ht] at hatom
      cases hatom
  | @generic base' args _ hargs happlied =>
      generalize hus : args.map Prod.snd = us at happlied
      cases happlied with
      | generic _ _ =>
          cases ht
          exact ⟨args, hscan, hargs, hus⟩
      | optional _ => cases ht
      | union _ => cases ht
  | record _ => cases ht

/-- A text of a generic that is looked into has a type with the same name. -/
theorem Derives.eq_generic {text : Text} {t : Ty} (h : Derives text t) {base : String}
    {args : List Text} (hscan : Shape.scan text = .ok (.generic base args))
    (hbase : LookedInto base args.length) :
    ∃ ts, t = .generic base ts ∧ ts.length = args.length := by
  obtain ⟨shape, hscan', hfills⟩ := derives_iff_fills.mp h
  rw [hscan] at hscan'
  cases hscan'
  obtain ⟨ps, rfl, -, happlied⟩ := hfills.exists_args
  exact ⟨_, happlied.eq_generic hbase.ne_optional hbase.ne_union, by simp⟩

/-- A generic with one argument that is looked into derives from it. -/
theorem Derives.exists_argument {text a : Text} {t : Ty} (h : Derives text t) {base : String}
    (hbase : base ∈ covariant) (hscan : Shape.scan text = .ok (.generic base [a])) :
    ∃ u, t = .generic base [u] ∧ Derives a u := by
  obtain ⟨budget, hread⟩ := h.exists_readAt
  obtain ⟨u, hu, rfl⟩ := exists_argument_of_readAt hbase hread hscan
  exact ⟨u, rfl, derives_of_readAt hu⟩

/-! ## types that agree -/

/-- The types that the comparison finds compatible, if it does not have to look at
their texts for it. -/
inductive Accords : Ty → Ty → Prop where
  | wildcard {w g : Ty} (h : w.isWildcard = true ∨ g.isWildcard = true) : Accords w g
  | same (t : Ty) : Accords t t
  | absorbed {base : String} (hbase : base ∈ covariant) {t u : Ty}
      (h : t.isUnconstrained = true ∨ u.isUnconstrained = true) :
      Accords (.generic base [t]) (.generic base [u])
  | args {base : String} {ws gs : List Ty} (hlength : ws.length = gs.length)
      (hbase : LookedInto base ws.length) (hparts : ∀ p ∈ ws.zip gs, Accords p.1 p.2) :
      Accords (.generic base ws) (.generic base gs)

/-- A type with parts that the comparison does not look into. -/
structure Rigid (t : Ty) : Prop where
  parts : t.isAtom = false
  closed : ∀ base args, t = .generic base args → ¬ LookedInto base args.length

/-- Wherever comparing two texts comes to one rigid type on both sides, it is spelled
alike. -/
def SpelledAlike (want got : Text) : Prop :=
  ∀ n p q t, Reaches n want got p q → Derives p t → Derives q t → t.Rigid → p.trim = q.trim

/-- Parts of texts that are spelled alike are spelled alike. -/
theorem SpelledAlike.part {want got : Text} (h : SpelledAlike want got)
    (hpass : ¬ Passed want got) {ps : List (Text × Text)} (hopened : Opened want got ps)
    {a : Text × Text} (ha : a ∈ ps) : SpelledAlike a.1 a.2 := fun n p q t hreach =>
  h (n + 1) p q t (.part hpass hopened ha hreach)

/-- What is looked into, as texts and as types: the types have the same name, and their
arguments are the types of the parts. -/
theorem exists_opened {want got : Text} {base : String} {ws gs : List Ty}
    (hw : Derives want (.generic base ws)) (hg : Derives got (.generic base gs))
    (hlength : ws.length = gs.length) (hbase : LookedInto base ws.length) :
    ∃ qs : List ((Text × Ty) × (Text × Ty)),
      Opened want got (qs.map fun q => (q.1.1, q.2.1)) ∧
      (∀ q ∈ qs, Derives q.1.1 q.1.2 ∧ Derives q.2.1 q.2.2) ∧
      ws.zip gs = qs.map fun q => (q.1.2, q.2.2) := by
  obtain ⟨as, hwscan, has, rfl⟩ := hw.exists_args
  obtain ⟨bs, hgscan, hbs, rfl⟩ := hg.exists_args
  rw [List.length_map] at hbase hlength
  rw [List.length_map] at hlength
  refine ⟨as.zip bs, ?_, fun q hq => ?_, List.zip_map⟩
  · have hopened := Opened.args hwscan hgscan (by simpa using hlength) (by simpa using hbase)
    rwa [List.zip_map] at hopened
  · obtain ⟨ha, hb⟩ := List.of_mem_zip hq
    exact ⟨has _ ha, hbs _ hb⟩

/-- Texts that are looked into are generics of one base. -/
theorem exists_generics_of_opened {want got : Text} {w g : Ty} {ps : List (Text × Text)}
    (h : Opened want got ps) (hw : Derives want w) (hg : Derives got g) :
    ∃ base ws gs, w = .generic base ws ∧ g = .generic base gs ∧ ws.length = gs.length ∧
      LookedInto base ws.length := by
  obtain ⟨hwscan, hgscan, hlength, hbase⟩ := h
  obtain ⟨ws, rfl, hws⟩ := hw.eq_generic hwscan hbase
  obtain ⟨gs, rfl, hgs⟩ := hg.eq_generic hgscan (hlength ▸ hbase)
  exact ⟨_, ws, gs, rfl, rfl, by rw [hws, hgs, hlength], hws ▸ hbase⟩

/-! ## texts that agree -/

/-- Types accord if their texts are passed: they are the same, or one of them accords
with everything. -/
theorem accords_of_passed {want got : Text} {w g : Ty} (h : Passed want got)
    (hw : Derives want w) (hg : Derives got g) : Accords w g := by
  cases h with
  | wildcard h =>
      rw [hw.isWildcard_eq, hg.isWildcard_eq] at h
      exact .wildcard h
  | same h =>
      rw [(hw.of_trim_eq h).unique hg]
      exact .same g
  | absorbed h =>
      obtain ⟨hbase, hwscan, hgscan, h⟩ := h
      obtain ⟨t, rfl, ht⟩ := hw.exists_argument hbase hwscan
      obtain ⟨u, rfl, hu⟩ := hg.exists_argument hbase hgscan
      rw [ht.absorbs_eq, hu.absorbs_eq] at h
      exact .absorbed hbase h

/-- What is passed is the same text, or no rigid type. -/
theorem spelledAlike_of_passed {want got : Text} (h : Passed want got) :
    SpelledAlike want got := by
  intro n p q t hreach hp hq hrigid
  cases hreach with
  | part hpass _ _ _ => exact absurd h hpass
  | here _ _ =>
      cases h with
      | same h => exact h
      | wildcard h =>
          rw [hp.isWildcard_eq, hq.isWildcard_eq, or_self] at h
          have hatom := hrigid.parts
          rw [eq_of_isWildcard h] at hatom
          cases hatom
      | absorbed h =>
          obtain ⟨hbase, hscan, -, -⟩ := h
          obtain ⟨u, rfl, -⟩ := hp.exists_argument hbase hscan
          exact absurd (.inl ⟨hbase, rfl⟩) (hrigid.closed _ [u] rfl)

/-- What is looked into is spelled alike if its parts are. -/
theorem spelledAlike_of_opened {want got : Text} {base : String} {ws : List Ty}
    (hw : Derives want (.generic base ws)) (hbase : LookedInto base ws.length)
    {ps : List (Text × Text)} (hopened : Opened want got ps)
    (hparts : ∀ a ∈ ps, SpelledAlike a.1 a.2) : SpelledAlike want got := by
  intro n p q t hreach hp hq hrigid
  cases hreach with
  | here _ _ => exact absurd hbase (hrigid.closed base ws (hp.unique hw))
  | part _ hopened' ha hreach =>
      rw [hopened'.unique hopened] at ha
      exact hparts _ ha _ p q t hreach hp hq hrigid

/-- Types that accord have been passed, or are looked into and have parts that
accord. -/
theorem Accords.exists_args {want got : Text} {w g : Ty} (h : Accords w g) (hw : Derives want w)
    (hg : Derives got g) (halike : SpelledAlike want got) (hpass : ¬ Passed want got) :
    ∃ base ws gs, w = .generic base ws ∧ g = .generic base gs ∧ ws.length = gs.length ∧
      LookedInto base ws.length ∧ ∀ p ∈ ws.zip gs, Accords p.1 p.2 := by
  cases h with
  | wildcard h =>
      rw [← hw.isWildcard_eq, ← hg.isWildcard_eq] at h
      exact absurd (.wildcard h) hpass
  | absorbed hbase h =>
      obtain ⟨as, hwscan, has, hts⟩ := hw.exists_args
      obtain ⟨bs, hgscan, hbs, hus⟩ := hg.exists_args
      obtain ⟨a, rfl, rfl⟩ := List.map_eq_singleton_iff.mp hts
      obtain ⟨b, rfl, rfl⟩ := List.map_eq_singleton_iff.mp hus
      rw [← (has a List.mem_cons_self).absorbs_eq, ← (hbs b List.mem_cons_self).absorbs_eq] at h
      exact absurd (.absorbed (.arg hbase hwscan hgscan h)) hpass
  | args hlength hbase hparts => exact ⟨_, _, _, rfl, rfl, hlength, hbase, hparts⟩
  | same _ =>
      -- only generics that are looked into may differ in their texts
      by_cases hrigid : w.Rigid
      · exact absurd (.same (halike 0 want got w (.here want got) hw hg hrigid)) hpass
      rcases hw.atom_or_parts with ⟨hatom, hwtrim, -⟩ | ⟨hatom, -⟩
      · rcases hg.atom_or_parts with ⟨-, hgtrim, -⟩ | ⟨hatom', -⟩
        · exact absurd (.same (hwtrim.trans hgtrim.symm)) hpass
        · rw [hatom] at hatom'
          cases hatom'
      · have hlooked : ∃ base ts, w = .generic base ts ∧ LookedInto base ts.length := by
          by_contra hnone
          exact hrigid ⟨hatom, fun base ts hts hbase => hnone ⟨base, ts, hts, hbase⟩⟩
        obtain ⟨base, ts, rfl, hbase⟩ := hlooked
        exact ⟨base, ts, ts, rfl, rfl, rfl, hbase, forall_mem_zip_self fun t _ => .same t⟩

/-- **Compatibility by types**: texts whose types are within the levels are compatible
exactly when these types accord, and are spelled alike where the comparison has nothing
but their texts to go by. -/
theorem compatibleAt_iff_accords {limit budget : Nat} {want got : Text} {w g : Ty}
    (hw : Derives want w) (hg : Derives got g) (hwdepth : w.depth ≤ budget)
    (hgdepth : g.depth ≤ budget) :
    compatibleAt limit budget want got = .ok true ↔ Accords w g ∧ SpelledAlike want got := by
  induction budget generalizing want got w g with
  | zero =>
      have hpos := depth_pos w
      omega
  | succ budget ih =>
      -- the parts of what is looked into have one level less
      have hdepths : ∀ {base ws gs}, w = .generic base ws → g = .generic base gs →
          ∀ p ∈ ws.zip gs, p.1.depth ≤ budget ∧ p.2.depth ≤ budget := by
        rintro base ws gs rfl rfl p hp
        obtain ⟨hpw, hpg⟩ := List.of_mem_zip hp
        have hpwdepth := depth_lt_of_mem_args (t := .generic base ws) hpw
        have hpgdepth := depth_lt_of_mem_args (t := .generic base gs) hpg
        omega
      rw [compatibleAt_succ_iff]
      constructor
      · rintro (hpass | ⟨ps, hopened, hparts⟩)
        · exact ⟨accords_of_passed hpass hw hg, spelledAlike_of_passed hpass⟩
        obtain ⟨base, ws, gs, rfl, rfl, hlength, hbase⟩ := exists_generics_of_opened hopened hw hg
        obtain ⟨qs, hqs, hderives, hzip⟩ := exists_opened hw hg hlength hbase
        have hdepth := hdepths rfl rfl
        rw [hopened.unique hqs, List.forall_mem_map] at hparts
        rw [hzip, List.forall_mem_map] at hdepth
        have hpart : ∀ q ∈ qs, Accords q.1.2 q.2.2 ∧ SpelledAlike q.1.1 q.2.1 := fun q hq =>
          (ih (hderives q hq).1 (hderives q hq).2 (hdepth q hq).1 (hdepth q hq).2).mp (hparts q hq)
        refine ⟨.args hlength hbase ?_, spelledAlike_of_opened hw hbase hqs ?_⟩
        · rw [hzip, List.forall_mem_map]
          exact fun q hq => (hpart q hq).1
        · rw [List.forall_mem_map]
          exact fun q hq => (hpart q hq).2
      · rintro ⟨haccords, halike⟩
        by_cases hpass : Passed want got
        · exact .inl hpass
        obtain ⟨base, ws, gs, rfl, rfl, hlength, hbase, haccord⟩ :=
          haccords.exists_args hw hg halike hpass
        obtain ⟨qs, hqs, hderives, hzip⟩ := exists_opened hw hg hlength hbase
        have hdepth := hdepths rfl rfl
        rw [hzip, List.forall_mem_map] at hdepth haccord
        refine .inr ⟨_, hqs, List.forall_mem_map.mpr fun q hq => ?_⟩
        have hspelled := halike.part hpass hqs (List.mem_map_of_mem hq)
        exact (ih (hderives q hq).1 (hderives q hq).2 (hdepth q hq).1 (hdepth q hq).2).mpr
          ⟨haccord q hq, hspelled⟩

/-! ## canonical texts -/

/-- The canonical text of a readable type, up to blanks around it. -/
def Canonical (text : Text) : Prop := ∃ t, Readable t ∧ text.trim = t.chars.trim

/-- A canonical text is that of its type. -/
theorem Canonical.trim_eq {text : Text} {t : Ty} (h : Canonical text) (ht : Derives text t) :
    text.trim = t.chars.trim := by
  obtain ⟨u, hu, htrim⟩ := h
  rw [ht.unique (hu.derives_chars.of_trim_eq htrim.symm)]
  exact htrim

/-- A printed generic has its base and the printed texts of its arguments. -/
theorem scan_chars_generic {base : String} {ts : List Ty} (h : Readable (.generic base ts))
    (hne : ts ≠ []) :
    Shape.scan (Ty.generic base ts).chars =
      .ok (.generic base (ts.map fun t => t.chars.trim)) := by
  cases h with
  | generic hname _ _ hargs =>
      have hparts : ∀ a ∈ ts.map chars, Nest.Unbroken a ∧ ¬ a.Blank :=
        List.forall_mem_map.mpr fun t ht =>
          ⟨(hargs t ht).derives_chars.unbroken, (hargs t ht).derives_chars.not_blank⟩
      have houtline := Shape.Outline.generic hname Text.blank_nil (by simpa using hne) hparts
      rw [List.append_nil, List.map_map] at houtline
      rw [chars, eachChars_eq_map, Shape.scan_eq_ok_iff, houtline.trim_eq]
      exact houtline

/-- The arguments of a canonical text are canonical. -/
theorem inherited_canonical : Inherited Canonical := by
  intro text base args h hscan hbase
  obtain ⟨t, ht, htrim⟩ := h
  have hderives := ht.derives_chars.of_trim_eq htrim.symm
  obtain ⟨ts, rfl, hlength⟩ := hderives.eq_generic hscan hbase
  have hne : ts ≠ [] := by
    rintro rfl
    rw [← hlength] at hbase
    simp [LookedInto] at hbase
  rw [← Shape.scan_trim, htrim, Shape.scan_trim, scan_chars_generic ht hne] at hscan
  cases hscan
  refine List.forall_mem_map.mpr fun u hu => ⟨u, ?_, Text.trim_trim _⟩
  exact ht.of_mem_args hu

/-- Canonical texts are spelled alike. -/
theorem spelledAlike_of_canonical {want got : Text} (hw : Canonical want) (hg : Canonical got) :
    SpelledAlike want got := by
  intro n p q t hreach hp hq _
  obtain ⟨hleft, hright⟩ := inherited_canonical.of_reaches hreach
  rw [(hleft hw).trim_eq hp, (hright hg).trim_eq hq]

/-! ## types without rigid parts -/

/-- A type that is made up of names, by generics that are looked into. -/
inductive Loose : Ty → Prop where
  | atom {t : Ty} (h : t.isAtom = true) : Loose t
  | args {base : String} {ts : List Ty} (hbase : LookedInto base ts.length)
      (hparts : ∀ t ∈ ts, Loose t) : Loose (.generic base ts)

/-- What is looked into all the way is not rigid. -/
theorem Loose.not_rigid {t : Ty} (h : Loose t) : ¬ t.Rigid := by
  intro hrigid
  cases h with
  | atom h => simp [hrigid.parts] at h
  | args hbase _ => exact hrigid.closed _ _ rfl hbase

/-- A text of a type without rigid parts. -/
def LooseText (text : Text) : Prop := ∃ t, Derives text t ∧ Loose t

/-- The arguments of a text without rigid parts have none. -/
theorem inherited_looseText : Inherited LooseText := by
  intro text base args h hscan hbase
  obtain ⟨t, ht, hloose⟩ := h
  obtain ⟨ts, rfl, -⟩ := ht.eq_generic hscan hbase
  cases hloose with
  | atom hatom => cases hatom
  | args _ hparts =>
      obtain ⟨ps, hscan', hps, rfl⟩ := ht.exists_args
      rw [hscan] at hscan'
      cases hscan'
      rw [List.forall_mem_map] at hparts
      exact List.forall_mem_map.mpr fun p hp => ⟨p.2, hps p hp, hparts p hp⟩

/-- Where one side has no rigid parts, both are spelled alike. -/
theorem spelledAlike_of_loose {want got : Text} (h : LooseText want ∨ LooseText got) :
    SpelledAlike want got := by
  intro n p q t hreach hp hq hrigid
  obtain ⟨hleft, hright⟩ := inherited_looseText.of_reaches hreach
  rcases h.imp hleft hright with ⟨u, hu, hloose⟩ | ⟨u, hu, hloose⟩
  · rw [hp.unique hu] at hrigid
    exact absurd hrigid hloose.not_rigid
  · rw [hq.unique hu] at hrigid
    exact absurd hrigid hloose.not_rigid

end Ty

/-! ## what is reported -/

namespace Call

/-- An argument is reported for its type only where it is not compatible with its
parameter. -/
theorem incompatible_of_mem_check {limits : Limits} {call : Call} {d : Diagnostic}
    (hd : d ∈ call.check limits) (hcategory : d.category = .callArgTypeMismatch) :
    ∃ i param arg, call.params[i]? = some param ∧ call.args[i]? = some arg ∧
      d.data.find? "argIndex" = some (.nat i) ∧ isCompatible limits param.ty arg.ty = false := by
  obtain ⟨i, param, arg, discord, hparam, harg, hdiscord, rfl⟩ :=
    exists_misfit_of_mem_check hd (by simp [hcategory]) (by simp [hcategory])
  refine ⟨i, param, arg, hparam, harg, Misfit.find?_argIndex _ _, ?_⟩
  unfold discord? at hdiscord
  split at hdiscord
  · cases hdiscord
    rw [Misfit.category_diagnostic] at hcategory
    cases hcategory
  · split at hdiscord
    · cases hdiscord
    · next hcompatible => exact Bool.not_eq_true _ ▸ hcompatible

end Call

namespace Text

open Ty (SpelledAlike Accords Loose)

/-- **Compatible readable texts** are those whose types accord and that are spelled
alike. -/
theorem isCompatible_iff_accords {limits : Limits} {want got : Text} {w g : Ty}
    (hw : Ty.read limits want = .ok w) (hg : Ty.read limits got = .ok g) :
    isCompatible limits want got = true ↔ Accords w g ∧ SpelledAlike want got := by
  obtain ⟨hwderives, hwdepth⟩ := Ty.read_eq_ok_iff.mp hw
  obtain ⟨hgderives, hgdepth⟩ := Ty.read_eq_ok_iff.mp hg
  exact isCompatible_iff.trans
    (Ty.compatibleAt_iff_accords hwderives hgderives hwdepth hgdepth)

/-- **Compatibility in other spellings.**  Of two pairs of texts with the same types both
are compatible or none is, if both are spelled alike or none is.  A pair is compatible
exactly when it is spelled alike and the canonical texts of its types are compatible;
it is always spelled alike if one of its types has no rigid parts.  So if an argument of
a call is reported for its type, although that is the type of its parameter, the two
are not spelled alike. -/
theorem isCompatible_respelled (limits : Limits) :
    (∀ e e' a a' w g, Ty.read limits e = .ok w → Ty.read limits e' = .ok w →
      Ty.read limits a = .ok g → Ty.read limits a' = .ok g →
      (SpelledAlike e a ↔ SpelledAlike e' a') →
      isCompatible limits e a = isCompatible limits e' a') ∧
    (∀ e a w g, Ty.read limits e = .ok w → Ty.read limits a = .ok g →
      (isCompatible limits e a = true ↔
        isCompatible limits w.chars g.chars = true ∧ SpelledAlike e a) ∧
      (Loose w ∨ Loose g → SpelledAlike e a)) ∧
    ∀ (call : Call) (d : Diagnostic), d ∈ call.check limits →
      d.category = .callArgTypeMismatch →
      ∃ i param arg, call.params[i]? = some param ∧ call.args[i]? = some arg ∧
        d.data.find? "argIndex" = some (.nat i) ∧
        ∀ t, Ty.read limits param.ty = .ok t → Ty.read limits arg.ty = .ok t →
          ¬ SpelledAlike param.ty arg.ty := by
  refine ⟨fun e e' a a' w g he he' ha ha' halike => ?_, fun e a w g he ha => ⟨?_, fun h => ?_⟩,
    fun call d hd hcategory => ?_⟩
  · rw [Bool.eq_iff_iff, isCompatible_iff_accords he ha, isCompatible_iff_accords he' ha', halike]
  · obtain ⟨hw, hwdepth⟩ := Ty.Readable.of_read he
    obtain ⟨hg, hgdepth⟩ := Ty.Readable.of_read ha
    have hcanonical : SpelledAlike w.chars g.chars :=
      Ty.spelledAlike_of_canonical ⟨w, hw, rfl⟩ ⟨g, hg, rfl⟩
    rw [isCompatible_iff_accords he ha,
      isCompatible_iff_accords (Ty.read_chars hw hwdepth) (Ty.read_chars hg hgdepth),
      and_iff_left hcanonical]
  · refine Ty.spelledAlike_of_loose (h.imp (fun h => ?_) fun h => ?_)
    · exact ⟨w, (Ty.read_eq_ok_iff.mp he).1, h⟩
    · exact ⟨g, (Ty.read_eq_ok_iff.mp ha).1, h⟩
  · obtain ⟨i, param, arg, hparam, harg, hindex, hrefused⟩ :=
      Call.incompatible_of_mem_check hd hcategory
    refine ⟨i, param, arg, hparam, harg, hindex, fun t hp ha halike => ?_⟩
    rw [(isCompatible_iff_accords hp ha).mpr ⟨.same t, halike⟩] at hrefused
    cases hrefused

/-- A slice of names agrees with whatever it does in all spellings; a slice of records
agrees with itself, but not with its other spelling. -/
theorem isCompatible_respelled_slice :
    let e : Text := "slice<Event<int>>".toList
    let e' : Text := " slice < Event< int >>".toList
    let a : Text := "slice<Event<Struct\x7ba:int,b:T\x7d>>".toList
    let a' : Text := "slice<Event<Struct\x7bb:T, a:int\x7d> >".toList
    isCompatible {} e a = isCompatible {} e' a' ∧ isCompatible {} a a = true ∧
      isCompatible {} a a' = false ∧ ¬ SpelledAlike a a' := by
  intro e e' a a'
  let w : Ty := .generic "slice" [.generic "Event" [.scalar .int]]
  let g : Ty := .generic "slice" [.generic "Event"
    [.struct [("a", .scalar .int), ("b", .named "T")]]]
  have he : Ty.read {} e = .ok w := eq_ok_of_toOption_eq_some (by decide +kernel)
  have he' : Ty.read {} e' = .ok w := eq_ok_of_toOption_eq_some (by decide +kernel)
  have ha : Ty.read {} a = .ok g := eq_ok_of_toOption_eq_some (by decide +kernel)
  have ha' : Ty.read {} a' = .ok g := eq_ok_of_toOption_eq_some (by decide +kernel)
  have hloose : Loose w :=
    .args (.inl ⟨by decide, rfl⟩) (List.forall_mem_singleton.mpr
      (.args (.inl ⟨by decide, rfl⟩) (List.forall_mem_singleton.mpr (.atom rfl))))
  have hrefused : isCompatible {} a a' = false := by decide +kernel
  obtain ⟨hrespelled, halike, -⟩ := isCompatible_respelled {}
  have hpair := (halike e a w g he ha).2 (.inl hloose)
  have hpair' := (halike e' a' w g he' ha').2 (.inl hloose)
  refine ⟨hrespelled e e' a a' w g he he' ha ha' (iff_of_true hpair hpair'), by decide +kernel,
    hrefused, fun hspelled => ?_⟩
  rw [(halike a a' g g ha ha').1.mpr ⟨by decide +kernel, hspelled⟩] at hrefused
  cases hrefused

/-- Two spellings of one record are not compatible, although each is with itself, and an
argument in the other spelling than its parameter is reported. -/
theorem not_isCompatible_respelled :
    let e : Text := "Struct\x7ba:int,b:string\x7d".toList
    let e' : Text := "Struct\x7bb:string,a:int\x7d".toList
    let t : Ty := .struct [("a", .scalar .int), ("b", .scalar .string)]
    Ty.read {} e = .ok t ∧ Ty.read {} e' = .ok t ∧
      isCompatible {} e e = true ∧ isCompatible {} e e' = false ∧
      (Call.check {} ⟨"f", [{ ty := e }], [{ ty := e' }], none⟩).map Diagnostic.category =
        [.callArgTypeMismatch] :=
  ⟨rfl, rfl, rfl, by decide +kernel, by decide +kernel⟩

end Text

end TypeFlow
