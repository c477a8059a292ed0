import TypeFlow.Arity.Locate
import TypeFlow.Proofs.Levels
import TypeFlow.Proofs.Outline
import TypeFlow.Proofs.Search

/-!
# TypeFlow.Proofs.Walks

The two ways of locating an arity mismatch, on types and on their texts, find
the same.  Both go down one level at a time, so the argument is an induction on
the levels that are left: the shapes of two texts that can be read are filled by
the two types (`Fills`), the heads decide in the same way how to go on, and the
parts are paired in the same way.

* `Shape.nodup_names_of_scan` — the fields of a scanned record have different
  names, so that their order in the text does not show;
* `sameKind_eq_of_readAt` — the alternatives of unions are paired alike;
* `locateByShapeAt_eq_locateAt` — the walks agree with any number of levels;
* `exists_locateAt` — a walk over types within the limit returns.
-/

namespace TypeFlow

open ArityMismatch

/-- A record that has been scanned has no field twice. -/
theorem Shape.nodup_names_of_scan {text : Text} {fields : List (String × Text)}
    (h : scan text = .ok (.struct fields)) : (NameMap.names fields).Nodup := by
  have houtline := scan_eq_ok_iff.mp h
  generalize text.trim = s at houtline
  cases houtline with
  | bareRecord _ _ => exact List.nodup_nil
  | record _ _ _ _ hnames =>
      rw [NameMap.names, List.map_map]
      exact hnames

namespace Text

/-! ## one level of the walk on texts -/

/-- Two generics that are neither both unions nor both optionals, of one argument
each, are compared as generics. -/
theorem locateByShapeAt_generics {limit budget : Nat} {want got : Text} {w g : String}
    {ws gs : List Text} (hw : Shape.scan want = .ok (.generic w ws))
    (hg : Shape.scan got = .ok (.generic g gs)) (hunion : ¬ (w = "Union" ∧ g = "Union"))
    (hoptional : ¬ ((w = "Optional" ∧ g = "Optional") ∧ ws.length = 1 ∧ gs.length = 1)) :
    locateByShapeAt limit (budget + 1) want got =
      amongGenerics (locateByShapeAt limit budget) w ws g gs := by
  rw [locateByShapeAt, hw, hg]
  simp only
  rw [if_neg hunion]
  split
  · rw [if_neg fun h => hoptional ⟨h, rfl, rfl⟩]
  · rfl

/-- Generics with different names have nothing to locate. -/
theorem locateByShapeAt_of_ne {limit budget : Nat} {want got : Text} {w g : String}
    {ws gs : List Text} (hw : Shape.scan want = .ok (.generic w ws))
    (hg : Shape.scan got = .ok (.generic g gs)) (hne : w ≠ g) :
    locateByShapeAt limit (budget + 1) want got = .ok none := by
  rw [locateByShapeAt_generics hw hg (fun h => hne (h.1.trans h.2.symm))
    (fun h => hne (h.1.1.trans h.1.2.symm)), amongGenerics, if_pos hne]

/-- Unions are searched pair by pair of alternatives. -/
theorem locateByShapeAt_unions {limit budget : Nat} {want got : Text} {ws gs : List Text}
    (hw : Shape.scan want = .ok (.generic "Union" ws))
    (hg : Shape.scan got = .ok (.generic "Union" gs)) :
    locateByShapeAt limit (budget + 1) want got =
      amongAlts (locateByShapeAt limit budget) sameKind ws gs := by
  rw [locateByShapeAt, hw, hg]
  simp only
  rw [if_pos ⟨trivial, trivial⟩]

/-- Optionals are searched in their contents. -/
theorem locateByShapeAt_optionals {limit budget : Nat} {want got a b : Text}
    (hw : Shape.scan want = .ok (.generic "Optional" [a]))
    (hg : Shape.scan got = .ok (.generic "Optional" [b])) :
    locateByShapeAt limit (budget + 1) want got = locateByShapeAt limit budget a b := by
  have hne : ¬ ("Optional" = "Union" ∧ "Optional" = "Union") := by decide
  rw [locateByShapeAt, hw, hg]
  simp only
  rw [if_neg hne, if_pos ⟨trivial, trivial⟩]

/-- The order in which the fields of either record are written does not
matter. -/
theorem locateByShapeAt_structs {limit budget : Nat} {want got : Text}
    {ws gs : List (String × Text)} (hw : Shape.scan want = .ok (.struct ws))
    (hg : Shape.scan got = .ok (.struct gs)) :
    locateByShapeAt limit (budget + 1) want got =
      amongFields (locateByShapeAt limit budget) (NameMap.ofList ws) (NameMap.ofList gs) := by
  rw [locateByShapeAt, hw, hg]
  apply amongFields_congr
  intro name
  rw [NameMap.find?_ofList (Shape.nodup_names_of_scan hg)]

end Text

namespace Ty

/-! ## the alternatives that are compared -/

/-- A generic is compared with a generic of its name, a union with anything. -/
theorem Applied.sameKind_eq {w g : String} {ws gs : List Ty} {t u : Ty} (hw : Applied w ws t)
    (hg : Applied g gs u) : sameKind t u = (w == "Union" || g == w) := by
  cases hw with
  | union _ => cases hg <;> rfl
  | optional _ =>
      cases hg with
      | optional _ => rfl
      | union _ => rfl
      | generic ho _ => simpa [sameKind] using ho
  | generic ho hu =>
      cases hg with
      | optional _ => simp [sameKind, hu, ho.symm]
      | union _ => simp [sameKind, hu.symm, hu]
      | generic _ _ =>
          have hne : (w == "Union") = false := by simpa using hu
          rw [sameKind, hne, Bool.false_or, BEq.comm]

/-- What a name makes of arguments is of another kind than a name on its own, unless it
is a union. -/
theorem Applied.sameKind_ofName {w : String} {ws : List Ty} {t : Ty} (h : Applied w ws t)
    (n : String) : sameKind t (ofName n) = (w == "Union") := by
  unfold ofName
  cases h with
  | optional _ => cases Scalar.ofName? n <;> rfl
  | union _ => cases Scalar.ofName? n <;> rfl
  | generic _ hu => cases Scalar.ofName? n <;> simp [sameKind, hu]

/-- What a name makes of arguments is of another kind than a record, unless it is a
union. -/
theorem Applied.sameKind_struct {w : String} {ws : List Ty} {t : Ty} (h : Applied w ws t)
    (fields : NameMap Ty) : sameKind t (.struct fields) = (w == "Union") := by
  cases h with
  | optional _ => rfl
  | union _ => rfl
  | generic _ hu => simp [sameKind, hu]

/-- A name on its own is of the kind of everything. -/
theorem sameKind_ofName_left (n : String) (g : Ty) : sameKind (ofName n) g = true := by
  unfold ofName
  cases Scalar.ofName? n <;> rfl

theorem sameKind_struct_ofName (fields : NameMap Ty) (n : String) :
    sameKind (.struct fields) (ofName n) = false := by
  unfold ofName
  cases Scalar.ofName? n <;> rfl

/-- A record is of another kind than what a name makes of arguments. -/
theorem Applied.sameKind_struct_left {g : String} {gs : List Ty} {u : Ty} (h : Applied g gs u)
    (fields : NameMap Ty) : sameKind (.struct fields) u = false := by
  cases h <;> rfl

/-- Whether alternatives are compared is decided by the shapes of their texts as
it is by the types. -/
theorem sameKind_eq_of_readAt {limit budget : Nat} {want got : Text} {w g : Ty}
    (hw : readAt limit budget want = .ok w) (hg : readAt limit budget got = .ok g) :
    Text.sameKind want got = sameKind w g := by
  cases budget with
  | zero => simp [readAt] at hw
  | succ budget =>
      obtain ⟨wshape, hwscan, hwfills⟩ := readAt_succ_eq_ok_iff.mp hw
      obtain ⟨gshape, hgscan, hgfills⟩ := readAt_succ_eq_ok_iff.mp hg
      unfold Text.sameKind
      rw [hwscan, hgscan]
      cases hwfills with
      | atom n => rw [sameKind_ofName_left]
      | generic _ happlied =>
          cases hgfills with
          | atom n => rw [happlied.sameKind_ofName]
          | generic _ happlied' => rw [happlied.sameKind_eq happlied']
          | record _ => rw [Ty.record, happlied.sameKind_struct]
      | record _ =>
          cases hgfills with
          | atom n => rw [Ty.record, sameKind_struct_ofName]
          | generic _ happlied => rw [Ty.record, happlied.sameKind_struct_left]
          | record _ => rfl

/-! ## the same finds on both walks -/

/-- Nothing is located opposite to a name on its own. -/
theorem locateAt_ofName_left (limit budget : Nat) (n : String) (g : Ty) :
    locateAt limit (budget + 1) (ofName n) g = .ok none := by
  unfold ofName
  cases Scalar.ofName? n <;> cases g <;> rfl

theorem locateAt_ofName_right (limit budget : Nat) (w : Ty) (n : String) :
    locateAt limit (budget + 1) w (ofName n) = .ok none := by
  unfold ofName
  cases Scalar.ofName? n <;> cases w <;> rfl

/-- Nothing is located between a record and what a name makes of arguments. -/
theorem Applied.locateAt_struct_left {base : String} {args : List Ty} {g : Ty}
    (h : Applied base args g) (limit budget : Nat) (fields : NameMap Ty) :
    locateAt limit (budget + 1) (.struct fields) g = .ok none := by
  cases h <;> rfl

theorem Applied.locateAt_struct_right {base : String} {args : List Ty} {w : Ty}
    (h : Applied base args w) (limit budget : Nat) (fields : NameMap Ty) :
    locateAt limit (budget + 1) w (.struct fields) = .ok none := by
  cases h <;> rfl

variable {limit budget : Nat} {want got : Text}

/-- The walks agree on all texts that can be read with `budget` levels. -/
def WalksAgree (limit budget : Nat) : Prop :=
  ∀ {want got : Text} {w g : Ty}, readAt limit budget want = .ok w →
    readAt limit budget got = .ok g →
    Text.locateByShapeAt limit budget want got = locateAt limit budget w g

/-- One level of generics, with the arguments as texts and as types: both walks take the
same branch, which the base decides. -/
theorem WalksAgree.generics (h : WalksAgree limit budget) {wbase gbase : String}
    {ws gs : List (Text × Ty)} {w g : Ty}
    (hwscan : Shape.scan want = .ok (.generic wbase (ws.map Prod.fst)))
    (hgscan : Shape.scan got = .ok (.generic gbase (gs.map Prod.fst)))
    (hws : ∀ a ∈ ws, readAt limit budget a.1 = .ok a.2)
    (hgs : ∀ a ∈ gs, readAt limit budget a.1 = .ok a.2)
    (hw : Applied wbase (ws.map Prod.snd) w) (hg : Applied gbase (gs.map Prod.snd) g) :
    Text.locateByShapeAt limit (budget + 1) want got = locateAt limit (budget + 1) w g := by
  have hsearch : ∀ a ∈ ws, ∀ b ∈ gs,
      Text.locateByShapeAt limit budget a.1 b.1 = locateAt limit budget a.2 b.2 :=
    fun a ha b hb => h (hws a ha) (hgs b hb)
  have hkind : ∀ a ∈ ws, ∀ b ∈ gs, Text.sameKind a.1 b.1 = sameKind a.2 b.2 :=
    fun a ha b hb => sameKind_eq_of_readAt (hws a ha) (hgs b hb)
  generalize hwtypes : ws.map Prod.snd = wtypes at hw
  generalize hgtypes : gs.map Prod.snd = gtypes at hg
  -- Only pairs of one kind are looked into; the names of all others differ.
  cases hw with
  | optional t =>
      cases hg with
      | optional u =>
          obtain ⟨a, rfl, rfl⟩ := List.map_eq_singleton_iff.mp hwtypes
          obtain ⟨b, rfl, rfl⟩ := List.map_eq_singleton_iff.mp hgtypes
          rw [Text.locateByShapeAt_optionals hwscan hgscan, locateAt]
          exact hsearch a List.mem_cons_self b List.mem_cons_self
      | union _ => exact Text.locateByShapeAt_of_ne hwscan hgscan (by decide)
      | generic ho _ => exact Text.locateByShapeAt_of_ne hwscan hgscan ho.symm
  | union _ =>
      cases hg with
      | optional u => exact Text.locateByShapeAt_of_ne hwscan hgscan (by decide)
      | union _ =>
          rw [Text.locateByShapeAt_unions hwscan hgscan, amongAlts_eq hkind hsearch, hwtypes, hgtypes,
            locateAt]
      | generic _ hu => exact Text.locateByShapeAt_of_ne hwscan hgscan hu.symm
  | generic ho hu =>
      cases hg with
      | optional u => exact Text.locateByShapeAt_of_ne hwscan hgscan ho
      | union _ => exact Text.locateByShapeAt_of_ne hwscan hgscan hu
      | generic _ _ =>
          rw [Text.locateByShapeAt_generics hwscan hgscan (fun h => hu h.1) (fun h => ho h.1.1),
            amongGenerics_eq _ _ hsearch, hwtypes, hgtypes, locateAt]

/-- Fields as they are written, with their texts and their types. -/
def pairedFields (fields : List ((String × Text) × Ty)) : NameMap (Text × Ty) :=
  fields.map fun f => (f.1.1, (f.1.2, f.2))

theorem mapValues_fst_pairedFields (fields : List ((String × Text) × Ty)) :
    NameMap.mapValues Prod.fst (pairedFields fields) = fields.map Prod.fst := by
  rw [NameMap.mapValues, pairedFields, List.map_map]
  rfl

theorem mapValues_snd_pairedFields (fields : List ((String × Text) × Ty)) :
    NameMap.mapValues Prod.snd (pairedFields fields) = fields.map fun f => (f.1.1, f.2) := by
  rw [NameMap.mapValues, pairedFields, List.map_map]
  rfl

/-- One level of records: the typed walk goes by name, and so does the walk on texts,
since it sorts the declared fields first. -/
theorem WalksAgree.records (h : WalksAgree limit budget) {ws gs : List ((String × Text) × Ty)}
    (hwscan : Shape.scan want = .ok (.struct (ws.map Prod.fst)))
    (hgscan : Shape.scan got = .ok (.struct (gs.map Prod.fst)))
    (hws : ∀ f ∈ ws, readAt limit budget f.1.2 = .ok f.2)
    (hgs : ∀ f ∈ gs, readAt limit budget f.1.2 = .ok f.2) :
    Text.locateByShapeAt limit (budget + 1) want got =
      locateAt limit (budget + 1) (record (ws.map fun f => (f.1.1, f.2)))
        (record (gs.map fun f => (f.1.1, f.2))) := by
  have hread : ∀ {fields : List ((String × Text) × Ty)},
      (∀ f ∈ fields, readAt limit budget f.1.2 = .ok f.2) →
      ∀ e ∈ NameMap.ofList (pairedFields fields), readAt limit budget e.2.1 = .ok e.2.2 := by
    intro fields hfields e he
    obtain ⟨f, hf, rfl⟩ := List.mem_map.mp (NameMap.mem_of_mem_ofList he)
    exact hfields f hf
  rw [Text.locateByShapeAt_structs hwscan hgscan, record, record, locateAt,
    ← mapValues_fst_pairedFields, ← mapValues_fst_pairedFields, ← mapValues_snd_pairedFields,
    ← mapValues_snd_pairedFields]
  simp only [NameMap.ofList_mapValues]
  exact amongFields_eq fun w hw g hg => h (hread hws w hw) (hread hgs g hg)

/-- **The walks agree**, with any number of levels left: on the texts of two
types, locating by shape finds what locating by type does. -/
theorem locateByShapeAt_eq_locateAt (limit budget : Nat) : WalksAgree limit budget := by
  induction budget with
  | zero =>
      intro want got w g hw hg
      simp [readAt] at hw
  | succ budget ih =>
      intro want got w g hw hg
      obtain ⟨wshape, hwscan, hwfills⟩ := readAt_succ_eq_ok_iff.mp hw
      obtain ⟨gshape, hgscan, hgfills⟩ := readAt_succ_eq_ok_iff.mp hg
      cases hwfills with
      | atom n => rw [locateAt_ofName_left, Text.locateByShapeAt, hwscan, hgscan]
      | generic hws happlied =>
          cases hgfills with
          | atom n => rw [locateAt_ofName_right, Text.locateByShapeAt, hwscan, hgscan]
          | generic hgs happlied' => exact ih.generics hwscan hgscan hws hgs happlied happlied'
          | record _ =>
              rw [record, happlied.locateAt_struct_right, Text.locateByShapeAt, hwscan, hgscan]
      | record hws =>
          cases hgfills with
          | atom n => rw [locateAt_ofName_right, Text.locateByShapeAt, hwscan, hgscan]
          | generic _ happlied =>
              rw [record, happlied.locateAt_struct_left, Text.locateByShapeAt, hwscan, hgscan]
          | record hgs => exact ih.records hwscan hgscan hws hgs

/-! ## walks that return -/

/-- A walk goes no deeper than the declared type. -/
theorem exists_locateAt (limit : Nat) {budget : Nat} {w : Ty} (hw : w.depth ≤ budget) (g : Ty) :
    ∃ found, locateAt limit budget w g = .ok found := by
  induction budget generalizing w g with
  | zero =>
      have hpos := w.depth_pos
      omega
  | succ budget ih =>
      unfold locateAt
      split
      · next n ws m gs =>
        have hargs : depthList ws ≤ budget := by rw [depth] at hw; omega
        rw [depthList_le_iff] at hargs
        exact exists_amongGenerics n m fun a ha b _ => ih (hargs a ha) b
      · next t u =>
        have hinner : t.depth ≤ budget := by rw [depth] at hw; omega
        exact ih hinner u
      · next ws gs =>
        have hfields : depthFields ws ≤ budget := by rw [depth] at hw; omega
        rw [depthFields_le_iff] at hfields
        exact exists_amongFields fun a ha b _ => ih (hfields a ha) b.2
      · next ws gs =>
        have halts : depthList ws ≤ budget := by rw [depth] at hw; omega
        rw [depthList_le_iff] at halts
        exact exists_amongAlts sameKind fun a ha b _ => ih (halts a ha) b
      · exact ⟨none, rfl⟩

end Ty

namespace Text

/-! ## locating -/

/-- Whether the texts can be read makes no difference to what is located. -/
theorem locate_eq_locateByShape (limits : Limits) (want got : Text) :
    locate limits want got = locateByShape limits want got := by
  unfold locate
  split
  · next hw hg => exact (Ty.locateByShapeAt_eq_locateAt _ _ hw hg).symm
  · rfl

/-- **The two traversals agree**: of two texts that can be read, locating by
shape, locating in the types and the choice between the two return the same,
which is a mismatch in all its parts or none. -/
theorem locate_walks_agree (limits : Limits) (want got : Text) (w g : Ty)
    (hw : Ty.read limits want = .ok w) (hg : Ty.read limits got = .ok g) :
    ∃ found : Option ArityMismatch, locateByShape limits want got = .ok found ∧
      Ty.locate limits w g = .ok found ∧ locate limits want got = .ok found := by
  obtain ⟨found, hfound⟩ :=
    Ty.exists_locateAt limits.maxDepth (Ty.depth_le_of_readAt hw) g
  refine ⟨found, ?_, hfound, ?_⟩
  · rw [locateByShape, Ty.locateByShapeAt_eq_locateAt _ _ hw hg]
    exact hfound
  · rw [locate, hw, hg]
    exact hfound

/-- Both walks go past the quoted alternative and through the optional, and find a
`Pair` with one argument too few in the field `b`, although the fields are written in
different orders and with different blanks. -/
theorem locate_walks_agree_pair :
    let want :=
      " Struct\x7bb : Union<'x,<', Map< string,Optional<Pair<int,T>> > >, a:int\x7d".toList
    let got :=
      "Struct \x7ba:int,b:Union< Optional<int>,\tMap<string,Optional<Pair<int> >>>\x7d".toList
    let found : ArityMismatch :=
      { path := ["Map", "Pair"], pathIdx := [1], fieldPath := ["b"], base := "Pair",
        wantArity := 2, gotArity := 1 }
    locateByShape ⟨6⟩ want got = .ok (some found) ∧ locate ⟨6⟩ want got = .ok (some found) := by
  intro want got found
  obtain ⟨found', hshape, htypes, hlocate⟩ := locate_walks_agree ⟨6⟩ want got
    (.struct [("a", .scalar .int), ("b", .union [.named "'x,<'", .generic "Map" [.scalar .string,
      .optional (.generic "Pair" [.scalar .int, .named "T"])]])])
    (.struct [("a", .scalar .int), ("b", .union [.optional (.scalar .int), .generic "Map"
      [.scalar .string, .optional (.generic "Pair" [.scalar .int])]])]) rfl rfl
  have hfound : some found = found' := Except.ok.inj htypes
  rw [hfound]
  exact ⟨hshape, hlocate⟩

end Text

end TypeFlow
