import TypeFlow.Proofs.Exchange
import TypeFlow.Proofs.Walks

/-!
# TypeFlow.Proofs.FieldOrder

The order in which the fields of records are written does not matter to locating an arity
mismatch.  The walk on types sees fields in the order of their names, and so does the walk
on texts; which of the two is taken does not matter.  So it is enough that the
walk on texts finds the same in texts that scan alike, level by level.

* `NameMap.ofList_eq_of_perm` — a map does not show the order of its entries;
* `Text.findsAlike` — one record in each of the texts, with any number of levels left;
* `Text.locate_rearranged` — any records, within any limits.
-/

namespace TypeFlow

open ArityMismatch

/-- A map does not show in which order its entries were written. -/
theorem NameMap.ofList_eq_of_perm {α : Type} {fs gs : NameMap α} (h : fs.Perm gs)
    (hfs : (names fs).Nodup) : ofList fs = ofList gs := by
  have hgs : (names gs).Nodup := (h.map Prod.fst).nodup_iff.mp hfs
  exact (eq_ofList_iff_perm hgs).mpr ⟨sorted_ofList fs, (perm_ofList hfs).trans h⟩

namespace Text

/-! ## texts that scan alike -/

/-- The order of fields has no part in the kind of a text. -/
theorem sameKind_eq_of_near {want want' got got' : Text} (hw : Near want want')
    (hg : Near got got') : sameKind want got = sameKind want' got' := by
  unfold sameKind
  cases hw.scan with
  | fault hs hs' => rw [hs, hs']
  | shape hs hs' halike =>
      rw [hs, hs']
      cases hg.scan with
      | fault ht ht' =>
          rw [ht, ht']
          cases halike <;> rfl
      | shape ht ht' halike' =>
          rw [ht, ht']
          cases halike <;> cases halike' <;> rfl

/-! ## searches in texts that scan alike -/

/-- The walk with `budget` levels finds the same in texts that are near to each other. -/
def FindsAlike (limit budget : Nat) : Prop :=
  ∀ {want want' got got' : Text}, Near want want' → Near got got' →
    locateByShapeAt limit budget want got = locateByShapeAt limit budget want' got'

variable {limit budget : Nat} {want want' got got' : Text}

/-- One level of generics: what is found in their arguments is found at the same
indices. -/
theorem FindsAlike.generics (h : FindsAlike limit budget) {w g : String}
    {ws gs : List (Text × Text)} (hws : ∀ a ∈ ws, Near a.1 a.2) (hgs : ∀ b ∈ gs, Near b.1 b.2)
    (hw : Shape.scan want = .ok (.generic w (ws.map Prod.fst)))
    (hw' : Shape.scan want' = .ok (.generic w (ws.map Prod.snd)))
    (hg : Shape.scan got = .ok (.generic g (gs.map Prod.fst)))
    (hg' : Shape.scan got' = .ok (.generic g (gs.map Prod.snd))) :
    locateByShapeAt limit (budget + 1) want got =
      locateByShapeAt limit (budget + 1) want' got' := by
  have hsearch : ∀ a ∈ ws, ∀ b ∈ gs,
      locateByShapeAt limit budget a.1 b.1 = locateByShapeAt limit budget a.2 b.2 :=
    fun a ha b hb => h (hws a ha) (hgs b hb)
  have hkind : ∀ a ∈ ws, ∀ b ∈ gs, sameKind a.1 b.1 = sameKind a.2 b.2 :=
    fun a ha b hb => sameKind_eq_of_near (hws a ha) (hgs b hb)
  by_cases hunion : w = "Union" ∧ g = "Union"
  · obtain ⟨rfl, rfl⟩ := hunion
    rw [locateByShapeAt_unions hw hg, locateByShapeAt_unions hw' hg']
    exact amongAlts_eq hkind hsearch
  by_cases hoptional : (w = "Optional" ∧ g = "Optional") ∧ ws.length = 1 ∧ gs.length = 1
  · obtain ⟨⟨rfl, rfl⟩, hwlength, hglength⟩ := hoptional
    obtain ⟨a, rfl⟩ := List.length_eq_one_iff.mp hwlength
    obtain ⟨b, rfl⟩ := List.length_eq_one_iff.mp hglength
    rw [locateByShapeAt_optionals hw hg, locateByShapeAt_optionals hw' hg']
    exact hsearch a List.mem_cons_self b List.mem_cons_self
  · rw [locateByShapeAt_generics hw hg hunion (by simpa using hoptional),
      locateByShapeAt_generics hw' hg' hunion (by simpa using hoptional)]
    exact amongGenerics_eq w g hsearch

/-- The map of fields in any order, from the pairs of their texts. -/
theorem ofList_eq_of_scan {s : Text} {fs : List (String × Text)} {fields : NameMap (Text × Text)}
    {side : Text × Text → Text} (hs : Shape.scan s = .ok (.struct fs))
    (h : fs.Perm (NameMap.mapValues side fields)) :
    NameMap.ofList fs = NameMap.mapValues side (NameMap.ofList fields) := by
  rw [NameMap.ofList_eq_of_perm h (Shape.nodup_names_of_scan hs), NameMap.ofList_mapValues]

/-- One level of records: they are walked by name, so the order in which their fields
are written is gone. -/
theorem FindsAlike.records (h : FindsAlike limit budget) {ws ws' gs gs' : List (String × Text)}
    (hw : Shape.scan want = .ok (.struct ws)) (hw' : Shape.scan want' = .ok (.struct ws'))
    (hg : Shape.scan got = .ok (.struct gs)) (hg' : Shape.scan got' = .ok (.struct gs'))
    (hws : Shape.Alike Near (.struct ws) (.struct ws'))
    (hgs : Shape.Alike Near (.struct gs) (.struct gs')) :
    locateByShapeAt limit (budget + 1) want got =
      locateByShapeAt limit (budget + 1) want' got' := by
  obtain _ | _ | ⟨fields, hfields, hwperm, hwperm'⟩ := hws
  obtain _ | _ | ⟨fields', hfields', hgperm, hgperm'⟩ := hgs
  rw [locateByShapeAt_structs hw hg, locateByShapeAt_structs hw' hg', ofList_eq_of_scan hw hwperm,
    ofList_eq_of_scan hw' hwperm', ofList_eq_of_scan hg hgperm, ofList_eq_of_scan hg' hgperm']
  exact amongFields_eq fun e he f hf => h (hfields e (NameMap.mem_of_mem_ofList he))
    (hfields' f (NameMap.mem_of_mem_ofList hf))

/-- **One record in each text**: with any number of levels left, and in texts that can be read
or not, the walk finds the same wherever the fields are written. -/
theorem findsAlike (limit budget : Nat) : FindsAlike limit budget := by
  induction budget with
  | zero => exact fun _ _ => rfl
  | succ budget ih =>
      intro want want' got got' hnearw hnearg
      cases hnearw.scan with
      | fault hw hw' => rw [locateByShapeAt, locateByShapeAt, hw, hw']
      | shape hw hw' halikew =>
          cases hnearg.scan with
          | fault hg hg' =>
              rw [locateByShapeAt, locateByShapeAt, hw, hw', hg, hg']
              cases halikew <;> rfl
          | shape hg hg' halikeg =>
              cases halikew with
              | atom n => rw [locateByShapeAt, locateByShapeAt, hw, hw']
              | generic w ws hws =>
                  cases halikeg with
                  | generic g gs hgs => exact ih.generics hws hgs hw hw' hg hg'
                  | _ => rw [locateByShapeAt, locateByShapeAt, hw, hw', hg, hg']
              | struct fields hfields hperm hperm' =>
                  cases halikeg with
                  | struct fields' hfields' hgperm hgperm' =>
                      exact ih.records hw hw' hg hg' (.struct fields hfields hperm hperm')
                        (.struct fields' hfields' hgperm hgperm')
                  | _ => rw [locateByShapeAt, locateByShapeAt, hw, hw', hg, hg']

/-- **The walk on texts does not see the order of fields**, one rearrangement after the
other. -/
theorem locateByShape_rearranged (limits : Limits) (hw : Rearranged want want')
    (hg : Rearranged got got') :
    locateByShape limits want' got' = locateByShape limits want got := by
  have hwant : locateByShape limits want' got = locateByShape limits want got := by
    induction hw with
    | refl => rfl
    | tail _ hstep ih => exact (findsAlike _ _ (.single hstep) .refl).symm.trans ih
  refine Eq.trans ?_ hwant
  induction hg with
  | refl => rfl
  | tail _ hstep ih => exact (findsAlike _ _ .refl (.single hstep)).symm.trans ih

/-- **The order of fields does not matter to locating**: two texts in which the fields of any
records, at any depth, are written in another order give the same as the texts themselves, be
it a mismatch, none, or that the limit is reached.  Nothing is asked of the texts around these
records: they may be readable, or not even nest. -/
theorem locate_rearranged (limits : Limits) (want want' got got' : Text)
    (hw : Rearranged want want') (hg : Rearranged got got') :
    locate limits want' got' = locate limits want got ∧
      locateByShape limits want' got' = locateByShape limits want got := by
  have hshape := locateByShape_rearranged limits hw hg
  refine ⟨?_, hshape⟩
  rw [locate_eq_locateByShape, locate_eq_locateByShape]
  exact hshape

/-- The fields change places in records that an event carries, on both sides and with
their blanks.  `Optional<int,int>` cannot be read, so it is the walk on texts that finds
the mismatch in the field `z`, before and after. -/
theorem locate_rearranged_event :
    let want := "Event<Struct \x7bz:Owned<T>, b : Optional<int,int>\x7d>".toList
    let want' := "Event<Struct \x7b b : Optional<int,int>,z:Owned<T>\x7d>".toList
    let got := "Event<Struct\x7ba:int,z:Owned<T,U>\x7d>".toList
    let got' := "Event<Struct\x7bz:Owned<T,U>,a:int\x7d>".toList
    let found : ArityMismatch :=
      { path := ["Event", "Owned"], pathIdx := [0], fieldPath := ["z"], base := "Owned",
        wantArity := 1, gotArity := 2 }
    Rearranged want want' ∧ Rearranged got got' ∧ locate ⟨3⟩ want got = .ok (some found) ∧
      locate ⟨3⟩ want' got' = .ok (some found) := by
  intro want want' got got' found
  have hfront : OutsideQuotes "Event<".toList := by
    intro n hn
    cases hn
    rfl
  have hswap : ∀ {s s' : Text} (pad : Text) (f g : Shape.FieldText),
      s = "Event<".toList ++ (Ty.structWord ++ pad ++ braced [f.chars, g.chars]) ++ ['>'] →
      s' = "Event<".toList ++ (Ty.structWord ++ pad ++ braced [g.chars, f.chars]) ++ ['>'] →
      pad.Blank → f.Labelled → g.Labelled → Nest.Unbroken f.type ∧ ¬ f.type.Blank →
      Nest.Unbroken g.type ∧ ¬ g.type.Blank → f.name ≠ g.name → Rearranged s s' := by
    rintro _ _ pad f g rfl rfl hpad hf hg hft hgt hne
    exact .single (@rearranging_of_perm _ pad ['>'] [f, g] [g, f] hfront hpad (by simp)
      (by simp [hf, hg]) (by simp [hft, hgt]) (by simpa using hne) (List.Perm.swap g f []))
  have hlabel : ∀ f : Shape.FieldText, f.pre.Blank ∧ Text.isName f.name.toList = true ∧
      f.post.Blank → f.Labelled := fun f hf => ⟨hf.1, hf.2.1, hf.2.2⟩
  have hw : Rearranged want want' :=
    hswap [' '] ⟨[], "z", [], "Owned<T>".toList⟩ ⟨[' '], "b", [' '], " Optional<int,int>".toList⟩
      (by decide +kernel) (by decide +kernel) (by decide +kernel)
      (hlabel _ (by decide +kernel)) (hlabel _ (by decide +kernel))
      ⟨rfl, by decide +kernel⟩ ⟨rfl, by decide +kernel⟩ (by decide)
  have hg : Rearranged got got' :=
    hswap [] ⟨[], "a", [], "int".toList⟩ ⟨[], "z", [], "Owned<T,U>".toList⟩
      (by decide +kernel) (by decide +kernel) blank_nil
      (hlabel _ (by decide +kernel)) (hlabel _ (by decide +kernel))
      ⟨rfl, by decide +kernel⟩ ⟨rfl, by decide +kernel⟩ (by decide)
  have hfound : locate ⟨3⟩ want got = .ok (some found) := rfl
  have hlocate := (locate_rearranged ⟨3⟩ want want' got got' hw hg).1
  exact ⟨hw, hg, hfound, hlocate.trans hfound⟩

end Text

end TypeFlow
