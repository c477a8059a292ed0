import TypeFlow.Proofs.Walks
import TypeFlow.Sample

/-!
# TypeFlow.Proofs.Buried

A mismatch at any depth.  The sample pair `buriedMismatch n` differs in one generic
under `n` layers, maps and records by turns.  Locating goes down one level for each
layer, so it comes to the difference exactly when the limit allows one level more than
there are layers, and gives up otherwise.

* `outline_map`, `outline_record` — what the scanner sees of a layer;
* `locateByShapeAt_layer` — one layer of the search: a level is spent, and what stands
  beside the inner text gives nothing;
* `locate_buriedMismatch` — the whole search, for every depth and every limit.
-/

namespace TypeFlow

open ArityMismatch Shape Text

namespace Sample

/-! ## layers and their shapes -/

/-- A layer at an even level is a map from strings. -/
theorem layer_even {n : Nat} (hn : n % 2 = 0) (inner : Text) :
    layer n inner = "map".toList ++ Text.angled ["string".toList, inner] := by
  rw [layer, if_pos hn, Text.angled, commas_cons_cons, commas_singleton]
  simp

/-- A layer at an odd level is a record with an id. -/
theorem layer_odd {n : Nat} (hn : n % 2 = 1) (inner : Text) :
    layer n inner = Ty.structWord ++
      braced ([("id", "int".toList), ("inner", inner)].map fun f => f.1.toList ++ ':' :: f.2) := by
  rw [layer, if_neg (by omega), braced]
  simp [commas_cons_cons, Ty.structWord]

variable {limit budget n : Nat} {inner want got : Text}

/-- The scanner sees a map and its two arguments, if there is something to see
inside. -/
theorem outline_map (hn : n % 2 = 0) (h : ∃ shape, Outline inner shape) :
    Outline (layer n inner) (.generic "map" ["string".toList, inner]) := by
  have hstring : Outline "string".toList (.atom "string") := .atom (.inl (by decide +kernel))
  rw [layer_even hn]
  exact outline_of_args (by decide +kernel) (List.cons_ne_nil _ _)
    (List.forall_mem_cons.mpr ⟨⟨_, hstring⟩, List.forall_mem_singleton.mpr h⟩)

/-- The scanner sees a record and its two fields, if there is something to see
inside. -/
theorem outline_record (hn : n % 2 = 1) (h : ∃ shape, Outline inner shape) :
    Outline (layer n inner) (.struct [("id", "int".toList), ("inner", inner)]) := by
  have hint : Outline "int".toList (.atom "int") := .atom (.inl (by decide +kernel))
  rw [layer_odd hn]
  refine outline_of_fields (List.cons_ne_nil _ _) ?_ (by simp)
    (List.forall_mem_cons.mpr ⟨⟨_, hint⟩, List.forall_mem_singleton.mpr h⟩)
  have hnames : ∀ n ∈ ["id", "inner"], isName n.toList = true := by decide +kernel
  simpa using hnames

/-- Layers keep a text scannable. -/
theorem exists_outline_buried (h : ∃ shape, Outline inner shape) :
    ∃ shape, Outline (buried n inner) shape := by
  induction n with
  | zero => exact h
  | succ n ih =>
      rcases Nat.mod_two_eq_zero_or_one n with hn | hn
      · exact ⟨_, outline_map hn ih⟩
      · exact ⟨_, outline_record hn ih⟩

/-! ## one layer of the search -/

/-- Names on their own give nothing, but it takes a level to see this. -/
theorem locateByShapeAt_atoms {w g : String} (hw : scan want = .ok (.atom w))
    (hg : scan got = .ok (.atom g)) :
    locateByShapeAt limit budget want got = if budget = 0 then .error ⟨limit⟩ else .ok none := by
  cases budget with
  | zero => rfl
  | succ budget => rw [locateByShapeAt, hw, hg]; simp

/-- In a map the keys give nothing, so what is found comes from the second argument.
The keys need a level too, which is why the last one is not enough. -/
theorem locateByShapeAt_map (hn : n % 2 = 0) (hw : ∃ shape, Outline want shape)
    (hg : ∃ shape, Outline got shape) :
    locateByShapeAt limit (budget + 1) (layer n want) (layer n got) =
      if budget = 0 then .error ⟨limit⟩
      else (locateByShapeAt limit budget want got).map (Option.map (inArg "map" 1)) := by
  have hstring : scan "string".toList = .ok (.atom "string") := rfl
  rw [locateByShapeAt_generics (outline_map hn hw).scan_eq (outline_map hn hg).scan_eq
    (by decide) (by simp), amongGenerics, if_neg (by simp), if_neg (by simp), amongArgs]
  simp only [List.zip_cons_cons, List.zip_nil_right, List.zipIdx_cons, List.zipIdx_nil,
    List.findSomeM?_cons, List.findSomeM?_nil, locateByShapeAt_atoms hstring hstring]
  by_cases hbudget : budget = 0
  · simp [hbudget, bind, Except.bind]
  · simp only [if_neg hbudget]
    rcases locateByShapeAt limit budget want got with e | _ | m <;> rfl

/-- In a record the ids give nothing, so what is found comes from the field `inner`. -/
theorem locateByShapeAt_record (hn : n % 2 = 1) (hw : ∃ shape, Outline want shape)
    (hg : ∃ shape, Outline got shape) :
    locateByShapeAt limit (budget + 1) (layer n want) (layer n got) =
      if budget = 0 then .error ⟨limit⟩
      else (locateByShapeAt limit budget want got).map (Option.map (inField "inner")) := by
  have hint : scan "int".toList = .ok (.atom "int") := rfl
  have hnames : NameMap.Sorted [("id", ()), ("inner", ())] := by decide
  have hsorted : [("id", "int".toList), ("inner", want)] =
      NameMap.ofList [("id", "int".toList), ("inner", want)] :=
    (NameMap.eq_ofList_iff_perm (by simp [NameMap.names])).mpr ⟨hnames, .refl _⟩
  have hid := NameMap.find?_cons_self "id" "int".toList [("inner", got)]
  have hinner : NameMap.find? [("id", "int".toList), ("inner", got)] "inner" = some got := by
    simp [NameMap.find?]
  rw [locateByShapeAt, (outline_record hn hw).scan_eq, (outline_record hn hg).scan_eq]
  simp only [← hsorted, amongFields, List.findSomeM?_cons, List.findSomeM?_nil, hid, hinner,
    locateByShapeAt_atoms hint hint]
  by_cases hbudget : budget = 0
  · simp [hbudget, bind, Except.bind]
  · simp only [if_neg hbudget]
    rcases locateByShapeAt limit budget want got with e | _ | m <;> rfl

/-- A mismatch inside of a layer, seen from outside of it. -/
def inLayer (level : Nat) (m : ArityMismatch) : ArityMismatch :=
  if level % 2 = 0 then m.inArg "map" 1 else m.inField "inner"

/-- **One layer of the search** spends one level, and finds what is found inside. -/
theorem locateByShapeAt_layer (hw : ∃ shape, Outline want shape)
    (hg : ∃ shape, Outline got shape) :
    locateByShapeAt limit (budget + 1) (layer n want) (layer n got) =
      if budget = 0 then .error ⟨limit⟩
      else (locateByShapeAt limit budget want got).map (Option.map (inLayer n)) := by
  unfold inLayer
  rcases Nat.mod_two_eq_zero_or_one n with hn | hn
  · simp only [locateByShapeAt_map hn hw hg, hn, if_true]
  · simp only [locateByShapeAt_record hn hw hg, hn, Nat.one_ne_zero, if_false]

/-! ## the whole search -/

/-- The place of the mismatch under `n` layers: maps at the even ones, of which the second
argument is taken, and records at the odd ones. -/
def buriedPlace (n : Nat) : ArityMismatch where
  path := List.replicate ((n + 1) / 2) "map" ++ ["Owned"]
  pathIdx := List.replicate ((n + 1) / 2) 1
  fieldPath := List.replicate (n / 2) "inner"
  base := "Owned"
  wantArity := 1
  gotArity := 2

/-- One layer more puts the place one step further in. -/
theorem inLayer_buriedPlace (n : Nat) : inLayer n (buriedPlace n) = buriedPlace (n + 1) := by
  rcases Nat.mod_two_eq_zero_or_one n with hn | hn
  · have hmaps : (n + 1 + 1) / 2 = (n + 1) / 2 + 1 := by omega
    have hrecords : (n + 1) / 2 = n / 2 := by omega
    simp [inLayer, hn, buriedPlace, inArg, hmaps, hrecords, List.replicate_succ]
  · have hmaps : (n + 1 + 1) / 2 = (n + 1) / 2 := by omega
    have hrecords : (n + 1) / 2 = n / 2 + 1 := by omega
    simp [inLayer, hn, buriedPlace, inField, hmaps, hrecords, List.replicate_succ]

/-- The search comes to the difference exactly when a level is left under the last
layer, by induction on the layers. -/
theorem locateByShapeAt_buried (limit budget n : Nat) :
    locateByShapeAt limit budget (buriedMismatch n).1 (buriedMismatch n).2 =
      if n + 1 ≤ budget then .ok (some (buriedPlace n)) else .error ⟨limit⟩ := by
  have hwant : scan "Owned<T>".toList = .ok (.generic "Owned" ["T".toList]) := rfl
  have hgot : scan "Owned<int,string>".toList =
      .ok (.generic "Owned" ["int".toList, "string".toList]) := rfl
  induction n generalizing budget with
  | zero =>
      cases budget with
      | zero => rfl
      | succ budget =>
          have hfound : locateByShapeAt limit (budget + 1) "Owned<T>".toList
              "Owned<int,string>".toList = .ok (some (here "Owned" 1 2)) :=
            locateByShapeAt_generics hwant hgot (by decide) (by decide)
          exact hfound.trans (if_pos (by omega)).symm
  | succ n ih =>
      cases budget with
      | zero => rfl
      | succ budget =>
          have hw : ∃ shape, Outline (buried n "Owned<T>".toList) shape :=
            exists_outline_buried ⟨_, scan_eq_ok_iff.mp hwant⟩
          have hg : ∃ shape, Outline (buried n "Owned<int,string>".toList) shape :=
            exists_outline_buried ⟨_, scan_eq_ok_iff.mp hgot⟩
          have hinner := ih budget
          simp only [buriedMismatch, buried] at hinner ⊢
          rw [locateByShapeAt_layer hw hg, hinner, ← inLayer_buriedPlace]
          -- a level is left for the layer, and then either enough for what is below or too few
          by_cases hbudget : budget = 0
          · rw [if_pos hbudget, if_neg (by omega)]
          · by_cases hlevels : n + 1 ≤ budget
            · rw [if_neg hbudget, if_pos hlevels, if_pos (by omega)]
              rfl
            · rw [if_neg hbudget, if_neg hlevels, if_neg (by omega)]
              rfl

/-- **A buried mismatch is found exactly when the limit reaches it**, at any depth: with
one level more than there are layers, the search ends at the buried generic and tells the
way through all layers; with fewer it gives up at the limit. -/
theorem locate_buriedMismatch (limits : Limits) (n : Nat) :
    Text.locate limits (buriedMismatch n).1 (buriedMismatch n).2 =
      if n + 1 ≤ limits.maxDepth then
        .ok (some {
          base := "Owned", wantArity := 1, gotArity := 2,
          path := List.replicate ((n + 1) / 2) "map" ++ ["Owned"],
          pathIdx := List.replicate ((n + 1) / 2) 1,
          fieldPath := List.replicate (n / 2) "inner" })
      else .error ⟨limits.maxDepth⟩ := by
  rw [locate_eq_locateByShape]
  exact locateByShapeAt_buried limits.maxDepth limits.maxDepth n

end Sample

end TypeFlow
