import TypeFlow.Arity.Mismatch

/-!
# TypeFlow.Proofs.Search

Searches below two pairs of types in step.  A list of pairs stands for two lists
that correspond member by member, and a map of pairs for two maps with the same
names; what is said about such a list or map is said about its first and its
second components.

* `amongGenerics_eq`, `amongAlts_eq`, `amongFields_eq` — searches that agree on
  corresponding members agree as a whole, whatever the order in which the fields
  of the second record are written;
* `exists_amongGenerics`, `exists_amongAlts`, `exists_amongFields` — a search
  that returns on all members returns;
* `found_amongGenerics`, `found_amongAlts`, `found_amongFields` — where a search
  has found what it returns.
-/

namespace TypeFlow

/-! ## the first hit of a list -/

section

variable {α β γ ε : Type}

/-- A search through images is a search through the list itself, with the images taken
on the way. -/
theorem findSomeM?_map (φ : α → β) (f : β → Except ε (Option γ)) (xs : List α) :
    (xs.map φ).findSomeM? f = xs.findSomeM? fun x => f (φ x) := by
  induction xs with
  | nil => rfl
  | cons x xs ih => rw [List.map_cons, List.findSomeM?_cons, List.findSomeM?_cons, ih]

theorem findSomeM?_singleton (f : α → Except ε (Option γ)) (a : α) : [a].findSomeM? f = f a := by
  rw [List.findSomeM?_cons]
  cases f a with
  | error e => rfl
  | ok found => cases found <;> rfl

/-- Searches that agree on all members of a list have the same end. -/
theorem findSomeM?_congr {f g : α → Except ε (Option γ)} {xs : List α}
    (h : ∀ x ∈ xs, f x = g x) : xs.findSomeM? f = xs.findSomeM? g := by
  induction xs with
  | nil => rfl
  | cons x xs ih =>
      obtain ⟨hx, hxs⟩ := List.forall_mem_cons.mp h
      rw [List.findSomeM?_cons, List.findSomeM?_cons, hx, ih hxs]

/-- A search that returns on every member of a list returns on the list, with a hit or
without. -/
theorem exists_findSomeM? {f : α → Except ε (Option γ)} {xs : List α}
    (h : ∀ x ∈ xs, ∃ found, f x = .ok found) : ∃ found, xs.findSomeM? f = .ok found := by
  induction xs with
  | nil => exact ⟨none, rfl⟩
  | cons x xs ih =>
      obtain ⟨⟨found, hx⟩, hxs⟩ := List.forall_mem_cons.mp h
      rw [List.findSomeM?_cons, hx]
      cases found with
      | none => exact ih hxs
      | some m => exact ⟨some m, rfl⟩

/-- What a search finds in a list, it has found at one of its members. -/
theorem exists_of_findSomeM?_eq_some {f : α → Except ε (Option γ)} {xs : List α} {c : γ}
    (h : xs.findSomeM? f = .ok (some c)) : ∃ x ∈ xs, f x = .ok (some c) := by
  induction xs with
  | nil => cases h
  | cons x xs ih =>
      rw [List.findSomeM?_cons] at h
      cases hx : f x with
      | error e =>
          rw [hx] at h
          cases h
      | ok found =>
          rw [hx] at h
          cases found with
          | none =>
              obtain ⟨y, hy, hfy⟩ := ih h
              exact ⟨y, List.mem_cons_of_mem _ hy, hfy⟩
          | some b =>
              cases h
              exact ⟨x, List.mem_cons_self, hx⟩

end

/-! ## maps of pairs -/

namespace NameMap

variable {α β : Type}

/-- The map with `φ` of every value. -/
def mapValues (φ : α → β) (m : NameMap α) : NameMap β := m.map fun e => (e.1, φ e.2)

theorem findSomeM?_mapValues {γ ε : Type} (φ : α → β) (f : String × β → Except ε (Option γ))
    (m : NameMap α) : (mapValues φ m).findSomeM? f = m.findSomeM? fun e => f (e.1, φ e.2) :=
  findSomeM?_map _ f m

/-- Values are looked up by name, so it does not matter whether they are replaced before
or after. -/
theorem find?_mapValues (φ : α → β) (m : NameMap α) (name : String) :
    (mapValues φ m).find? name = (m.find? name).map φ := by
  induction m with
  | nil => rfl
  | cons e m ih =>
      rw [mapValues, List.map_cons, find?, find?]
      by_cases hn : e.1 = name
      · rw [if_pos hn, if_pos hn, Option.map_some]
      · rw [if_neg hn, if_neg hn]
        exact ih

/-- Values have no part in where an entry goes. -/
theorem insert_mapValues (φ : α → β) (m : NameMap α) (name : String) (a : α) :
    (mapValues φ m).insert name (φ a) = mapValues φ (m.insert name a) := by
  induction m with
  | nil => rfl
  | cons e m ih =>
      obtain ⟨n, b⟩ := e
      rw [mapValues, List.map_cons, insert, insert]
      by_cases hlt : name < n
      · rw [if_pos hlt, if_pos hlt]
        rfl
      · rw [if_neg hlt, if_neg hlt]
        by_cases heq : name = n
        · rw [if_pos heq, if_pos heq]
          rfl
        · rw [if_neg heq, if_neg heq]
          exact congrArg ((n, φ b) :: ·) ih

/-- The map of replaced entries is the map of the entries with its values replaced. -/
theorem ofList_mapValues (φ : α → β) (entries : NameMap α) :
    ofList (mapValues φ entries) = mapValues φ (ofList entries) := by
  have hall : ∀ m : NameMap α,
      insertAll (mapValues φ m) (mapValues φ entries) = mapValues φ (insertAll m entries) := by
    induction entries with
    | nil => exact fun _ => rfl
    | cons e es ih =>
        intro m
        have hinsert := insert_mapValues φ m e.1 e.2
        have hrest := ih (m.insert e.1 e.2)
        rw [← hinsert] at hrest
        exact hrest
  exact hall []

/-- Among entries with different names it does not matter in which order they
are looked through. -/
theorem find?_ofList {entries : NameMap α} (h : (names entries).Nodup) (name : String) :
    (ofList entries).find? name = entries.find? name := by
  have hall : ∀ (es : NameMap α) (m : NameMap α), (names es).Nodup →
      (m.insertAll es).find? name = (find? es name).or (m.find? name) := by
    intro es
    induction es with
    | nil => exact fun m _ => rfl
    | cons e es ih =>
        intro m hnodup
        rw [names, List.map_cons, List.nodup_cons] at hnodup
        rw [insertAll, List.foldl_cons, ← insertAll, ih _ hnodup.2, find?_insert, find?]
        by_cases hn : e.1 = name
        · have hnone : find? es name = none := by
            apply find?_eq_none_of_forall_ne
            intro d hd hname
            rw [hn, ← hname] at hnodup
            exact hnodup.1 (List.mem_map_of_mem hd)
          rw [if_pos hn, if_pos hn, hnone]
          rfl
        · rw [if_neg hn, if_neg hn]
  rw [ofList, hall entries [] h, find?_nil, Option.or_none]

end NameMap

/-! ## searches that agree -/

namespace ArityMismatch

variable {α β : Type} {search : α → α → Search} {search' : β → β → Search}

/-- Searches that agree on all corresponding arguments find the same, with the same
index. -/
theorem amongArgs_eq {ws gs : List (α × β)} (base : String)
    (h : ∀ w ∈ ws, ∀ g ∈ gs, search w.1 g.1 = search' w.2 g.2) :
    amongArgs search base (ws.map Prod.fst) (gs.map Prod.fst) =
      amongArgs search' base (ws.map Prod.snd) (gs.map Prod.snd) := by
  unfold amongArgs
  rw [List.zip_map, List.zip_map, List.zipIdx_map, List.zipIdx_map, findSomeM?_map, findSomeM?_map]
  apply findSomeM?_congr
  rintro ⟨⟨w, g⟩, index⟩ hp
  obtain ⟨hw, hg⟩ := List.of_mem_zip (List.fst_mem_of_mem_zipIdx hp)
  simp only [Prod.map_apply, id_eq]
  rw [h w hw g hg]

/-- Names and numbers of arguments are those of both components, so generics are
searched alike when their arguments are. -/
theorem amongGenerics_eq {ws gs : List (α × β)} (wantBase gotBase : String)
    (h : ∀ w ∈ ws, ∀ g ∈ gs, search w.1 g.1 = search' w.2 g.2) :
    amongGenerics search wantBase (ws.map Prod.fst) gotBase (gs.map Prod.fst) =
      amongGenerics search' wantBase (ws.map Prod.snd) gotBase (gs.map Prod.snd) := by
  unfold amongGenerics
  rw [amongArgs_eq wantBase h]
  simp only [List.length_map]

/-- Among alternatives it also has to be agreed which pairs are looked at. -/
theorem amongAlts_eq {ws gs : List (α × β)} {kind : α → α → Bool} {kind' : β → β → Bool}
    (hkind : ∀ w ∈ ws, ∀ g ∈ gs, kind w.1 g.1 = kind' w.2 g.2)
    (h : ∀ w ∈ ws, ∀ g ∈ gs, search w.1 g.1 = search' w.2 g.2) :
    amongAlts search kind (ws.map Prod.fst) (gs.map Prod.fst) =
      amongAlts search' kind' (ws.map Prod.snd) (gs.map Prod.snd) := by
  unfold amongAlts
  rw [findSomeM?_map, findSomeM?_map]
  apply findSomeM?_congr
  intro w hw
  rw [findSomeM?_map, findSomeM?_map]
  apply findSomeM?_congr
  intro g hg
  rw [hkind w hw g hg, h w hw g hg]

/-- The fields of the second record only matter through what is found in it. -/
theorem amongFields_congr {want got got' : NameMap α}
    (h : ∀ name, got.find? name = got'.find? name) :
    amongFields search want got = amongFields search want got' := by
  unfold amongFields
  apply findSomeM?_congr
  intro e _
  rw [h e.1]

/-- Records are searched alike when the values under their shared names are. -/
theorem amongFields_eq {ws gs : NameMap (α × β)}
    (h : ∀ w ∈ ws, ∀ g ∈ gs, search w.2.1 g.2.1 = search' w.2.2 g.2.2) :
    amongFields search (NameMap.mapValues Prod.fst ws) (NameMap.mapValues Prod.fst gs) =
      amongFields search' (NameMap.mapValues Prod.snd ws) (NameMap.mapValues Prod.snd gs) := by
  unfold amongFields
  rw [NameMap.findSomeM?_mapValues, NameMap.findSomeM?_mapValues]
  apply findSomeM?_congr
  intro w hw
  simp only [NameMap.find?_mapValues]
  cases hfind : NameMap.find? gs w.1 with
  | none => rfl
  | some g =>
      have hg := h w hw (w.1, g) (NameMap.mem_of_find?_eq_some hfind)
      simp only [Option.map_some]
      rw [hg]

/-! ## searches that return -/

/-- A search returns if it does before its finds are put in place. -/
theorem exists_map {x : Search} (h : ∃ found, x = .ok found) (f : ArityMismatch → ArityMismatch) :
    ∃ found, (do return (← x).map f : Search) = .ok found := by
  obtain ⟨found, rfl⟩ := h
  exact ⟨found.map f, rfl⟩

/-- Generics can be searched to an end when every pair of their arguments can. -/
theorem exists_amongGenerics {ws gs : List α} (wantBase gotBase : String)
    (h : ∀ w ∈ ws, ∀ g ∈ gs, ∃ found, search w g = .ok found) :
    ∃ found, amongGenerics search wantBase ws gotBase gs = .ok found := by
  unfold amongGenerics
  split
  · exact ⟨_, rfl⟩
  · split
    · exact ⟨_, rfl⟩
    · apply exists_findSomeM?
      rintro ⟨⟨w, g⟩, index⟩ hp
      obtain ⟨hw, hg⟩ := List.of_mem_zip (List.fst_mem_of_mem_zipIdx hp)
      exact exists_map (h w hw g hg) _

/-- Unions can be searched to an end when every pair of their alternatives can, those
that are passed over included. -/
theorem exists_amongAlts {ws gs : List α} (kind : α → α → Bool)
    (h : ∀ w ∈ ws, ∀ g ∈ gs, ∃ found, search w g = .ok found) :
    ∃ found, amongAlts search kind ws gs = .ok found := by
  apply exists_findSomeM?
  intro w hw
  apply exists_findSomeM?
  intro g hg
  split
  · exact h w hw g hg
  · exact ⟨none, rfl⟩

/-- Records can be searched to an end when every pair of their fields can. -/
theorem exists_amongFields {ws gs : NameMap α}
    (h : ∀ w ∈ ws, ∀ g ∈ gs, ∃ found, search w.2 g.2 = .ok found) :
    ∃ found, amongFields search ws gs = .ok found := by
  apply exists_findSomeM?
  intro w hw
  split
  · exact ⟨none, rfl⟩
  · next g hfind => exact exists_map (h w hw _ (NameMap.mem_of_find?_eq_some hfind)) _

/-! ## searches that find -/

/-- A find that was put in place was there before. -/
theorem found_of_map {x : Search} {f : ArityMismatch → ArityMismatch} {m : ArityMismatch}
    (h : (do return (← x).map f : Search) = .ok (some m)) : ∃ m', x = .ok (some m') := by
  cases x with
  | error e => cases h
  | ok found =>
      cases found with
      | none => cases h
      | some m' => exact ⟨m', rfl⟩

/-- Generics give a find when their names agree and either their numbers of
arguments differ or an argument gives one. -/
theorem found_amongGenerics {wantBase gotBase : String} {ws gs : List α} {m : ArityMismatch}
    (h : amongGenerics search wantBase ws gotBase gs = .ok (some m)) :
    wantBase = gotBase ∧
      (ws.length ≠ gs.length ∨ ∃ p ∈ ws.zip gs, ∃ m', search p.1 p.2 = .ok (some m')) := by
  unfold amongGenerics at h
  split at h
  · cases h
  next hbase =>
  rw [Decidable.not_not] at hbase
  refine ⟨hbase, ?_⟩
  split at h
  · next hlength => exact .inl hlength
  · obtain ⟨p, hp, hfound⟩ := exists_of_findSomeM?_eq_some h
    exact .inr ⟨p.1, List.fst_mem_of_mem_zipIdx hp, found_of_map hfound⟩

/-- Unions give the find of two alternatives of one kind, just as it is. -/
theorem found_amongAlts {kind : α → α → Bool} {ws gs : List α} {m : ArityMismatch}
    (h : amongAlts search kind ws gs = .ok (some m)) :
    ∃ w ∈ ws, ∃ g ∈ gs, kind w g = true ∧ search w g = .ok (some m) := by
  obtain ⟨w, hw, hrow⟩ := exists_of_findSomeM?_eq_some h
  obtain ⟨g, hg, hfound⟩ := exists_of_findSomeM?_eq_some hrow
  split at hfound
  · next hkind => exact ⟨w, hw, g, hg, hkind, hfound⟩
  · cases hfound

/-- Records give a find when the values under a shared name do. -/
theorem found_amongFields {ws gs : NameMap α} {m : ArityMismatch}
    (h : amongFields search ws gs = .ok (some m)) :
    ∃ e ∈ ws, ∃ g, gs.find? e.1 = some g ∧ ∃ m', search e.2 g = .ok (some m') := by
  obtain ⟨e, he, hfound⟩ := exists_of_findSomeM?_eq_some h
  split at hfound
  · cases hfound
  · next g hfind => exact ⟨e, he, g, hfind, found_of_map hfound⟩

end ArityMismatch

end TypeFlow
