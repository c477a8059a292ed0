/-!
# TypeFlow.NameMap

Maps from names, kept as lists of entries in the order of the names' code
points. The fields of a record type, the bindings of a substitution and the
data of a diagnostic are such maps, so each of them is walked in one fixed
order.

* `Sorted` — the form that `insert` keeps, names strictly increase;
* `find?_insert` — an insertion is seen at its own name and nowhere else;
* `ext` — a sorted map is fixed by what it holds;
* `eq_ofList_iff_perm` — the map of entries with different names is their only
  sorted arrangement.
-/

namespace TypeFlow

/-- The entries of a map from names, in the order of the names. -/
abbrev NameMap (α : Type) := List (String × α)

namespace NameMap

variable {α : Type}

/-- The names that have an entry. -/
def names (m : NameMap α) : List String := m.map Prod.fst

/-- The values, in the order of their names. -/
def values (m : NameMap α) : List α := m.map Prod.snd

/-- The value at `name`. -/
def find? (m : NameMap α) (name : String) : Option α :=
  match m with
  | [] => none
  | (n, a) :: rest => if n = name then some a else find? rest name

/-- Puts `a` at `name`, in place of what was there. -/
def insert (m : NameMap α) (name : String) (a : α) : NameMap α :=
  match m with
  | [] => [(name, a)]
  | (n, b) :: rest =>
    if name < n then (name, a) :: (n, b) :: rest
    else if name = n then (name, a) :: rest
    else (n, b) :: insert rest name a

/-- Puts all entries of a list into a map, the later ones in place of the
earlier. -/
def insertAll (m : NameMap α) (entries : List (String × α)) : NameMap α :=
  entries.foldl (fun m e => m.insert e.1 e.2) m

/-- The map of a list of entries; the last entry of a name counts. -/
def ofList (entries : List (String × α)) : NameMap α := insertAll [] entries

/-- Names strictly increase. -/
def Sorted (m : NameMap α) : Prop := m.names.Pairwise (· < ·)

instance (m : NameMap α) : Decidable m.Sorted :=
  inferInstanceAs (Decidable (m.names.Pairwise (· < ·)))

/-! ## sorted maps -/

theorem sorted_nil : Sorted ([] : NameMap α) := List.Pairwise.nil

/-- A map is sorted when its first name comes before all others and the rest is
sorted. -/
theorem sorted_cons {n : String} {a : α} {m : NameMap α} :
    Sorted ((n, a) :: m) ↔ (∀ e ∈ m, n < e.1) ∧ Sorted m := by
  simp only [Sorted, names, List.map_cons, List.pairwise_cons, List.mem_map]
  constructor
  · rintro ⟨h, hm⟩
    exact ⟨fun e he => h _ ⟨e, he, rfl⟩, hm⟩
  · rintro ⟨h, hm⟩
    exact ⟨fun _ ⟨e, he, hn⟩ => hn ▸ h e he, hm⟩

/-- After an insertion there is the new entry and what was there before. -/
theorem mem_insert {m : NameMap α} {name : String} {a : α} {e : String × α}
    (h : e ∈ m.insert name a) : e = (name, a) ∨ e ∈ m := by
  induction m with
  | nil => simpa [insert] using h
  | cons x m ih =>
    obtain ⟨n, b⟩ := x
    rw [insert] at h
    split at h
    · simpa using h
    · split at h
      · rcases List.mem_cons.1 h with h | h
        · exact .inl h
        · exact .inr (List.mem_cons_of_mem _ h)
      · rcases List.mem_cons.1 h with h | h
        · exact .inr (h ▸ List.mem_cons_self)
        · exact (ih h).imp_right (List.mem_cons_of_mem _)

/-- **An insertion keeps a map sorted.** -/
theorem sorted_insert {m : NameMap α} (hm : m.Sorted) (name : String) (a : α) :
    (m.insert name a).Sorted := by
  induction m with
  | nil => simp [insert, Sorted, names]
  | cons x m ih =>
    obtain ⟨n, b⟩ := x
    obtain ⟨hlt, hm'⟩ := sorted_cons.1 hm
    rw [insert]
    split
    · next h =>
      refine sorted_cons.2 ⟨fun e he => ?_, hm⟩
      rcases List.mem_cons.1 he with rfl | he
      · exact h
      · exact String.lt_trans h (hlt e he)
    · split
      · next h =>
        subst h
        exact sorted_cons.2 ⟨hlt, hm'⟩
      · next hge hne =>
        refine sorted_cons.2 ⟨fun e he => ?_, ih hm'⟩
        rcases mem_insert he with rfl | he
        · rcases Std.lt_trichotomy n name with h | h | h
          · exact h
          · exact absurd h.symm hne
          · exact absurd h hge
        · exact hlt e he

/-- Any number of insertions keeps a map sorted. -/
theorem sorted_insertAll {m : NameMap α} (hm : m.Sorted) (entries : List (String × α)) :
    (m.insertAll entries).Sorted := by
  induction entries generalizing m with
  | nil => exact hm
  | cons e es ih => exact ih (sorted_insert hm e.1 e.2)

/-- A map of entries holds none but these. -/
theorem mem_insertAll {m : NameMap α} {entries : List (String × α)} {e : String × α}
    (h : e ∈ m.insertAll entries) : e ∈ m ∨ e ∈ entries := by
  induction entries generalizing m with
  | nil => exact .inl h
  | cons d es ih =>
    rcases ih h with h | h
    · exact (mem_insert h).elim (fun he => .inr (he ▸ List.mem_cons_self)) .inl
    · exact .inr (List.mem_cons_of_mem _ h)

/-- A map made of entries has no others. -/
theorem mem_of_mem_ofList {entries : List (String × α)} {e : String × α} (h : e ∈ ofList entries) :
    e ∈ entries :=
  (mem_insertAll h).resolve_left List.not_mem_nil

/-- Whatever the order of the entries, the map of them is sorted. -/
theorem sorted_ofList (entries : List (String × α)) : (ofList entries).Sorted :=
  sorted_insertAll sorted_nil entries

/-! ## what a map holds -/

@[simp] theorem find?_nil (name : String) : find? ([] : NameMap α) name = none := rfl

theorem find?_cons_self (name : String) (a : α) (m : NameMap α) :
    find? ((name, a) :: m) name = some a := by
  simp [find?]

/-- After an insertion `a` is found at `name`, and all else is as before. -/
theorem find?_insert (m : NameMap α) (name other : String) (a : α) :
    (m.insert name a).find? other = if name = other then some a else m.find? other := by
  induction m with
  | nil => simp [insert, find?]
  | cons x m ih =>
    obtain ⟨n, b⟩ := x
    rw [insert]
    split
    · simp [find?]
    · split
      · next h =>
        subst h
        by_cases ho : name = other <;> simp [find?, ho]
      · next hne =>
        simp only [find?, ih]
        by_cases hn : n = other
        · subst hn
          simp [hne]
        · simp [hn]

/-- Where no entry has the name, nothing is found. -/
theorem find?_eq_none_of_forall_ne {m : NameMap α} {name : String} (h : ∀ e ∈ m, e.1 ≠ name) :
    m.find? name = none := by
  induction m with
  | nil => rfl
  | cons x m ih =>
    rw [find?, if_neg (h x List.mem_cons_self)]
    exact ih fun e he => h e (List.mem_cons_of_mem _ he)

/-- What is found under a name is there. -/
theorem mem_of_find?_eq_some {m : NameMap α} {name : String} {a : α}
    (h : m.find? name = some a) : (name, a) ∈ m := by
  induction m with
  | nil => simp at h
  | cons x m ih =>
    rw [find?] at h
    split at h
    · next hn =>
      simp only [Option.some.injEq] at h
      subst hn h
      exact List.mem_cons_self
    · exact List.mem_cons_of_mem _ (ih h)

/-- In a sorted map, what is there is found: no earlier entry has its name. -/
theorem find?_eq_some_of_mem {m : NameMap α} (hm : m.Sorted) {name : String} {a : α}
    (h : (name, a) ∈ m) : m.find? name = some a := by
  induction m with
  | nil => simp at h
  | cons x m ih =>
    obtain ⟨n, b⟩ := x
    obtain ⟨hlt, hm'⟩ := sorted_cons.1 hm
    rcases List.mem_cons.1 h with h | h
    · simp only [Prod.mk.injEq] at h
      simp [find?, h]
    · have : n ≠ name := fun hn => String.lt_irrefl name (hn ▸ hlt _ h)
      rw [find?, if_neg this]
      exact ih hm' h

/-- Sorted maps that hold the same are equal. -/
theorem ext {m m' : NameMap α} (hm : m.Sorted) (hm' : m'.Sorted)
    (h : ∀ name, m.find? name = m'.find? name) : m = m' := by
  induction m generalizing m' with
  | nil =>
    cases m' with
    | nil => rfl
    | cons y m' =>
      have := h y.1
      simp [find?] at this
  | cons x m ih =>
    cases m' with
    | nil =>
      have := h x.1
      simp [find?] at this
    | cons y m' =>
      obtain ⟨n, a⟩ := x
      obtain ⟨k, b⟩ := y
      obtain ⟨hlt, hs⟩ := sorted_cons.1 hm
      obtain ⟨hlt', hs'⟩ := sorted_cons.1 hm'
      have hnk : n = k := by
        have hn := mem_of_find?_eq_some ((h n).symm.trans (find?_cons_self n a m))
        have hk := mem_of_find?_eq_some ((h k).trans (find?_cons_self k b m'))
        rcases List.mem_cons.1 hn with e | hn
        · simp only [Prod.mk.injEq] at e; exact e.1
        · rcases List.mem_cons.1 hk with e | hk
          · simp only [Prod.mk.injEq] at e; exact e.1.symm
          · exact absurd (hlt _ hk) (String.lt_asymm (hlt' _ hn))
      subst hnk
      have hab : a = b := by simpa [find?] using h n
      subst hab
      rw [ih hs hs' fun name => ?_]
      by_cases hn : n = name
      · subst hn
        have hm : find? m n = none :=
          find?_eq_none_of_forall_ne fun e he hc =>
            String.lt_irrefl n (by simpa [hc] using hlt e he)
        have hm' : find? m' n = none :=
          find?_eq_none_of_forall_ne fun e he hc =>
            String.lt_irrefl n (by simpa [hc] using hlt' e he)
        rw [hm, hm']
      · simpa [find?, hn] using h name

/-! ## arrangements of entries -/

/-- A sorted map holds just what is found in it. -/
theorem find?_eq_some_iff_mem {m : NameMap α} (hm : m.Sorted) {name : String} {a : α} :
    m.find? name = some a ↔ (name, a) ∈ m :=
  ⟨mem_of_find?_eq_some, find?_eq_some_of_mem hm⟩

/-- Sorted maps with the same entries are equal. -/
theorem eq_of_perm {m m' : NameMap α} (hm : m.Sorted) (hm' : m'.Sorted) (h : m.Perm m') :
    m = m' := by
  refine ext hm hm' fun name => Option.ext fun a => ?_
  rw [find?_eq_some_iff_mem hm, find?_eq_some_iff_mem hm', h.mem_iff]

/-- Under a new name an insertion adds its entry and keeps the others. -/
theorem perm_insert {m : NameMap α} {name : String} (h : name ∉ m.names) (a : α) :
    (m.insert name a).Perm ((name, a) :: m) := by
  induction m with
  | nil => exact .refl _
  | cons x m ih =>
    obtain ⟨n, b⟩ := x
    simp only [names, List.map_cons, List.mem_cons, not_or] at h
    rw [insert]
    split
    · exact .refl _
    · rw [if_neg h.1]
      exact ((ih h.2).cons _).trans (.swap _ _ _)

/-- Entries with new and different names are added to those that are there. -/
theorem perm_insertAll {m : NameMap α} {entries : List (String × α)}
    (h : (m.names ++ names entries).Nodup) : (m.insertAll entries).Perm (m ++ entries) := by
  induction entries generalizing m with
  | nil => simp [insertAll]
  | cons e es ih =>
    have hmid : (e.1 :: (m.names ++ names es)).Nodup := List.perm_middle.nodup_iff.1 h
    have hnew : e.1 ∉ m.names := fun hm =>
      (List.nodup_cons.1 hmid).1 (List.mem_append_left _ hm)
    have hperm := perm_insert hnew e.2
    have hnames : ((m.insert e.1 e.2).names ++ names es).Nodup :=
      ((hperm.map Prod.fst).append_right _).nodup_iff.2 hmid
    exact (ih hnames).trans ((hperm.append_right es).trans List.perm_middle.symm)

/-- The map of entries with different names has just these entries. -/
theorem perm_ofList {entries : List (String × α)} (h : (names entries).Nodup) :
    (ofList entries).Perm entries :=
  perm_insertAll (m := []) (by simpa [names] using h)

/-- The map of entries with different names is their only sorted
arrangement. -/
theorem eq_ofList_iff_perm {m entries : NameMap α} (h : (names entries).Nodup) :
    m = ofList entries ↔ m.Sorted ∧ m.Perm entries := by
  constructor
  · rintro rfl
    exact ⟨sorted_ofList entries, perm_ofList h⟩
  · rintro ⟨hm, hperm⟩
    exact eq_of_perm hm (sorted_ofList entries) (hperm.trans (perm_ofList h).symm)

/-- A sorted map has no name twice. -/
theorem nodup_names {m : NameMap α} (hm : m.Sorted) : m.names.Nodup := by
  refine List.Pairwise.imp ?_ hm
  rintro a _ hlt rfl
  exact String.lt_irrefl a hlt

/-- Values of one name stand at the same place of two maps with the same
names. -/
theorem mem_zip_values {m m' : NameMap α} (hnames : m.names = m'.names)
    (hnodup : m.names.Nodup) {n : String} {a b : α} (ha : (n, a) ∈ m) (hb : (n, b) ∈ m') :
    (a, b) ∈ m.values.zip m'.values := by
  induction m generalizing m' with
  | nil => exact absurd ha List.not_mem_nil
  | cons e m ih =>
      cases m' with
      | nil => exact absurd hb List.not_mem_nil
      | cons e' m' =>
          obtain ⟨k, x⟩ := e
          obtain ⟨k', y⟩ := e'
          simp only [names, List.map_cons, List.cons.injEq, List.nodup_cons] at hnames hnodup
          obtain ⟨rfl, hnames⟩ := hnames
          have hfresh : ∀ c, (k, c) ∉ m := fun c hc =>
            hnodup.1 (List.mem_map_of_mem (f := Prod.fst) hc)
          have hfresh' : ∀ c, (k, c) ∉ m' := fun c hc =>
            hnodup.1 (hnames ▸ List.mem_map_of_mem (f := Prod.fst) hc)
          rw [values, values, List.map_cons, List.map_cons, List.zip_cons_cons]
          rcases List.mem_cons.mp ha with heq | hmem
          · cases heq
            have hhead := (List.mem_cons.mp hb).resolve_right (hfresh' b)
            cases hhead
            exact List.mem_cons_self
          · have hmem' : (n, b) ∈ m' := by
              refine (List.mem_cons.mp hb).resolve_left fun heq => ?_
              cases heq
              exact hfresh a hmem
            exact List.mem_cons_of_mem _ (ih hnames hnodup.2 hmem hmem')

end NameMap

end TypeFlow
