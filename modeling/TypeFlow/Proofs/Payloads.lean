import TypeFlow.Boundary.Merge
import TypeFlow.Proofs.Outcome

/-!
# TypeFlow.Proofs.Payloads

What the field of a merge means for payloads.  Types are given values, and a path
is read in a value name by name: where nothing is, nothing is found, and an event
is looked into.  The type that a path ends at is then a promise, that reading the
path in any payload comes to an end, and that what it finds has this type.

* `Inhabits` — the values of a type;
* `Reads` — a field that all values of a type have, and the type of what is found
  there; optionals, unions, events and records each hand it on;
* `reads_of_field?`, `follow_sound` — one name, and all names of a path;
* `Inhabits.of_isOrderable` — the values of a type that can be sorted by.
-/

namespace TypeFlow

/-! ## values -/

/-- A payload, or a part of one. -/
inductive Value where
  /-- Nothing is there. -/
  | absent
  /-- A scalar, by its text. -/
  | scalar (text : String)
  /-- Something that cannot be looked into. -/
  | sealed (text : String)
  /-- A record, by what its fields hold. -/
  | record (fields : List (String × Value))
  /-- An event that carries a value. -/
  | event (carried : Value)

namespace Value

/-- What the field `name` holds: the field of a record, or of what an event
carries. -/
def get? (name : String) : Value → Option Value
  | absent => some absent
  | event v => v.get? name
  | record fields => NameMap.find? fields name
  | scalar _ => none
  | sealed _ => none

/-- What is found by reading the names in order. -/
def follow : List String → Value → Option Value
  | [], v => some v
  | name :: names, v => (v.get? name).bind (follow names)

theorem follow_cons {name : String} {names : List String} {v u : Value}
    (h : v.get? name = some u) : follow (name :: names) v = follow names u := by
  rw [follow, h, Option.bind_some]

end Value

namespace Ty

open Value (absent)

/-! ## the values of a type -/

/-- The values of a type.  `named` gives those of names, and of generics other than
events, about which nothing is known. -/
inductive Inhabits (named : Ty → Value → Prop) : Value → Ty → Prop where
  | scalar (text : String) (s : Scalar) : Inhabits named (.scalar text) (.scalar s)
  | absent (t : Ty) : Inhabits named .absent (.optional t)
  | present {v : Value} {t : Ty} (h : Inhabits named v t) : Inhabits named v (.optional t)
  | alternative {v : Value} {t : Ty} {alts : List Ty} (ht : t ∈ alts) (h : Inhabits named v t) :
      Inhabits named v (.union alts)
  | record {values : NameMap Value} {fields : NameMap Ty}
      (hfull : ∀ e ∈ fields, (values.find? e.1).isSome = true)
      (hvalues : ∀ e ∈ fields, ∀ v, values.find? e.1 = some v → Inhabits named v e.2) :
      Inhabits named (.record values) (.struct fields)
  | event {v : Value} {t : Ty} (h : Inhabits named v t) :
      Inhabits named (.event v) (.generic "Event" [t])
  | name {v : Value} {n : String} (h : named (.named n) v) : Inhabits named v (.named n)
  | generic {v : Value} {n : String} {args : List Ty} (hother : ∀ t, n = "Event" → args ≠ [t])
      (h : named (.generic n args) v) : Inhabits named v (.generic n args)

variable {named : Ty → Value → Prop}

/-- An optional holds what its content holds, or nothing. -/
theorem inhabits_optional_iff {v : Value} {t : Ty} :
    Inhabits named v (.optional t) ↔ v = .absent ∨ Inhabits named v t := by
  constructor
  · intro h
    cases h with
    | absent _ => exact .inl rfl
    | present h => exact .inr h
  · rintro (rfl | h)
    · exact .absent t
    · exact .present h

/-- The values of a type that can be sorted by are scalars, as far as they are
there. -/
theorem Inhabits.of_isOrderable {v : Value} {t : Ty} (ht : t.isOrderable = true)
    (h : Inhabits named v t) : v = .absent ∨ ∃ text, v = .scalar text := by
  induction t using Ty.induct with
  | scalar s =>
      cases h with
      | scalar text _ => exact .inr ⟨text, rfl⟩
  | named n => cases ht
  | generic n args _ => cases ht
  | optional t ih =>
      rcases inhabits_optional_iff.mp h with rfl | h
      · exact .inl rfl
      · exact ih ht h
  | struct fields _ => cases ht
  | union alts ih =>
      cases h with
      | alternative hmem h =>
          rw [isOrderable, Bool.and_eq_true, allOrderable_iff] at ht
          exact ih _ hmem (ht.2 _ hmem) h

/-! ## fields that all values have -/

/-- In every value of type `t` the field `name` holds a value of type `u`. -/
def Reads (named : Ty → Value → Prop) (name : String) (t u : Ty) : Prop :=
  ∀ v, Inhabits named v t → ∃ w, v.get? name = some w ∧ Inhabits named w u

variable {name : String}

/-- A field of what may be absent may be absent. -/
theorem Reads.optional {t u : Ty} (h : Reads named name t u) :
    Reads named name (.optional t) (.optional u) := by
  intro v hv
  rcases inhabits_optional_iff.mp hv with rfl | hv
  · exact ⟨.absent, rfl, .absent u⟩
  · obtain ⟨w, hget, hw⟩ := h v hv
    exact ⟨w, hget, .present hw⟩

/-- A field of an event is one of what it carries. -/
theorem Reads.event {t u : Ty} (h : Reads named name t u) :
    Reads named name (.generic "Event" [t]) u := by
  intro v hv
  cases hv with
  | @event v _ hv =>
      obtain ⟨w, hget, hw⟩ := h v hv
      exact ⟨w, hget, hw⟩
  | generic hother _ => exact absurd rfl (hother t rfl)

/-- A field that all alternatives have is one of the union, with the union of their
types. -/
theorem reads_union {ts us : List Ty} (h : ∀ t ∈ ts, ∃ u ∈ us, Reads named name t u) :
    Reads named name (.union ts) (.union us) := by
  intro v hv
  cases hv with
  | alternative hmem hv =>
      obtain ⟨u, hu, hreads⟩ := h _ hmem
      obtain ⟨w, hget, hw⟩ := hreads v hv
      exact ⟨w, hget, .alternative hu hw⟩

/-- A record has the fields that its type lists. -/
theorem reads_struct {fields : NameMap Ty} {u : Ty} (h : fields.find? name = some u) :
    Reads named name (.struct fields) u := by
  intro v hv
  have hmem := NameMap.mem_of_find?_eq_some h
  cases hv with
  | @record values _ hfull hvalues =>
      obtain ⟨w, hw⟩ := Option.isSome_iff_exists.mp (hfull _ hmem)
      exact ⟨w, hw, hvalues _ hmem w hw⟩

/-- A field of each of some types is one of every single type. -/
theorem exists_of_fieldOfEach? {ts us : List Ty} (h : fieldOfEach? name ts = some us) :
    ∀ t ∈ ts, ∃ u ∈ us, field? name .event t = some u := by
  induction ts generalizing us with
  | nil => simp
  | cons t ts ih =>
      rw [fieldOfEach?] at h
      cases hfirst : field? name .event t with
      | none =>
          rw [hfirst] at h
          cases h
      | some u =>
          rw [hfirst] at h
          obtain ⟨us', hrest, rfl⟩ := Option.map_eq_some_iff.mp h
          refine List.forall_mem_cons.mpr ⟨⟨u, List.mem_cons_self, hfirst⟩, fun t ht => ?_⟩
          obtain ⟨w, hw, hfield⟩ := ih hrest t ht
          exact ⟨w, List.mem_cons_of_mem _ hw, hfield⟩

/-- Of the generics only events are looked into, and only where a payload begins. -/
theorem field?_generic_eq_some {opening : Opening} {n : String} {args : List Ty} {u : Ty}
    (h : field? name opening (.generic n args) = some u) :
    ∃ t, n = "Event" ∧ args = [t] ∧ field? name .optional t = some u := by
  cases opening with
  | optional => simp [field?] at h
  | nothing => simp [field?] at h
  | event =>
      match args, h with
      | [], h => simp [field?] at h
      | [t], h =>
          rw [field?] at h
          split at h
          · next hn => exact ⟨t, hn, rfl, h⟩
          · cases h
      | _ :: _ :: _, h => simp [field?] at h

/-- **One name.**  Whatever may be opened on the way to it, a field that a type has
is one that all of its values have. -/
theorem reads_of_field? {opening : Opening} {t u : Ty} (h : field? name opening t = some u) :
    Reads named name t u := by
  induction t using Ty.induct generalizing opening u with
  | scalar s => cases opening <;> simp [field?] at h
  | named n => cases opening <;> simp [field?] at h
  | generic n args ih =>
      obtain ⟨t, rfl, rfl, hfield⟩ := field?_generic_eq_some h
      exact (ih t List.mem_cons_self hfield).event
  | optional t ih =>
      cases opening with
      | nothing => simp [field?] at h
      | event =>
          obtain ⟨w, hfield, rfl⟩ := Option.map_eq_some_iff.mp h
          exact (ih hfield).optional
      | optional =>
          obtain ⟨w, hfield, rfl⟩ := Option.map_eq_some_iff.mp h
          exact (ih hfield).optional
  | struct fields _ =>
      have hfind : NameMap.find? fields name = some u := by cases opening <;> exact h
      exact reads_struct hfind
  | union alts ih =>
      have heach : (fieldOfEach? name alts).map Ty.union = some u := by cases opening <;> exact h
      obtain ⟨us, hus, rfl⟩ := Option.map_eq_some_iff.mp heach
      refine reads_union fun t ht => ?_
      obtain ⟨w, hw, hfield⟩ := exists_of_fieldOfEach? hus t ht
      exact ⟨w, hw, ih t ht hfield⟩

/-! ## paths -/

/-- The type at the end of the way, given whether an optional has been opened. -/
def maybe (absent : Bool) (t : Ty) : Ty := if absent then .optional t else t

/-- A first name is looked up in the content of an optional, which is given back later,
or in the type as it stands. -/
theorem follow_cons_eq_some {absent : Bool} {t u : Ty} {name : String} {names : List String}
    (h : follow absent t (name :: names) = some u) :
    (∃ inner w, t = .optional inner ∧ field? name .nothing inner = some w ∧
        follow true w names = some u) ∨
      ∃ w, field? name .nothing t = some w ∧ follow absent w names = some u := by
  unfold follow at h
  split at h
  · next inner =>
    split at h
    · cases h
    · next w hfield => exact .inl ⟨inner, w, rfl, hfield, h⟩
  · split at h
    · cases h
    · next w hfield => exact .inr ⟨w, hfield, h⟩

/-- **All names of a path.**  The names that a type can be followed by are found in
each of its values, and at the end stands a value of the type at the end.  While an
optional is open, the value may be absent at every name. -/
theorem follow_sound {names : List String} {absent : Bool} {t u : Ty} {v : Value}
    (h : follow absent t names = some u) (hv : Inhabits named v (maybe absent t)) :
    ∃ w, v.follow names = some w ∧ Inhabits named w u := by
  induction names generalizing absent t v with
  | nil =>
      cases h
      exact ⟨v, rfl, hv⟩
  | cons name names ih =>
      have hstep : ∃ absent' w, Reads named name (maybe absent t) (maybe absent' w) ∧
          follow absent' w names = some u := by
        rcases follow_cons_eq_some h with ⟨inner, w, rfl, hfield, hrest⟩ | ⟨w, hfield, hrest⟩
        · refine ⟨true, w, ?_, hrest⟩
          have hreads : Reads named name (.optional inner) (.optional w) :=
            (reads_of_field? hfield).optional
          cases absent with
          | false => exact hreads
          | true =>
              -- two optionals hold what one holds
              intro v hv
              rcases inhabits_optional_iff.mp hv with rfl | hv
              · exact ⟨.absent, rfl, .absent w⟩
              · exact hreads v hv
        · refine ⟨absent, w, ?_, hrest⟩
          cases absent with
          | false => exact reads_of_field? hfield
          | true => exact (reads_of_field? hfield).optional
      obtain ⟨absent', w, hreads, hrest⟩ := hstep
      obtain ⟨x, hget, hx⟩ := hreads v hv
      rw [Value.follow_cons hget]
      exact ih hrest hx

end Ty

namespace MergeField

/-- A field is found by reading the payload's type and following the path in it. -/
theorem resolve_eq_ok {limits : Limits} {f : MergeField} {t : Ty} (h : f.resolve limits = .ok t) :
    ∃ root, Ty.read limits f.payload.ty = .ok root ∧ root.resolve? f.path = some t := by
  unfold resolve at h
  split at h
  · cases h
  · next root hread =>
    unfold resolveIn at h
    split at h
    · cases h
    · split at h
      · next u hresolve =>
        cases h
        exact ⟨root, hread, hresolve⟩
      · cases h

/-- A sort key is a field whose values have an order. -/
theorem sortKey_eq_ok {limits : Limits} {f : MergeField} {t : Ty} (h : f.sortKey limits = .ok t) :
    f.resolve limits = .ok t ∧ t.isOrderable = true := by
  obtain ⟨u, hresolve, h⟩ := bind_eq_ok_iff.mp h
  split at h
  · next horderable =>
    cases h
    exact ⟨hresolve, horderable⟩
  · cases h

/-- **The type of a merge field holds for all payloads.**  When the field of a merge
resolves to `t`, then in every payload, whatever the values of names and of generics
are, reading the names of the path in order comes to an end at a value of type `t`;
and when the merge may sort by the field, this value is a scalar or absent. -/
theorem resolve_sound {limits : Limits} {f : MergeField} {t : Ty}
    (h : f.resolve limits = .ok t) :
    ∃ root, Ty.read limits f.payload.ty = .ok root ∧
      ∀ (named : Ty → Value → Prop) (v : Value), Ty.Inhabits named v root.payload →
        ∃ w, v.follow (Ty.pathNames f.path) = some w ∧ Ty.Inhabits named w t ∧
          (f.sortKey limits = .ok t → w = .absent ∨ ∃ text, w = .scalar text) := by
  obtain ⟨root, hread, hresolve⟩ := resolve_eq_ok h
  refine ⟨root, hread, fun named v hv => ?_⟩
  have hstart : Ty.Inhabits named v (Ty.maybe false root.payload) := hv
  obtain ⟨w, hfollow, hw⟩ := Ty.follow_sound hresolve hstart
  exact ⟨w, hfollow, hw, fun hsort => hw.of_isOrderable (sortKey_eq_ok hsort).2⟩

/-- Records that may be absent, beside events of records: the path leads through the
optional, the union and the event to a key that can be sorted by. -/
theorem resolve_sound_union :
    let f : MergeField :=
      { payload := { ty := ("Event<Struct\x7ba:Optional<Union<Struct\x7bb:int\x7d," ++
          "Event<Struct\x7bb:Optional<string>\x7d>>>\x7d>").toList }
        path := " a. b".toList }
    let t : Ty := .optional (.union [.scalar .int, .optional (.scalar .string)])
    let v : Value := .record [("a", .event (.record [("b", .absent), ("c", .sealed "x")]))]
    f.resolve {} = .ok t ∧ f.sortKey {} = .ok t ∧
      ∃ w, v.follow ["a", "b"] = some w ∧ Ty.Inhabits (fun _ _ => False) w t ∧
        (w = .absent ∨ ∃ text, w = .scalar text) := by
  intro f t v
  have htext : Ty.read {} f.payload.ty = .ok (.generic "Event" [.struct [("a",
      .optional (.union [.struct [("b", .scalar .int)],
        .generic "Event" [.struct [("b", .optional (.scalar .string))]]]))]]) :=
    eq_ok_of_toOption_eq_some (by decide +kernel)
  have hpath : (Ty.generic "Event" [.struct [("a", .optional (.union [.struct
      [("b", .scalar .int)], .generic "Event" [.struct [("b", .optional
        (.scalar .string))]]]))]]).resolve? f.path = some t := by
    decide +kernel
  have hresolve : f.resolve {} = .ok t := by
    rw [resolve, htext]
    simp only [resolveIn, Ty.payload, if_true, hpath]
  have hsort : f.sortKey {} = .ok t := by
    rw [sortKey, hresolve]
    rfl
  have hnames : Ty.pathNames f.path = ["a", "b"] := by decide +kernel
  have hb : Ty.Inhabits (fun _ _ => False) (.record [("b", .absent), ("c", .sealed "x")])
      (.struct [("b", .optional (.scalar .string))]) := by
    refine .record (List.forall_mem_singleton.mpr rfl) (List.forall_mem_singleton.mpr ?_)
    intro w hw
    cases hw
    exact .absent _
  have hv : Ty.Inhabits (fun _ _ => False) v
      (.struct [("a", .optional (.union [.struct [("b", .scalar .int)],
        .generic "Event" [.struct [("b", .optional (.scalar .string))]]]))]) := by
    refine .record (List.forall_mem_singleton.mpr rfl) (List.forall_mem_singleton.mpr ?_)
    intro w hw
    cases hw
    exact .present (.alternative (by simp) (.event hb))
  obtain ⟨root, hread, hsound⟩ := resolve_sound hresolve
  rw [htext] at hread
  cases hread
  obtain ⟨w, hfollow, hw, hkey⟩ := hsound _ v hv
  rw [hnames] at hfollow
  exact ⟨hresolve, hsort, w, hfollow, hw, hkey hsort⟩

end MergeField

end TypeFlow
