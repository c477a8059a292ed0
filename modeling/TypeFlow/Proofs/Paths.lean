import TypeFlow.Proofs.Payloads

/-!
# TypeFlow.Proofs.Paths

Paths into unions.  A union is followed name by name, and with every name each
alternative is looked into anew, as if the way began there.  An alternative that is
followed by itself keeps to one way.  The difference shows from the second name on: an
event is looked into only where a way begins, and an optional that is opened while
another one is open leaves one optional on the one way and two on the other.

* `followAnew` — the names followed in order, each from what the last one gave as from a
  payload of its own;
* `follow_union` — that is how a union is followed;
* `Course` — how the way by itself and the way anew may end: in the same way; or an event
  was passed, which ended the way by itself; or two optionals were passed, which ended the
  way anew;
* `course_follow`, `course_resolve` — there is no other ending, for a way that has begun
  and for a whole path.
-/

namespace TypeFlow

/-! ## all of a list -/

section

variable {α β γ : Type}

/-- A list is gone through when each of its members is. -/
theorem mapM_eq_some {f : α → Option β} {ps : List (α × β)} (h : ∀ p ∈ ps, f p.1 = some p.2) :
    (ps.map Prod.fst).mapM f = some (ps.map Prod.snd) := by
  induction ps with
  | nil => rfl
  | cons p ps ih =>
      obtain ⟨hp, hps⟩ := List.forall_mem_cons.mp h
      simp [hp, ih hps]

/-- What comes of a list, if anything does, is what its members can give. -/
theorem eq_of_mapM_eq_some {f : α → Option β} {ps : List (α × β)} {ys : List β}
    (h : ∀ p ∈ ps, ∀ y, f p.1 = some y → y = p.2) (hmap : (ps.map Prod.fst).mapM f = some ys) :
    ys = ps.map Prod.snd := by
  induction ps generalizing ys with
  | nil =>
      cases hmap
      rfl
  | cons p ps ih =>
      obtain ⟨hp, hps⟩ := List.forall_mem_cons.mp h
      simp only [List.map_cons, List.mapM_cons, Option.bind_eq_bind, Option.bind_eq_some_iff] at hmap
      obtain ⟨y, hy, zs, hzs, hys⟩ := hmap
      cases hys
      rw [hp y hy, ih hps hzs, List.map_cons]

/-- One member without a result leaves the list without one. -/
theorem mapM_eq_none {f : α → Option β} {xs : List α} {x : α} (hx : x ∈ xs) (h : f x = none) :
    xs.mapM f = none := by
  induction xs with
  | nil => exact absurd hx List.not_mem_nil
  | cons y ys ih =>
      rw [List.mapM_cons]
      rcases List.mem_cons.mp hx with rfl | hx
      · rw [h]
        rfl
      · rw [ih hx]
        cases f y <;> rfl

/-- Two steps for each member are one step for all and then the other. -/
theorem mapM_bind {f : α → Option β} {g : β → Option γ} (xs : List α) :
    xs.mapM (fun x => (f x).bind g) = (xs.mapM f).bind fun ys => ys.mapM g := by
  induction xs with
  | nil => simp
  | cons x xs ih =>
      simp only [List.mapM_cons, ih]
      cases f x with
      | none => simp
      | some y => cases xs.mapM f <;> cases g y <;> simp

end

namespace Ty

/-! ## one name further -/

/-- One name further on the way: whether an optional is open then, and where. -/
def advance : Bool → Ty → String → Option (Bool × Ty)
  | _, .optional inner, name => (field? name .nothing inner).map (true, ·)
  | absent, t, name => (field? name .nothing t).map (absent, ·)

/-- A way is followed name by name. -/
theorem follow_cons (absent : Bool) (t : Ty) (name : String) (names : List String) :
    follow absent t (name :: names) =
      (advance absent t name).bind fun s => follow s.1 s.2 names := by
  cases t <;> simp only [follow, advance] <;> split <;> simp [*]

/-- At the end of a way the optional that was opened is given back. -/
theorem follow_singleton (absent : Bool) (t : Ty) (name : String) :
    follow absent t [name] = (advance absent t name).map fun s => maybe s.1 s.2 := by
  rw [follow_cons]
  cases advance absent t name <;> rfl

/-- Only an event carries something else than itself. -/
theorem payload_eq_self {t : Ty} (h : ∀ u, t ≠ .generic "Event" [u]) : t.payload = t := by
  unfold payload
  split
  · next n u => exact if_neg fun hn => h u (by rw [hn])
  · rfl

/-- A path of one name ends at the field that is looked up in an alternative. -/
theorem follow_payload_singleton (t : Ty) (name : String) :
    follow false t.payload [name] = field? name .event t := by
  have hoptional : ∀ u, follow false u [name] = field? name .optional u := by
    intro u
    rw [follow_singleton]
    cases u <;> simp [advance, field?, maybe, Function.comp_def]
  rw [hoptional]
  by_cases hevent : ∃ u, t = .generic "Event" [u]
  · obtain ⟨u, rfl⟩ := hevent
    simp [payload, field?]
  · rw [payload_eq_self (by simpa using hevent)]
    cases t with
    | generic n args =>
        cases hfield : field? name .event (.generic n args) with
        | none => simp [field?]
        | some u =>
            obtain ⟨v, rfl, rfl, -⟩ := field?_generic_eq_some hfield
            exact absurd ⟨v, rfl⟩ hevent
    | _ => simp [field?]

/-! ## anew with every name -/

/-- The names followed in order, each from what the last one gave as from a payload of
its own. -/
def followAnew : List String → Ty → Option Ty
  | [], t => some t
  | name :: names, t => (follow false t.payload [name]).bind (followAnew names)

/-- A union is followed by following each alternative, anew with every name. -/
theorem follow_union (names : List String) (alts : List Ty) :
    follow false (.union alts) names = (alts.mapM (followAnew names)).map .union := by
  induction names generalizing alts with
  | nil =>
      have hall : alts.mapM (followAnew []) = some (alts.map id) := List.mapM_pure
      rw [hall, List.map_id]
      rfl
  | cons name names ih =>
      have hstep : advance false (.union alts) name =
          (alts.mapM (field? name .event)).map fun us => (false, .union us) := by
        simp [advance, field?, fieldOfEach?_eq_mapM, Function.comp_def]
      rw [follow_cons, hstep]
      simp only [followAnew, follow_payload_singleton, mapM_bind]
      cases alts.mapM (field? name .event) with
      | none => rfl
      | some us => exact ih us

/-! ## the way by itself and the way anew -/

/-- How two ways may end, the first followed by itself and the second anew with every
name, when they have passed the types of `passed`. -/
inductive Course (passed : Ty → Prop) : Option Ty → Option Ty → Prop where
  | same (r : Option Ty) : Course passed r r
  | event {t : Ty} (h : passed (.generic "Event" [t])) (r : Option Ty) : Course passed none r
  | optionals {t : Ty} (h : passed (.optional (.optional t))) (r : Option Ty) :
      Course passed r none

namespace Course

variable {passed : Ty → Prop}

/-- The types that are passed may be more. -/
theorem mono {other : Ty → Prop} {r r' : Option Ty} (h : Course passed r r')
    (hpassed : ∀ u, passed u → other u) : Course other r r' := by
  cases h with
  | same r => exact .same r
  | event h _ => exact .event (hpassed _ h) _
  | optionals h _ => exact .optionals (hpassed _ h) _

/-- Two ways that both arrive have arrived at the same type. -/
theorem agree {t u : Ty} (h : Course passed (some t) (some u)) : u = t := by
  cases h with
  | same _ => rfl

/-- **A way that arrives by itself also arrives anew**, if it passes no optional in an
optional: only there is an optional lost that the next name would need. -/
theorem anew {t : Ty} {r : Option Ty} (h : Course passed (some t) r)
    (hoptionals : ∀ u, ¬ passed (.optional (.optional u))) : r = some t := by
  cases h with
  | same _ => rfl
  | optionals h _ => exact absurd h (hoptionals _)

/-- **A way that fails by itself also fails anew**, if it passes no event: only an event
is opened once more when the way starts anew. -/
theorem anew_none {r : Option Ty} (h : Course passed none r)
    (hevent : ∀ u, ¬ passed (.generic "Event" [u])) : r = none := by
  cases h with
  | same _ => rfl
  | event h _ => exact absurd h (hevent _)
  | optionals _ _ => rfl

end Course

/-- One name from where the way has come to, by itself and anew. -/
theorem advance_cases (absent : Bool) (t : Ty) (name : String) :
    (∃ u, maybe absent t = .generic "Event" [u] ∧ advance absent t name = none) ∨
    (∃ u, maybe absent t = .optional (.optional u) ∧
      follow false (maybe absent t).payload [name] = none) ∨
    follow false (maybe absent t).payload [name] =
      (advance absent t name).map fun s => maybe s.1 s.2 := by
  cases absent with
  | true =>
      have hanew : follow false (maybe true t).payload [name] =
          (field? name .nothing t).map .optional := follow_payload_singleton (.optional t) name
      cases t with
      | optional u => exact .inr (.inl ⟨u, rfl, by rw [hanew]; simp [field?]⟩)
      | _ => exact .inr (.inr (by rw [hanew]; simp [advance, maybe, Function.comp_def]))
  | false =>
      by_cases hevent : ∃ u, t = .generic "Event" [u]
      · obtain ⟨u, rfl⟩ := hevent
        exact .inl ⟨u, rfl, by simp [advance, field?]⟩
      · have hother : ∀ u, t ≠ .generic "Event" [u] := by simpa using hevent
        have hpayload : (maybe false t).payload = t := payload_eq_self hother
        rw [hpayload]
        exact .inr (.inr (follow_singleton false t name))

/-- Some of the names, but not all, lead from where the way has come to on to `u`. -/
def PassesFrom (absent : Bool) (t : Ty) (names : List String) (u : Ty) : Prop :=
  ∃ first rest, names = first ++ rest ∧ rest ≠ [] ∧ follow absent t first = some u

/-- A way with a name to go passes where it stands. -/
theorem passesFrom_here (absent : Bool) (t : Ty) (name : String) (names : List String) :
    PassesFrom absent t (name :: names) (maybe absent t) :=
  ⟨[], name :: names, rfl, by simp, rfl⟩

/-- A way passes all that it passes after its first name. -/
theorem PassesFrom.cons {absent : Bool} {t u : Ty} {name : String} {names : List String}
    {s : Bool × Ty} (hs : advance absent t name = some s) (h : PassesFrom s.1 s.2 names u) :
    PassesFrom absent t (name :: names) u := by
  obtain ⟨first, rest, rfl, hrest, hu⟩ := h
  exact ⟨name :: first, rest, rfl, hrest, by rw [follow_cons, hs]; exact hu⟩

/-- A way that has begun, by itself and anew. -/
theorem course_follow (names : List String) (absent : Bool) (t : Ty) :
    Course (PassesFrom absent t names) (follow absent t names)
      (followAnew names (maybe absent t)) := by
  induction names generalizing absent t with
  | nil => exact .same _
  | cons name names ih =>
      rw [follow_cons, followAnew]
      rcases advance_cases absent t name with ⟨u, hu, hnone⟩ | ⟨u, hu, hnone⟩ | hsame
      · rw [hnone]
        exact .event (hu ▸ passesFrom_here absent t name names) _
      · rw [hnone]
        exact .optionals (hu ▸ passesFrom_here absent t name names) _
      · rw [hsame]
        cases hs : advance absent t name with
        | none => exact .same none
        | some s => exact (ih s.1 s.2).mono fun u h => h.cons hs

/-- Some of the names, but not all, lead from the payload `t` to `u`. -/
def Passes (t : Ty) (names : List String) (u : Ty) : Prop :=
  ∃ first rest, names = first ++ rest ∧ first ≠ [] ∧ rest ≠ [] ∧
    follow false t.payload first = some u

/-- A whole path, by itself and anew.  With the first name the two are the same. -/
theorem course_resolve (t : Ty) {names : List String} (hnames : names ≠ []) :
    Course (Passes t names) (follow false t.payload names) (followAnew names t) := by
  cases names with
  | nil => exact absurd rfl hnames
  | cons name names =>
      rw [follow_cons, followAnew, follow_singleton]
      cases hs : advance false t.payload name with
      | none => exact .same none
      | some s =>
          refine (course_follow names s.1 s.2).mono ?_
          rintro u ⟨first, rest, rfl, hrest, hu⟩
          exact ⟨name :: first, rest, rfl, by simp, hrest, by rw [follow_cons, hs]; exact hu⟩

/-! ## paths into unions -/

/-- **Where a path into a union ends.**  A union resolves to the union of what its
alternatives give when they are followed anew with every name of the path.  If the
union and each alternative by itself resolve, they agree.  If each alternative resolves,
so does the union, unless the path leads an alternative through an optional of an optional;
and if an alternative does not, neither does the union, unless the path leads this
alternative through an event. -/
theorem resolve_union_alternatives {path : Text} (hpath : pathNames path ≠ []) :
    (∀ alts : List Ty, (Ty.union alts).resolve? path =
      (alts.mapM (followAnew (pathNames path))).map .union) ∧
    (∀ ps : List (Ty × Ty), (∀ p ∈ ps, p.1.resolve? path = some p.2) →
      (∀ u, (Ty.union (ps.map Prod.fst)).resolve? path = some u → u = .union (ps.map Prod.snd)) ∧
      ((∀ p ∈ ps, ∀ t, ¬ Passes p.1 (pathNames path) (.optional (.optional t))) →
        (Ty.union (ps.map Prod.fst)).resolve? path = some (.union (ps.map Prod.snd)))) ∧
    ∀ (alts : List Ty) (alt : Ty), alt ∈ alts → alt.resolve? path = none →
      (∀ t, ¬ Passes alt (pathNames path) (.generic "Event" [t])) →
      (Ty.union alts).resolve? path = none := by
  have hunion : ∀ alts : List Ty, (Ty.union alts).resolve? path =
      (alts.mapM (followAnew (pathNames path))).map .union := follow_union (pathNames path)
  have hcourse : ∀ t : Ty, Course (Passes t (pathNames path)) (t.resolve? path)
      (followAnew (pathNames path) t) := fun t => course_resolve t hpath
  refine ⟨hunion, fun ps hps => ⟨fun u hu => ?_, fun hoptionals => ?_⟩, ?_⟩
  · rw [hunion] at hu
    obtain ⟨us, hus, rfl⟩ := Option.map_eq_some_iff.mp hu
    rw [eq_of_mapM_eq_some (fun p hp t ht => ?_) hus]
    have hp := hps p hp ▸ hcourse p.1
    exact (ht ▸ hp).agree
  · have hanew : ∀ p ∈ ps, followAnew (pathNames path) p.1 = some p.2 := fun p hp =>
      (hps p hp ▸ hcourse p.1).anew (hoptionals p hp)
    rw [hunion, mapM_eq_some hanew]
    rfl
  · intro alts alt halt hnone hevent
    have hanew : followAnew (pathNames path) alt = none :=
      (hnone ▸ hcourse alt).anew_none hevent
    rw [hunion, mapM_eq_none halt hanew]
    rfl

/-- A way of two names passes one type, behind the first of them. -/
theorem Passes.of_pair {t u : Ty} {m n : String} (h : Passes t [m, n] u) :
    follow false t.payload [m] = some u := by
  obtain ⟨first, rest, heq, hfirst, hrest, hu⟩ := h
  match first with
  | [] => contradiction
  | [a] =>
      cases heq
      exact hu
  | a :: b :: first =>
      simp only [List.cons_append, List.cons.injEq, List.nil_eq, List.append_eq_nil_iff] at heq
      exact absurd heq.2.2.2 hrest

/-- A record with an optional, beside an event of a record with a union: the path leads
to the fields of both.  It leads nowhere when one alternative has an integer on the way. -/
theorem resolve_union_alternatives_event :
    let path := "a.b".toList
    let left : Ty := .struct [("a", .optional (.struct [("b", .scalar .int)]))]
    let right : Ty := .generic "Event" [.struct [("a", .union [.struct [("b", .scalar .string)]])]]
    (Ty.union [left, right]).resolve? path =
        some (.union [.optional (.scalar .int), .union [.scalar .string]]) ∧
      (Ty.union [left, .struct [("a", .scalar .int)]]).resolve? path = none := by
  intro path left right
  have hnames : pathNames path = ["a", "b"] := by decide +kernel
  have hfirst : ∀ t u v, follow false t.payload ["a"] = some v → u ≠ v →
      ¬ Passes t (pathNames path) u := by
    intro t u v hv hne hpasses
    rw [hnames] at hpasses
    exact hne (Option.some.inj (hpasses.of_pair.symm.trans hv))
  have hpath : pathNames path ≠ [] := by simp [hnames]
  obtain ⟨-, hall, hnone⟩ := resolve_union_alternatives hpath
  have hleft : left.resolve? path = some (.optional (.scalar .int)) := by decide +kernel
  have hright : right.resolve? path = some (.union [.scalar .string]) := by decide +kernel
  constructor
  · refine (hall [(left, _), (right, _)] (by simp [hleft, hright])).2 ?_
    exact List.forall_mem_cons.mpr ⟨fun t => hfirst _ _ _ rfl (by simp),
      List.forall_mem_singleton.mpr fun t => hfirst _ _ _ rfl (by simp)⟩
  · exact hnone _ (.struct [("a", .scalar .int)]) (by simp) (by decide +kernel) fun t =>
      hfirst _ _ _ rfl (by simp)

/-- Two optionals on the way are one for the alternative by itself, and end the way into
the union; an event on the way ends the way of the alternative by itself, and is looked
into in the union. -/
theorem resolve_union_differs :
    let path := "a.b".toList
    let twice : Ty := .optional (.struct [("a", .optional (.struct [("b", .scalar .int)]))])
    let event : Ty := .struct [("a", .generic "Event" [.struct [("b", .scalar .int)]])]
    twice.resolve? path = some (.optional (.scalar .int)) ∧
      (Ty.union [twice]).resolve? path = none ∧
      event.resolve? path = none ∧
      (Ty.union [event]).resolve? path = some (.union [.scalar .int]) := by
  decide +kernel

end Ty

end TypeFlow
