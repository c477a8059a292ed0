import Mathlib.Data.List.Zip
import TypeFlow.Proofs.Comparison

/-!
# TypeFlow.Proofs.Acceptance

When two texts are compatible, told by the pairs of parts that comparing them comes
to.  A pair is passed if one side is open, if both are the same text, or if a generic
has an argument that agrees with every other; else it has to be a generic that is
looked into, and the comparison goes on with the arguments.  Two texts are compatible
exactly when every pair on the way is of one of these kinds, and when the levels are
enough for the way.

What is passed is not read.  So texts that cannot be read may be compatible, but then
what cannot be read stands in a pair that has been passed:

* `compatibleAt_succ_iff` — one level;
* `isCompatible_comm` — the two texts may change places;
* `Reaches` — the pairs on the way, with their depth;
* `compatibleAt_iff` — compatible texts, by all pairs on the way;
* `exists_passed_of_unread` — where the unreadable part of compatible texts is;
* `isCompatible_of_unreadable` — texts that cannot be read.
-/

namespace TypeFlow

namespace Text

/-! ## one level -/

/-- The generics whose arguments are compared one by one. -/
def LookedInto (base : String) (arity : Nat) : Prop :=
  base ∈ covariant ∧ arity = 1 ∨ base = "map" ∧ arity = 2

/-- An optional is not looked into: as a text it is compared as a whole. -/
theorem LookedInto.ne_optional {base : String} {arity : Nat} (h : LookedInto base arity) :
    base ≠ "Optional" := by
  rintro rfl
  rcases h with ⟨h, -⟩ | ⟨h, -⟩ <;> exact absurd h (by decide)

/-- A union is not looked into: as a text it is compared as a whole. -/
theorem LookedInto.ne_union {base : String} {arity : Nat} (h : LookedInto base arity) :
    base ≠ "Union" := by
  rintro rfl
  rcases h with ⟨h, -⟩ | ⟨h, -⟩ <;> exact absurd h (by decide)

/-- The texts of a generic that is looked into, with the arguments side by side. -/
inductive Opened (want got : Text) : List (Text × Text) → Prop where
  | args {base : String} {ws gs : List Text} (hw : Shape.scan want = .ok (.generic base ws))
      (hg : Shape.scan got = .ok (.generic base gs)) (hlength : ws.length = gs.length)
      (hbase : LookedInto base ws.length) : Opened want got (ws.zip gs)

/-- The arguments of two texts are in the texts, so there is one way to look into
them. -/
theorem Opened.unique {want got : Text} {ps qs : List (Text × Text)} (h : Opened want got ps)
    (h' : Opened want got qs) : ps = qs := by
  cases h with
  | args hw hg _ _ =>
    cases h' with
    | args hw' hg' _ _ =>
      rw [hw] at hw'
      rw [hg] at hg'
      cases hw'
      cases hg'
      rfl

/-- The texts of a generic with an argument that agrees with every other. -/
inductive Absorbed (want got : Text) : Prop where
  | arg {base : String} (hbase : base ∈ covariant) {a b : Text}
      (hw : Shape.scan want = .ok (.generic base [a]))
      (hg : Shape.scan got = .ok (.generic base [b])) (h : a.absorbs = true ∨ b.absorbs = true)

/-- The texts agree without being looked into any further. -/
inductive Passed (want got : Text) : Prop where
  | wildcard (h : want.isWildcard = true ∨ got.isWildcard = true)
  | same (h : want.trim = got.trim)
  | absorbed (h : Absorbed want got)

/-- A pair that is passed is compatible, and one level is enough to see it. -/
theorem compatibleAt_of_passed {want got : Text} (h : Passed want got) (limit budget : Nat) :
    compatibleAt limit (budget + 1) want got = .ok true := by
  cases h with
  | wildcard h =>
      unfold compatibleAt
      rw [if_pos (Bool.or_eq_true_iff.mpr h)]
  | same h => exact compatibleAt_of_trim_eq h limit budget
  | absorbed h =>
      obtain ⟨hbase, hw, hg, habsorbs⟩ := h
      unfold compatibleAt
      split
      · rfl
      split
      · rfl
      simp [hw, hg, hbase, habsorbs, bind, Except.bind]

/-- A generic that is looked into is compatible when its arguments are, with one level
less. -/
theorem compatibleAt_of_opened {want got : Text} {ps : List (Text × Text)} (h : Opened want got ps)
    {limit budget : Nat} (hparts : ∀ p ∈ ps, compatibleAt limit budget p.1 p.2 = .ok true) :
    compatibleAt limit (budget + 1) want got = .ok true := by
  obtain ⟨hw, hg, hlength, ⟨hbase, hone⟩ | ⟨rfl, htwo⟩⟩ := h
  · obtain ⟨a, rfl⟩ := List.length_eq_one_iff.mp hone
    obtain ⟨b, rfl⟩ := List.length_eq_one_iff.mp (hlength ▸ hone)
    have hpart := hparts (a, b) (by simp)
    unfold compatibleAt
    split
    · rfl
    split
    · rfl
    simp [hw, hg, hbase, hpart, bind, Except.bind]
  · obtain ⟨key, value, rfl⟩ := List.length_eq_two.mp htwo
    obtain ⟨key', value', rfl⟩ := List.length_eq_two.mp (hlength ▸ htwo)
    have hkey := hparts (key, key') (by simp)
    have hvalue := hparts (value, value') (by simp)
    unfold compatibleAt
    split
    · rfl
    split
    · rfl
    simp [hw, hg, hkey, hvalue, bind, Except.bind]

/-- **One level of the comparison**: texts are compatible exactly when they are
passed, or are looked into and have compatible parts. -/
theorem compatibleAt_succ_iff {limit budget : Nat} {want got : Text} :
    compatibleAt limit (budget + 1) want got = .ok true ↔
      Passed want got ∨
        ∃ ps, Opened want got ps ∧ ∀ p ∈ ps, compatibleAt limit budget p.1 p.2 = .ok true := by
  constructor
  · intro h
    have hlevel := compared_compatibleAt limit budget want got
    generalize compatibleAt limit (budget + 1) want got = result at h hlevel
    cases hlevel with
    | wildcard hopen => exact .inl (.wildcard hopen)
    | same htrim => exact .inl (.same htrim)
    | unscanned _ => cases h
    | absorbed hbase hw hg habsorbs => exact .inl (.absorbed (.arg hbase hw hg habsorbs))
    | argument hbase hw hg =>
        exact .inr ⟨_, .args hw hg rfl (.inl ⟨hbase, rfl⟩), List.forall_mem_singleton.mpr h⟩
    | entries hw hg =>
        obtain ⟨hkey, hvalue⟩ := entries_eq_ok_true_iff.mp h
        refine .inr ⟨_, .args hw hg rfl (.inr ⟨rfl, rfl⟩), ?_⟩
        exact List.forall_mem_cons.mpr ⟨hkey, List.forall_mem_singleton.mpr hvalue⟩
    | apart => cases h
  · rintro (h | ⟨ps, h, hparts⟩)
    · exact compatibleAt_of_passed h limit budget
    · exact compatibleAt_of_opened h hparts

/-! ## the two sides -/

/-- Which of the two sides has the argument does not matter. -/
theorem Absorbed.symm {want got : Text} (h : Absorbed want got) : Absorbed got want := by
  obtain ⟨hbase, hw, hg, h⟩ := h
  exact .arg hbase hg hw h.symm

/-- Each reason to pass a pair is one for both of its orders. -/
theorem Passed.symm {want got : Text} (h : Passed want got) : Passed got want := by
  cases h with
  | wildcard h => exact .wildcard h.symm
  | same h => exact .same h.symm
  | absorbed h => exact .absorbed h.symm

/-- Generics may change places, and their arguments change places with them. -/
theorem Opened.symm {want got : Text} {ps : List (Text × Text)} (h : Opened want got ps) :
    Opened got want (ps.map Prod.swap) := by
  obtain ⟨hw, hg, hlength, hbase⟩ := h
  rw [List.zip_swap]
  exact .args hg hw hlength.symm (hlength ▸ hbase)

/-- Comparing in the other order accepts the same.  Why it does not accept may differ:
the text that is scanned first is complained about first. -/
theorem compatibleAt_symm {limit budget : Nat} {want got : Text}
    (h : compatibleAt limit budget want got = .ok true) :
    compatibleAt limit budget got want = .ok true := by
  induction budget generalizing want got with
  | zero => cases h
  | succ budget ih =>
      rw [compatibleAt_succ_iff] at h ⊢
      rcases h with h | ⟨ps, h, hparts⟩
      · exact .inl h.symm
      · exact .inr ⟨_, h.symm, List.forall_mem_map.mpr fun p hp => ih (hparts p hp)⟩

/-- **Compatibility is symmetric**, for all texts and limits: it does not matter which
of two texts is declared and which is given, also where one of them or both cannot be
read or nest too deeply. -/
theorem isCompatible_comm (limits : Limits) (want got : Text) :
    isCompatible limits want got = isCompatible limits got want := by
  rw [Bool.eq_iff_iff, isCompatible_iff, isCompatible_iff]
  exact ⟨compatibleAt_symm, compatibleAt_symm⟩

/-! ## the way of a comparison -/

/-- Comparing `want` with `got` comes to the parts `p` and `q`, which are `n` levels
down, as long as nothing on the way is passed. -/
inductive Reaches : Nat → Text → Text → Text → Text → Prop where
  | here (want got : Text) : Reaches 0 want got want got
  | part {n : Nat} {want got p q : Text} {ps : List (Text × Text)} (hpass : ¬ Passed want got)
      (hopened : Opened want got ps) {a : Text × Text} (ha : a ∈ ps) (h : Reaches n a.1 a.2 p q) :
      Reaches (n + 1) want got p q

/-- A property of texts that passes on to the arguments of generics that are looked
into. -/
def Inherited (P : Text → Prop) : Prop :=
  ∀ {text : Text} {base : String} {args : List Text}, P text →
    Shape.scan text = .ok (.generic base args) → LookedInto base args.length → ∀ a ∈ args, P a

/-- What is inherited reaches all parts that a comparison comes to, on each side. -/
theorem Inherited.of_reaches {P : Text → Prop} (hP : Inherited P) {n : Nat} {want got p q : Text}
    (h : Reaches n want got p q) : (P want → P p) ∧ (P got → P q) := by
  induction h with
  | here _ _ => exact ⟨id, id⟩
  | part _ hopened ha _ ih =>
      obtain ⟨hwscan, hgscan, hlength, hbase⟩ := hopened
      obtain ⟨hwa, hga⟩ := List.of_mem_zip ha
      exact ⟨fun hw => ih.1 (hP hw hwscan hbase _ hwa),
        fun hg => ih.2 (hP hg hgscan (hlength ▸ hbase) _ hga)⟩

/-- **Compatible texts**: all pairs that comparing them comes to are passed or looked
into, and none of them is further down than there are levels. -/
theorem compatibleAt_iff {limit budget : Nat} {want got : Text} :
    compatibleAt limit budget want got = .ok true ↔
      ∀ n p q, Reaches n want got p q → n < budget ∧ (Passed p q ∨ ∃ ps, Opened p q ps) := by
  induction budget generalizing want got with
  | zero =>
      constructor
      · intro h
        cases h
      · intro h
        exact absurd (h 0 want got (.here want got)).1 (Nat.lt_irrefl 0)
  | succ budget ih =>
      rw [compatibleAt_succ_iff]
      constructor
      · intro h n p q hreach
        cases hreach with
        | here _ _ => exact ⟨Nat.zero_lt_succ budget, h.imp_right fun ⟨ps, hps, _⟩ => ⟨ps, hps⟩⟩
        | part hpass hopened ha hreach =>
            obtain ⟨ps, hps, hparts⟩ := h.resolve_left hpass
            have hpart := hparts _ (hopened.unique hps ▸ ha)
            obtain ⟨hn, hkind⟩ := ih.mp hpart _ p q hreach
            exact ⟨Nat.succ_lt_succ hn, hkind⟩
      · intro h
        by_cases hpass : Passed want got
        · exact .inl hpass
        obtain ⟨ps, hps⟩ := (h 0 want got (.here want got)).2.resolve_left hpass
        refine .inr ⟨ps, hps, fun a ha => ih.mpr fun n p q hreach => ?_⟩
        obtain ⟨hn, hkind⟩ := h (n + 1) p q (.part hpass hps ha hreach)
        exact ⟨Nat.lt_of_succ_lt_succ hn, hkind⟩

/-- **Compatible texts are those whose every pair on the way can be dealt with**, within
the limit. -/
theorem isCompatible_iff_reaches {limits : Limits} {want got : Text} :
    isCompatible limits want got = true ↔ ∀ n p q, Reaches n want got p q →
      n < limits.maxDepth ∧ (Passed p q ∨ ∃ ps, Opened p q ps) :=
  isCompatible_iff.trans compatibleAt_iff

/-! ## texts that cannot be read -/

/-- With the levels that are left, one of the two texts cannot be read. -/
def Unread (limit budget : Nat) (want got : Text) : Prop :=
  (∀ t, Ty.readAt limit budget want ≠ .ok t) ∨ ∀ t, Ty.readAt limit budget got ≠ .ok t

/-- If it is not so that a side cannot be read, both can. -/
theorem exists_readAt_of_not_unread {limit budget : Nat} {want got : Text}
    (h : ¬ Unread limit budget want got) :
    (∃ t, Ty.readAt limit budget want = .ok t) ∧ ∃ t, Ty.readAt limit budget got = .ok t := by
  simpa [Unread, not_or] using h

/-- A generic that is looked into is read when its arguments are. -/
theorem LookedInto.exists_readAt {base : String} {args : List Text}
    (hbase : LookedInto base args.length) {limit budget : Nat} {text : Text}
    (hscan : Shape.scan text = .ok (.generic base args))
    (hargs : ∀ a ∈ args, ∃ t, Ty.readAt limit budget a = .ok t) :
    ∃ t, Ty.readAt limit (budget + 1) text = .ok t := by
  obtain ⟨ps, rfl, hps⟩ := exists_pairs hargs
  have happlied : Ty.Applied base (ps.map Prod.snd) (.generic base (ps.map Prod.snd)) :=
    .generic hbase.ne_optional hbase.ne_union
  exact ⟨_, Ty.readAt_succ_eq_ok_iff.mpr ⟨_, hscan, .generic hps happlied⟩⟩

/-- Where texts that are looked into cannot be read, some part of them cannot. -/
theorem Opened.exists_unread {want got : Text} {ps : List (Text × Text)} (h : Opened want got ps)
    {limit budget : Nat} (hunread : Unread limit (budget + 1) want got) :
    ∃ p ∈ ps, Unread limit budget p.1 p.2 := by
  obtain @⟨base, ws, gs, hw, hg, hlength, hbase⟩ := h
  by_contra hnone
  have hread : ∀ p ∈ ws.zip gs, (∃ t, Ty.readAt limit budget p.1 = .ok t) ∧
      ∃ t, Ty.readAt limit budget p.2 = .ok t := fun p hp =>
    exists_readAt_of_not_unread fun hunread => hnone ⟨p, hp, hunread⟩
  have hws : ∀ a ∈ ws, ∃ t, Ty.readAt limit budget a = .ok t := by
    rw [← List.map_fst_zip (Nat.le_of_eq hlength), List.forall_mem_map]
    exact fun p hp => (hread p hp).1
  have hgs : ∀ a ∈ gs, ∃ t, Ty.readAt limit budget a = .ok t := by
    rw [← List.map_snd_zip (Nat.le_of_eq hlength.symm), List.forall_mem_map]
    exact fun p hp => (hread p hp).2
  obtain ⟨w, hw⟩ := hbase.exists_readAt hw hws
  obtain ⟨g, hg⟩ := (hlength ▸ hbase).exists_readAt hg hgs
  exact hunread.elim (fun h => h w hw) fun h => h g hg

/-- **Where the unreadable part of compatible texts is**: in a pair that has been
passed.  The levels that are left for comparing two parts are those that are left for
reading them. -/
theorem exists_passed_of_unread {limit budget : Nat} {want got : Text}
    (h : compatibleAt limit budget want got = .ok true) (hunread : Unread limit budget want got) :
    ∃ n p q, Reaches n want got p q ∧ Passed p q ∧ Unread limit (budget - n) p q := by
  induction budget generalizing want got with
  | zero => cases h
  | succ budget ih =>
      by_cases hpass : Passed want got
      · exact ⟨0, want, got, .here want got, hpass, hunread⟩
      obtain ⟨ps, hps, hparts⟩ := (compatibleAt_succ_iff.mp h).resolve_left hpass
      obtain ⟨a, ha, hpart⟩ := hps.exists_unread hunread
      obtain ⟨n, p, q, hreach, hpassed, hunread⟩ := ih (hparts a ha) hpart
      refine ⟨n + 1, p, q, .part hpass hps ha hreach, hpassed, ?_⟩
      rwa [Nat.add_sub_add_right]

/-- A text without a shape is passed only as a wildcard's other side or as the same
text, and is never looked into. -/
theorem not_passed_of_scan_error {want got : Text} {e : ReadError}
    (hscan : Shape.scan want = .error e ∨ Shape.scan got = .error e)
    (hwild : (want.isWildcard || got.isWildcard) = false) (hne : want.trim ≠ got.trim) :
    ¬ Passed want got ∧ ∀ ps, ¬ Opened want got ps := by
  have hfalse : ∀ {shape shape'}, Shape.scan want = .ok shape → Shape.scan got = .ok shape' →
      False := by
    intro shape shape' hw hg
    rw [hw, hg] at hscan
    simp at hscan
  refine ⟨fun hpass => ?_, fun ps hopened => ?_⟩
  · cases hpass with
    | wildcard h => simp [Bool.or_eq_true_iff.mpr h] at hwild
    | same h => exact hne h
    | absorbed h =>
        obtain ⟨-, hw, hg, -⟩ := h
        exact hfalse hw hg
  · obtain ⟨hw, hg, -, -⟩ := hopened
    exact hfalse hw hg

/-- **Texts that cannot be read.**  Of two different texts, neither of which is open,
let one not be readable.  They are compatible exactly when every pair that comparing
them comes to is within the limit and is passed or looked into; so they are not, if it
comes to a pair of different texts that are not open, of which one is malformed at its
outermost level.  And if they are compatible, then what cannot be read stands beside or
below an argument that agrees with every other, or further down beside an open text or
beside the same text. -/
theorem isCompatible_of_unreadable (limits : Limits) (want got : Text)
    (hunread : (∀ t, Ty.read limits want ≠ .ok t) ∨ ∀ t, Ty.read limits got ≠ .ok t)
    (hne : want.trim ≠ got.trim) (hwant : want.isWildcard = false)
    (hgot : got.isWildcard = false) :
    (isCompatible limits want got = true ↔ ∀ n p q, Reaches n want got p q →
      n < limits.maxDepth ∧ (Passed p q ∨ ∃ ps, Opened p q ps)) ∧
    (∀ n p q e, Reaches n want got p q → (Shape.scan p = .error e ∨ Shape.scan q = .error e) →
      p.trim ≠ q.trim → p.isWildcard = false → q.isWildcard = false →
      isCompatible limits want got = false) ∧
    (isCompatible limits want got = true → ∃ n p q, Reaches n want got p q ∧
      Unread limits.maxDepth (limits.maxDepth - n) p q ∧
      (Absorbed p q ∨
        0 < n ∧ ((p.isWildcard = true ∨ q.isWildcard = true) ∨ p.trim = q.trim))) := by
  refine ⟨isCompatible_iff_reaches, fun n p q e hreach hscan hpq hp hq => ?_, fun h => ?_⟩
  · obtain ⟨hpass, hopened⟩ := not_passed_of_scan_error hscan (by rw [hp, hq]; rfl) hpq
    rw [← Bool.not_eq_true]
    intro h
    obtain ⟨-, hkind⟩ := isCompatible_iff_reaches.mp h n p q hreach
    exact hkind.elim hpass fun ⟨ps, hps⟩ => hopened ps hps
  · obtain ⟨n, p, q, hreach, hpass, hunread⟩ :=
      exists_passed_of_unread (isCompatible_iff.mp h) hunread
    refine ⟨n, p, q, hreach, hunread, ?_⟩
    cases hreach with
    | here _ _ =>
        cases hpass with
        | wildcard h => simp [hwant, hgot] at h
        | same h => exact absurd h hne
        | absorbed h => exact .inl h
    | part _ _ _ _ =>
        cases hpass with
        | wildcard h => exact .inr ⟨Nat.zero_lt_succ _, .inl h⟩
        | same h => exact .inr ⟨Nat.zero_lt_succ _, .inr h⟩
        | absorbed h => exact .inl h

/-- A name that starts with a digit is refused beside another name, and absorbed by a
variable. -/
theorem isCompatible_of_unreadable_owned :
    let bad := "Owned<1bad>".toList
    isCompatible {} "Owned<int>".toList bad = false ∧
      isCompatible {} "Owned<T>".toList bad = true ∧
      ∃ n p q, Reaches n "Owned<T>".toList bad p q ∧ Unread 64 (64 - n) p q ∧
        (Absorbed p q ∨
          0 < n ∧ ((p.isWildcard = true ∨ q.isWildcard = true) ∨ p.trim = q.trim)) := by
  intro bad
  have hread : ∀ t, Ty.read {} bad ≠ .ok t := ne_ok_of_toOption_eq_none (by decide +kernel)
  have hint : Shape.scan "Owned<int>".toList = .ok (.generic "Owned" ["int".toList]) := by
    decide +kernel
  have hbad : Shape.scan bad = .ok (.generic "Owned" ["1bad".toList]) := by decide +kernel
  have hpass : ¬ Passed "Owned<int>".toList bad := by
    intro h
    cases h with
    | wildcard h => exact absurd h (by decide)
    | same h => exact absurd h (by decide)
    | absorbed h =>
        obtain ⟨-, hw, hg, h⟩ := h
        rw [hint] at hw
        rw [hbad] at hg
        cases hw
        cases hg
        exact absurd h (by decide)
  have hreach : Reaches 1 "Owned<int>".toList bad "int".toList "1bad".toList :=
    .part hpass (.args hint hbad rfl (.inl ⟨by decide, rfl⟩)) List.mem_cons_self (.here _ _)
  obtain ⟨-, hrefused, -⟩ :=
    isCompatible_of_unreadable {} "Owned<int>".toList bad (.inr hread) (by decide) rfl rfl
  obtain ⟨-, -, hpassed⟩ :=
    isCompatible_of_unreadable {} "Owned<T>".toList bad (.inr hread) (by decide) rfl rfl
  have hscan : Shape.scan "1bad".toList = .error (.invalidName "1bad".toList) := by
    decide +kernel
  have haccepted : isCompatible {} "Owned<T>".toList bad = true := by decide +kernel
  exact ⟨hrefused 1 _ _ _ hreach (.inr hscan) (by decide) rfl rfl, haccepted, hpassed haccepted⟩

/-- Different texts of which one cannot be read, and neither of which is open, are found
compatible: beside a variable, beside the same text, and past the limit. -/
theorem unreadable_isCompatible :
    let var : Text := "Owned<T>".toList
    let bad : Text := "Owned<1bad>".toList
    let padded : Text := "Owned< 1bad>".toList
    let deep : Text := "Owned<Owned<int>>".toList
    var.isWildcard = false ∧ bad.isWildcard = false ∧ padded.isWildcard = false ∧
      deep.isWildcard = false ∧
      ((∀ t, Ty.read {} bad ≠ .ok t) ∧ var.trim ≠ bad.trim ∧ isCompatible {} var bad = true) ∧
      (padded.trim ≠ bad.trim ∧ isCompatible {} padded bad = true) ∧
      ((∀ t, Ty.read ⟨2⟩ deep ≠ .ok t) ∧ var.trim ≠ deep.trim ∧ isCompatible ⟨2⟩ var deep = true) :=
  ⟨rfl, rfl, rfl, rfl,
    ⟨ne_ok_of_toOption_eq_none (by decide +kernel), by decide, by decide +kernel⟩,
    ⟨by decide, by decide +kernel⟩,
    ⟨ne_ok_of_toOption_eq_none (by decide +kernel), by decide, by decide +kernel⟩⟩

end Text

end TypeFlow
