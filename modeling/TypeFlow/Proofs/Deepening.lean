import TypeFlow.Compatible
import TypeFlow.Flow
import TypeFlow.Proofs.Grammar
import TypeFlow.Proofs.Walks
import TypeFlow.Unify.Unifier

/-!
# TypeFlow.Proofs.Deepening

A higher limit changes no answer that is already there.  All traversals use the
limit in one way only: they give up where it is passed.  So a traversal with more
levels ends as one with fewer does, unless that one has given up.

* `gives_up_of_check` — a traversal has no levels left where the check of the depth
  fails, and gives up with its error;
* `Kept` — an outcome is kept, unless it is a failure of a given kind; the
  combinators that the traversals are made of hand this on from their parts;
* `readAt_kept`, `locateAt_kept`, `locateByShapeAt_kept`, `flowsAt_kept`,
  `compatibleAt_kept`, `unifyAt_kept` — one for each traversal, by induction on
  the levels that are left;
* `read_of_any_limit` — for reading, which limits are enough and what comes of the
  others.
-/

namespace TypeFlow

open ArityMismatch

/-! ## outcomes that are kept -/

section

variable {α β ε : Type} {deep : ε → Prop}

/-- The outcome `x` is kept by `y`, unless it is a failure of the kind `deep`. -/
def Kept (deep : ε → Prop) (x y : Except ε α) : Prop := (∃ e, deep e ∧ x = .error e) ∨ x = y

namespace Kept

theorem refl (x : Except ε α) : Kept deep x x := .inr rfl

/-- A failure of the kind says nothing about the other outcome. -/
theorem lost {e : ε} (h : deep e) (y : Except ε α) : Kept deep (.error e) y := .inl ⟨e, h, rfl⟩

/-- An outcome that is no such failure is the other one. -/
theorem eq {x y : Except ε α} (h : Kept deep x y) (hx : ∀ e, deep e → x ≠ .error e) : y = x := by
  rcases h with ⟨e, he, herror⟩ | heq
  · exact absurd herror (hx e he)
  · exact heq.symm

/-- Results are kept in any case. -/
theorem ok {x y : Except ε α} (h : Kept deep x y) {a : α} (hx : x = .ok a) : y = .ok a := by
  rw [← hx]
  exact h.eq fun e _ herror => by rw [hx] at herror; cases herror

/-- A kind of failures may be made wider. -/
theorem imp {other : ε → Prop} {x y : Except ε α} (h : Kept deep x y)
    (hdeep : ∀ e, deep e → other e) : Kept other x y :=
  h.imp_left fun ⟨e, he, herror⟩ => ⟨e, hdeep e he, herror⟩

/-- Two steps are kept when the first is and, whatever it gives, the second is. -/
theorem bind {x y : Except ε α} {f g : α → Except ε β} (h : Kept deep x y)
    (hnext : ∀ a, Kept deep (f a) (g a)) : Kept deep (x >>= f) (y >>= g) := by
  rcases h with ⟨e, he, rfl⟩ | rfl
  · exact lost he _
  · cases x with
    | error e => exact refl _
    | ok a => exact hnext a

/-- A list is kept when all of its members are: the first that gives up makes the whole
give up. -/
theorem mapM {f g : α → Except ε β} (h : ∀ a, Kept deep (f a) (g a)) (xs : List α) :
    Kept deep (xs.mapM f) (xs.mapM g) := by
  induction xs with
  | nil => exact refl _
  | cons x xs ih =>
      rw [List.mapM_cons, List.mapM_cons]
      exact (h x).bind fun _ => ih.bind fun _ => refl _

/-- A check of all members is kept when that of each is: it stops at the same member. -/
theorem allM {f g : α → Except ε Bool} (h : ∀ a, Kept deep (f a) (g a)) (xs : List α) :
    Kept deep (xs.allM f) (xs.allM g) := by
  induction xs with
  | nil => exact refl _
  | cons x xs ih =>
      rw [List.allM, List.allM]
      refine (h x).bind fun b => ?_
      cases b with
      | false => exact refl _
      | true => exact ih

/-- A check for some member is kept when that of each is: it stops at the same
member. -/
theorem anyM {f g : α → Except ε Bool} (h : ∀ a, Kept deep (f a) (g a)) (xs : List α) :
    Kept deep (xs.anyM f) (xs.anyM g) := by
  induction xs with
  | nil => exact refl _
  | cons x xs ih =>
      rw [List.anyM, List.anyM]
      refine (h x).bind fun b => ?_
      cases b with
      | false => exact ih
      | true => exact refl _

/-- A search is kept when that of each member is: it ends with the same find. -/
theorem findSomeM? {f g : α → Except ε (Option β)} (h : ∀ a, Kept deep (f a) (g a)) (xs : List α) :
    Kept deep (xs.findSomeM? f) (xs.findSomeM? g) := by
  induction xs with
  | nil => exact refl _
  | cons x xs ih =>
      rw [List.findSomeM?_cons, List.findSomeM?_cons]
      refine (h x).bind fun found => ?_
      cases found with
      | none => exact ih
      | some b => exact refl _

end Kept

end

/-- Induction on the levels that two traversals have left, when the second has as
many as the first. -/
@[elab_as_elim]
theorem levels_induction {motive : ∀ budget budget' : Nat, budget ≤ budget' → Prop}
    (zero : ∀ budget', motive 0 budget' (Nat.zero_le budget'))
    (succ : ∀ budget budget' (h : budget ≤ budget'), motive budget budget' h →
      motive (budget + 1) (budget' + 1) (Nat.succ_le_succ h))
    {budget budget' : Nat} (h : budget ≤ budget') : motive budget budget' h := by
  induction budget generalizing budget' with
  | zero => exact zero budget'
  | succ budget ih =>
      cases budget' with
      | zero => exact absurd h (Nat.not_succ_le_zero budget)
      | succ budget' => exact succ budget budget' _ (ih (Nat.le_of_succ_le_succ h))

/-- **Every traversal gives up where the check fails**, and with the error of the
check: at a type that is `steps` further in than the outermost one, no levels are
left for it. -/
theorem gives_up_of_check {limits : Limits} {steps : Nat} {e : TooDeep}
    (h : limits.check (steps + 1) = .error e) :
    let left := limits.maxDepth - steps
    (∀ text, Ty.readAt limits.maxDepth left text = .error e.toReadError) ∧
    (∀ want got, Text.compatibleAt limits.maxDepth left want got = .error e.toReadError) ∧
    (∀ want got, Text.locateByShapeAt limits.maxDepth left want got = .error e) ∧
    (∀ want got, Ty.locateAt limits.maxDepth left want got = .error e) ∧
    (∀ want got, Ty.flowsAt limits.maxDepth left want got = .error e) ∧
    ∀ want got s, Ty.unifyAt limits.maxDepth left want got s =
      .failed want got (.unreadable e.toReadError) := by
  intro left
  obtain ⟨hused, rfl⟩ := Limits.check_succ_eq_error_iff.mp h
  have hleft : left = 0 := hused
  rw [hleft]
  exact ⟨fun _ => rfl, fun _ _ => rfl, fun _ _ => rfl, fun _ _ => rfl, fun _ _ => rfl,
    fun _ _ _ => rfl⟩

/-- The failure of a traversal that has passed the limit. -/
def ReadError.IsTooDeep (e : ReadError) : Prop := ∃ limit, e = .tooDeep limit

/-! ## searches -/

namespace ArityMismatch

variable {α : Type} {search search' : α → α → Search}

/-- A search through arguments is kept when the search of each pair is. -/
theorem kept_amongArgs (h : ∀ w g, Kept (fun _ => True) (search w g) (search' w g)) (base : String)
    (want got : List α) :
    Kept (fun _ => True) (amongArgs search base want got) (amongArgs search' base want got) :=
  .findSomeM? (fun _ => (h _ _).bind fun _ => .refl _) _

/-- Names and numbers of arguments are compared without a level, so generics are kept
when their arguments are. -/
theorem kept_amongGenerics (h : ∀ w g, Kept (fun _ => True) (search w g) (search' w g))
    (wantBase : String) (want : List α) (gotBase : String) (got : List α) :
    Kept (fun _ => True) (amongGenerics search wantBase want gotBase got)
      (amongGenerics search' wantBase want gotBase got) := by
  unfold amongGenerics
  split
  · exact .refl _
  split
  · exact .refl _
  · exact kept_amongArgs h wantBase want got

/-- Records are kept when the values of shared fields are. -/
theorem kept_amongFields (h : ∀ w g, Kept (fun _ => True) (search w g) (search' w g))
    (want got : NameMap α) :
    Kept (fun _ => True) (amongFields search want got) (amongFields search' want got) := by
  refine .findSomeM? (fun e => ?_) want
  split
  · exact .refl _
  · exact (h _ _).bind fun _ => .refl _

/-- Unions are kept when pairs of alternatives are. -/
theorem kept_amongAlts (h : ∀ w g, Kept (fun _ => True) (search w g) (search' w g))
    (kind : α → α → Bool) (want got : List α) :
    Kept (fun _ => True) (amongAlts search kind want got) (amongAlts search' kind want got) := by
  refine .findSomeM? (fun w => .findSomeM? (fun g => ?_) got) want
  split
  · exact h w g
  · exact .refl _

end ArityMismatch

namespace Ty

variable (limit limit' : Nat) {budget budget' : Nat}

/-! ## types -/

/-- Reading that gives up names the limit it was given. -/
theorem readAt_kept_or_tooDeep (h : budget ≤ budget') (text : Text) :
    Kept (· = .tooDeep limit) (readAt limit budget text) (readAt limit' budget' text) := by
  induction h using levels_induction generalizing text with
  | zero budget' => exact .inl ⟨_, rfl, rfl⟩
  | succ budget budget' _ ih =>
      unfold readAt
      refine (Kept.refl _).bind fun shape => ?_
      cases shape with
      | atom name => exact .refl _
      | generic base args => exact (Kept.mapM ih args).bind fun _ => .refl _
      | struct fields =>
          refine (Kept.mapM (fun field => ?_) fields).bind fun _ => .refl _
          exact (ih field.2).bind fun _ => .refl _

/-- Reading with more levels ends as reading with fewer does, unless that has given
up. -/
theorem readAt_kept (h : budget ≤ budget') (text : Text) :
    Kept ReadError.IsTooDeep (readAt limit budget text) (readAt limit' budget' text) :=
  (readAt_kept_or_tooDeep limit limit' h text).imp fun _ he => ⟨limit, he⟩

/-- The search for a mismatch between types can only fail by giving up, and what it
finds with fewer levels it finds with more. -/
theorem locateAt_kept (h : budget ≤ budget') (want got : Ty) :
    Kept (fun _ => True) (locateAt limit budget want got) (locateAt limit' budget' want got) := by
  induction h using levels_induction generalizing want got with
  | zero budget' => exact .lost trivial _
  | succ budget budget' _ ih =>
      unfold locateAt
      split
      · exact kept_amongGenerics ih _ _ _ _
      · exact ih _ _
      · exact kept_amongFields ih _ _
      · exact kept_amongAlts ih sameKind _ _
      · exact .refl _

/-- The check of a flow says with more levels what it says with fewer, unless that has
given up. -/
theorem flowsAt_kept (h : budget ≤ budget') (want got : Ty) :
    Kept (fun _ => True) (flowsAt limit budget want got) (flowsAt limit' budget' want got) := by
  induction h using levels_induction generalizing want got with
  | zero budget' => exact .lost trivial _
  | succ budget budget' _ ih =>
      unfold flowsAt
      split
      · exact .refl _
      split
      · exact .refl _
      split
      · exact ih _ _
      · split
        · exact .refl _
        · exact .allM (fun _ => ih _ _) _
      · exact .anyM (fun _ => ih _ _) _
      · refine .allM (fun e => ?_) _
        split
        · exact .refl _
        · exact ih _ _
      · split
        · exact .allM (fun _ => ih _ _) _
        · exact .refl _
      · exact .refl _

end Ty

namespace Text

variable (limit limit' : Nat) {budget budget' : Nat}

/-! ## texts -/

/-- The search between texts reads them level by level, and with more levels it finds
what it finds with fewer. -/
theorem locateByShapeAt_kept (h : budget ≤ budget') (want got : Text) :
    Kept (fun _ => True) (locateByShapeAt limit budget want got)
      (locateByShapeAt limit' budget' want got) := by
  induction h using levels_induction generalizing want got with
  | zero budget' => exact .lost trivial _
  | succ budget budget' _ ih =>
      unfold locateByShapeAt
      split
      · exact kept_amongFields ih _ _
      · split
        · exact kept_amongAlts ih sameKind _ _
        · split
          · split
            · exact ih _ _
            · exact kept_amongGenerics ih _ _ _ _
          · exact kept_amongGenerics ih _ _ _ _
      · exact .refl _

/-- The comparison of texts says with more levels what it says with fewer; a fault of a
text is not a failure of this kind, and is kept as well. -/
theorem compatibleAt_kept (h : budget ≤ budget') (want got : Text) :
    Kept ReadError.IsTooDeep (compatibleAt limit budget want got)
      (compatibleAt limit' budget' want got) := by
  induction h using levels_induction generalizing want got with
  | zero budget' => exact .lost ⟨limit, rfl⟩ _
  | succ budget budget' _ ih =>
      unfold compatibleAt
      split
      · exact .refl _
      split
      · exact .refl _
      refine (Kept.refl _).bind fun wantShape => (Kept.refl _).bind fun gotShape => ?_
      split
      · split
        · split
          · exact .refl _
          · exact ih _ _
        · exact .refl _
      · split
        · refine (ih _ _).bind fun keys => ?_
          split
          · exact ih _ _
          · exact .refl _
        · exact .refl _
      · exact .refl _

end Text

/-! ## runs -/

/-- A run is kept, with all its steps, unless it has passed the limit. -/
def Run.Kept (r r' : Run) : Prop :=
  (∃ limit, r.outcome = .error (.unreadable (.tooDeep limit))) ∨ r = r'

namespace Run.Kept

theorem refl (r : Run) : Kept r r := .inr rfl

/-- A run in two parts is kept, with the steps of both, when its parts are. -/
theorem andThen {r r' : Run} {next next' : Subst → Run} (h : Kept r r')
    (hnext : ∀ s, Kept (next s) (next' s)) : Kept (r.andThen next) (r'.andThen next') := by
  rcases h with ⟨limit, herror⟩ | rfl
  · refine .inl ⟨limit, ?_⟩
    rw [andThen_error herror, herror]
  cases houtcome : r.outcome with
  | error e =>
      rw [andThen_error houtcome, andThen_error houtcome]
      exact refl r
  | ok s =>
      rw [andThen_ok houtcome, andThen_ok houtcome]
      rcases hnext s with ⟨limit, herror⟩ | heq
      · exact .inl ⟨limit, herror⟩
      · rw [heq]
        exact refl _

/-- Runs over a list are kept when each of them is. -/
theorem each {α : Type} {run run' : α → Subst → Run} (h : ∀ a s, Kept (run a s) (run' a s))
    (xs : List α) (s : Subst) : Kept (Run.each run xs s) (Run.each run' xs s) := by
  induction xs generalizing s with
  | nil => exact refl _
  | cons x xs ih => exact (h x s).andThen ih

end Run.Kept

/-- Unification with more levels takes the steps that it takes with fewer and has the
same end, unless it has given up. -/
theorem Ty.unifyAt_kept (limit limit' : Nat) {budget budget' : Nat} (h : budget ≤ budget')
    (want got : Ty) (s : Subst) :
    Run.Kept (unifyAt limit budget want got s) (unifyAt limit' budget' want got s) := by
  induction h using levels_induction generalizing want got s with
  | zero budget' => exact .inl ⟨limit, rfl⟩
  | succ budget budget' _ ih =>
      unfold unifyAt
      split
      · exact .refl _
      split
      · exact .refl _
      split
      · split
        · exact (Run.Kept.refl _).andThen (.each (fun p : Ty × Ty => ih p.1 p.2) _)
        · exact .refl _
      · exact .refl _
      · exact .refl _
      · split
        · exact .refl _
        split
        · exact .refl _
        split
        · exact .refl _
        · exact (Run.Kept.refl _).andThen (.each (fun p : Ty × Ty => ih p.1 p.2) _)

/-! ## limits -/

/-- A unifier with a higher limit answers, binds and records the same, as long as the
lower limit was not passed. -/
theorem Unifier.unify_kept {u : Unifier} {limits' : Limits} (h : u.limits.maxDepth ≤ limits'.maxDepth)
    {want got : Ty} (hsettled : ∀ n, (u.unify want got).1 ≠ .error (.unreadable (.tooDeep n))) :
    ({ u with limits := limits' }.unify want got).1 = (u.unify want got).1 ∧
      ({ u with limits := limits' }.unify want got).2 =
        { (u.unify want got).2 with limits := limits' } := by
  have hkept := Ty.unifyAt_kept u.limits.maxDepth limits'.maxDepth h want got u.subst
  rcases hkept with ⟨n, herror⟩ | heq
  · refine absurd ?_ (hsettled n)
    rw [unify, take_fst, Ty.unify, herror]
    rfl
  · simp only [unify, Ty.unify, ← heq, take]
    split <;> exact ⟨rfl, rfl⟩

/-- **A higher limit changes no settled answer.**  Whatever is read, compared,
located, checked for flow or unified within a limit, without passing it, comes to
the same end under every higher limit: the same result or the same failure, and
for a unifier the same bindings and the same trace.  Locating does so even where
the lower limit keeps it from reading the texts. -/
theorem higher_limit_agrees {limits limits' : Limits} (h : limits.maxDepth ≤ limits'.maxDepth) :
    (∀ text, (∀ n, Ty.read limits text ≠ .error (.tooDeep n)) →
      Ty.read limits' text = Ty.read limits text) ∧
    (∀ text, (∀ n, TyRef.read limits text ≠ .error (.tooDeep n)) →
      TyRef.read limits' text = TyRef.read limits text) ∧
    (∀ want got, (∀ n, Text.compatible limits want got ≠ .error (.tooDeep n)) →
      Text.compatible limits' want got = Text.compatible limits want got) ∧
    (∀ want got found, Text.locate limits want got = .ok found →
      Text.locate limits' want got = .ok found) ∧
    (∀ want got found, Text.locateByShape limits want got = .ok found →
      Text.locateByShape limits' want got = .ok found) ∧
    (∀ want got found, Ty.locate limits want got = .ok found →
      Ty.locate limits' want got = .ok found) ∧
    (∀ want got b, Ty.flows limits want got = .ok b → Ty.flows limits' want got = .ok b) ∧
    ∀ (u : Unifier) want got, u.limits = limits →
      (∀ n, (u.unify want got).1 ≠ .error (.unreadable (.tooDeep n))) →
      ({ u with limits := limits' }.unify want got).1 = (u.unify want got).1 ∧
        ({ u with limits := limits' }.unify want got).2 =
          { (u.unify want got).2 with limits := limits' } := by
  have hread := Ty.readAt_kept limits.maxDepth limits'.maxDepth h
  have hshape := Text.locateByShapeAt_kept limits.maxDepth limits'.maxDepth h
  refine ⟨fun text hsettled => ?_, fun text hsettled => ?_, fun want got hsettled => ?_,
    fun want got found hfound => ?_, fun want got found hfound => ?_,
    fun want got found hfound => ?_, fun want got b hb => ?_, ?_⟩
  · exact (hread text).eq fun e ⟨n, he⟩ => he ▸ hsettled n
  · have href : Kept ReadError.IsTooDeep (TyRef.read limits text) (TyRef.read limits' text) :=
      (hread _).bind fun _ => .refl _
    exact href.eq fun e ⟨n, he⟩ => he ▸ hsettled n
  · have hcompatible := Text.compatibleAt_kept limits.maxDepth limits'.maxDepth h want got
    exact hcompatible.eq fun e ⟨n, he⟩ => he ▸ hsettled n
  · rw [Text.locate_eq_locateByShape] at hfound ⊢
    exact (hshape want got).ok hfound
  · exact (hshape want got).ok hfound
  · exact (Ty.locateAt_kept limits.maxDepth limits'.maxDepth h want got).ok hfound
  · exact (Ty.flowsAt_kept limits.maxDepth limits'.maxDepth h want got).ok hb
  · rintro u want got rfl hsettled
    exact Unifier.unify_kept h hsettled

/-- With two levels the declared text cannot be read, but its outermost generic
has fewer arguments than the actual one; with four it can be read, and the same
is located in the types. -/
theorem higher_limit_agrees_pair :
    let want := "Pair<slice<slice<int>>>".toList
    let got := "Pair<int,int>".toList
    Ty.read ⟨2⟩ want = .error (.tooDeep 2) ∧
      Text.locate ⟨2⟩ want got = .ok (some (here "Pair" 1 2)) ∧
      Text.locate ⟨4⟩ want got = .ok (some (here "Pair" 1 2)) := by
  intro want got
  have hfound : Text.locate ⟨2⟩ want got = .ok (some (here "Pair" 1 2)) := rfl
  have hlimits : (⟨2⟩ : Limits).maxDepth ≤ (⟨4⟩ : Limits).maxDepth := by decide
  obtain ⟨-, -, -, hlocate, -⟩ := higher_limit_agrees hlimits
  exact ⟨rfl, hfound, hlocate want got _ hfound⟩

/-! ## the exact limit -/

namespace Ty

/-- **The limit of reading is exact.**  A text that is read as `t` under some limits is
read as `t` under all limits that leave room for the depth of `t`; under all others
reading gives up and names the limit, and nothing else is complained about. -/
theorem read_of_any_limit {limits limits' : Limits} {text : Text} {t : Ty}
    (h : read limits text = .ok t) :
    read limits' text =
      if t.depth ≤ limits'.maxDepth then .ok t else .error (.tooDeep limits'.maxDepth) := by
  obtain ⟨hderives, hdepth⟩ := read_eq_ok_iff.mp h
  split
  · next hroom => exact read_eq_ok_iff.mpr ⟨hderives, hroom⟩
  · next hshort =>
    have hle : limits'.maxDepth ≤ limits.maxDepth := by omega
    have hkept := readAt_kept_or_tooDeep limits'.maxDepth limits.maxDepth hle text
    rcases hkept with ⟨e, rfl, herror⟩ | hsame
    · exact herror
    · -- what the lower limit lets through has no more levels than it
      have hread : read limits' text = .ok t := hsame.trans h
      exact absurd (read_eq_ok_iff.mp hread).2 hshort

/-- A `Foo<>` is no deeper than the `int` beside it.  Four levels are just enough, and with
three the limit is named, although what is too deep comes last. -/
theorem read_of_any_limit_nested :
    let text := "Struct\x7bb:int,a:Optional<Pair<int,Foo<>>>\x7d".toList
    let t : Ty := .struct
      [("a", .optional (.generic "Pair" [.scalar .int, .generic "Foo" []])), ("b", .scalar .int)]
    read ⟨9⟩ text = .ok t ∧ read ⟨4⟩ text = .ok t ∧ read ⟨3⟩ text = .error (.tooDeep 3) ∧
      read ⟨0⟩ text = .error (.tooDeep 0) := by
  intro text t
  have hread : read ⟨9⟩ text = .ok t := rfl
  exact ⟨hread, read_of_any_limit hread, read_of_any_limit hread, read_of_any_limit hread⟩

end Ty

end TypeFlow
