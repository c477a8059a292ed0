/-!
# TypeFlow.Proofs.Outcome

Steps that may fail, taken apart once: when a mapped, a chained, a guarded and a
repeated step succeeds.  The members of a list and what they give are kept together as
one list of pairs, so that later proofs never match up two lists by position.
Tests that may fail to return are taken apart likewise: when all members of a
list pass, when one does, and when it can be told at all; `Decides` says that a test
returns and is right, and is handed on to a test of all members or of some.
This module depends only on the core library.
-/

namespace TypeFlow

variable {α β γ ε : Type}

/-- A closed step succeeds when evaluation says so. -/
theorem eq_ok_of_toOption_eq_some {x : Except ε α} {a : α} (h : x.toOption = some a) :
    x = .ok a := by
  cases x with
  | error e => cases h
  | ok b => exact congrArg Except.ok (Option.some.inj h)

/-- A closed step fails when evaluation says so. -/
theorem ne_ok_of_toOption_eq_none {x : Except ε α} (h : x.toOption = none) (a : α) :
    x ≠ .ok a := by
  rintro rfl
  cases h

theorem map_eq_ok_iff {x : Except ε α} {f : α → β} {b : β} :
    x.map f = .ok b ↔ ∃ a, x = .ok a ∧ f a = b := by
  cases x <;> simp [Except.map]

theorem bind_eq_ok_iff {x : Except ε α} {f : α → Except ε β} {b : β} :
    x >>= f = .ok b ↔ ∃ a, x = .ok a ∧ f a = .ok b := by
  cases x <;> simp [bind, Except.bind]

theorem guard_eq_ok_iff {c : Prop} [Decidable c] {e : ε} {x : Except ε α} {a : α} :
    (if c then .error e else x) = .ok a ↔ ¬ c ∧ x = .ok a := by
  by_cases hc : c <;> simp [hc]

/-- A step over a list succeeds when it does so for every member. -/
theorem mapM_eq_ok_iff {f : α → Except ε β} {xs : List α} {ys : List β} :
    xs.mapM f = .ok ys ↔
      ∃ ps : List (α × β), xs = ps.map Prod.fst ∧ ys = ps.map Prod.snd ∧
        ∀ p ∈ ps, f p.1 = .ok p.2 := by
  induction xs generalizing ys with
  | nil =>
      rw [List.mapM_nil]
      constructor
      · intro h
        cases h
        exact ⟨[], rfl, rfl, by simp⟩
      · rintro ⟨ps, hxs, hys, -⟩
        rw [List.map_eq_nil_iff.mp hxs.symm] at hys
        rw [hys]
        rfl
  | cons x xs ih =>
      rw [List.mapM_cons, bind_eq_ok_iff]
      constructor
      · rintro ⟨y, hx, h⟩
        obtain ⟨ys', hxs, hys⟩ := bind_eq_ok_iff.mp h
        obtain ⟨ps, hfst, hsnd, hps⟩ := ih.mp hxs
        cases hys
        exact ⟨(x, y) :: ps, by rw [hfst]; rfl, by rw [hsnd]; rfl,
          List.forall_mem_cons.mpr ⟨hx, hps⟩⟩
      · rintro ⟨ps, hfst, hsnd, hps⟩
        cases ps with
        | nil => simp at hfst
        | cons p ps =>
            rw [List.map_cons, List.cons.injEq] at hfst
            obtain ⟨hp, hps⟩ := List.forall_mem_cons.mp hps
            refine ⟨p.2, by rw [hfst.1]; exact hp, ?_⟩
            have hxs : xs.mapM f = .ok (ps.map Prod.snd) := ih.mpr ⟨ps, hfst.2, rfl, hps⟩
            exact bind_eq_ok_iff.mpr ⟨_, hxs, by rw [hsnd]; rfl⟩

/-- Where every member has something to go with it, the list can be paired with
that. -/
theorem exists_pairs {R : α → β → Prop} {xs : List α} (h : ∀ x ∈ xs, ∃ y, R x y) :
    ∃ ps : List (α × β), ps.map Prod.fst = xs ∧ ∀ p ∈ ps, R p.1 p.2 := by
  induction xs with
  | nil => exact ⟨[], rfl, by simp⟩
  | cons x xs ih =>
      obtain ⟨⟨y, hy⟩, hrest⟩ := List.forall_mem_cons.mp h
      obtain ⟨ps, hps, hR⟩ := ih hrest
      exact ⟨(x, y) :: ps, by rw [List.map_cons, hps], List.forall_mem_cons.mpr ⟨hy, hR⟩⟩

/-- Two lists that agree through `f` and `Prod.fst` are one list of pairs. -/
theorem exists_zip_of_map_eq {f : α → β} {xs : List α} {ps : List (β × γ)}
    (h : ps.map Prod.fst = xs.map f) :
    ∃ zs : List (α × γ), xs = zs.map Prod.fst ∧ ps = zs.map fun z => (f z.1, z.2) := by
  induction xs generalizing ps with
  | nil => exact ⟨[], rfl, List.map_eq_nil_iff.mp h⟩
  | cons x xs ih =>
      cases ps with
      | nil => simp at h
      | cons p ps =>
          rw [List.map_cons, List.map_cons, List.cons.injEq] at h
          obtain ⟨zs, hxs, hps⟩ := ih h.2
          refine ⟨(x, p.2) :: zs, by rw [hxs]; rfl, ?_⟩
          rw [hps, List.map_cons, ← h.1]

/-! ## tests on the members of a list -/

/-- All members pass a test that may fail to return exactly when it returns on
each of them and lets it pass. -/
theorem allM_eq_ok_true_iff {f : α → Except ε Bool} {xs : List α} :
    xs.allM f = .ok true ↔ ∀ x ∈ xs, f x = .ok true := by
  induction xs with
  | nil => simp [List.allM, pure, Except.pure]
  | cons x xs ih =>
      rw [List.allM, List.forall_mem_cons, ← ih]
      rcases f x with e | _ | _ <;> simp [bind, Except.bind, pure, Except.pure]

/-- A test that finds a member has found one that passes. -/
theorem exists_of_anyM_eq_ok_true {f : α → Except ε Bool} {xs : List α}
    (h : xs.anyM f = .ok true) : ∃ x ∈ xs, f x = .ok true := by
  induction xs with
  | nil => simp [List.anyM, pure, Except.pure] at h
  | cons x xs ih =>
      rw [List.anyM] at h
      rcases hx : f x with e | _ | _
      · simp [hx, bind, Except.bind] at h
      · simp only [hx, bind, Except.bind] at h
        obtain ⟨y, hy, hfy⟩ := ih h
        exact ⟨y, List.mem_cons_of_mem _ hy, hfy⟩
      · exact ⟨x, List.mem_cons_self, hx⟩

/-- A test of all members returns if it does on each of them. -/
theorem exists_allM {f : α → Except ε Bool} {xs : List α} (h : ∀ x ∈ xs, ∃ b, f x = .ok b) :
    ∃ b, xs.allM f = .ok b := by
  induction xs with
  | nil => exact ⟨true, rfl⟩
  | cons x xs ih =>
      obtain ⟨⟨b, hx⟩, hxs⟩ := List.forall_mem_cons.mp h
      rw [List.allM, hx]
      cases b with
      | false => exact ⟨false, rfl⟩
      | true => exact ih hxs

/-- A test for some member returns if it does on each of them. -/
theorem exists_anyM {f : α → Except ε Bool} {xs : List α} (h : ∀ x ∈ xs, ∃ b, f x = .ok b) :
    ∃ b, xs.anyM f = .ok b := by
  induction xs with
  | nil => exact ⟨false, rfl⟩
  | cons x xs ih =>
      obtain ⟨⟨b, hx⟩, hxs⟩ := List.forall_mem_cons.mp h
      rw [List.anyM, hx]
      cases b with
      | false => exact ih hxs
      | true => exact ⟨true, rfl⟩

/-- Where the test returns on every member, it is enough that one passes. -/
theorem anyM_eq_ok_true {f : α → Except ε Bool} {xs : List α} {x : α}
    (h : ∀ y ∈ xs, ∃ b, f y = .ok b) (hx : x ∈ xs) (hfx : f x = .ok true) :
    xs.anyM f = .ok true := by
  induction xs with
  | nil => exact absurd hx List.not_mem_nil
  | cons y ys ih =>
      obtain ⟨⟨b, hy⟩, hys⟩ := List.forall_mem_cons.mp h
      rw [List.anyM, hy]
      cases b with
      | true => rfl
      | false =>
          rcases List.mem_cons.mp hx with rfl | hx
          · rw [hfx] at hy
            cases hy
          · exact ih hys hx

/-! ## tests that decide -/

/-- The test returns, and what it returns is whether `p` holds. -/
def Decides (x : Except ε Bool) (p : Prop) : Prop := ∃ b, x = .ok b ∧ (b = true ↔ p)

namespace Decides

variable {x y : Except ε Bool} {p q : Prop}

theorem yes (h : p) : Decides (.ok true : Except ε Bool) p := ⟨true, rfl, iff_of_true rfl h⟩

theorem no (h : ¬ p) : Decides (.ok false : Except ε Bool) p :=
  ⟨false, rfl, iff_of_false Bool.false_ne_true h⟩

/-- What is decided may be said in other words. -/
theorem congr (h : Decides x p) (hiff : p ↔ q) : Decides x q := by
  obtain ⟨b, hx, hb⟩ := h
  exact ⟨b, hx, hb.trans hiff⟩

/-- The test says yes exactly when it holds. -/
theorem eq_ok_true_iff (h : Decides x p) : x = .ok true ↔ p := by
  obtain ⟨b, rfl, hb⟩ := h
  simp [← hb]

/-- Two tests that decide the same return the same. -/
theorem agree (hx : Decides x p) (hy : Decides y p) : ∃ b, x = .ok b ∧ y = .ok b := by
  obtain ⟨a, hx, ha⟩ := hx
  obtain ⟨b, hy, hb⟩ := hy
  have hab : a = b := Bool.eq_iff_iff.mpr (ha.trans hb.symm)
  exact ⟨b, hab ▸ hx, hy⟩

/-- A test of all members decides whether it holds of all of them. -/
theorem allM {f : α → Except ε Bool} {P : α → Prop} {xs : List α}
    (h : ∀ x ∈ xs, Decides (f x) (P x)) : Decides (xs.allM f) (∀ x ∈ xs, P x) := by
  obtain ⟨b, hb⟩ := exists_allM fun x hx => (h x hx).imp fun _ h => h.1
  have hiff : xs.allM f = .ok true ↔ ∀ x ∈ xs, P x :=
    allM_eq_ok_true_iff.trans (forall₂_congr fun x hx => (h x hx).eq_ok_true_iff)
  rw [hb, Except.ok.injEq] at hiff
  exact ⟨b, hb, hiff⟩

/-- A test for some member decides whether it holds of one. -/
theorem anyM {f : α → Except ε Bool} {P : α → Prop} {xs : List α}
    (h : ∀ x ∈ xs, Decides (f x) (P x)) : Decides (xs.anyM f) (∃ x ∈ xs, P x) := by
  have hreturns : ∀ x ∈ xs, ∃ b, f x = .ok b := fun x hx => (h x hx).imp fun _ h => h.1
  obtain ⟨b, hb⟩ := exists_anyM hreturns
  have hiff : xs.anyM f = .ok true ↔ ∃ x ∈ xs, P x := by
    constructor
    · intro hany
      obtain ⟨x, hx, hfx⟩ := exists_of_anyM_eq_ok_true hany
      exact ⟨x, hx, (h x hx).eq_ok_true_iff.mp hfx⟩
    · rintro ⟨x, hx, hp⟩
      exact anyM_eq_ok_true hreturns hx ((h x hx).eq_ok_true_iff.mpr hp)
  rw [hb, Except.ok.injEq] at hiff
  exact ⟨b, hb, hiff⟩

end Decides

end TypeFlow
