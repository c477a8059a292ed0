import TypeFlow.Proofs.Unification

/-!
# TypeFlow.Proofs.Matching

Unification is complete.  Where some substitution `σ` makes the actual type of
the declared one, a run finds its way to it: it never fails, whatever is bound
already, as long as `σ` gives the bound variables the types they are bound to
(`Agrees`).  And it binds no more than it has to: variables of the declared type,
each to what `σ` gives it.

* `unifyAt_struct`, `unifyAt_parts` — a level at which two types are taken apart
  ends as the run over their parts does;
* `unifyPairs_reaches` — a run over parts follows `σ` when each part does;
* `unifyAt_reaches` — a run that has levels enough for the declared type follows
  `σ` to the end.
-/

namespace TypeFlow

namespace Subst

/-! ## substitutions that agree -/

/-- `σ` gives every variable that `s` binds the type that it is bound to. -/
def Agrees (σ s : Subst) : Prop :=
  ∀ v t, Text.isVar v.toList = true → NameMap.find? s v = some t → σ.apply (.named v) = t

/-- Where nothing is bound, everything agrees. -/
theorem agrees_nil (σ : Subst) : Agrees σ [] := fun v t _ hfind => by
  rw [NameMap.find?_nil] at hfind
  contradiction

/-- A variable may be bound to what it is given. -/
theorem Agrees.insert {σ s : Subst} (h : Agrees σ s) (v : String) :
    Agrees σ (NameMap.insert s v (σ.apply (.named v))) := fun n t hn hfind => by
  rw [NameMap.find?_insert] at hfind
  by_cases heq : v = n
  · rw [if_pos heq, Option.some.injEq] at hfind
    rw [← heq]
    exact hfind
  · rw [if_neg heq] at hfind
    exact h n t hn hfind

/-- Where a run towards `σ` gets from `s`: all that `s'` binds besides are
variables of `want`, and with `s'` or more put in, `want` becomes what `σ` makes
of it. -/
structure Reaches (σ : Subst) (want : Ty) (s s' : Subst) : Prop where
  grown : Grown (Ty.Subterm · want) (fun _ => True) s s'
  agrees : σ.Agrees s'
  applied : ∀ s'', Extends s'' s' → s''.apply want = σ.apply want

end Subst

namespace Ty

open Subst

/-! ## levels that are taken apart -/

/-- Two records with the same names end as their fields do. -/
theorem unifyAt_struct {limit budget : Nat} {ws gs : NameMap Ty} (hnames : ws.names = gs.names)
    (s : Subst) :
    (unifyAt limit (budget + 1) (.struct ws) (.struct gs) s).outcome =
      (unifyPairs limit budget (ws.values.zip gs.values) s).outcome := by
  rw [unifyAt_of_records, if_pos hnames]
  rfl

/-- Two types that are neither variables nor wildcards nor records, with the
same head and arity, end as their arguments do. -/
theorem unifyAt_parts {limit budget : Nat} {want got : Ty} (hvar : want.isVar = false)
    (hwild : (want.isWildcard || got.isWildcard) = false) (hwant : ∀ fields, want ≠ .struct fields)
    (hgot : ∀ fields, got ≠ .struct fields) (hhead : sameHead want.head got.head = true)
    (harity : want.arity = got.arity) (s : Subst) :
    (unifyAt limit (budget + 1) want got s).outcome =
      (unifyPairs limit budget (want.args.zip got.args) s).outcome := by
  rw [unifyAt_of_heads limit budget hvar hwild hwant hgot, if_neg (by simp [hhead]),
    if_neg (by simp [harity])]
  split
  · next hnone =>
    -- a head without arguments is done, and so is an empty list of parts
    rw [List.eq_nil_of_length_eq_zero hnone]
    rfl
  · rfl

/-! ## runs that follow a substitution -/

/-- A variable reaches what it is given: it is bound to that, or was before. -/
theorem bindVar_reaches {σ s : Subst} {v : String} (hv : Text.isVar v.toList = true)
    (hs : σ.Agrees s) :
    ∃ s', (bindVar v (σ.apply (.named v)) s).outcome = .ok s' ∧ σ.Reaches (.named v) s s' := by
  unfold bindVar
  cases hfind : NameMap.find? s v with
  | none =>
      refine ⟨_, rfl, grown_insert hv hfind (.refl _) trivial, hs.insert v, fun s'' hext => ?_⟩
      have hbound : NameMap.find? (NameMap.insert s v (σ.apply (.named v))) v =
          some (σ.apply (.named v)) := by
        rw [NameMap.find?_insert, if_pos rfl]
      exact apply_named_of_isVar hv (hext v _ hbound)
  | some bound =>
      have hbound : σ.apply (.named v) = bound := hs v bound hv hfind
      have hchars : bound.chars = (σ.apply (.named v)).chars := by rw [hbound]
      simp only [hchars, if_true]
      refine ⟨s, rfl, .refl _ _ s, hs, fun s'' hext => ?_⟩
      rw [hbound]
      exact apply_named_of_isVar hv (hext v bound hfind)

/-- A run over parts follows `σ` when every part on its own does. -/
theorem unifyPairs_reaches {limit budget : Nat} {σ : Subst} {want : Ty} {ws : List Ty}
    (hparts : ∀ w ∈ ws, ∀ t, Subterm t w → Subterm t want)
    (hreaches : ∀ w ∈ ws, ∀ s, σ.Agrees s →
      ∃ s', (unifyAt limit budget w (σ.apply w) s).outcome = .ok s' ∧ σ.Reaches w s s')
    {s : Subst} (hs : σ.Agrees s) :
    ∃ s', (unifyPairs limit budget (ws.zip (ws.map σ.apply)) s).outcome = .ok s' ∧
      Grown (Subterm · want) (fun _ => True) s s' ∧ σ.Agrees s' ∧
      ∀ s'', Extends s'' s' → ∀ w ∈ ws, s''.apply w = σ.apply w := by
  induction ws generalizing s with
  | nil => exact ⟨s, rfl, .refl _ _ s, hs, by simp⟩
  | cons w ws ih =>
      obtain ⟨hpart, hparts⟩ := List.forall_mem_cons.mp hparts
      obtain ⟨hfirst, hrest⟩ := List.forall_mem_cons.mp hreaches
      obtain ⟨s₁, hrun, hw⟩ := hfirst s hs
      obtain ⟨s₂, hruns, hgrown, hagrees, happlied⟩ := ih hparts hrest hw.agrees
      have houtcome : (unifyPairs limit budget ((w :: ws).zip ((w :: ws).map σ.apply)) s).outcome =
          .ok s₂ := by
        rw [List.map_cons, List.zip_cons_cons, unifyPairs, Run.each, Run.andThen_ok hrun]
        exact hruns
      have hgrown₁ := hw.grown.mono hpart fun _ h => h
      refine ⟨s₂, houtcome, hgrown₁.trans hgrown, hagrees, fun s'' hext => ?_⟩
      exact List.forall_mem_cons.mpr
        ⟨hw.applied s'' (hext.trans hgrown.keeps), happlied s'' hext⟩

/-- Two substitutions make the same of a type without fields when they do so of
its arguments. -/
theorem apply_congr_args {s σ : Subst} {t : Ty} (hvar : t.isVar = false)
    (ht : ∀ fields, t ≠ .struct fields) (h : ∀ u ∈ t.args, s.apply u = σ.apply u) :
    s.apply t = σ.apply t := by
  cases t with
  | scalar _ => rfl
  | named n => rw [apply_named_of_not_isVar s hvar, apply_named_of_not_isVar σ hvar]
  | generic n args =>
      have hargs := List.map_congr_left h
      simp only [apply, applyList_eq_map]
      exact congrArg (Ty.generic n) hargs
  | optional u => simp only [apply, h u List.mem_cons_self]
  | struct fields => exact absurd rfl (ht fields)
  | union alts =>
      have halts := List.map_congr_left h
      simp only [apply, applyList_eq_map]
      exact congrArg Ty.union halts

/-- Substitutions that agree on the values of a record agree on it. -/
theorem apply_congr_fields {s σ : Subst} {fields : NameMap Ty}
    (h : ∀ u ∈ fields.values, s.apply u = σ.apply u) :
    s.apply (.struct fields) = σ.apply (.struct fields) := by
  have hfields : ∀ e ∈ fields, (e.1, s.apply e.2) = (e.1, σ.apply e.2) :=
    fun e he => by rw [h e.2 (List.mem_map_of_mem he)]
  simp only [apply, applyFields_eq_map, List.map_congr_left hfields]

/-- Only a variable can become the wildcard. -/
theorem isWildcard_apply (σ : Subst) {t : Ty} (h : t.isVar = false) :
    (σ.apply t).isWildcard = t.isWildcard := by
  cases t with
  | named n => rw [apply_named_of_not_isVar σ h]
  | scalar _ => rfl
  | generic _ _ => rfl
  | optional _ => rfl
  | struct _ => rfl
  | union _ => rfl

/-- **A run follows every substitution that solves it**, from any bindings that
the substitution agrees with, as long as there is a level for each level of the
declared type. -/
theorem unifyAt_reaches {limit budget : Nat} {σ s : Subst} {want : Ty} (hdepth : want.depth ≤ budget)
    (hs : σ.Agrees s) :
    ∃ s', (unifyAt limit budget want (σ.apply want) s).outcome = .ok s' ∧
      σ.Reaches want s s' := by
  induction budget generalizing want s with
  | zero =>
      have hpos := want.depth_pos
      omega
  | succ budget ih =>
      by_cases hvar : want.isVar = true
      · obtain ⟨hwant, hv⟩ := eq_of_isVar hvar
        unfold unifyAt
        rw [if_pos hvar, hwant]
        exact bindVar_reaches hv hs
      rw [Bool.not_eq_true] at hvar
      by_cases hwild : want.isWildcard = true
      · rw [eq_of_isWildcard hwild, apply_named_of_not_isVar σ (by decide)]
        refine ⟨s, rfl, .refl _ _ s, hs, fun s'' _ => ?_⟩
        rw [apply_named_of_not_isVar s'' (by decide), apply_named_of_not_isVar σ (by decide)]
      rw [Bool.not_eq_true] at hwild
      by_cases hstruct : ∃ fields, want = .struct fields
      · obtain ⟨fields, rfl⟩ := hstruct
        have hparts : ∀ w ∈ NameMap.values fields, ∀ t, Subterm t w → Subterm t (.struct fields) :=
          fun w hw t ht => .of_mem_values hw ht
        have hreaches : ∀ w ∈ NameMap.values fields, ∀ s, σ.Agrees s →
            ∃ s', (unifyAt limit budget w (σ.apply w) s).outcome = .ok s' ∧ σ.Reaches w s s' :=
          fun w hw s hs => by
            obtain ⟨e, he, rfl⟩ := List.mem_map.mp hw
            have hlt := depth_lt_of_mem_fields he
            exact ih (by omega) hs
        obtain ⟨s', hrun, hgrown, hagrees, happlied⟩ := unifyPairs_reaches hparts hreaches hs
        refine ⟨s', ?_, hgrown, hagrees, fun s'' hext => apply_congr_fields (happlied s'' hext)⟩
        rw [apply, unifyAt_struct (σ.names_applyFields fields).symm, σ.values_applyFields]
        exact hrun
      · have hwant : ∀ fields, want ≠ .struct fields := fun fields h => hstruct ⟨fields, h⟩
        have hparts : ∀ w ∈ want.args, ∀ t, Subterm t w → Subterm t want :=
          fun w hw t ht => .arg hw ht
        have hreaches : ∀ w ∈ want.args, ∀ s, σ.Agrees s →
            ∃ s', (unifyAt limit budget w (σ.apply w) s).outcome = .ok s' ∧ σ.Reaches w s s' :=
          fun w hw s hs => by
            have hlt := depth_lt_of_mem_args hw
            exact ih (by omega) hs
        obtain ⟨s', hrun, hgrown, hagrees, happlied⟩ := unifyPairs_reaches hparts hreaches hs
        refine ⟨s', ?_, hgrown, hagrees,
          fun s'' hext => apply_congr_args hvar hwant (happlied s'' hext)⟩
        have hhead : sameHead want.head (σ.apply want).head = true := by
          rw [σ.head_apply hvar, sameHead_iff]
        have harity : want.arity = (σ.apply want).arity := by
          rw [arity, arity, σ.args_apply hvar, List.length_map]
        rw [unifyAt_parts hvar (by rw [isWildcard_apply σ hvar, hwild, Bool.or_self]) hwant
          (σ.apply_ne_struct hvar hwant) hhead harity, σ.args_apply hvar]
        exact hrun

end Ty

namespace Unifier

/-- A call whose run ends well is granted, and leaves the bindings of the run. -/
theorem unify_of_outcome {u : Unifier} {want got : Ty} {s : Subst}
    (h : (want.unify u.limits got u.subst).outcome = .ok s) :
    (u.unify want got).1 = .ok () ∧ (u.unify want got).2.subst = s := by
  rw [unify, take_fst, take_subst, h]
  exact ⟨rfl, rfl⟩

/-- **Unification is complete and binds least.**  If `σ` agrees with what is
bound and makes `got` of `want`, then `want` is unified with `got`: the bindings
are kept, they now make `got` of `want`, and what is bound besides are type
variables of `want`, each to the type that `σ` gives it.  So a type is unified
with itself, binding no variable to anything but itself. -/
theorem unify_complete (u : Unifier) :
    (∀ (want got : Ty) (σ : Subst), want.depth ≤ u.limits.maxDepth → σ.Agrees u.subst →
        σ.apply want = got →
        (u.unify want got).1 = .ok () ∧
          Subst.Extends (u.unify want got).2.subst u.subst ∧
          (u.unify want got).2.subst.apply want = got ∧
          ∀ v t, NameMap.find? u.subst v = none →
            NameMap.find? (u.unify want got).2.subst v = some t →
            Text.isVar v.toList = true ∧ Ty.Subterm (.named v) want ∧ t = σ.apply (.named v)) ∧
      ∀ t : Ty, t.depth ≤ u.limits.maxDepth → u.subst = [] →
        (u.unify t t).1 = .ok () ∧
          ∀ v b, NameMap.find? (u.unify t t).2.subst v = some b →
            Text.isVar v.toList = true ∧ Ty.Subterm (.named v) t ∧ b = .named v := by
  have hmatch : ∀ (want got : Ty) (σ : Subst), want.depth ≤ u.limits.maxDepth → σ.Agrees u.subst →
      σ.apply want = got →
      (u.unify want got).1 = .ok () ∧ σ.Reaches want u.subst (u.unify want got).2.subst := by
    rintro want _ σ hdepth hagrees rfl
    obtain ⟨s, hrun, hreaches⟩ := Ty.unifyAt_reaches hdepth hagrees
    obtain ⟨hgranted, hsubst⟩ := unify_of_outcome hrun
    rw [hsubst]
    exact ⟨hgranted, hreaches⟩
  refine ⟨fun want got σ hdepth hagrees hgot => ?_, fun t hdepth hempty => ?_⟩
  · obtain ⟨hgranted, hreaches⟩ := hmatch want got σ hdepth hagrees hgot
    refine ⟨hgranted, hreaches.grown.keeps, ?_, fun v t hnone hsome => ?_⟩
    · rw [hreaches.applied _ (.refl _), hgot]
    · obtain ⟨hv, hvar, -⟩ := hreaches.grown.fresh v t hnone hsome
      exact ⟨hv, hvar, (hreaches.agrees v t hv hsome).symm⟩
  · have hagrees : Subst.Agrees [] u.subst := by
      rw [hempty]
      exact Subst.agrees_nil []
    obtain ⟨hgranted, hreaches⟩ := hmatch t t [] hdepth hagrees (Subst.apply_nil t)
    refine ⟨hgranted, fun v b hsome => ?_⟩
    have hnone : NameMap.find? u.subst v = none := by rw [hempty, NameMap.find?_nil]
    obtain ⟨hv, hvar, -⟩ := hreaches.grown.fresh v b hnone hsome
    have hb := hreaches.agrees v b hv hsome
    rw [Subst.apply_nil] at hb
    exact ⟨hv, hvar, hb.symm⟩

/-- `T` is bound before, `U` has to become the wildcard, and `V` is left to itself:
unification finds these bindings, with `V` bound to `V`.  The declared type, wildcard
included, unifies with itself. -/
theorem unify_complete_pair :
    let u : Unifier := { limits := ⟨3⟩, subst := [("T", .scalar .int)] }
    let want : Ty := .generic "Pair" [.named "T", .optional (.named "U"), .named "V", .named "any"]
    let got : Ty :=
      .generic "Pair" [.scalar .int, .optional (.named "any"), .named "V", .named "any"]
    let σ : Subst := [("T", .scalar .int), ("U", .named "any")]
    σ.apply want = got ∧ (u.unify want got).1 = .ok () ∧
      (u.unify want got).2.subst.apply want = got ∧
      (u.unify want got).2.subst =
        [("T", .scalar .int), ("U", .named "any"), ("V", .named "V")] ∧
      (Unifier.unify { limits := ⟨3⟩ } want want).1 = .ok () := by
  intro u want got σ
  have hagrees : σ.Agrees u.subst := by
    intro v t _ hfind
    have hmem := NameMap.mem_of_find?_eq_some hfind
    rw [List.mem_singleton, Prod.mk.injEq] at hmem
    rw [hmem.1, hmem.2]
    rfl
  have hdepth : want.depth ≤ 3 := by decide
  obtain ⟨hgranted, -, happlied, -⟩ := (unify_complete u).1 want got σ hdepth hagrees rfl
  obtain ⟨hself, -⟩ := (unify_complete { limits := ⟨3⟩ }).2 want hdepth rfl
  exact ⟨rfl, hgranted, happlied, by decide +kernel, hself⟩

end Unifier

end TypeFlow
