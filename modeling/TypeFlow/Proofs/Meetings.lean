import TypeFlow.Proofs.Matching

/-!
# TypeFlow.Proofs.Meetings

When unification succeeds, told without running it.  A run goes down two types in
step until a variable of the declared type meets a part of the actual one.  So it
gets through exactly when the two types line up as far as it goes, and when no
variable meets types that are written differently.

* `Meets` — which variable meets which part;
* `Aligned` — the types line up, within a number of levels;
* `Consistent` — each variable meets one text, that of its binding if it has one;
* `met_of_unifyAt` — what a run that succeeds leaves behind;
* `exists_unifyAt_iff` — a run succeeds exactly when the types line up and what
  their variables meet is consistent.
-/

namespace TypeFlow

open Subst

namespace Ty

/-! ## what variables meet -/

/-- The variable `v` of the declared type meets the part `t` of the actual one. -/
inductive Meets (v : String) (t : Ty) : Ty → Ty → Prop where
  | here (hv : Text.isVar v.toList = true) : Meets v t (.named v) t
  | arg {want got : Ty} {p : Ty × Ty} (hp : p ∈ want.args.zip got.args) (h : Meets v t p.1 p.2) :
      Meets v t want got
  | field {ws gs : NameMap Ty} {p : Ty × Ty} (hp : p ∈ ws.values.zip gs.values)
      (h : Meets v t p.1 p.2) : Meets v t (.struct ws) (.struct gs)

/-- A variable meets what stands opposite to it, and nothing else. -/
theorem meets_var_iff {n v : String} {t got : Ty} (hv : Text.isVar v.toList = true) :
    Meets n t (.named v) got ↔ n = v ∧ t = got := by
  constructor
  · intro h
    cases h with
    | here _ => exact ⟨rfl, rfl⟩
    | arg hp _ => simp [args] at hp
  · rintro ⟨rfl, rfl⟩
    exact .here hv

/-- In records a variable meets what it meets in their values. -/
theorem meets_struct_iff {v : String} {t : Ty} {ws gs : NameMap Ty} :
    Meets v t (.struct ws) (.struct gs) ↔
      ∃ p ∈ ws.values.zip gs.values, Meets v t p.1 p.2 := by
  constructor
  · intro h
    cases h with
    | arg hp _ => simp [args] at hp
    | field hp h => exact ⟨_, hp, h⟩
  · rintro ⟨p, hp, h⟩
    exact .field hp h

/-- In other types, if they are no variable, it meets what it meets in their
arguments. -/
theorem meets_args_iff {v : String} {t want got : Ty} (hvar : want.isVar = false)
    (hwant : ∀ fields, want ≠ .struct fields) :
    Meets v t want got ↔ ∃ p ∈ want.args.zip got.args, Meets v t p.1 p.2 := by
  constructor
  · intro h
    cases h with
    | here hv => simp [isVar, hv] at hvar
    | arg hp h => exact ⟨_, hp, h⟩
    | field _ _ => exact absurd rfl (hwant _)
  · rintro ⟨p, hp, h⟩
    exact .arg hp h

/-- The wildcard has no parts that a variable could meet. -/
theorem not_meets_wildcard {v : String} {t want got : Ty} (hvar : want.isVar = false)
    (hwild : (want.isWildcard || got.isWildcard) = true) : ¬ Meets v t want got := by
  have hargs : want.args = [] ∨ got.args = [] := by
    rcases Bool.or_eq_true_iff.mp hwild with hwild | hwild
    · exact .inl (by rw [eq_of_isWildcard hwild]; rfl)
    · exact .inr (by rw [eq_of_isWildcard hwild]; rfl)
  intro h
  cases h with
  | here hv => simp [isVar, hv] at hvar
  | arg hp _ => rcases hargs with hargs | hargs <;> simp [hargs] at hp
  | field _ _ => cases hwild

/-! ## types that line up -/

/-- The types agree on all levels up to the variables and wildcards, and there are
no more than `budget` of these levels. -/
inductive Aligned : Nat → Ty → Ty → Prop where
  | var {budget : Nat} {v : String} (hv : Text.isVar v.toList = true) (got : Ty) :
      Aligned (budget + 1) (.named v) got
  | wildcardLeft {budget : Nat} (got : Ty) : Aligned (budget + 1) (.named wildcardName) got
  | wildcardRight {budget : Nat} (want : Ty) : Aligned (budget + 1) want (.named wildcardName)
  | fields {budget : Nat} {ws gs : NameMap Ty} (hnames : ws.names = gs.names)
      (hparts : ∀ p ∈ ws.values.zip gs.values, Aligned budget p.1 p.2) :
      Aligned (budget + 1) (.struct ws) (.struct gs)
  | args {budget : Nat} {want got : Ty} (hwant : ∀ fields, want ≠ .struct fields)
      (hgot : ∀ fields, got ≠ .struct fields) (hhead : sameHead want.head got.head = true)
      (harity : want.arity = got.arity)
      (hparts : ∀ p ∈ want.args.zip got.args, Aligned budget p.1 p.2) :
      Aligned (budget + 1) want got

/-- Each variable meets types that are written alike, and like its binding if it
has one. -/
structure Consistent (s : Subst) (want got : Ty) : Prop where
  bound : ∀ v t b, Meets v t want got → NameMap.find? s v = some b → b.chars = t.chars
  once : ∀ v t u, Meets v t want got → Meets v u want got → t.chars = u.chars

/-! ## what a run leaves behind -/

/-- From `s` to `s'`, the variables that `meets` speaks of are bound to what they
meet, and nothing else changes. -/
structure Met (meets : String → Ty → Prop) (s s' : Subst) : Prop where
  keeps : Extends s' s
  found : ∀ v t, meets v t → ∃ b, NameMap.find? s' v = some b ∧ b.chars = t.chars
  fresh : ∀ v b, NameMap.find? s v = none → NameMap.find? s' v = some b → meets v b

namespace Met

variable {meets meets' : String → Ty → Prop} {s s₁ s₂ : Subst}

/-- Only which meetings there are matters. -/
theorem congr (h : Met meets s s₁) (hiff : ∀ v t, meets' v t ↔ meets v t) : Met meets' s s₁ where
  keeps := h.keeps
  found v t ht := h.found v t ((hiff v t).mp ht)
  fresh v b hnone hsome := (hiff v b).mpr (h.fresh v b hnone hsome)

/-- A run that changes nothing. -/
theorem unchanged (h : ∀ v t, ¬ meets v t) : Met meets s s where
  keeps := .refl s
  found v t ht := absurd ht (h v t)
  fresh v b hnone hsome := by
    rw [hnone] at hsome
    cases hsome

/-- One run after the other. -/
theorem trans (h : Met meets s s₁) (h' : Met meets' s₁ s₂) :
    Met (fun v t => meets v t ∨ meets' v t) s s₂ where
  keeps := h'.keeps.trans h.keeps
  found v t ht := by
    rcases ht with ht | ht
    · obtain ⟨b, hfind, hchars⟩ := h.found v t ht
      exact ⟨b, h'.keeps v b hfind, hchars⟩
    · exact h'.found v t ht
  fresh v b hnone hsome := by
    cases hmid : NameMap.find? s₁ v with
    | none => exact .inr (h'.fresh v b hmid hsome)
    | some b' =>
        have hkept := h'.keeps v b' hmid
        rw [hsome, Option.some.injEq] at hkept
        rw [hkept]
        exact .inl (h.fresh v b' hnone hmid)

/-- What has been met is consistent with the bindings before it was. -/
theorem consistent {want got : Ty} (h : Met (Meets · · want got) s s₁) :
    Consistent s want got where
  bound v t b ht hfind := by
    obtain ⟨b', hfind', hchars⟩ := h.found v t ht
    rw [h.keeps v b hfind, Option.some.injEq] at hfind'
    rw [hfind', hchars]
  once v t u ht hu := by
    obtain ⟨b, hfind, hchars⟩ := h.found v t ht
    obtain ⟨b', hfind', hchars'⟩ := h.found v u hu
    rw [hfind, Option.some.injEq] at hfind'
    rw [← hchars, ← hchars', hfind']

end Met

/-- A variable that is bound or found to agree has met the type. -/
theorem met_of_bindVar {v : String} {got : Ty} {s s' : Subst}
    (h : (bindVar v got s).outcome = .ok s') : Met (fun n t => n = v ∧ t = got) s s' := by
  rcases bindVar_eq_ok_iff.mp h with ⟨hfree, rfl⟩ | ⟨bound, hfind, hsame, rfl⟩
  · refine ⟨extends_insert hfree got, ?_, fun n b hnone hsome => ?_⟩
    · rintro n t ⟨rfl, rfl⟩
      exact ⟨t, by rw [NameMap.find?_insert, if_pos rfl], rfl⟩
    · rw [NameMap.find?_insert] at hsome
      split at hsome
      · next heq => exact ⟨heq.symm, (Option.some.inj hsome).symm⟩
      · rw [hnone] at hsome
        cases hsome
  · refine ⟨.refl s, ?_, fun n b hnone hsome => ?_⟩
    · rintro n t ⟨rfl, rfl⟩
      exact ⟨bound, hfind, hsame⟩
    · rw [hnone] at hsome
      cases hsome

/-- A run over pairs, when each pair on its own has been met. -/
theorem met_of_unifyPairs {limit budget : Nat}
    (hpair : ∀ w g s s', (unifyAt limit budget w g s).outcome = .ok s' →
      Aligned budget w g ∧ Met (Meets · · w g) s s')
    {ps : List (Ty × Ty)} {s s' : Subst}
    (h : (unifyPairs limit budget ps s).outcome = .ok s') :
    (∀ p ∈ ps, Aligned budget p.1 p.2) ∧ Met (fun v t => ∃ p ∈ ps, Meets v t p.1 p.2) s s' := by
  induction ps generalizing s with
  | nil =>
      cases h
      exact ⟨by simp, .unchanged (by simp)⟩
  | cons p ps ih =>
      obtain ⟨s₁, hp, hps⟩ := andThen_eq_ok h
      obtain ⟨haligned, hmet⟩ := hpair p.1 p.2 s s₁ hp
      obtain ⟨hrest, hmets⟩ := ih hps
      exact ⟨List.forall_mem_cons.mpr ⟨haligned, hrest⟩, (hmet.trans hmets).congr (by simp)⟩

/-- **What a successful run has done**, with any number of levels: the types line
up, and the variables have been bound to what they meet. -/
theorem met_of_unifyAt {limit budget : Nat} {want got : Ty} {s s' : Subst}
    (h : (unifyAt limit budget want got s).outcome = .ok s') :
    Aligned budget want got ∧ Met (Meets · · want got) s s' := by
  induction budget generalizing want got s s' with
  | zero => cases h
  | succ budget ih =>
      have hpair : ∀ w g s s', (unifyAt limit budget w g s).outcome = .ok s' →
          Aligned budget w g ∧ Met (Meets · · w g) s s' := fun w g s s' h => ih h
      by_cases hvar : want.isVar = true
      · obtain ⟨hwant, hv⟩ := eq_of_isVar hvar
        unfold unifyAt at h
        rw [if_pos hvar] at h
        rw [hwant]
        exact ⟨.var hv got, (met_of_bindVar h).congr fun _ _ => meets_var_iff hv⟩
      rw [Bool.not_eq_true] at hvar
      cases unified_of_unifyAt h with
      | bind hv _ _ => simp [isVar, hv] at hvar
      | bound hv _ _ => simp [isVar, hv] at hvar
      | wildcardLeft got s =>
          exact ⟨.wildcardLeft got, .unchanged fun _ _ => not_meets_wildcard hvar rfl⟩
      | wildcardRight want s =>
          have hwild : (want.isWildcard || (named wildcardName).isWildcard) = true := by
            simp [isWildcard]
          exact ⟨.wildcardRight want, .unchanged fun _ _ => not_meets_wildcard hvar hwild⟩
      | fields hnames hparts =>
          obtain ⟨haligned, hmet⟩ := met_of_unifyPairs hpair hparts
          exact ⟨.fields hnames haligned, hmet.congr fun _ _ => meets_struct_iff⟩
      | args _ hwant hgot hhead harity hparts =>
          obtain ⟨haligned, hmet⟩ := met_of_unifyPairs hpair hparts
          exact ⟨.args hwant hgot hhead harity haligned,
            hmet.congr fun _ _ => meets_args_iff hvar hwant⟩

/-! ## runs that succeed -/

/-- Every binding is written as `text` says for its variable. -/
def WrittenAs (text : String → Text) (s : Subst) : Prop :=
  ∀ v b, NameMap.find? s v = some b → b.chars = text v

/-- A variable meets a type written as its text says without a conflict. -/
theorem bindVar_writtenAs {text : String → Text} {v : String} {got : Ty} {s : Subst}
    (hgot : got.chars = text v) (hs : WrittenAs text s) :
    ∃ s', (bindVar v got s).outcome = .ok s' ∧ WrittenAs text s' := by
  cases hfind : NameMap.find? s v with
  | none =>
      refine ⟨_, bindVar_eq_ok_iff.mpr (.inl ⟨hfind, rfl⟩), fun n b hsome => ?_⟩
      rw [NameMap.find?_insert] at hsome
      split at hsome
      · next heq => rw [← heq, ← Option.some.inj hsome, hgot]
      · exact hs n b hsome
  | some bound =>
      have hsame : bound.chars = got.chars := by rw [hs v bound hfind, hgot]
      exact ⟨s, bindVar_eq_ok_iff.mpr (.inr ⟨bound, hfind, hsame, rfl⟩), hs⟩

/-- A list of pairs that can each be unified without a conflict can be unified one after
the other. -/
theorem unifyPairs_writtenAs {limit budget : Nat} {text : String → Text} {ps : List (Ty × Ty)}
    (hpair : ∀ p ∈ ps, ∀ s, WrittenAs text s →
      ∃ s', (unifyAt limit budget p.1 p.2 s).outcome = .ok s' ∧ WrittenAs text s')
    {s : Subst} (hs : WrittenAs text s) :
    ∃ s', (unifyPairs limit budget ps s).outcome = .ok s' ∧ WrittenAs text s' := by
  induction ps generalizing s with
  | nil => exact ⟨s, rfl, hs⟩
  | cons p ps ih =>
      obtain ⟨hp, hps⟩ := List.forall_mem_cons.mp hpair
      obtain ⟨s₁, hrun, hs₁⟩ := hp s hs
      obtain ⟨s₂, hruns, hs₂⟩ := ih hps hs₁
      refine ⟨s₂, ?_, hs₂⟩
      rw [unifyPairs, Run.each, Run.andThen_ok hrun]
      exact hruns

/-- Where the types line up, a run gets through if `text` says how every variable
is written, both what it meets and what it is bound to. -/
theorem unifyAt_writtenAs (limit : Nat) {budget : Nat} {text : String → Text} {want got : Ty}
    {s : Subst} (haligned : Aligned budget want got)
    (hmeets : ∀ v t, Meets v t want got → t.chars = text v) (hs : WrittenAs text s) :
    ∃ s', (unifyAt limit budget want got s).outcome = .ok s' ∧ WrittenAs text s' := by
  induction haligned generalizing s with
  | @var budget v hv got =>
      have hgot : got.chars = text v := hmeets v got (.here hv)
      unfold unifyAt
      rw [if_pos (show (named v).isVar = true from hv)]
      exact bindVar_writtenAs hgot hs
  | wildcardLeft got => exact ⟨s, rfl, hs⟩
  | @wildcardRight budget want =>
      unfold unifyAt
      by_cases hvar : want.isVar = true
      · obtain ⟨hwant, hv⟩ := eq_of_isVar hvar
        rw [if_pos hvar]
        exact bindVar_writtenAs (hmeets _ _ (hwant ▸ .here hv)) hs
      · rw [if_neg hvar, if_pos (by simp [isWildcard])]
        exact ⟨s, rfl, hs⟩
  | @fields budget ws gs hnames _ ih =>
      rw [unifyAt_struct hnames]
      refine unifyPairs_writtenAs (fun p hp s hs => ?_) hs
      exact ih p hp (fun v t h => hmeets v t (.field hp h)) hs
  | @args budget want got hwant hgot hhead harity _ ih =>
      by_cases hvar : want.isVar = true
      · obtain ⟨hwant, hv⟩ := eq_of_isVar hvar
        unfold unifyAt
        rw [if_pos hvar]
        exact bindVar_writtenAs (hmeets _ _ (hwant ▸ .here hv)) hs
      by_cases hwild : (want.isWildcard || got.isWildcard) = true
      · unfold unifyAt
        rw [if_neg hvar, if_pos hwild]
        exact ⟨s, rfl, hs⟩
      rw [Bool.not_eq_true] at hvar hwild
      rw [unifyAt_parts hvar hwild hwant hgot hhead harity]
      refine unifyPairs_writtenAs (fun p hp s hs => ?_) hs
      exact ih p hp (fun v t h => hmeets v t (.arg hp h)) hs

/-- What variables meet is consistent when it can be said how each of them is
written. -/
theorem Consistent.exists_text {s : Subst} {want got : Ty} (h : Consistent s want got) :
    ∃ text : String → Text, (∀ v t, Meets v t want got → t.chars = text v) ∧ WrittenAs text s := by
  have hone : ∀ v, ∃ text : Text, (∀ t, Meets v t want got → t.chars = text) ∧
      ∀ b, NameMap.find? s v = some b → b.chars = text := by
    intro v
    cases hfind : NameMap.find? s v with
    | some b => exact ⟨b.chars, fun t ht => (h.bound v t b ht hfind).symm, by simp⟩
    | none =>
        by_cases hmeet : ∃ t, Meets v t want got
        · obtain ⟨t, ht⟩ := hmeet
          exact ⟨t.chars, fun u hu => h.once v u t hu ht, by simp⟩
        · exact ⟨[], fun t ht => absurd ⟨t, ht⟩ hmeet, by simp⟩
  obtain ⟨text, htext⟩ := Classical.skolem.mp hone
  exact ⟨text, fun v t ht => (htext v).1 t ht, fun v b hb => (htext v).2 b hb⟩

/-- **When a run succeeds**: the types line up within the levels there are, and
each variable meets one text. -/
theorem exists_unifyAt_iff (limit : Nat) {budget : Nat} {want got : Ty} {s : Subst} :
    (∃ s', (unifyAt limit budget want got s).outcome = .ok s') ↔
      Aligned budget want got ∧ Consistent s want got := by
  constructor
  · rintro ⟨s', h⟩
    obtain ⟨haligned, hmet⟩ := met_of_unifyAt h
    exact ⟨haligned, hmet.consistent⟩
  · rintro ⟨haligned, hconsistent⟩
    obtain ⟨text, hmeets, hs⟩ := hconsistent.exists_text
    obtain ⟨s', h, -⟩ := unifyAt_writtenAs limit haligned hmeets hs
    exact ⟨s', h⟩

end Ty

end TypeFlow
