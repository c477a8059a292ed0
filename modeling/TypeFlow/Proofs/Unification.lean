import TypeFlow.Proofs.Similar
import TypeFlow.Unify.Unifier

/-!
# TypeFlow.Proofs.Unification

Unification is sound, in one run and over the life of a unifier.  `Unified` says
once what a successful level of unification can have done; from it follows what
a run preserves, and from that what a sequence of calls does.

* `Grown` — bindings are kept, and new ones are variables of the one side bound
  to parts of the other;
* `stage_unifyAt` — what a level does, as a function of the bindings;
* `unifyAt_sound` — a successful run grows the bindings and leaves the two types
  similar under every later substitution;
* `Unifier.serve` — the calls of a unifier, one after the other.
-/

namespace TypeFlow

namespace Subst

/-! ## growing substitutions -/

/-- All bindings of `s` are bindings of `s'`. -/
def Extends (s' s : Subst) : Prop :=
  ∀ v t, NameMap.find? s v = some t → NameMap.find? s' v = some t

theorem Extends.refl (s : Subst) : Extends s s := fun _ _ h => h

/-- Bindings that are extended twice are extended. -/
theorem Extends.trans {s s' s'' : Subst} (h' : Extends s'' s') (h : Extends s' s) :
    Extends s'' s :=
  fun v t hv => h' v t (h v t hv)

/-- Binding a free variable loses nothing. -/
theorem extends_insert {s : Subst} {v : String} (hfree : NameMap.find? s v = none) (t : Ty) :
    Extends (NameMap.insert s v t) s := by
  intro n u hn
  have hne : v ≠ n := by
    intro heq
    rw [heq, hn] at hfree
    contradiction
  rw [NameMap.find?_insert, if_neg hne]
  exact hn

/-- Every type that a variable is bound to is readable. -/
def Readable (s : Subst) : Prop := ∀ v t, NameMap.find? s v = some t → t.Readable

/-- The bindings of `s` are kept, and what `s'` binds besides are type variables
among `vars`, to types among `parts`. -/
structure Grown (vars parts : Ty → Prop) (s s' : Subst) : Prop where
  keeps : Extends s' s
  fresh : ∀ v t, NameMap.find? s v = none → NameMap.find? s' v = some t →
    Text.isVar v.toList = true ∧ vars (.named v) ∧ parts t

variable {vars parts : Ty → Prop} {s s' s'' : Subst}

theorem Grown.refl (vars parts : Ty → Prop) (s : Subst) : Grown vars parts s s where
  keeps := Extends.refl s
  fresh := fun v t hnone hsome => by
    rw [hnone] at hsome
    contradiction

/-- What grows twice has grown. -/
theorem Grown.trans (h : Grown vars parts s s') (h' : Grown vars parts s' s'') :
    Grown vars parts s s'' where
  keeps := h'.keeps.trans h.keeps
  fresh := fun v t hnone hsome => by
    cases hmid : NameMap.find? s' v with
    | none => exact h'.fresh v t hmid hsome
    | some u =>
        -- a binding made by the first half is kept by the second
        have hkept := h'.keeps v u hmid
        rw [hsome, Option.some.injEq] at hkept
        rw [hkept]
        exact h.fresh v u hnone hmid

/-- Growth may be allowed to more variables and to more types. -/
theorem Grown.mono {vars' parts' : Ty → Prop} (h : Grown vars parts s s')
    (hvars : ∀ t, vars t → vars' t) (hparts : ∀ t, parts t → parts' t) :
    Grown vars' parts' s s' where
  keeps := h.keeps
  fresh := fun v t hnone hsome => by
    obtain ⟨hv, hvar, hpart⟩ := h.fresh v t hnone hsome
    exact ⟨hv, hvars _ hvar, hparts _ hpart⟩

/-- Bindings to readable types stay so when they grow by readable types. -/
theorem Grown.readable (h : Grown vars parts s s') (hs : s.Readable)
    (hparts : ∀ t, parts t → t.Readable) : s'.Readable := by
  intro v t hsome
  cases hfind : NameMap.find? s v with
  | none => exact hparts t (h.fresh v t hfind hsome).2.2
  | some u =>
      have hkept := h.keeps v u hfind
      rw [hsome, Option.some.injEq] at hkept
      rw [hkept]
      exact hs v u hfind

/-- Binding a variable that was free. -/
theorem grown_insert {v : String} {t : Ty} (hv : Text.isVar v.toList = true)
    (hfree : NameMap.find? s v = none) (hvar : vars (.named v)) (hpart : parts t) :
    Grown vars parts s (NameMap.insert s v t) where
  keeps := extends_insert hfree t
  fresh := fun n u hnone hsome => by
    rw [NameMap.find?_insert] at hsome
    by_cases heq : v = n
    · rw [if_pos heq, Option.some.injEq] at hsome
      rw [← heq, ← hsome]
      exact ⟨hv, hvar, hpart⟩
    · rw [if_neg heq, hnone] at hsome
      contradiction

end Subst

/-- The outcome of two runs in a row is that of their outcomes in a row. -/
theorem Run.outcome_andThen (r : Run) (next : Subst → Run) :
    (r.andThen next).outcome = r.outcome >>= fun s => (next s).outcome := by
  cases h : r.outcome with
  | error e => rw [andThen_error h, h]; rfl
  | ok s => rw [andThen_ok h]; rfl

namespace Ty

/-! ## one level of unification -/

/-- There is one wildcard. -/
theorem eq_of_isWildcard {t : Ty} (h : t.isWildcard = true) : t = .named wildcardName := by
  cases t with
  | named n => rw [eq_of_beq h]
  | scalar _ => contradiction
  | generic _ _ => contradiction
  | optional _ => contradiction
  | struct _ => contradiction
  | union _ => contradiction

/-- A type variable is its name. -/
theorem eq_of_isVar {t : Ty} (h : t.isVar = true) :
    t = .named t.head ∧ Text.isVar t.head.toList = true := by
  cases t with
  | named n => exact ⟨rfl, h⟩
  | scalar _ => contradiction
  | generic _ _ => contradiction
  | optional _ => contradiction
  | struct _ => contradiction
  | union _ => contradiction

/-- What a level of unification that succeeds has done, when `pairs` unifies the
parts: it has met a variable, a wildcard, two records with the same names or two
heads with the same number of arguments. -/
inductive Unified (pairs : List (Ty × Ty) → Subst → Run) : Ty → Ty → Subst → Subst → Prop where
  | bind {v : String} {s : Subst} (hv : Text.isVar v.toList = true)
      (hfree : NameMap.find? s v = none) (got : Ty) :
      Unified pairs (.named v) got s (NameMap.insert s v got)
  | bound {v : String} {s : Subst} {bound got : Ty} (hv : Text.isVar v.toList = true)
      (hfind : NameMap.find? s v = some bound) (hsame : bound.chars = got.chars) :
      Unified pairs (.named v) got s s
  | wildcardLeft (got : Ty) (s : Subst) : Unified pairs (.named wildcardName) got s s
  | wildcardRight (want : Ty) (s : Subst) : Unified pairs want (.named wildcardName) s s
  | fields {ws gs : NameMap Ty} {s s' : Subst} (hnames : ws.names = gs.names)
      (hparts : (pairs (ws.values.zip gs.values) s).outcome = .ok s') :
      Unified pairs (.struct ws) (.struct gs) s s'
  | args {want got : Ty} {s s' : Subst} (hvar : want.isVar = false)
      (hwant : ∀ fields, want ≠ .struct fields) (hgot : ∀ fields, got ≠ .struct fields)
      (hhead : sameHead want.head got.head = true) (harity : want.arity = got.arity)
      (hparts : (pairs (want.args.zip got.args) s).outcome = .ok s') :
      Unified pairs want got s s'

/-- The parts of two types, unified with `budget` levels left. -/
def unifyPairs (limit budget : Nat) : List (Ty × Ty) → Subst → Run :=
  Run.each fun p => unifyAt limit budget p.1 p.2

/-- **What a variable does**: it is bound if it is free; if it is bound, to a type
written alike, nothing changes. -/
theorem bindVar_eq_ok_iff {v : String} {got : Ty} {s s' : Subst} :
    (bindVar v got s).outcome = .ok s' ↔
      NameMap.find? s v = none ∧ NameMap.insert s v got = s' ∨
        ∃ bound, NameMap.find? s v = some bound ∧ bound.chars = got.chars ∧ s = s' := by
  unfold bindVar
  cases NameMap.find? s v with
  | none => simp [Run.done]
  | some bound => by_cases hsame : bound.chars = got.chars <;> simp [hsame, Run.done, Run.failed]

/-- A variable that succeeds has made a binding or found one. -/
theorem unified_of_bindVar {pairs : List (Ty × Ty) → Subst → Run} {v : String} {got : Ty}
    {s s' : Subst} (hv : Text.isVar v.toList = true) (h : (bindVar v got s).outcome = .ok s') :
    Unified pairs (.named v) got s s' := by
  rcases bindVar_eq_ok_iff.mp h with ⟨hfree, rfl⟩ | ⟨bound, hfind, hsame, rfl⟩
  · exact .bind hv hfree got
  · exact .bound hv hfind hsame

/-- **One level of unification that succeeds**, told by what it has met. -/
theorem unified_of_unifyAt {limit budget : Nat} {want got : Ty} {s s' : Subst}
    (h : (unifyAt limit (budget + 1) want got s).outcome = .ok s') :
    Unified (unifyPairs limit budget) want got s s' := by
  unfold unifyAt at h
  by_cases hvar : want.isVar = true
  · rw [if_pos hvar] at h
    obtain ⟨hwant, hv⟩ := eq_of_isVar hvar
    rw [hwant]
    exact unified_of_bindVar hv h
  rw [if_neg hvar] at h
  rw [Bool.not_eq_true] at hvar
  by_cases hwild : (want.isWildcard || got.isWildcard) = true
  · rw [if_pos hwild] at h
    cases h
    rcases Bool.or_eq_true_iff.mp hwild with hwild | hwild
    · rw [eq_of_isWildcard hwild]
      exact .wildcardLeft got s
    · rw [eq_of_isWildcard hwild]
      exact .wildcardRight want s
  rw [if_neg hwild] at h
  split at h
  · split at h
    · next hnames => exact .fields hnames h
    · contradiction
  · contradiction
  · contradiction
  · next hwant hgot _ =>
    split at h
    · contradiction
    · next hhead =>
      rw [Bool.not_eq_false] at hhead
      split at h
      · contradiction
      · next harity =>
        rw [Decidable.not_not] at harity
        split at h
        · next hnone =>
          -- without arguments there is nothing left to unify
          cases h
          refine .args hvar hwant hgot hhead harity ?_
          rw [List.eq_nil_of_length_eq_zero hnone]
          rfl
        · exact .args hvar hwant hgot hhead harity h

/-! ## levels as functions of the bindings -/

/-- Two records are taken apart when they have the same names. -/
theorem unifyAt_of_records (limit budget : Nat) (ws gs : NameMap Ty) (s : Subst) :
    unifyAt limit (budget + 1) (.struct ws) (.struct gs) s =
      if ws.names = gs.names then
        (Run.done (.decompose (.struct ws) (.struct gs)) s).andThen
          (unifyPairs limit budget (ws.values.zip gs.values))
      else .failed (.struct ws) (.struct gs) (.fieldMismatch (.struct ws) (.struct gs)) := by
  simp only [unifyAt, isVar, isWildcard, Bool.or_self, Bool.false_eq_true, if_false]
  rfl

/-- Two types that are neither variables nor wildcards nor records are taken apart
when they have the same head and arity. -/
theorem unifyAt_of_heads (limit budget : Nat) {want got : Ty} (hvar : want.isVar = false)
    (hwild : (want.isWildcard || got.isWildcard) = false) (hwant : ∀ fields, want ≠ .struct fields)
    (hgot : ∀ fields, got ≠ .struct fields) (s : Subst) :
    unifyAt limit (budget + 1) want got s =
      if sameHead want.head got.head = false then .failed want got (.headMismatch want got)
      else if want.arity ≠ got.arity then
        .failed want got (.arityMismatch want.head want.arity got.arity)
      else if want.arity = 0 then .done (.identity want got) s
      else (Run.done (.decompose want got) s).andThen
        (unifyPairs limit budget (want.args.zip got.args)) := by
  unfold unifyAt
  rw [if_neg (by simp [hvar]), if_neg (by simp [hwild])]
  split
  · next ws _ => exact absurd rfl (hwant ws)
  · next ws _ => exact absurd rfl (hwant ws)
  · next gs _ => exact absurd rfl (hgot gs)
  · rfl

/-- A record is refused where the other type is none. -/
theorem unifyAt_of_mixed (limit budget : Nat) {want got : Ty} (hvar : want.isVar = false)
    (hwild : (want.isWildcard || got.isWildcard) = false)
    (h : (∃ ws, want = .struct ws) ↔ ¬ ∃ gs, got = .struct gs) (s : Subst) :
    unifyAt limit (budget + 1) want got s = .failed want got (.headMismatch want got) := by
  unfold unifyAt
  rw [if_neg (by simp [hvar]), if_neg (by simp [hwild])]
  split
  · simp at h
  · rfl
  · rfl
  · next hwant hgot _ =>
    have hrecord : ∃ gs, got = .struct gs := by
      simpa [not_exists.mpr hwant] using h
    exact absurd hrecord (not_exists.mpr hgot)

/-- What a level of unification does with two types, as a function of the bindings,
when `pairs` unifies the parts: a variable is bound or compared with its binding,
nothing is left to do, the types are refused, or they are taken apart. -/
inductive Stage (pairs : List (Ty × Ty) → Subst → Run) (want got : Ty) : (Subst → Run) → Prop where
  | var {v : String} (hv : Text.isVar v.toList = true) (hwant : want = .named v) :
      Stage pairs want got (bindVar v got)
  | done {step : Step} (hstep : step = .wildcard want got ∨ step = .identity want got) :
      Stage pairs want got (Run.done step)
  | refused (error : UnifyError) : Stage pairs want got fun _ => .failed want got error
  | parts {ps : List (Ty × Ty)} (hps : ∀ p ∈ ps, Subterm p.1 want ∧ Subterm p.2 got) :
      Stage pairs want got fun s => (Run.done (.decompose want got) s).andThen (pairs ps)

/-- Only what a run does with each state of the bindings matters. -/
theorem stage_of_forall {pairs : List (Ty × Ty) → Subst → Run} {want got : Ty}
    {run run' : Subst → Run} (hstage : Stage pairs want got run) (h : ∀ s, run' s = run s) :
    Stage pairs want got run' :=
  funext h ▸ hstage

/-- **One level of unification**, whatever is bound. -/
theorem stage_unifyAt (limit budget : Nat) (want got : Ty) :
    Stage (unifyPairs limit budget) want got (unifyAt limit (budget + 1) want got) := by
  by_cases hvar : want.isVar = true
  · obtain ⟨hwant, hv⟩ := eq_of_isVar hvar
    refine stage_of_forall (.var hv hwant) fun s => ?_
    unfold unifyAt
    rw [if_pos hvar]
  by_cases hwild : (want.isWildcard || got.isWildcard) = true
  · refine stage_of_forall (.done (.inl rfl)) fun s => ?_
    unfold unifyAt
    rw [if_neg hvar, if_pos hwild]
  rw [Bool.not_eq_true] at hvar hwild
  by_cases hmixed : (∃ ws, want = .struct ws) ↔ ¬ ∃ gs, got = .struct gs
  · exact stage_of_forall (.refused _) (unifyAt_of_mixed limit budget hvar hwild hmixed)
  by_cases hrecord : ∃ ws, want = .struct ws
  · have hgot : ∃ gs, got = .struct gs := by simpa [hrecord] using hmixed
    obtain ⟨ws, rfl⟩ := hrecord
    obtain ⟨gs, rfl⟩ := hgot
    have hlevel := unifyAt_of_records limit budget ws gs
    by_cases hnames : NameMap.names ws = NameMap.names gs
    · simp only [if_pos hnames] at hlevel
      refine stage_of_forall (.parts fun p hp => ?_) hlevel
      exact ⟨.of_mem_values (List.of_mem_zip hp).1 (.refl p.1),
        .of_mem_values (List.of_mem_zip hp).2 (.refl p.2)⟩
    · simp only [if_neg hnames] at hlevel
      exact stage_of_forall (.refused _) hlevel
  · have hgot : ¬ ∃ gs, got = .struct gs := by simpa [hrecord] using hmixed
    have hlevel := unifyAt_of_heads limit budget hvar hwild (not_exists.mp hrecord)
      (not_exists.mp hgot)
    split at hlevel
    · exact stage_of_forall (.refused _) hlevel
    split at hlevel
    · exact stage_of_forall (.refused _) hlevel
    split at hlevel
    · exact stage_of_forall (.done (.inr rfl)) hlevel
    · refine stage_of_forall (.parts fun p hp => ?_) hlevel
      exact ⟨.arg (List.of_mem_zip hp).1 (.refl p.1), .arg (List.of_mem_zip hp).2 (.refl p.2)⟩

/-! ## runs -/

/-- What a successful run has done: new bindings are variables of `want` bound
to parts of `got`, and from now on `want` is similar to `got`, whatever else is
bound. -/
structure Solved (want got : Ty) (s s' : Subst) : Prop where
  grown : Subst.Grown (Subterm · want) (Subterm · got) s s'
  similar : ∀ s'', Subst.Extends s'' s' → Similar (s''.apply want) got

/-- Two runs in a row succeed one after the other. -/
theorem andThen_eq_ok {r : Run} {next : Subst → Run} {s : Subst}
    (h : (r.andThen next).outcome = .ok s) :
    ∃ s', r.outcome = .ok s' ∧ (next s').outcome = .ok s := by
  rw [Run.outcome_andThen] at h
  exact bind_eq_ok_iff.mp h

/-- Pairs of parts of `want` and `got`, when each pair on its own is solved. -/
theorem grown_of_unifyPairs {limit budget : Nat} {want got : Ty} (hgot : got.Readable)
    (hsolved : ∀ w g s s', s.Readable → g.Readable →
      (unifyAt limit budget w g s).outcome = .ok s' → Solved w g s s')
    {ps : List (Ty × Ty)}
    (hwants : ∀ p ∈ ps, ∀ t, Subterm t p.1 → Subterm t want)
    (hgots : ∀ p ∈ ps, ∀ t, Subterm t p.2 → Subterm t got)
    {s s' : Subst} (hs : s.Readable) (h : (unifyPairs limit budget ps s).outcome = .ok s') :
    Subst.Grown (Subterm · want) (Subterm · got) s s' ∧
      ∀ p ∈ ps, ∀ s'', Subst.Extends s'' s' → Similar (s''.apply p.1) p.2 := by
  induction ps generalizing s with
  | nil =>
      cases h
      exact ⟨.refl _ _ _, by simp⟩
  | cons p ps ih =>
      obtain ⟨s₁, hp, hps⟩ := andThen_eq_ok h
      obtain ⟨hwant, hwants⟩ := List.forall_mem_cons.mp hwants
      obtain ⟨hpart, hgots⟩ := List.forall_mem_cons.mp hgots
      have hreadable : p.2.Readable := (hpart p.2 (.refl p.2)).readable hgot
      have hfirst := hsolved p.1 p.2 s s₁ hs hreadable hp
      have hgrown := hfirst.grown.mono hwant hpart
      have hs₁ : s₁.Readable := hgrown.readable hs fun t ht => ht.readable hgot
      obtain ⟨hrest, hsimilar⟩ := ih hwants hgots hs₁ hps
      refine ⟨hgrown.trans hrest, List.forall_mem_cons.mpr ⟨?_, hsimilar⟩⟩
      exact fun s'' hext => hfirst.similar s'' (hext.trans hrest.keeps)

/-- **A successful run is sound**, with any number of levels: it keeps the
bindings, binds variables of `want` to parts of `got` and leaves the two types
similar for good. -/
theorem unifyAt_sound {limit budget : Nat} {want got : Ty} {s s' : Subst} (hs : s.Readable)
    (hgot : got.Readable) (h : (unifyAt limit budget want got s).outcome = .ok s') :
    Solved want got s s' := by
  induction budget generalizing want got s s' with
  | zero => contradiction
  | succ budget ih =>
      have hsolved : ∀ w g s s', s.Readable → g.Readable →
          (unifyAt limit budget w g s).outcome = .ok s' → Solved w g s s' :=
        fun w g s s' hs hg h => ih hs hg h
      cases unified_of_unifyAt h with
      | bind hv hfree got =>
          refine ⟨Subst.grown_insert hv hfree (.refl _) (.refl _), fun s'' hext => ?_⟩
          have hfind := hext _ got (by rw [NameMap.find?_insert, if_pos rfl])
          rw [Subst.apply_named_of_isVar hv hfind]
          exact .refl got
      | bound hv hfind hsame =>
          refine ⟨.refl _ _ s, fun s'' hext => ?_⟩
          have hsubst := Subst.apply_named_of_isVar hv (hext _ _ hfind)
          have hbound := chars_injective (hs _ _ hfind) hgot hsame
          rw [hsubst, hbound]
          exact .refl got
      | wildcardLeft got s =>
          refine ⟨.refl _ _ s, fun s'' _ => ?_⟩
          rw [Subst.apply_named_of_not_isVar s'' (by decide)]
          exact .wildcardLeft got
      | wildcardRight want s => exact ⟨.refl _ _ s, fun s'' _ => .wildcardRight _⟩
      | @fields ws gs _ _ hnames hparts =>
          have hwants : ∀ p ∈ ws.values.zip gs.values, ∀ t, Subterm t p.1 →
              Subterm t (.struct ws) :=
            fun p hp t ht => .of_mem_values (List.of_mem_zip hp).1 ht
          have hgots : ∀ p ∈ ws.values.zip gs.values, ∀ t, Subterm t p.2 →
              Subterm t (.struct gs) :=
            fun p hp t ht => .of_mem_values (List.of_mem_zip hp).2 ht
          obtain ⟨hgrown, hpairs⟩ := grown_of_unifyPairs hgot hsolved hwants hgots hs hparts
          refine ⟨hgrown, fun s'' hext => ?_⟩
          have hsimilar : ∀ p ∈ ws.values.zip gs.values, Similar (s''.apply p.1) p.2 :=
            fun p hp => hpairs p hp s'' hext
          exact .of_apply_struct hnames hsimilar
      | args hvar hwant hnot hhead harity hparts =>
          have hwants : ∀ p ∈ want.args.zip got.args, ∀ t, Subterm t p.1 → Subterm t want :=
            fun p hp t ht => .arg (List.of_mem_zip hp).1 ht
          have hgots : ∀ p ∈ want.args.zip got.args, ∀ t, Subterm t p.2 → Subterm t got :=
            fun p hp t ht => .arg (List.of_mem_zip hp).2 ht
          obtain ⟨hgrown, hpairs⟩ := grown_of_unifyPairs hgot hsolved hwants hgots hs hparts
          refine ⟨hgrown, fun s'' hext => ?_⟩
          have hsimilar : ∀ p ∈ want.args.zip got.args, Similar (s''.apply p.1) p.2 :=
            fun p hp => hpairs p hp s'' hext
          exact .of_apply_head hvar hwant hnot hhead harity hsimilar

end Ty

/-! ## the life of a unifier -/

/-- What a unifier can be asked for. -/
inductive Request where
  | types (want got : Ty)
  | refs (want got : TyRef)

namespace Request

/-- The declared type. -/
def want : Request → Ty
  | types w _ => w
  | refs w _ => w.ty

/-- The actual type. -/
def got : Request → Ty
  | types _ g => g
  | refs _ g => g.ty

/-- The declared side, with a substitution put in, is similar to the actual one;
references have the same modifiers besides. -/
def Fulfilled (s : Subst) : Request → Prop
  | types w g => Ty.Similar (s.apply w) g
  | refs w g =>
    (s.applyRef w).pointer = g.pointer ∧ (s.applyRef w).slice = g.slice ∧
      Ty.Similar (s.applyRef w).ty g.ty

/-- The run that a request leads to. -/
def run (limits : Limits) (s : Subst) : Request → Run
  | types w g => w.unify limits g s
  | refs w g => w.unify limits g s

/-- **A request that is granted is fulfilled**, by the bindings that it leaves and by
all that extend them. -/
theorem run_sound {limits : Limits} {s s' : Subst} {r : Request} (hs : s.Readable)
    (hgot : r.got.Readable) (h : (r.run limits s).outcome = .ok s') :
    Subst.Grown (Ty.Subterm · r.want) (Ty.Subterm · r.got) s s' ∧
      ∀ s'', Subst.Extends s'' s' → r.Fulfilled s'' := by
  cases r with
  | types w g =>
      have hsolved : Ty.Solved w g s s' := Ty.unifyAt_sound hs hgot h
      exact ⟨hsolved.grown, hsolved.similar⟩
  | refs w g =>
      rw [run, TyRef.unify] at h
      split at h
      · next hsame =>
        obtain ⟨hpointer, hslice⟩ := TyRef.sameModifiers_iff.mp hsame
        have hsolved : Ty.Solved w.ty g.ty s s' := Ty.unifyAt_sound hs hgot h
        exact ⟨hsolved.grown, fun s'' hext => ⟨hpointer, hslice, hsolved.similar s'' hext⟩⟩
      · contradiction

end Request

namespace Unifier

/-- Answers one request. -/
def answer (u : Unifier) : Request → Except UnifyError Unit × Unifier
  | .types w g => u.unify w g
  | .refs w g => u.unifyRefs w g

/-- Answers requests one after the other. -/
def serve (u : Unifier) (requests : List Request) : Unifier :=
  requests.foldl (fun u r => (u.answer r).2) u

/-- A unifier answers a request by its run. -/
theorem answer_eq_take (u : Unifier) (r : Request) :
    u.answer r = u.take (r.run u.limits u.subst) := by
  cases r <;> rfl

/-- Requests may come in two parts. -/
theorem serve_append (u : Unifier) (earlier later : List Request) :
    u.serve (earlier ++ later) = (u.serve earlier).serve later :=
  List.foldl_append

/-- A request that is granted has a run that ends in the new bindings. -/
theorem run_of_answer_ok {u : Unifier} {r : Request} (h : (u.answer r).1 = .ok ()) :
    (r.run u.limits u.subst).outcome = .ok (u.answer r).2.subst := by
  rw [answer_eq_take, take_fst] at h
  rw [answer_eq_take, take_subst]
  cases hrun : (r.run u.limits u.subst).outcome with
  | error e =>
      rw [hrun] at h
      contradiction
  | ok s => rfl

/-- A request that fails leaves the bindings as they were. -/
theorem subst_of_answer_error {u : Unifier} {r : Request} {e : UnifyError}
    (h : (u.answer r).1 = .error e) : (u.answer r).2.subst = u.subst := by
  rw [answer_eq_take] at h ⊢
  exact take_subst_of_error h

/-- The bindings after a request, granted or not. -/
theorem grown_answer {u : Unifier} {r : Request} (hu : u.subst.Readable) (hgot : r.got.Readable) :
    Subst.Grown (Ty.Subterm · r.want) (Ty.Subterm · r.got) u.subst (u.answer r).2.subst := by
  cases hresult : (u.answer r).1 with
  | error e =>
      rw [subst_of_answer_error hresult]
      exact .refl _ _ _
  | ok _ => exact (Request.run_sound hu hgot (run_of_answer_ok hresult)).1

/-- Bindings are never given up, and never stop being readable. -/
theorem serve_keeps {u : Unifier} {requests : List Request} (hu : u.subst.Readable)
    (hgots : ∀ r ∈ requests, r.got.Readable) :
    Subst.Extends (u.serve requests).subst u.subst ∧ (u.serve requests).subst.Readable := by
  induction requests generalizing u with
  | nil => exact ⟨.refl _, hu⟩
  | cons r requests ih =>
      obtain ⟨hgot, hgots⟩ := List.forall_mem_cons.mp hgots
      have hgrown := grown_answer hu hgot
      have hnext : (u.answer r).2.subst.Readable :=
        hgrown.readable hu fun t ht => ht.readable hgot
      obtain ⟨hkeeps, hreadable⟩ := ih hnext hgots
      exact ⟨hkeeps.trans hgrown.keeps, hreadable⟩

/-- **Unification is sound over whole runs.**  In a sequence of requests on
readable types, starting from any readable bindings and under any limits, every
request `r` that fails leaves the bindings as they are, and every one that
succeeds keeps the bindings, binds besides only type variables of its declared
type to parts of its actual type, and is fulfilled by the bindings at the end of
the sequence. -/
theorem serve_sound (u : Unifier) (earlier later : List Request) (r : Request)
    (hu : u.subst.Readable)
    (hreadable : ∀ q ∈ earlier ++ r :: later, q.want.Readable ∧ q.got.Readable) :
    let before := u.serve earlier
    let after := (before.answer r).2
    let final := u.serve (earlier ++ r :: later)
    (∀ e, (before.answer r).1 = .error e → after.subst = before.subst) ∧
      ((before.answer r).1 = .ok () →
        Subst.Extends after.subst before.subst ∧
        (∀ v t, NameMap.find? before.subst v = none → NameMap.find? after.subst v = some t →
          Text.isVar v.toList = true ∧ Ty.Subterm (.named v) r.want ∧ Ty.Subterm t r.got) ∧
        r.Fulfilled final.subst) := by
  intro before after final
  have hgots : ∀ q ∈ earlier ++ r :: later, q.got.Readable := fun q hq => (hreadable q hq).2
  rw [List.forall_mem_append, List.forall_mem_cons] at hgots
  obtain ⟨hearlier, hgot, hlater⟩ := hgots
  have hbefore : before.subst.Readable := (serve_keeps hu hearlier).2
  have hgrown : Subst.Grown (Ty.Subterm · r.want) (Ty.Subterm · r.got) before.subst after.subst :=
    grown_answer hbefore hgot
  have hafter : after.subst.Readable := hgrown.readable hbefore fun t ht => ht.readable hgot
  have hfinal : final = after.serve later := serve_append u earlier (r :: later)
  have hkept : Subst.Extends final.subst after.subst := by
    rw [hfinal]
    exact (serve_keeps hafter hlater).1
  refine ⟨fun e herror => subst_of_answer_error herror, fun hok => ?_⟩
  have hsound := Request.run_sound hbefore hgot (run_of_answer_ok hok)
  exact ⟨hgrown.keeps, hgrown.fresh, hsound.2 final.subst hkept⟩

/-- A pair whose heads differ in case is granted and binds `U`, beside the `T` that was
bound before.  The next pair has bound `V` when it fails at `U`: nothing of that is
left, and the first one is still fulfilled. -/
theorem serve_sound_pair :
    let u : Unifier := { limits := ⟨3⟩, subst := [("T", .scalar .int)] }
    let pair : Request := .types (.generic "Pair" [.named "T", .named "U"])
      (.generic "PAIR" [.scalar .int, .generic "List" [.named "any"]])
    let clash : Request := .refs ⟨true, false, .generic "Pair" [.named "V", .named "U"]⟩
      ⟨true, false, .generic "Pair" [.scalar .string, .scalar .int]⟩
    ((u.serve [pair]).answer clash).2.subst = (u.serve [pair]).subst ∧
      pair.Fulfilled (u.serve [pair, clash]).subst ∧
      (u.serve [pair, clash]).subst =
        [("T", .scalar .int), ("U", .generic "List" [.named "any"])] := by
  intro u pair clash
  have hread : ∀ {text : Text} {t : Ty}, Ty.read ⟨3⟩ text = .ok t → t.Readable :=
    fun h => (Ty.Readable.of_read h).1
  have hpair : pair.want.Readable ∧ pair.got.Readable :=
    ⟨@hread "Pair<T, U>".toList _ rfl, @hread "PAIR<int, List<any>>".toList _ rfl⟩
  have hclash : clash.want.Readable ∧ clash.got.Readable :=
    ⟨@hread "Pair<V, U>".toList _ rfl, @hread "Pair<string, int>".toList _ rfl⟩
  have hstart : u.subst.Readable := by
    intro v t hfind
    have hmem := NameMap.mem_of_find?_eq_some hfind
    rw [List.mem_singleton, Prod.mk.injEq] at hmem
    rw [hmem.2]
    exact .scalar .int
  have hall : ∀ q ∈ [pair, clash], q.want.Readable ∧ q.got.Readable := by
    simp [hpair, hclash]
  obtain ⟨hfailed, -⟩ := serve_sound u [pair] [] clash hstart hall
  obtain ⟨-, hgranted⟩ := serve_sound u [] [clash] pair hstart hall
  obtain ⟨-, -, hfulfilled⟩ := hgranted rfl
  exact ⟨hfailed _ rfl, hfulfilled, rfl⟩

end Unifier

end TypeFlow
