import Mathlib.Data.List.InsertIdx
import TypeFlow.Boundary.Signature
import TypeFlow.Proofs.Unification

/-!
# TypeFlow.Proofs.CallOrder

The arguments of a generic call may come in any order.  One pass binds a variable
where it meets it first, so the order decides where a binding is made and where it
is only compared.  It does not decide what is bound in the end: a run that ends
well ends in the least bindings that it would leave as they are (`Settles`), and
which bindings two runs in a row leave as they are is no matter of their order.

* `Settles` — kept by every way in which runs are put together;
* `settles_unifyAt` — so a run of the unifier has it, at any number of levels;
* `unifyAll_fixed_iff` — a list of pairs leaves alone what each pair does;
* `unifyAll_iff_of_mem_iff` — two lists with the same members find the same bindings.
-/

namespace TypeFlow

open Subst

/-! ## runs towards least bindings -/

/-- Bindings in order that extend each other are the same. -/
theorem Subst.Extends.antisymm {s s' : Subst} (h : Extends s s') (h' : Extends s' s)
    (hs : NameMap.Sorted s) (hs' : NameMap.Sorted s') : s = s' :=
  NameMap.ext hs hs' fun v => Option.ext fun t => ⟨h' v t, h v t⟩

/-- A run that ends in the least bindings, among those that extend the ones it
starts from, that it leaves as they are. -/
structure Settles (run : Subst → Except UnifyError Subst) : Prop where
  keeps : ∀ {s s'}, run s = .ok s' → Extends s' s
  readable : ∀ {s s'}, s.Readable → run s = .ok s' → s'.Readable
  sorted : ∀ {s s'}, NameMap.Sorted s → run s = .ok s' → NameMap.Sorted s'
  /-- What has been found is found again, whatever has been bound since. -/
  fixes : ∀ {s s' t}, run s = .ok s' → Extends t s' → run t = .ok t
  /-- Bindings that are left as they are can be run towards from any part of
  them. -/
  least : ∀ {s t}, t.Readable → run t = .ok t → Extends t s →
    ∃ s', run s = .ok s' ∧ Extends t s'

namespace Settles

/-- A run that does nothing settles. -/
theorem skip : Settles .ok where
  keeps h := by
    cases h
    exact .refl _
  readable hs h := by
    cases h
    exact hs
  sorted hs h := by
    cases h
    exact hs
  fixes _ _ := rfl
  least _ _ hext := ⟨_, rfl, hext⟩

/-- A run that always fails settles, as it ends nowhere. -/
theorem refuse (error : UnifyError) : Settles fun _ => .error error where
  keeps h := by contradiction
  readable _ h := by contradiction
  sorted _ h := by contradiction
  fixes h _ := by contradiction
  least _ h _ := by contradiction

variable {run next : Subst → Except UnifyError Subst}

/-- Two runs in a row leave bindings as they are when both do. -/
theorem fixed_bind_iff (hrun : Settles run) (hnext : Settles next) {s : Subst} :
    run s >>= next = .ok s ↔ run s = .ok s ∧ next s = .ok s := by
  rw [bind_eq_ok_iff]
  constructor
  · rintro ⟨s', hfirst, hsecond⟩
    have hback : Extends s s' := hnext.keeps hsecond
    exact ⟨hrun.fixes hfirst hback, hnext.fixes hsecond (.refl s)⟩
  · rintro ⟨hfirst, hsecond⟩
    exact ⟨s, hfirst, hsecond⟩

/-- **Two runs in a row settle when both do**: least bindings for the first are extended
to least bindings for both. -/
theorem bind (hrun : Settles run) (hnext : Settles next) : Settles fun s => run s >>= next where
  keeps h := by
    obtain ⟨s', hfirst, hsecond⟩ := bind_eq_ok_iff.mp h
    exact (hnext.keeps hsecond).trans (hrun.keeps hfirst)
  readable hs h := by
    obtain ⟨s', hfirst, hsecond⟩ := bind_eq_ok_iff.mp h
    exact hnext.readable (hrun.readable hs hfirst) hsecond
  sorted hs h := by
    obtain ⟨s', hfirst, hsecond⟩ := bind_eq_ok_iff.mp h
    exact hnext.sorted (hrun.sorted hs hfirst) hsecond
  fixes h hext := by
    obtain ⟨s', hfirst, hsecond⟩ := bind_eq_ok_iff.mp h
    have hmid := hext.trans (hnext.keeps hsecond)
    exact (hrun.fixed_bind_iff hnext).mpr ⟨hrun.fixes hfirst hmid, hnext.fixes hsecond hext⟩
  least ht h hext := by
    obtain ⟨hfirst, hsecond⟩ := (hrun.fixed_bind_iff hnext).mp h
    obtain ⟨s₁, hrun₁, hext₁⟩ := hrun.least ht hfirst hext
    obtain ⟨s₂, hrun₂, hext₂⟩ := hnext.least ht hsecond hext₁
    exact ⟨s₂, bind_eq_ok_iff.mpr ⟨s₁, hrun₁, hrun₂⟩, hext₂⟩

end Settles

/-! ## the unifier settles -/

/-- Runs over a list settle when each of them does. -/
theorem Run.settles_each {α : Type} {run : α → Subst → Run} {as : List α}
    (h : ∀ a ∈ as, Settles fun s => (run a s).outcome) :
    Settles fun s => (Run.each run as s).outcome := by
  induction as with
  | nil => exact .skip
  | cons a as ih =>
      obtain ⟨ha, has⟩ := List.forall_mem_cons.mp h
      simp only [Run.each, Run.outcome_andThen]
      exact ha.bind (ih has)

namespace Ty

/-- Bindings are left as they are when the variable is bound to a type written
alike. -/
theorem bindVar_fixed_iff {v : String} {got : Ty} {s : Subst} :
    (bindVar v got s).outcome = .ok s ↔
      ∃ bound, NameMap.find? s v = some bound ∧ bound.chars = got.chars := by
  rw [bindVar_eq_ok_iff]
  constructor
  · rintro (⟨hfree, hinsert⟩ | ⟨bound, hfind, hsame, -⟩)
    · rw [← hinsert, NameMap.find?_insert, if_pos rfl] at hfree
      contradiction
    · exact ⟨bound, hfind, hsame⟩
  · rintro ⟨bound, hfind, hsame⟩
    exact .inr ⟨bound, hfind, hsame, rfl⟩

/-- A variable settles: it is bound where it is free, and afterwards only compared. -/
theorem settles_bindVar {v : String} (hv : Text.isVar v.toList = true) {got : Ty}
    (hgot : got.Readable) : Settles fun s => (bindVar v got s).outcome where
  keeps {s s'} h := by
    rcases bindVar_eq_ok_iff.mp h with ⟨hfree, rfl⟩ | ⟨-, -, -, rfl⟩
    · exact extends_insert hfree got
    · exact .refl s
  readable {s s'} hs h := by
    rcases bindVar_eq_ok_iff.mp h with ⟨hfree, rfl⟩ | ⟨-, -, -, rfl⟩
    · have hgrown : Grown (fun _ => True) Readable s (NameMap.insert s v got) :=
        grown_insert hv hfree trivial hgot
      exact hgrown.readable hs fun _ => id
    · exact hs
  sorted {s s'} hs h := by
    rcases bindVar_eq_ok_iff.mp h with ⟨-, rfl⟩ | ⟨-, -, -, rfl⟩
    · exact NameMap.sorted_insert hs v got
    · exact hs
  fixes {s s' t} h hext := by
    rw [bindVar_fixed_iff]
    rcases bindVar_eq_ok_iff.mp h with ⟨-, rfl⟩ | ⟨bound, hfind, hsame, rfl⟩
    · exact ⟨got, hext v got (by rw [NameMap.find?_insert, if_pos rfl]), rfl⟩
    · exact ⟨bound, hext v bound hfind, hsame⟩
  least {s t} ht h hext := by
    obtain ⟨bound, hfind, hsame⟩ := bindVar_fixed_iff.mp h
    have hbound : bound = got := chars_injective (ht v bound hfind) hgot hsame
    cases hs : NameMap.find? s v with
    | none =>
        refine ⟨_, bindVar_eq_ok_iff.mpr (.inl ⟨hs, rfl⟩), fun n u hn => ?_⟩
        rw [NameMap.find?_insert] at hn
        split at hn
        · next heq => rw [← heq, hfind, hbound, hn]
        · exact hext n u hn
    | some b =>
        have hb : b = bound := by
          rw [hext v b hs, Option.some.injEq] at hfind
          exact hfind
        exact ⟨s, bindVar_fixed_iff.mpr ⟨b, hs, by rw [hb, hsame]⟩, hext⟩

/-- A level settles when every run over readable parts does. -/
theorem Stage.settles {pairs : List (Ty × Ty) → Subst → Run} {want got : Ty} {run : Subst → Run}
    (h : Stage pairs want got run) (hgot : got.Readable)
    (hpairs : ∀ ps : List (Ty × Ty), (∀ p ∈ ps, p.2.Readable) →
      Settles fun s => (pairs ps s).outcome) :
    Settles fun s => (run s).outcome := by
  cases h with
  | var hv _ => exact settles_bindVar hv hgot
  | done _ => exact .skip
  | refused error => exact .refuse error
  | parts hps => exact hpairs _ fun p hp => (hps p hp).2.readable hgot

/-- **A run of the unifier settles**, with any number of levels. -/
theorem settles_unifyAt (limit budget : Nat) {want got : Ty} (hgot : got.Readable) :
    Settles fun s => (unifyAt limit budget want got s).outcome := by
  induction budget generalizing want got with
  | zero => exact .refuse (.unreadable (.tooDeep limit))
  | succ budget ih =>
      refine (stage_unifyAt limit budget want got).settles hgot fun ps hps => ?_
      exact Run.settles_each fun p hp => ih (hps p hp)

end Ty

/-- References settle, since their modifiers are compared before any binding is made. -/
theorem TyRef.settles_unify (limits : Limits) (want : TyRef) {got : TyRef}
    (hgot : got.ty.Readable) : Settles fun s => (want.unify limits got s).outcome := by
  unfold TyRef.unify
  split
  · exact Ty.settles_unifyAt limits.maxDepth limits.maxDepth hgot
  · exact .refuse (.modifierMismatch want got)

/-- What is read in order to be unified is readable, modifiers aside. -/
theorem TyRef.readable_of_readToUnify {limits : Limits} {text : Text} {r : TyRef}
    (h : TyRef.readToUnify limits text = .ok r) : r.ty.Readable := by
  unfold TyRef.readToUnify at h
  cases hread : TyRef.read limits text with
  | error e =>
      rw [hread] at h
      contradiction
  | ok r' =>
      rw [hread] at h
      cases h
      obtain ⟨t, ht, heq⟩ := bind_eq_ok_iff.mp hread
      cases heq
      exact (Ty.Readable.of_read ht).1

namespace Text

/-- Texts settle: they are read first, whatever has been bound. -/
theorem settles_unify (limits : Limits) (want got : Text) : Settles (unify limits want got) := by
  unfold unify
  cases TyRef.readToUnify limits want with
  | error e => exact .refuse e
  | ok w =>
      cases hg : TyRef.readToUnify limits got with
      | error e => exact .refuse e
      | ok g => exact w.settles_unify limits (TyRef.readable_of_readToUnify hg)

/-- Lists of pairs of texts settle, taken one after the other. -/
theorem settles_unifyAll (limits : Limits) (pairs : List (Text × Text)) :
    Settles (unifyAll limits pairs) := by
  induction pairs with
  | nil => exact .skip
  | cons p pairs ih => exact (settles_unify limits p.1 p.2).bind ih

/-- A list of pairs leaves bindings as they are when each of its members does. -/
theorem unifyAll_fixed_iff {limits : Limits} {pairs : List (Text × Text)} {s : Subst} :
    unifyAll limits pairs s = .ok s ↔ ∀ p ∈ pairs, unify limits p.1 p.2 s = .ok s := by
  induction pairs with
  | nil => simp [unifyAll]
  | cons p pairs ih =>
      rw [List.forall_mem_cons, ← ih]
      exact (settles_unify limits p.1 p.2).fixed_bind_iff (settles_unifyAll limits pairs)

/-- Some of the pairs of a list find no more than all of them do. -/
theorem exists_unifyAll_of_subset {limits : Limits} {pairs fewer : List (Text × Text)} {s : Subst}
    (hsub : fewer ⊆ pairs) (h : unifyAll limits pairs [] = .ok s) :
    ∃ s', unifyAll limits fewer [] = .ok s' ∧ Extends s s' := by
  have hall := settles_unifyAll limits pairs
  have hfixed : unifyAll limits fewer s = .ok s := by
    rw [unifyAll_fixed_iff]
    intro p hp
    exact unifyAll_fixed_iff.mp (hall.fixes h (.refl s)) p (hsub hp)
  have hreadable : s.Readable := hall.readable (by simp [Subst.Readable]) h
  exact (settles_unifyAll limits fewer).least hreadable hfixed (hall.keeps h)

/-- **What is found depends on the members of the list alone.** -/
theorem unifyAll_iff_of_mem_iff {limits : Limits} {pairs pairs' : List (Text × Text)}
    (hmem : ∀ p, p ∈ pairs ↔ p ∈ pairs') {s : Subst} :
    unifyAll limits pairs [] = .ok s ↔ unifyAll limits pairs' [] = .ok s := by
  have himp : ∀ {ps qs : List (Text × Text)}, ps ⊆ qs → qs ⊆ ps →
      unifyAll limits ps [] = .ok s → unifyAll limits qs [] = .ok s := by
    intro ps qs hpq hqp hps
    obtain ⟨s', hqs, hext⟩ := exists_unifyAll_of_subset hqp hps
    obtain ⟨s'', hps', hext'⟩ := exists_unifyAll_of_subset hpq hqs
    rw [hps, Except.ok.injEq] at hps'
    rw [← hps'] at hext'
    have hsorted := (settles_unifyAll limits ps).sorted NameMap.sorted_nil hps
    have hsorted' := (settles_unifyAll limits qs).sorted NameMap.sorted_nil hqs
    rw [hqs, hext.antisymm hext' hsorted hsorted']
  exact ⟨himp (fun p => (hmem p).mp) fun p => (hmem p).mpr,
    himp (fun p => (hmem p).mpr) fun p => (hmem p).mp⟩

end Text

/-! ## calls -/

/-- A list to which one of its members is added has the same members. -/
theorem mem_insertIdx_of_mem_take {α : Type} {xs : List α} {k : Nat} {x y : α}
    (hx : x ∈ xs.take k) : y ∈ xs.insertIdx k x ↔ y ∈ xs := by
  rcases Nat.lt_or_ge xs.length k with hlt | hle
  · rw [List.insertIdx_of_length_lt hlt]
  · rw [List.mem_insertIdx hle, or_iff_right_of_imp]
    rintro rfl
    exact List.mem_of_mem_take hx

namespace Signature

/-- The results of a call whose parameters come together with their arguments. -/
def instantiatePairs (limits : Limits) (results : List Text) (pairs : List (Text × Text)) :
    Except UnifyError (List String) :=
  instantiate limits ⟨pairs.map Prod.fst, results⟩ (pairs.map Prod.snd)

/-- Parameters and arguments in equal number are a list of pairs. -/
theorem instantiatePairs_zip (limits : Limits) {params args : List Text} (results : List Text)
    (h : params.length = args.length) :
    instantiatePairs limits results (params.zip args) =
      instantiate limits ⟨params, results⟩ args := by
  rw [instantiatePairs, List.map_fst_zip (Nat.le_of_eq h),
    List.map_snd_zip (Nat.le_of_eq h.symm)]

/-- A pair put in at one place is a parameter and an argument put in there. -/
theorem instantiatePairs_insertIdx (limits : Limits) {params args : List Text} (results : List Text)
    (h : params.length = args.length) (k : Nat) (p : Text × Text) :
    instantiatePairs limits results ((params.zip args).insertIdx k p) =
      instantiate limits ⟨params.insertIdx k p.1, results⟩ (args.insertIdx k p.2) := by
  rw [instantiatePairs, List.map_insertIdx, List.map_insertIdx, List.map_fst_zip (Nat.le_of_eq h),
    List.map_snd_zip (Nat.le_of_eq h.symm)]

/-- A call has results when its pairs unify from nothing and the bindings give a text
for each result. -/
theorem instantiatePairs_eq_ok_iff {limits : Limits} {results : List Text}
    {pairs : List (Text × Text)} {texts : List String} :
    instantiatePairs limits results pairs = .ok texts ↔
      ∃ s, Text.unifyAll limits pairs [] = .ok s ∧
        results.mapM (fun text => result limits s text) = .ok texts := by
  rw [instantiatePairs, instantiate, guard_eq_ok_iff, bind_eq_ok_iff, ← List.zip_of_prod rfl rfl]
  simp

/-- **Only which pairs there are decides**, not their order or how often they come. -/
theorem instantiatePairs_iff_of_mem_iff {limits : Limits} {results : List Text}
    {pairs pairs' : List (Text × Text)} (hmem : ∀ p, p ∈ pairs ↔ p ∈ pairs') {texts : List String} :
    instantiatePairs limits results pairs = .ok texts ↔
      instantiatePairs limits results pairs' = .ok texts := by
  simp only [instantiatePairs_eq_ok_iff, Text.unifyAll_iff_of_mem_iff hmem]

/-- **The order of the arguments does not matter, nor does saying one twice.**
A call succeeds exactly when it does with its pairs of parameter and argument in
any other order, and exactly when it does with a pair repeated at a later
position `k`; the results are the same texts. -/
theorem instantiate_rearranged (limits : Limits) (params args results : List Text)
    (h : params.length = args.length) :
    (∀ pairs : List (Text × Text), pairs.Perm (params.zip args) → ∀ texts : List String,
        instantiate limits ⟨params, results⟩ args = .ok texts ↔
          instantiate limits ⟨pairs.map Prod.fst, results⟩ (pairs.map Prod.snd) = .ok texts) ∧
      ∀ (k : Nat) (p : Text × Text), p ∈ (params.zip args).take k → ∀ texts : List String,
        instantiate limits ⟨params, results⟩ args = .ok texts ↔
          instantiate limits ⟨params.insertIdx k p.1, results⟩ (args.insertIdx k p.2) =
            .ok texts := by
  refine ⟨fun pairs hperm texts => ?_, fun k p hp texts => ?_⟩
  · rw [← instantiatePairs_zip limits results h]
    exact instantiatePairs_iff_of_mem_iff fun p => hperm.mem_iff.symm
  · rw [← instantiatePairs_insertIdx limits results h, ← instantiatePairs_zip limits results h]
    exact instantiatePairs_iff_of_mem_iff fun q => (mem_insertIdx_of_mem_take hp).symm

/-- A generic call whose `T` is the wildcard in two of three arguments: taken from last
to first, or with the second pair once more at the end, it gives the same result. -/
theorem instantiate_rearranged_pair :
    let params := ["Pair<T, U>".toList, "List<U>".toList, "T".toList]
    let args := ["pair<any, int>".toList, "list<int>".toList, "any".toList]
    let results := ["Map<T, Optional<U>>".toList]
    instantiate ⟨4⟩ ⟨params, results⟩ args = .ok ["Map<any,Optional<int>>"] ∧
      instantiate ⟨4⟩ ⟨params.reverse, results⟩ args.reverse = .ok ["Map<any,Optional<int>>"] ∧
      instantiate ⟨4⟩ ⟨params ++ ["List<U>".toList], results⟩ (args ++ ["list<int>".toList]) =
        .ok ["Map<any,Optional<int>>"] := by
  intro params args results
  have hcall : instantiate ⟨4⟩ ⟨params, results⟩ args = .ok ["Map<any,Optional<int>>"] :=
    eq_ok_of_toOption_eq_some (by decide +kernel)
  obtain ⟨hperm, hagain⟩ := instantiate_rearranged ⟨4⟩ params args results rfl
  have hlist : ("List<U>".toList, "list<int>".toList) ∈ (params.zip args).take 3 :=
    .tail _ (.head _)
  exact ⟨hcall, (hperm _ (List.reverse_perm _) _).mp hcall, (hagain 3 _ hlist _).mp hcall⟩

end Signature

end TypeFlow
