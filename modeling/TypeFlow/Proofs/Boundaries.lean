import TypeFlow.Boundary.Return
import TypeFlow.Proofs.Rejection

/-!
# TypeFlow.Proofs.Boundaries

The checks of a call, an assignment and a return on one pair of sites.  Each of them
has its own conditions for passing over a pair and its own order of questions.  Yet
where a site is open, no mismatch is located and the texts are compatible, so what
is passed over would not have been reported anyhow, and the three checks come down
to the same questions:

* `Text.locate?_of_isWildcard`, `Text.isCompatible_of_isWildcard` — an open side is at
  odds with nothing;
* `Diagnostic.arityFacts?` — what a diagnostic says about the arity of a generic,
  whatever else has been added to it;
* `Judged` — what a check reports about a pair, told by what is located and by what the
  check accepts (`Call.judged`, `Assignment.judged`, `Return.judged`);
* `boundaries_agree` — the three checks compared.
-/

namespace TypeFlow

/-! ## open sites -/

/-- Nothing is located where one side is open. -/
theorem Text.locate?_of_isWildcard {limits : Limits} {want got : Text}
    (h : (want.isWildcard || got.isWildcard) = true) : locate? limits want got = none := by
  cases hfound : locate? limits want got with
  | none => rfl
  | some m =>
      obtain ⟨hw, hg⟩ := (located_of_locate? hfound).hasParts
      rcases Bool.or_eq_true_iff.mp h with h | h
      · exact absurd (absorbs_of_isWildcard h) (by simp [hw.absorbs_eq_false])
      · exact absurd (absorbs_of_isWildcard h) (by simp [hg.absorbs_eq_false])

/-- An open side agrees with every text, and this takes one level. -/
theorem Text.isCompatible_of_isWildcard {limits : Limits} (hlevel : 1 ≤ limits.maxDepth)
    {want got : Text} (h : (want.isWildcard || got.isWildcard) = true) :
    isCompatible limits want got = true := by
  obtain ⟨budget, hbudget⟩ := Nat.exists_eq_add_of_le' hlevel
  rw [isCompatible_iff, compatible, hbudget]
  unfold compatibleAt
  rw [if_pos h]

/-- A pair that calls and returns pass over has an open side. -/
theorem Site.isWildcard_of_skipped {want got : Site} (h : (want.isWildcard || got.isAny) = true) :
    (want.ty.isWildcard || got.ty.isWildcard) = true := by
  rcases Bool.or_eq_true_iff.mp h with h | h
  · exact Bool.or_eq_true_iff.mpr (.inl h)
  · rw [isAny, beq_iff_eq] at h
    simp [Text.isWildcard, h]

/-! ## what is said about arities -/

/-- Where a diagnostic says what is known about an arity mismatch. -/
def arityKeys : List String :=
  ["base", "path", "pathIdx", "fieldPath", "expectedArity", "actualArity", "wantArity", "gotArity"]

/-- What there is to say about an arity mismatch, in the order of `arityKeys`. -/
def ArityMismatch.facts (m : ArityMismatch) : List Datum :=
  [.str m.base, .strs m.path, .nats m.pathIdx, .strs m.fieldPath, .nat m.wantArity,
   .nat m.gotArity, .nat m.wantArity, .nat m.gotArity]

namespace Diagnostic

/-- What a diagnostic says about the arity of a generic, if it is about that. -/
def arityFacts? (d : Diagnostic) : Option (List (Option Datum)) :=
  if d.category = .genericArityMismatch then some (arityKeys.map d.data.find?) else none

/-- A diagnostic about something else says nothing about arities. -/
theorem arityFacts?_of_ne {d : Diagnostic} (h : d.category ≠ .genericArityMismatch) :
    d.arityFacts? = none := if_neg h

/-- What says something about arities is about that. -/
theorem category_of_arityFacts? {d : Diagnostic} {facts : List (Option Datum)}
    (h : d.arityFacts? = some facts) : d.category = .genericArityMismatch := by
  unfold arityFacts? at h
  split at h
  · assumption
  · cases h

/-- What is added under other keys does not change what is said about arities. -/
theorem arityFacts?_withData {key : String} (h : key ∉ arityKeys) (d : Diagnostic)
    (value : Datum) : (d.withData key value).arityFacts? = d.arityFacts? := by
  have hmap : arityKeys.map (d.withData key value).data.find? = arityKeys.map d.data.find? := by
    refine List.map_congr_left fun k hk => ?_
    have hne : key ≠ k := fun heq => h (heq ▸ hk)
    rw [find?_withData, if_neg hne]
  rw [arityFacts?, hmap]
  rfl

/-- What may be added under other keys does not change what is said about arities. -/
theorem arityFacts?_withData? {key : String} (h : key ∉ arityKeys) (d : Diagnostic)
    (value : Option Datum) : (d.withData? key value).arityFacts? = d.arityFacts? := by
  cases value with
  | none => rfl
  | some v => exact arityFacts?_withData h d v

@[simp] theorem arityFacts?_placed (d : Diagnostic) (position : Option Position) :
    (d.placed position).arityFacts? = d.arityFacts? := by
  cases position <;> rfl

/-- A payload is found again, where there was no data before. -/
theorem find?_withPayload {d : Diagnostic} (hempty : d.data = []) {entries : List (String × Datum)}
    (hnodup : (NameMap.names entries).Nodup) {e : String × Datum} (he : e ∈ entries) :
    (d.withPayload (.object entries)).data.find? e.1 = some e.2 := by
  have hsorted := NameMap.sorted_ofList entries
  have hperm := (NameMap.perm_ofList (NameMap.nodup_names hsorted)).trans
    (NameMap.perm_ofList hnodup)
  have hdata : (d.withPayload (.object entries)).data = d.data.insertAll (NameMap.ofList entries) :=
    rfl
  rw [hdata, hempty]
  exact NameMap.find?_eq_some_of_mem (NameMap.sorted_ofList _) (hperm.mem_iff.mpr he)

/-- A diagnostic made of a mismatch says all there is to say about it. -/
theorem arityFacts?_ofArity (want got : Text) (m : ArityMismatch) :
    (ofArity want got m).arityFacts? = some (m.facts.map some) := by
  rw [ofArity, withTypes, arityFacts?_withData (by decide), arityFacts?_withData (by decide)]
  have hnodup : (NameMap.names (arityKeys.zip m.facts)).Nodup :=
    show arityKeys.Nodup by decide
  have hmap := List.map_congr_left fun e (he : e ∈ arityKeys.zip m.facts) =>
    find?_withPayload (d := ofCategory .genericArityMismatch) rfl hnodup he
  exact congrArg some hmap

end Diagnostic

/-- What is said about arities in a list of diagnostics. -/
def arityReports (ds : List Diagnostic) : List (List (Option Datum)) :=
  ds.filterMap Diagnostic.arityFacts?

/-! ## one pair -/

/-- What a check has reported about one pair of texts: first the arity of a generic,
and where that is in order a mismatch in its own words, unless the pair is
`accepted`. -/
inductive Judged (limits : Limits) (want got : Text) (accepted : Bool) (mismatch : Category) :
    List Diagnostic → Prop where
  | arity {m : ArityMismatch} {d : Diagnostic} (hfound : Text.locate? limits want got = some m)
      (hd : d.arityFacts? = some (m.facts.map some)) : Judged limits want got accepted mismatch [d]
  | fits (hnone : Text.locate? limits want got = none) (haccepted : accepted = true) :
      Judged limits want got accepted mismatch []
  | refused {d : Diagnostic} (hnone : Text.locate? limits want got = none)
      (haccepted : accepted = false) (hd : d.category = mismatch) :
      Judged limits want got accepted mismatch [d]

namespace Judged

variable {limits : Limits} {want got : Text} {accepted : Bool} {mismatch : Category}
  {ds : List Diagnostic}

/-- An open side is passed over. -/
theorem of_isWildcard (h : (want.isWildcard || got.isWildcard) = true)
    (haccepted : accepted = true) : Judged limits want got accepted mismatch [] :=
  .fits (Text.locate?_of_isWildcard h) haccepted

/-- A pair is passed in silence exactly when nothing is located and it is accepted. -/
theorem eq_nil_iff (h : Judged limits want got accepted mismatch ds) :
    ds = [] ↔ Text.locate? limits want got = none ∧ accepted = true := by
  cases h with
  | arity hfound _ => simp [hfound]
  | fits hnone haccepted => simp [hnone, haccepted]
  | refused hnone haccepted _ => simp [haccepted]

/-- The arity of a generic is reported exactly where a mismatch is located, with all
that is known about it. -/
theorem arityReports_eq (h : Judged limits want got accepted mismatch ds)
    (hother : mismatch ≠ .genericArityMismatch) :
    arityReports ds = (Text.locate? limits want got).toList.map (·.facts.map some) := by
  cases h with
  | arity hfound hd => simp [arityReports, hfound, hd]
  | fits hnone _ => simp [arityReports, hnone]
  | refused hnone _ hd =>
      simp [arityReports, hnone, Diagnostic.arityFacts?_of_ne (by rwa [hd])]

/-- A mismatch in the words of the check is reported exactly when no arity is at odds
and the pair is not accepted. -/
theorem exists_mismatch_iff (h : Judged limits want got accepted mismatch ds)
    (hother : mismatch ≠ .genericArityMismatch) :
    (∃ d ∈ ds, d.category = mismatch) ↔
      Text.locate? limits want got = none ∧ accepted = false := by
  cases h with
  | arity hfound hd => simp [hfound, Diagnostic.category_of_arityFacts? hd, hother.symm]
  | fits hnone haccepted => simp [haccepted]
  | refused hnone haccepted hd => simp [hnone, haccepted, hd]

/-- A check of one pair reports an arity or a mismatch in its own words, and nothing
else. -/
theorem category_of_mem (h : Judged limits want got accepted mismatch ds) {d : Diagnostic}
    (hd : d ∈ ds) : d.category = .genericArityMismatch ∨ d.category = mismatch := by
  cases h with
  | arity _ hfacts =>
      rw [List.mem_singleton.mp hd]
      exact .inl (Diagnostic.category_of_arityFacts? hfacts)
  | fits _ _ => cases hd
  | refused _ _ hcategory =>
      rw [List.mem_singleton.mp hd]
      exact .inr hcategory

end Judged

namespace Text

/-- An open side is accepted. -/
theorem accepts_of_isWildcard {limits : Limits} (hlevel : 1 ≤ limits.maxDepth)
    {want got : Text} (h : (want.isWildcard || got.isWildcard) = true) :
    accepts limits want got = true := by
  rw [accepts, isCompatible_of_isWildcard hlevel h, Bool.true_or]

/-- Texts that unify are accepted. -/
theorem accepts_of_unify {limits : Limits} {want got : Text} {s : Subst}
    (h : unify limits want got [] = .ok s) : accepts limits want got = true := by
  simp [accepts, canUnify, h]

/-- Where texts do not unify, it is their compatibility that decides. -/
theorem accepts_of_unify_error {limits : Limits} {want got : Text} {e : UnifyError}
    (h : unify limits want got [] = .error e) :
    accepts limits want got = isCompatible limits want got := by
  simp [accepts, canUnify, h]

end Text

/-- The place and the parameter that a call adds to a report say nothing about
arities. -/
theorem Call.Misfit.arityFacts?_diagnostic (callee : String) (misfit : Misfit) :
    (misfit.diagnostic callee).arityFacts? = misfit.report.arityFacts? := by
  rw [diagnostic, Diagnostic.arityFacts?_placed, Diagnostic.arityFacts?_withData? (by decide),
    Diagnostic.arityFacts?_withData (by decide), Diagnostic.arityFacts?_withData (by decide)]

/-- What a call with one argument reports. -/
theorem Call.check_pair (limits : Limits) (callee : String) (param arg : Site)
    (position : Option Position) :
    check limits { callee, params := [param], args := [arg], position } =
      ((argDiscord? limits param arg).map fun discord =>
        Misfit.diagnostic callee ⟨0, param, arg, discord⟩).toList := by
  unfold check misfits
  cases h : argDiscord? limits param arg <;> simp [h]

/-- A call judges an argument by compatibility alone. -/
theorem Call.judged {limits : Limits} (hlevel : 1 ≤ limits.maxDepth) (callee : String)
    (param arg : Site) (position : Option Position) :
    Judged limits param.ty arg.ty (Text.isCompatible limits param.ty arg.ty) .callArgTypeMismatch
      (check limits { callee, params := [param], args := [arg], position }) := by
  rw [check_pair, argDiscord?]
  split
  · next hopen =>
    have hwild := Site.isWildcard_of_skipped hopen
    exact .of_isWildcard hwild (Text.isCompatible_of_isWildcard hlevel hwild)
  unfold discord?
  split
  · next m hfound =>
    exact .arity hfound ((Misfit.arityFacts?_diagnostic _ _).trans
      (Diagnostic.arityFacts?_ofArity _ _ m))
  · next hnone =>
    split
    · next hcompatible => exact .fits hnone hcompatible
    · next hcompatible =>
      refine .refused hnone (Bool.not_eq_true _ ▸ hcompatible) ?_
      simp [Misfit.diagnostic, Misfit.report, Diagnostic.withTypes]

/-- An assignment judges a value by compatibility and unification. -/
theorem Assignment.judged {limits : Limits} (hlevel : 1 ≤ limits.maxDepth) (target value : Site) :
    Judged limits target.ty value.ty (Text.accepts limits target.ty value.ty) .assignTypeMismatch
      (check limits ⟨target, value⟩).toList := by
  unfold check checkAs
  split
  · next hopen => exact .of_isWildcard hopen (Text.accepts_of_isWildcard hlevel hopen)
  unfold valueDiagnostic?
  split
  · next m hfound =>
    refine .arity hfound ?_
    rw [Diagnostic.arityFacts?_placed, Diagnostic.withName,
      Diagnostic.arityFacts?_withData? (by decide)]
    exact Diagnostic.arityFacts?_ofArity _ _ m
  · next hnone =>
    split
    · next haccepts => exact .fits hnone haccepts
    · next haccepts =>
      refine .refused hnone (Bool.not_eq_true _ ▸ haccepts) ?_
      simp [Diagnostic.withTypes, Diagnostic.withName]

/-- A return of one value is checked by checking the value. -/
theorem Return.check_pair (limits : Limits) (declared returned : Site)
    (position : Option Position) :
    check limits { declared := [declared], returned := [returned], position } =
      (checkAt limits position 0 declared returned).toList := by
  unfold check
  cases h : checkAt limits position 0 declared returned <;> simp [h]

/-- A return judges a value as an assignment does, but a value that is accepted may
leave variables open. -/
theorem Return.judged {limits : Limits} (hlevel : 1 ≤ limits.maxDepth) (declared returned : Site)
    (position : Option Position) :
    let ds := check limits { declared := [declared], returned := [returned], position }
    let accepted := Text.accepts limits declared.ty returned.ty
    Judged limits declared.ty returned.ty accepted .returnTypeMismatch ds ∨
      Text.locate? limits declared.ty returned.ty = none ∧ accepted = true ∧
        ∃ d, ds = [d] ∧ d.category = .typeUninferred := by
  intro ds accepted
  have hcheck : ds = _ := check_pair limits declared returned position
  rw [hcheck, checkAt]
  split
  · next hopen =>
    have hwild := Site.isWildcard_of_skipped hopen
    exact .inl (.of_isWildcard hwild (Text.accepts_of_isWildcard hlevel hwild))
  unfold valueDiagnostic?
  split
  · next m hfound =>
    refine .inl (.arity hfound ?_)
    rw [Diagnostic.arityFacts?_placed, Diagnostic.arityFacts?_withData (by decide)]
    exact Diagnostic.arityFacts?_ofArity _ _ m
  next hnone =>
  split
  · next s hunify =>
    have haccepts := Text.accepts_of_unify hunify
    split
    · exact .inl (.fits hnone haccepts)
    · exact .inr ⟨hnone, haccepts, _, rfl, by simp [uninferredDiagnostic]⟩
  · next e hunify =>
    have haccepts : accepted = _ := Text.accepts_of_unify_error hunify
    split
    · next hcompatible => exact .inl (.fits hnone (haccepts.trans hcompatible))
    · next hcompatible =>
      refine .inl (.refused hnone (haccepts.trans (Bool.not_eq_true _ ▸ hcompatible)) ?_)
      simp [mismatchDiagnostic, Diagnostic.withTypes]

/-- What a return reports about one value. -/
theorem Return.reported {limits : Limits} (hlevel : 1 ≤ limits.maxDepth)
    (declared returned : Site) (position : Option Position) :
    let ds := check limits { declared := [declared], returned := [returned], position }
    let found := Text.locate? limits declared.ty returned.ty
    let accepted := Text.accepts limits declared.ty returned.ty
    arityReports ds = found.toList.map (·.facts.map some) ∧
      ((∃ d ∈ ds, d.category = .returnTypeMismatch) ↔ found = none ∧ accepted = false) ∧
      ∀ d ∈ ds, d.category ≠ .genericArityMismatch → d.category ≠ .returnTypeMismatch →
        d.category = .typeUninferred ∧ found = none ∧ accepted = true := by
  intro ds found accepted
  rcases judged hlevel declared returned position with hjudged | ⟨hnone, haccepts, d, hds, hd⟩
  · refine ⟨hjudged.arityReports_eq (by decide), hjudged.exists_mismatch_iff (by decide),
      fun d hd harity htype => ?_⟩
    rcases hjudged.category_of_mem hd with hcategory | hcategory
    · exact absurd hcategory harity
    · exact absurd hcategory htype
  · have hfacts : d.arityFacts? = none := Diagnostic.arityFacts?_of_ne (by simp [hd])
    change ds = [d] at hds
    rw [hds]
    refine ⟨by simp [arityReports, hfacts, found, hnone], ?_, fun d' hd' _ _ => ?_⟩
    · simp [hd, accepted, haccepts]
    · rw [List.mem_singleton.mp hd']
      exact ⟨hd, hnone, haccepts⟩

/-- **The boundary checks agree on every pair of sites.**  What a call accepts, an
assignment accepts.  All three checks report the arity of a generic exactly where a
mismatch is located, and say the same about it.  A return and an assignment refuse
the same values as being of another type; what a return reports beyond that are
variables that are left open in a value which the assignment accepts. -/
theorem boundaries_agree {limits : Limits} (hlevel : 1 ≤ limits.maxDepth) (p a : Site)
    (callee : String) (callPosition returnPosition : Option Position) :
    let called := Call.check limits ⟨callee, [p], [a], callPosition⟩
    let assigned := Assignment.check limits ⟨p, a⟩
    let returned := Return.check limits ⟨[p], [a], returnPosition⟩
    let located := (Text.locate? limits p.ty a.ty).toList.map (·.facts.map some)
    (called = [] → assigned = none) ∧
    (arityReports called = located ∧ arityReports assigned.toList = located ∧
      arityReports returned = located) ∧
    ((∃ d ∈ returned, d.category = .returnTypeMismatch) ↔
      ∃ d, assigned = some d ∧ d.category = .assignTypeMismatch) ∧
    ∀ d ∈ returned, d.category ≠ .genericArityMismatch → d.category ≠ .returnTypeMismatch →
      d.category = .typeUninferred ∧ assigned = none := by
  intro called assigned returned located
  have hcall := Call.judged hlevel callee p a callPosition
  have hassign := Assignment.judged hlevel p a
  obtain ⟨hreports, hreturn, hother⟩ := Return.reported hlevel p a returnPosition
  have hnone : assigned = none ↔
      Text.locate? limits p.ty a.ty = none ∧ Text.accepts limits p.ty a.ty = true := by
    rw [← hassign.eq_nil_iff, Option.toList_eq_nil_iff]
  have hmismatch : (∃ d, assigned = some d ∧ d.category = .assignTypeMismatch) ↔
      Text.locate? limits p.ty a.ty = none ∧ Text.accepts limits p.ty a.ty = false := by
    simpa using hassign.exists_mismatch_iff (by decide)
  refine ⟨fun hnil => ?_, ⟨hcall.arityReports_eq (by decide), hassign.arityReports_eq (by decide),
    hreports⟩, hreturn.trans hmismatch.symm, fun d hd harity htype => ?_⟩
  · obtain ⟨hfound, hcompatible⟩ := hcall.eq_nil_iff.mp hnil
    exact hnone.mpr ⟨hfound, by rw [Text.accepts, hcompatible, Bool.true_or]⟩
  · obtain ⟨hopen, hfound, haccepts⟩ := hother d hd harity htype
    exact ⟨hopen, hnone.mpr ⟨hfound, haccepts⟩⟩

/-- A list of a variable: given for itself it passes, a variable that is returned
for another one is left open, and events in a list that differ in their number of
arguments are reported alike. -/
theorem boundaries_agree_list :
    let p : Site := { ty := "List<T>".toList }
    let v : Site := { ty := "List<U>".toList }
    let q : Site := { ty := "List<Event<T,U>>".toList }
    let b : Site := { ty := "List<Event<int>>".toList, name := some "b" }
    let m : ArityMismatch := ⟨["List", "Event"], [0], [], "Event", 2, 1⟩
    Assignment.check {} ⟨p, p⟩ = none ∧
      ((Return.check {} ⟨[p], [v], none⟩).map Diagnostic.category = [.typeUninferred] ∧
        Assignment.check {} ⟨p, v⟩ = none) ∧
      (arityReports (Call.check {} ⟨"f", [q], [b], none⟩) = [m.facts.map some] ∧
        arityReports (Assignment.check {} ⟨q, b⟩).toList = [m.facts.map some] ∧
        arityReports (Return.check {} ⟨[q], [b], none⟩) = [m.facts.map some]) := by
  intro p v q b m
  have hlevel : 1 ≤ ({} : Limits).maxDepth := by decide
  obtain ⟨hsame, -⟩ := boundaries_agree hlevel p p "f" none none
  obtain ⟨-, -, -, hopen⟩ := boundaries_agree hlevel p v "f" none none
  obtain ⟨-, harity, -⟩ := boundaries_agree hlevel q b "f" none none
  have hcategories : (Return.check {} ⟨[p], [v], none⟩).map Diagnostic.category =
      [.typeUninferred] := by
    decide +kernel
  obtain ⟨d, hd, hcategory⟩ := List.mem_map.mp (hcategories ▸ List.mem_singleton_self _)
  have hlocated : Text.locate? {} q.ty b.ty = some m := by decide +kernel
  rw [hlocated] at harity
  exact ⟨hsame (List.isEmpty_iff.mp (by decide +kernel)),
    ⟨hcategories, (hopen d hd (by simp [hcategory]) (by simp [hcategory])).2⟩, harity⟩

end TypeFlow
