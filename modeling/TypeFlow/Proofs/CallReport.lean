import TypeFlow.Proofs.Boundaries
import TypeFlow.Proofs.Routes

/-!
# TypeFlow.Proofs.CallReport

The report of a call as a whole.  It is made from one list, the arguments that do not fit:
each of them is reported as if it were the only argument, under its own number, and where
there are several of them a summary counts and lists them and repeats where the arities of
generics differ.

* `Misfit.renumbered` — what is reported about an argument, and what would be reported
  about it alone;
* `exists_places` — the places in a summary are those of the reports on arities;
* `check_reports` — the report of a call with as many arguments as parameters.
-/

namespace TypeFlow

/-! ## what is added to a diagnostic -/

namespace Diagnostic

/-- What is added is found, and what is left out leaves what was there. -/
theorem find?_withData?_self (d : Diagnostic) (key : String) (value : Option Datum) :
    (d.withData? key value).data.find? key = value.or (d.data.find? key) := by
  cases value with
  | none => rfl
  | some v => rw [withData?, find?_withData, if_pos rfl, Option.some_or]

theorem position_withData? (d : Diagnostic) (key : String) (value : Option Datum) :
    (d.withData? key value).position = d.position := by
  cases value <;> rfl

/-- A diagnostic without a position gets the one it is placed at. -/
theorem position_placed {d : Diagnostic} (h : d.position = none) (position : Option Position) :
    (d.placed position).position = position := by
  cases position with
  | none => exact h
  | some p => rfl

/-- Diagnostics of one category at one place differ in their messages and data. -/
theorem eq_of_category_of_position {d d' : Diagnostic} (hcategory : d.category = d'.category)
    (hposition : d.position = d'.position) :
    d = { d' with message := d.message, data := d.data } := by
  rw [← hcategory, ← hposition]

/-- Data stay in order when one is added. -/
theorem sorted_withData {d : Diagnostic} (h : d.data.Sorted) (key : String) (value : Datum) :
    (d.withData key value).data.Sorted :=
  NameMap.sorted_insert h key value

theorem sorted_withData? {d : Diagnostic} (h : d.data.Sorted) (key : String)
    (value : Option Datum) : (d.withData? key value).data.Sorted := by
  cases value with
  | none => exact h
  | some v => exact sorted_withData h key v

/-- Data stay in order when the two types are added. -/
theorem sorted_withTypes {d : Diagnostic} (h : d.data.Sorted) (want got : Text) :
    (d.withTypes want got).data.Sorted :=
  sorted_withData (sorted_withData h _ _) _ _

end Diagnostic

namespace Call

/-! ## the entries of a report -/

/-- What is reported about an argument, with the number of the argument. -/
abbrev Entry := Nat × Diagnostic

/-- How the message about an argument of another type begins. -/
def argMessage (index : Nat) : String := "call argument type mismatch: arg " ++ toString index

/-- `d` says about argument `index` what `alone` says about an only argument: it has another
number, and this number is in the message where a message names one. -/
structure Renumbered (index : Nat) (alone d : Diagnostic) : Prop where
  same : d = { alone with
    message := d.message, data := alone.data.insert "argIndex" (.nat index) }
  message :
    d.category = .genericArityMismatch ∧ d.message = alone.message ∨
    d.category = .callArgTypeMismatch ∧
      ∃ rest, alone.message = argMessage 0 ++ rest ∧ d.message = argMessage index ++ rest

namespace Misfit

variable (callee : String) (m : Misfit)

/-- What is reported about an argument, under its number. -/
def entry : Entry := (m.index, m.diagnostic callee)

/-- **The data of a report on an argument are in order**, so they can be compared by
what is found in them. -/
theorem sorted_diagnostic : (m.diagnostic callee).data.Sorted := by
  have hreport : m.report.data.Sorted := by
    unfold report
    split
    · exact Diagnostic.sorted_withTypes (NameMap.sorted_insertAll NameMap.sorted_nil _) _ _
    · exact Diagnostic.sorted_withTypes NameMap.sorted_nil _ _
  rw [diagnostic, Diagnostic.data_placed]
  exact Diagnostic.sorted_withData?
    (Diagnostic.sorted_withData (Diagnostic.sorted_withData hreport _ _) _ _) _ _

/-- The number of an argument is seen under its own key only. -/
theorem find?_diagnostic_of_ne {key : String} (h : "argIndex" ≠ key) (index : Nat) :
    (m.diagnostic callee).data.find? key =
      (diagnostic callee { m with index }).data.find? key := by
  have hreport : m.report.data = (report { m with index }).data := by
    unfold report
    cases m.discord with
    | arity found => rfl
    | type => simp only [Diagnostic.withTypes, Diagnostic.withData]
  simp only [diagnostic, Diagnostic.data_placed]
  cases m.param.position <;>
    simp only [Diagnostic.withData?, Option.map_none, Option.map_some, Diagnostic.find?_withData,
      if_neg h, hreport]

/-- The place of an argument has no part in the message. -/
theorem message_diagnostic : (m.diagnostic callee).message = m.report.message := by
  unfold diagnostic
  cases m.arg.position <;> cases m.param.position <;> rfl

/-- An argument is reported where it stands. -/
theorem position_diagnostic : (m.diagnostic callee).position = m.arg.position := by
  refine Diagnostic.position_placed ?_ _
  rw [Diagnostic.position_withData?]
  unfold report
  cases m.discord <;> rfl

/-- The message about another type names the argument, then the types. -/
theorem message_report_of_type (h : m.discord = .type) :
    m.report.message = argMessage m.index ++
      (" expected " ++ (String.ofList m.param.ty ++ (", got " ++ String.ofList m.arg.ty))) := by
  have hmessage : m.report.message = argMessage m.index ++ " expected " ++
      String.ofList m.param.ty ++ ", got " ++ String.ofList m.arg.ty := by
    unfold report
    rw [h]
    rfl
  rw [hmessage, String.append_assoc, String.append_assoc, String.append_assoc]

/-- An argument is reported as it would be alone, under its own number. -/
theorem renumbered :
    Renumbered m.index (diagnostic callee { m with index := 0 }) (m.diagnostic callee) where
  same := by
    have hcategory : (m.diagnostic callee).category =
        (diagnostic callee { m with index := 0 }).category := by
      rw [category_diagnostic, category_diagnostic]
    have hdata : (m.diagnostic callee).data =
        (diagnostic callee { m with index := 0 }).data.insert "argIndex" (.nat m.index) := by
      refine NameMap.ext (sorted_diagnostic _ _) (NameMap.sorted_insert (sorted_diagnostic _ _) _ _)
        fun key => ?_
      rw [NameMap.find?_insert]
      split
      · next hkey => rw [← hkey, find?_argIndex]
      · next hkey => exact find?_diagnostic_of_ne callee m hkey 0
    rw [← hdata]
    refine Diagnostic.eq_of_category_of_position hcategory ?_
    rw [position_diagnostic, position_diagnostic]
  message := by
    rw [category_diagnostic, message_diagnostic, message_diagnostic]
    obtain ⟨index, param, arg, _ | _⟩ := m
    · exact .inl ⟨rfl, rfl⟩
    · exact .inr ⟨rfl, _, message_report_of_type ⟨0, param, arg, .type⟩ rfl,
        message_report_of_type ⟨index, param, arg, .type⟩ rfl⟩

end Misfit

/-! ## places -/

/-- What the entry of a place and the report on its argument have in common. -/
def placeKeys : List String := ["argIndex", "base", "path", "pathIdx", "fieldPath"]

/-- What there is to say about the place of a mismatch, in the order of `placeKeys`. -/
def placeFacts (index : Nat) (found : ArityMismatch) : List Datum :=
  [.nat index, .str found.base, .strs found.path, .nats found.pathIdx, .strs found.fieldPath]

namespace Misfit

variable {m : Misfit} {found : ArityMismatch}

/-- The report on an arity says at which argument and where in it the mismatch is. -/
theorem placeKeys_diagnostic (h : m.discord = .arity found) (callee : String) :
    placeKeys.map (m.diagnostic callee).data.find? = (placeFacts m.index found).map some := by
  have hfacts : (m.diagnostic callee).arityFacts? = some (found.facts.map some) := by
    rw [arityFacts?_diagnostic, report, h, Diagnostic.arityFacts?_ofArity]
  have hkeys : arityKeys.map (m.diagnostic callee).data.find? = found.facts.map some := by
    unfold Diagnostic.arityFacts? at hfacts
    split at hfacts
    · exact Option.some.inj hfacts
    · cases hfacts
  simp only [arityKeys, ArityMismatch.facts, List.map_cons, List.cons.injEq] at hkeys
  simp [placeKeys, placeFacts, find?_argIndex, hkeys]

/-- The summary says the same of this argument. -/
theorem exists_place (h : m.discord = .arity found) :
    ∃ place : NameMap Datum, m.place? = some (.obj place) ∧
      placeKeys.map place.find? = (placeFacts m.index found).map some := by
  unfold place?
  rw [h]
  refine ⟨_, rfl, ?_⟩
  -- What may be added stands under keys of its own.
  have hkeys : (placeKeys ++ ["expectedPos"] ++ ["paramName"]).Nodup := by decide
  rw [List.map_congr_left fun key _ => NameMap.find?_ofList (hkeys.sublist ?_) key]
  · simp [placeKeys, placeFacts, NameMap.find?]
  · simp only [NameMap.names, List.map_append]
    refine ((List.Sublist.refl _).append ?_).append ?_
    · cases m.param.position <;> simp
    · cases m.param.name with
      | none => simp
      | some n => by_cases hn : n = "" <;> simp [hn]

end Misfit

/-- The entries that are about the arity of a generic. -/
def arities (entries : List Entry) : List Entry :=
  entries.filter fun e => e.2.category = .genericArityMismatch

/-- The places of arguments that do not fit are those of the reports on arities, in the same
order. -/
theorem exists_places (callee : String) (ms : List Misfit) :
    ∃ places : List (NameMap Datum), ms.filterMap Misfit.place? = places.map .obj ∧
      places.map (placeKeys.map ·.find?) =
        (arities (ms.map (Misfit.entry callee))).map (placeKeys.map ·.2.data.find?) := by
  induction ms with
  | nil => exact ⟨[], rfl, rfl⟩
  | cons m ms ih =>
      obtain ⟨places, hplaces, hkeys⟩ := ih
      -- An argument adds to the places and to the reports on arities, or to neither.
      have hcategory := Misfit.category_diagnostic callee m
      cases hdiscord : m.discord with
      | arity found =>
          rw [hdiscord] at hcategory
          obtain ⟨place, hplace, hfacts⟩ := Misfit.exists_place hdiscord
          refine ⟨place :: places, ?_, ?_⟩
          · rw [List.filterMap_cons_some hplace, hplaces, List.map_cons]
          · have hhead : arities ((m :: ms).map (Misfit.entry callee)) =
                m.entry callee :: arities (ms.map (Misfit.entry callee)) :=
              List.filter_cons_of_pos (decide_eq_true hcategory)
            rw [hhead, List.map_cons, List.map_cons, hkeys, hfacts, Misfit.entry,
              Misfit.placeKeys_diagnostic hdiscord]
      | type =>
          rw [hdiscord] at hcategory
          have hplace : m.place? = none := by rw [Misfit.place?, hdiscord]
          have hhead : arities ((m :: ms).map (Misfit.entry callee)) =
              arities (ms.map (Misfit.entry callee)) :=
            List.filter_cons_of_neg (by simp [Misfit.entry, hcategory])
          exact ⟨places, by rw [List.filterMap_cons_none hplace, hplaces], by rw [hhead, hkeys]⟩

/-! ## the summary -/

/-- `d` sums up the entries of the report on a call: it stands where the call stands, counts
the entries and lists their numbers.  Its places are those of the entries that are about the
arity of a generic, and there are none only if no entry is. -/
structure Summarizes (call : Call) (entries : List Entry) (d : Diagnostic) : Prop where
  category : d.category = .callArgsMismatchSummary
  position : d.position = call.position
  count : d.data.find? "count" = some (.nat entries.length)
  indices : d.data.find? "indices" = some (.nats (entries.map Prod.fst))
  paths : ∃ places : List (NameMap Datum),
    places.map (placeKeys.map ·.find?) = (arities entries).map (placeKeys.map ·.2.data.find?) ∧
    d.data.find? "paths" =
      if (arities entries).isEmpty then none else some (.arr (places.map .obj))

/-- The summary is one of just the entries that it is made of. -/
theorem summarizes_summary (call : Call) (ms : List Misfit) :
    Summarizes call (ms.map (Misfit.entry call.callee)) (call.summary ms) where
  category := by simp [summary, Diagnostic.ofCategory]
  position := by
    refine Diagnostic.position_placed ?_ _
    rw [Diagnostic.position_withData?]
    rfl
  count := by
    rw [summary, Diagnostic.data_placed, Diagnostic.find?_withData?_of_ne (by decide)]
    simp [Diagnostic.find?_withData]
  indices := by
    rw [summary, Diagnostic.data_placed, Diagnostic.find?_withData?_of_ne (by decide)]
    simp [Diagnostic.find?_withData, Function.comp_def, Misfit.entry]
  paths := by
    obtain ⟨places, hplaces, hkeys⟩ := exists_places call.callee ms
    refine ⟨places, hkeys, ?_⟩
    have hempty := congrArg List.isEmpty hkeys
    rw [List.isEmpty_map, List.isEmpty_map] at hempty
    rw [summary, Diagnostic.data_placed, Diagnostic.find?_withData?_self, hplaces, ← hempty]
    simp [Diagnostic.find?_withData, Diagnostic.ofCategory]

/-! ## the report -/

/-- The entries of the report on a call, in the order of the arguments.  An argument has an
entry if a call with this one argument would be reported, and the entry says what that report
says, under the number of the argument.  An entry about the arity of a generic tells all that
a place is told by. -/
structure Reports (limits : Limits) (call : Call) (entries : List Entry) : Prop where
  ordered : (entries.map Prod.fst).Pairwise (· < ·)
  numbered : ∀ e ∈ entries, e.2.data.find? "argIndex" = some (.nat e.1)
  complete : ∀ i param arg, call.params[i]? = some param → call.args[i]? = some arg →
    ∀ position, i ∈ entries.map Prod.fst ↔
      check limits ⟨call.callee, [param], [arg], position⟩ ≠ []
  alone : ∀ e ∈ entries, ∃ param arg d, call.params[e.1]? = some param ∧
    call.args[e.1]? = some arg ∧ Renumbered e.1 d e.2 ∧
    ∀ position, check limits ⟨call.callee, [param], [arg], position⟩ = [d]
  located : ∀ e ∈ arities entries, none ∉ placeKeys.map e.2.data.find?

/-- Arguments that do not fit are listed from first to last, each once. -/
theorem pairwise_misfits (limits : Limits) (call : Call) :
    (call.misfits limits).Pairwise fun m n => m.index < n.index := by
  rw [misfits, List.pairwise_filterMap]
  refine (pairwise_zipIdx _).imp fun hlt m hm n hn => ?_
  obtain ⟨_, -, rfl⟩ := Option.map_eq_some_iff.mp hm
  obtain ⟨_, -, rfl⟩ := Option.map_eq_some_iff.mp hn
  exact hlt

/-- **The entries of a call are its reports**: one for each argument that is at fault
alone, in order, and none for the others. -/
theorem reports_misfits (limits : Limits) (call : Call) :
    Reports limits call ((call.misfits limits).map (Misfit.entry call.callee)) where
  ordered := by
    rw [List.map_map, List.pairwise_map]
    exact pairwise_misfits limits call
  numbered := by
    intro e he
    obtain ⟨m, -, rfl⟩ := List.mem_map.mp he
    exact Misfit.find?_argIndex call.callee m
  complete := by
    intro i param arg hparam harg position
    rw [check_pair]
    constructor
    · intro hi
      obtain ⟨e, he, rfl⟩ := List.mem_map.mp hi
      obtain ⟨m, hm, rfl⟩ := List.mem_map.mp he
      obtain ⟨hparam', harg', hdiscord⟩ := mem_misfits_iff.mp hm
      cases hparam.symm.trans hparam'
      cases harg.symm.trans harg'
      simp [hdiscord]
    · intro hne
      cases hdiscord : argDiscord? limits param arg with
      | none => simp [hdiscord] at hne
      | some discord =>
          have hm : ⟨i, param, arg, discord⟩ ∈ call.misfits limits :=
            mem_misfits_iff.mpr ⟨hparam, harg, hdiscord⟩
          exact List.mem_map_of_mem (List.mem_map_of_mem hm)
  alone := by
    intro e he
    obtain ⟨m, hm, rfl⟩ := List.mem_map.mp he
    obtain ⟨hparam, harg, hdiscord⟩ := mem_misfits_iff.mp hm
    refine ⟨m.param, m.arg, _, hparam, harg, Misfit.renumbered call.callee m, fun position => ?_⟩
    rw [check_pair, hdiscord]
    rfl
  located := by
    intro e he
    obtain ⟨hmem, hcategory⟩ := List.mem_filter.mp he
    obtain ⟨m, -, rfl⟩ := List.mem_map.mp hmem
    obtain ⟨found, hdiscord⟩ := Misfit.exists_arity (of_decide_eq_true hcategory)
    rw [Misfit.entry, Misfit.placeKeys_diagnostic hdiscord]
    simp

/-- **The report on a call.**  Where a call has as many arguments as parameters, what is
reported are the entries of its arguments in order, and after them, if and only if there are
two or more, one summary of them. -/
theorem check_reports (limits : Limits) (call : Call)
    (hlength : call.params.length = call.args.length) :
    ∃ entries, Reports limits call entries ∧
      (entries.length < 2 ∧ call.check limits = entries.map Prod.snd ∨
        2 ≤ entries.length ∧ ∃ d, Summarizes call entries d ∧
          call.check limits = entries.map Prod.snd ++ [d]) := by
  refine ⟨_, reports_misfits limits call, ?_⟩
  have hcheck : call.check limits = (call.misfits limits).map (Misfit.diagnostic call.callee) ++
      if 1 < (call.misfits limits).length then [call.summary (call.misfits limits)] else [] := by
    rw [check, if_neg (not_not.mpr hlength)]
  have hsnd : ((call.misfits limits).map (Misfit.entry call.callee)).map Prod.snd =
      (call.misfits limits).map (Misfit.diagnostic call.callee) := by
    rw [List.map_map]
    rfl
  rw [hcheck, hsnd, List.length_map]
  split
  · next hmany => exact .inr ⟨hmany, _, summarizes_summary call _, rfl⟩
  · next hfew => exact .inl ⟨Nat.lt_of_not_le hfew, List.append_nil _⟩

/-- An open parameter, a generic with an argument too many and an argument of another type:
the last two have an entry each, and a summary. -/
theorem check_reports_mixed :
    let params : List Site := [{ ty := "any".toList },
      { ty := "Owned<T>".toList, name := some "owner", position := some ⟨1, 10, 9⟩ },
      { ty := "int".toList }]
    let args : List Site := [{ ty := "bool".toList },
      { ty := "Owned<U,V>".toList, position := some ⟨5, 8, 70⟩ }, { ty := "string".toList }]
    let call : Call := ⟨"f", params, args, some ⟨5, 3, 65⟩⟩
    (call.check {}).map Diagnostic.category =
        [.genericArityMismatch, .callArgTypeMismatch, .callArgsMismatchSummary] ∧
      ∃ entries d, Reports {} call entries ∧ Summarizes call entries d ∧
        call.check {} = entries.map Prod.snd ++ [d] := by
  intro params args call
  have hcategories : (call.check {}).map Diagnostic.category =
      [.genericArityMismatch, .callArgTypeMismatch, .callArgsMismatchSummary] := by
    decide +kernel
  have hreport := check_reports {} call rfl
  clear_value call
  refine ⟨hcategories, ?_⟩
  obtain ⟨entries, hreports, ⟨hfew, hcheck⟩ | ⟨-, d, hsummarizes, hcheck⟩⟩ := hreport
  · have hlength := congrArg List.length hcategories
    rw [hcheck, List.length_map, List.length_map] at hlength
    exact absurd hlength (Nat.ne_of_lt (Nat.lt_succ_of_lt hfew))
  · exact ⟨entries, d, hreports, hsummarizes, hcheck⟩

end Call

end TypeFlow
