import TypeFlow.Proofs.Flows
import TypeFlow.Proofs.Grammar
import TypeFlow.Proofs.Rejection

/-!
# TypeFlow.Proofs.Comparison

Texts that can be read.  Comparing, locating and unifying go down two types in
step, so a limit that lets both be read is enough for each of them; and comparing
texts, which looks into a few generics only, never accepts a pair whose types do
not flow.

* `Paired` — what a level of the comparison does with two texts that can be read,
  told by their types;
* `flowsAt_of_compatibleAt` — compatible texts have types that flow, with the same
  number of levels;
* `exists_compatibleAt`, `answered_unifyAt` — comparing and unifying return.
-/

namespace TypeFlow

namespace Ty

/-! ## open types -/

/-- No scalar has the name of a type variable. -/
theorem name_ne_of_isVar {n : String} (h : Text.isVar n.toList = true) (s : Scalar) :
    s.name ≠ n := by
  rintro rfl
  cases s <;> exact absurd h (by decide)

/-- No scalar has the name of the wildcard. -/
theorem name_ne_wildcardName (s : Scalar) : s.name ≠ wildcardName := by
  cases s <;> decide

/-- A text that agrees with every other is read as a type variable or the
wildcard. -/
theorem isUnconstrained_of_absorbs {limit budget : Nat} {text : Text} {t : Ty}
    (hread : readAt limit budget text = .ok t) (h : text.absorbs = true) :
    t.isUnconstrained = true := by
  cases budget with
  | zero => cases hread
  | succ budget =>
      obtain ⟨shape, hscan, hfills⟩ := readAt_succ_eq_ok_iff.mp hread
      have hatom : ¬ text.HasParts := fun hparts => by
        rw [hparts.absorbs_eq_false] at h
        cases h
      cases hfills with
      | generic _ _ => exact absurd (Text.hasParts_of_generic hscan) hatom
      | record _ => exact absurd (Text.hasParts_of_struct hscan) hatom
      | atom n =>
          have htrim : text.trim = n.toList := by
            have houtline := Shape.scan_eq_ok_iff.mp hscan
            generalize text.trim = s at houtline
            cases houtline with
            | atom _ => rfl
          simp only [Text.absorbs, Text.isWildcard, Bool.or_eq_true, beq_iff_eq] at h
          rcases h with hvar | hnil | hany
          · rw [htrim] at hvar
            rw [ofName_of_ne (name_ne_of_isVar hvar), isUnconstrained, isVar, hvar, Bool.true_or]
          · rw [Shape.scan, hnil] at hscan
            cases hscan
          · have hn : n = wildcardName := String.toList_inj.mp (htrim.symm.trans hany)
            rw [hn, ofName_of_ne name_ne_wildcardName]
            rfl

/-! ## a level of the comparison -/

/-- A base that is neither `Optional` nor `Union` makes a generic of its arguments. -/
theorem Applied.eq_generic {base : String} {args : List Ty} {t : Ty} (h : Applied base args t)
    (ho : base ≠ "Optional") (hu : base ≠ "Union") : t = .generic base args := by
  cases h with
  | optional _ => exact absurd rfl ho
  | union _ => exact absurd rfl hu
  | generic _ _ => rfl

/-- The arguments of a text that is read as a generic, with their types. -/
theorem exists_args_of_readAt {limit budget : Nat} {text : Text} {t : Ty} {base : String}
    {texts : List Text} (hread : readAt limit (budget + 1) text = .ok t)
    (hscan : Shape.scan text = .ok (.generic base texts)) (ho : base ≠ "Optional")
    (hu : base ≠ "Union") :
    ∃ args : List (Text × Ty), args.map Prod.fst = texts ∧
      (∀ a ∈ args, readAt limit budget a.1 = .ok a.2) ∧ t = .generic base (args.map Prod.snd) := by
  obtain ⟨shape, hshape, hfills⟩ := readAt_succ_eq_ok_iff.mp hread
  rw [hscan] at hshape
  cases hshape
  obtain ⟨args, hargs, hreads, happlied⟩ := hfills.exists_args
  exact ⟨args, hargs, hreads, happlied.eq_generic ho hu⟩

/-- A generic with one argument that is looked into is read as a generic of its
argument. -/
theorem exists_argument_of_readAt {limit budget : Nat} {text a : Text} {t : Ty} {base : String}
    (hbase : base ∈ covariant) (hread : readAt limit (budget + 1) text = .ok t)
    (hscan : Shape.scan text = .ok (.generic base [a])) :
    ∃ u, readAt limit budget a = .ok u ∧ t = .generic base [u] := by
  have ho : base ≠ "Optional" := fun h => absurd (h ▸ hbase) (by decide)
  have hu : base ≠ "Union" := fun h => absurd (h ▸ hbase) (by decide)
  obtain ⟨args, hargs, hreads, rfl⟩ := exists_args_of_readAt hread hscan ho hu
  obtain ⟨p, rfl, rfl⟩ := List.map_eq_singleton_iff.mp hargs
  exact ⟨p.2, hreads p List.mem_cons_self, rfl⟩

/-- A map is read as a map of its key and its value. -/
theorem exists_entry_of_readAt {limit budget : Nat} {text key value : Text} {t : Ty}
    (hread : readAt limit (budget + 1) text = .ok t)
    (hscan : Shape.scan text = .ok (.generic "map" [key, value])) :
    ∃ k v, readAt limit budget key = .ok k ∧ readAt limit budget value = .ok v ∧
      t = .generic "map" [k, v] := by
  obtain ⟨args, hargs, hreads, rfl⟩ :=
    exists_args_of_readAt hread hscan (by decide) (by decide)
  obtain ⟨p, ps, rfl, rfl, hps⟩ := List.map_eq_cons_iff.mp hargs
  obtain ⟨q, rfl, rfl⟩ := List.map_eq_singleton_iff.mp hps
  exact ⟨p.2, q.2, hreads p (by simp), hreads q (by simp), rfl⟩

/-- What a level of the comparison does with two texts that are read as `w` and
`g`, told by these types and by the texts and types of their parts. -/
inductive Paired (limit budget : Nat) : Ty → Ty → Except ReadError Bool → Prop where
  | free {w g : Ty} (h : w.isUnconstrained = true ∨ g.isUnconstrained = true) :
      Paired limit budget w g (.ok true)
  | same (t : Ty) : Paired limit budget t t (.ok true)
  | absorbed {n : String} {a b : Text} {t u : Ty} (ha : readAt limit budget a = .ok t)
      (hb : readAt limit budget b = .ok u)
      (h : t.isUnconstrained = true ∨ u.isUnconstrained = true) :
      Paired limit budget (.generic n [t]) (.generic n [u]) (.ok true)
  | argument {n : String} {a b : Text} {t u : Ty} (ha : readAt limit budget a = .ok t)
      (hb : readAt limit budget b = .ok u) :
      Paired limit budget (.generic n [t]) (.generic n [u]) (Text.compatibleAt limit budget a b)
  | entries {n : String} {key value key' value' : Text} {k v k' v' : Ty}
      (hk : readAt limit budget key = .ok k) (hk' : readAt limit budget key' = .ok k')
      (hv : readAt limit budget value = .ok v) (hv' : readAt limit budget value' = .ok v') :
      Paired limit budget (.generic n [k, v]) (.generic n [k', v']) (do
        if ← Text.compatibleAt limit budget key key' then
          Text.compatibleAt limit budget value value'
        else .ok false)
  | apart (w g : Ty) : Paired limit budget w g (.ok false)

/-- **One level of comparing two readable texts**, told by their types: the parts that
are gone on with can be read with the levels that are left. -/
theorem paired_compatibleAt {limit budget : Nat} {want got : Text} {w g : Ty}
    (hw : readAt limit (budget + 1) want = .ok w) (hg : readAt limit (budget + 1) got = .ok g) :
    Paired limit budget w g (Text.compatibleAt limit (budget + 1) want got) := by
  have hlevel := Text.compared_compatibleAt limit budget want got
  generalize Text.compatibleAt limit (budget + 1) want got = result at hlevel
  cases hlevel with
  | wildcard h =>
      exact .free (h.imp (fun h => isUnconstrained_of_absorbs hw (Text.absorbs_of_isWildcard h))
        fun h => isUnconstrained_of_absorbs hg (Text.absorbs_of_isWildcard h))
  | same h =>
      rw [← readAt_trim, h, readAt_trim, hg] at hw
      cases hw
      exact .same w
  | unscanned h =>
      obtain ⟨_, hwscan, -⟩ := readAt_succ_eq_ok_iff.mp hw
      obtain ⟨_, hgscan, -⟩ := readAt_succ_eq_ok_iff.mp hg
      rw [hwscan, hgscan] at h
      simp at h
  | absorbed hbase hwscan hgscan h =>
      obtain ⟨t, ht, rfl⟩ := exists_argument_of_readAt hbase hw hwscan
      obtain ⟨u, hu, rfl⟩ := exists_argument_of_readAt hbase hg hgscan
      exact .absorbed ht hu (h.imp (isUnconstrained_of_absorbs ht) (isUnconstrained_of_absorbs hu))
  | argument hbase hwscan hgscan =>
      obtain ⟨t, ht, rfl⟩ := exists_argument_of_readAt hbase hw hwscan
      obtain ⟨u, hu, rfl⟩ := exists_argument_of_readAt hbase hg hgscan
      exact .argument ht hu
  | entries hwscan hgscan =>
      obtain ⟨k, v, hk, hv, rfl⟩ := exists_entry_of_readAt hw hwscan
      obtain ⟨k', v', hk', hv', rfl⟩ := exists_entry_of_readAt hg hgscan
      exact .entries hk hk' hv hv'
  | apart => exact .apart w g

/-! ## compatible texts flow -/

/-- An unconstrained side lets everything flow. -/
theorem flowsAt_free (limit budget : Nat) {want got : Ty}
    (h : want.isUnconstrained = true ∨ got.isUnconstrained = true) :
    flowsAt limit (budget + 1) want got = .ok true := by
  unfold flowsAt
  split
  · rfl
  · rw [if_pos (Bool.or_eq_true_iff.mpr h)]

/-- Generics flow with one level more than their arguments need. -/
theorem flowsAt_generic {limit budget : Nat} (n : String) {ws gs : List Ty}
    (hlength : ws.length = gs.length)
    (h : ∀ p ∈ ws.zip gs, flowsAt limit budget p.1 p.2 = .ok true) :
    flowsAt limit (budget + 1) (.generic n ws) (.generic n gs) = .ok true := by
  have hlevel := level_flowsAt limit budget (.generic n ws) (.generic n gs)
  generalize flowsAt limit (budget + 1) (.generic n ws) (.generic n gs) = result at hlevel
  cases hlevel with
  | same _ => rfl
  | free _ => rfl
  | generic _ => exact allM_eq_ok_true_iff.mpr h
  | clash hnot =>
      have hflows : Flows (.generic n ws) (.generic n gs) :=
        .generic hlength fun p hp => flows_of_flowsAt (h p hp)
      exact absurd hflows hnot

/-- **Compatible texts have types that flow**, with as many levels as it takes to
read them.  Comparing goes down one level where reading and flow do, so the levels
that are left are always the same. -/
theorem flowsAt_of_compatibleAt {limit budget : Nat} {want got : Text} {w g : Ty}
    (hw : readAt limit budget want = .ok w) (hg : readAt limit budget got = .ok g)
    (h : Text.compatibleAt limit budget want got = .ok true) :
    flowsAt limit budget w g = .ok true := by
  induction budget generalizing want got w g with
  | zero => cases hw
  | succ budget ih =>
      have hlevel := paired_compatibleAt hw hg
      rw [h] at hlevel
      generalize hresult : Except.ok true = result at hlevel
      cases hlevel with
      | free hfree => exact flowsAt_free limit budget hfree
      | same _ => exact flowsAt_self limit budget _
      | absorbed ha _ hfree =>
          refine flowsAt_generic _ rfl (List.forall_mem_singleton.mpr ?_)
          cases budget with
          | zero => cases ha
          | succ budget => exact flowsAt_free limit budget hfree
      | argument ha hb =>
          exact flowsAt_generic _ rfl (List.forall_mem_singleton.mpr (ih ha hb hresult.symm))
      | entries hk hk' hv hv' =>
          obtain ⟨hkeys, hvalues⟩ := Text.entries_eq_ok_true_iff.mp hresult.symm
          refine flowsAt_generic _ rfl (List.forall_mem_cons.mpr ⟨ih hk hk' hkeys, ?_⟩)
          exact List.forall_mem_singleton.mpr (ih hv hv' hvalues)
      | apart _ _ => cases hresult

end Ty

namespace Text

/-- **Comparing texts never accepts what does not flow.**  Of two texts that can
be read within the limits, compatible ones have types that flow within the same
limits. -/
theorem compatible_flows {limits : Limits} {want got : Text} {w g : Ty}
    (hw : Ty.read limits want = .ok w) (hg : Ty.read limits got = .ok g)
    (h : isCompatible limits want got = true) : mayFlow limits want got = true := by
  have hflows : Ty.flows limits w g = .ok true :=
    Ty.flowsAt_of_compatibleAt hw hg (isCompatible_iff.mp h)
  rw [mayFlow, hw, hg]
  simp only [Ty.mayFlow, hflows]

/-- Maps with the same key, whose values are sets of a type variable and of a
record, under the lowest limits that let the record be read. -/
theorem compatible_flows_map :
    let want := "map<K,set<T>>".toList
    let got := "map< K,set<Struct\x7ba:int\x7d>>".toList
    isCompatible ⟨4⟩ want got = true ∧ mayFlow ⟨4⟩ want got = true := by
  intro want got
  have hcompatible : isCompatible ⟨4⟩ want got = true := by decide +kernel
  have hw : Ty.read ⟨4⟩ want =
      .ok (.generic "map" [.named "K", .generic "set" [.named "T"]]) := rfl
  have hg : Ty.read ⟨4⟩ got =
      .ok (.generic "map" [.named "K", .generic "set" [.struct [("a", .scalar .int)]]]) := rfl
  exact ⟨hcompatible, compatible_flows hw hg hcompatible⟩

end Text

namespace Ty

/-! ## comparisons and runs that return -/

/-- **Readable texts can be compared to an end**: all that comparing looks at has been
read before. -/
theorem exists_compatibleAt {limit budget : Nat} {want got : Text} {w g : Ty}
    (hw : readAt limit budget want = .ok w) (hg : readAt limit budget got = .ok g) :
    ∃ b, Text.compatibleAt limit budget want got = .ok b := by
  induction budget generalizing want got w g with
  | zero => cases hw
  | succ budget ih =>
      have hlevel := paired_compatibleAt hw hg
      generalize Text.compatibleAt limit (budget + 1) want got = result at hlevel
      cases hlevel with
      | free _ => exact ⟨true, rfl⟩
      | same _ => exact ⟨true, rfl⟩
      | absorbed _ _ _ => exact ⟨true, rfl⟩
      | argument ha hb => exact ih ha hb
      | entries hk hk' hv hv' =>
          obtain ⟨keys, hkeys⟩ := ih hk hk'
          rw [hkeys]
          cases keys with
          | false => exact ⟨false, rfl⟩
          | true => exact ih hv hv'
      | apart _ _ => exact ⟨false, rfl⟩

end Ty

/-- A run that ends with bindings or with a reason not to unify, and not because a
type could not be read to its end. -/
def Run.Answered (r : Run) : Prop := ∀ cause, r.outcome ≠ .error (.unreadable cause)

namespace Run

/-- A single step is an answer. -/
theorem answered_done (step : Step) (s : Subst) : (done step s).Answered := by
  simp [Answered, done]

/-- A failure is an answer, unless it is about a text that cannot be read. -/
theorem answered_failed {e : UnifyError} (h : ∀ cause, e ≠ .unreadable cause) (want got : Ty) :
    (failed want got e).Answered :=
  fun cause herror => h cause (Except.error.inj herror)

/-- Two answers in a row are one. -/
theorem Answered.andThen {r : Run} {next : Subst → Run} (h : r.Answered)
    (hnext : ∀ s, (next s).Answered) : (r.andThen next).Answered := by
  cases houtcome : r.outcome with
  | error e =>
      rw [andThen_error houtcome]
      exact h
  | ok s =>
      rw [andThen_ok houtcome]
      exact hnext s

/-- Runs over a list answer when each of them does. -/
theorem answered_each {α : Type} {run : α → Subst → Run} {xs : List α}
    (h : ∀ x ∈ xs, ∀ s, (run x s).Answered) (s : Subst) : (each run xs s).Answered := by
  induction xs generalizing s with
  | nil => simp [Answered, each]
  | cons x xs ih =>
      obtain ⟨hx, hxs⟩ := List.forall_mem_cons.mp h
      exact (hx s).andThen (ih hxs)

end Run

namespace Ty

/-- A variable is bound, found to agree or refused, but nothing is read for it. -/
theorem answered_bindVar (v : String) (got : Ty) (s : Subst) : (bindVar v got s).Answered := by
  unfold bindVar
  split
  · exact Run.answered_done _ _
  · split
    · exact Run.answered_done _ _
    · exact Run.answered_failed (by simp) _ _

/-- A run that has levels enough for the declared type is answered. -/
theorem answered_unifyAt (limit : Nat) {budget : Nat} {want : Ty} (h : want.depth ≤ budget)
    (got : Ty) (s : Subst) : (unifyAt limit budget want got s).Answered := by
  induction budget generalizing want got s with
  | zero =>
      have hpos := want.depth_pos
      omega
  | succ budget ih =>
      unfold unifyAt
      split
      · exact answered_bindVar _ _ _
      split
      · exact Run.answered_done _ _
      split
      · next ws gs =>
        split
        · refine (Run.answered_done _ _).andThen (Run.answered_each fun p hp s => ih ?_ p.2 s)
          obtain ⟨e, he, heq⟩ := List.mem_map.mp (List.of_mem_zip hp).1
          have hlt := depth_lt_of_mem_fields he
          rw [heq] at hlt
          omega
        · exact Run.answered_failed (by simp) _ _
      · exact Run.answered_failed (by simp) _ _
      · exact Run.answered_failed (by simp) _ _
      · split
        · exact Run.answered_failed (by simp) _ _
        split
        · exact Run.answered_failed (by simp) _ _
        split
        · exact Run.answered_done _ _
        · refine (Run.answered_done _ _).andThen (Run.answered_each fun p hp s => ih ?_ p.2 s)
          have hlt := depth_lt_of_mem_args (List.of_mem_zip hp).1
          omega

end Ty

/-- **What can be read is answered.**  When both texts can be read within the
limits, comparing and locating return within the same limits, and a unifier with
these limits, whatever it has bound, either unifies the types or has a reason that
lies in the types themselves. -/
theorem readable_texts_answered {limits : Limits} {want got : Text} {w g : Ty}
    (hw : Ty.read limits want = .ok w) (hg : Ty.read limits got = .ok g) :
    (∃ b, Text.compatible limits want got = .ok b) ∧
      (∃ found, Text.locate limits want got = .ok found) ∧
      ∀ u : Unifier, u.limits = limits → ∀ cause, (u.unify w g).1 ≠ .error (.unreadable cause) := by
  have hdepth : w.depth ≤ limits.maxDepth := Ty.depth_le_of_readAt hw
  refine ⟨Ty.exists_compatibleAt hw hg, ?_, ?_⟩
  · rw [Text.locate, hw, hg]
    exact Ty.exists_locateAt limits.maxDepth hdepth g
  · rintro u rfl cause herror
    have hanswered := Ty.answered_unifyAt u.limits.maxDepth hdepth g u.subst
    rw [Unifier.unify, Unifier.take_fst] at herror
    cases houtcome : (w.unify u.limits g u.subst).outcome with
    | error e =>
        rw [houtcome] at herror
        cases herror
        exact hanswered cause houtcome
    | ok s =>
        rw [houtcome] at herror
        cases herror

/-- With the three levels that it takes to read them, the texts of two pairs are
compared and nothing is located; that `T` would have to be an integer and a byte
is why they do not unify. -/
theorem readable_texts_answered_pair :
    let want := "Pair<T,set<T>>".toList
    let got := "Pair<int,set<byte>>".toList
    let result := (Unifier.unify { limits := ⟨3⟩ }
      (.generic "Pair" [.named "T", .generic "set" [.named "T"]])
      (.generic "Pair" [.scalar .int, .generic "set" [.scalar .byte]])).1
    (∃ b, Text.compatible ⟨3⟩ want got = .ok b) ∧
      (∃ found, Text.locate ⟨3⟩ want got = .ok found) ∧
      result = .error (.conflict "T" (.scalar .int) (.scalar .byte)) ∧
      ∀ cause, result ≠ .error (.unreadable cause) := by
  intro want got result
  have hw : Ty.read ⟨3⟩ want =
      .ok (.generic "Pair" [.named "T", .generic "set" [.named "T"]]) := rfl
  have hg : Ty.read ⟨3⟩ got =
      .ok (.generic "Pair" [.scalar .int, .generic "set" [.scalar .byte]]) := rfl
  obtain ⟨hcompatible, hlocate, hunify⟩ := readable_texts_answered hw hg
  exact ⟨hcompatible, hlocate, rfl, hunify { limits := ⟨3⟩ } rfl⟩

end TypeFlow
