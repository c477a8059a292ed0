import TypeFlow.Proofs.Variance

/-!
# TypeFlow.Proofs.Shortcut

The check of flow asks first whether the two types are equal.  Is that a rule, or
does it only save work?  Here the check is run with other tests in the place of this
one, down to a test that knows nothing but scalars and names.

* `flowsBy` — the check with a given test in front, all other rules as they are;
* `IsShortcut` — the tests that may stand there: they pass equal types only, and they
  pass what no other rule could;
* `flowsBy_decides` — with any of them the check decides the same relation;
* `flows_struct_iff_shared` — records flow by the fields that they share.
-/

namespace TypeFlow

namespace Ty

/-! ## the check with another test in front -/

/-- Flow with `budget` levels left, where a pair that is `alike` needs no further
look. -/
def flowsBy (alike : Ty → Ty → Bool) (limit : Nat) (budget : Nat) (want got : Ty) :
    Except TooDeep Bool :=
  match budget with
  | 0 => .error ⟨limit⟩
  | budget + 1 =>
    if alike want got then .ok true
    else if want.isUnconstrained || got.isUnconstrained then .ok true
    else
      match want, got with
      | .optional w, got => flowsBy alike limit budget w got.present
      | want, .union gs =>
        if gs.isEmpty then .ok false else gs.allM fun g => flowsBy alike limit budget want g
      | .union ws, got => ws.anyM fun w => flowsBy alike limit budget w got
      | .struct ws, .struct gs =>
        ws.allM fun e =>
          match NameMap.find? gs e.1 with
          | none => .ok true
          | some g => flowsBy alike limit budget e.2 g.present
      | .generic w ws, .generic g gs =>
        if w = g ∧ ws.length = gs.length then
          (ws.zip gs).allM fun p => flowsBy alike limit budget p.1 p.2
        else
          .ok false
      | _, _ => .ok false

/-- The check of flow is the one with equality in front. -/
theorem flowsAt_eq_flowsBy (limit budget : Nat) (want got : Ty) :
    flowsAt limit budget want got = flowsBy (fun w g => decide (w = g)) limit budget want got := by
  induction budget generalizing want got with
  | zero => rfl
  | succ budget ih =>
      have hbelow : flowsAt limit budget = flowsBy (fun w g => decide (w = g)) limit budget :=
        funext₂ ih
      unfold flowsAt flowsBy
      rw [hbelow]
      exact if_congr decide_eq_true_iff.symm rfl rfl

/-- Whether two types are the same scalar or the same name. -/
def sameLeaf : Ty → Ty → Bool
  | .scalar s, .scalar t => s == t
  | .named m, .named n => m == n
  | _, _ => false

/-- Flow by the rules alone: equality is asked of scalars and of names only. -/
def flowsByRules (limits : Limits) (want got : Ty) : Except TooDeep Bool :=
  flowsBy sameLeaf limits.maxDepth limits.maxDepth want got

/-- The tests that may stand in front of the rules.  No rule compares scalars, or
names, so that is left to the test. -/
structure IsShortcut (alike : Ty → Ty → Bool) : Prop where
  sound : ∀ {w g : Ty}, alike w g = true → w = g
  scalar : ∀ s : Scalar, alike (.scalar s) (.scalar s) = true
  named : ∀ n : String, alike (.named n) (.named n) = true

/-- The test for leaves alone may stand in front of the rules. -/
theorem isShortcut_sameLeaf : IsShortcut sameLeaf where
  sound := fun {w g} h => by
    cases w <;> cases g <;> simp_all [sameLeaf]
  scalar := fun s => by simp [sameLeaf]
  named := fun n => by simp [sameLeaf]

/-! ## the rules decide -/

/-- Where no rule applies nothing flows: what would be left is a scalar or a name that
is equal, and that passes the test. -/
theorem not_flows_of_clash {alike : Ty → Ty → Bool} (halike : IsShortcut alike) {want got : Ty}
    (hsame : ¬ alike want got = true)
    (hopen : want.isUnconstrained = false ∧ got.isUnconstrained = false)
    (hoptional : ∀ w, want ≠ .optional w) (hwants : ∀ ws, want ≠ .union ws)
    (hgots : ∀ gs, got ≠ .union gs)
    (hstruct : ∀ ws gs, want = .struct ws → got ≠ .struct gs)
    (hgeneric : ∀ n ws m gs, want = .generic n ws → got ≠ .generic m gs) :
    ¬ Flows want got := by
  intro h
  cases h with
  | refl _ =>
      cases want with
      | scalar s => exact hsame (halike.scalar s)
      | named n => exact hsame (halike.named n)
      | generic n args => exact hgeneric _ _ _ _ rfl rfl
      | optional w => exact hoptional w rfl
      | struct fields => exact hstruct _ _ rfl rfl
      | union alts => exact hwants alts rfl
  | openWant h _ => simp [h] at hopen
  | openGot _ h => simp [h] at hopen
  | optional _ => exact hoptional _ rfl
  | unionGot _ _ _ => exact hgots _ rfl
  | unionWant _ _ _ => exact hwants _ rfl
  | struct _ => exact hstruct _ _ rfl rfl
  | generic _ _ => exact hgeneric _ _ _ _ rfl rfl

/-- To a type that is not optional an actual union flows by its alternatives, equal
unions included. -/
theorem flows_union_got_iff {want : Ty} {gs : List Ty} (hgs : Proper (.union gs))
    (hwant : ∀ w, want ≠ .optional w) : Flows want (.union gs) ↔ ∀ g ∈ gs, Flows want g := by
  rw [flows_union_iff fun u hu => (hgs u hu).1, bare_eq_self hwant]

/-- What is neither a union nor unconstrained flows to a union exactly when it flows to
one of its alternatives. -/
theorem flows_union_want_iff {ws : List Ty} {got : Ty} (hgot : ∀ gs, got ≠ .union gs)
    (hopen : got.isUnconstrained = false) : Flows (.union ws) got ↔ ∃ w ∈ ws, Flows w got := by
  constructor
  · intro h
    rcases h.of_union_want hgot with htrue | hsome
    · rw [hopen] at htrue
      contradiction
    · exact hsome
  · rintro ⟨w, hw, h⟩
    exact .unionWant hgot hw h

/-- **Whatever stands in front, the rules decide.**  With levels enough the check
returns, and what it returns is whether the payload flows. -/
theorem flowsBy_decides {alike : Ty → Ty → Bool} (halike : IsShortcut alike)
    {room : Nat → Ty → Ty → Prop} (hgrants : Grants room) (limit : Nat) {budget : Nat}
    {want got : Ty} (hgot : Proper got) (hroom : room budget want got) :
    Decides (flowsBy alike limit budget want got) (Flows want got) := by
  induction budget generalizing want got with
  | zero => exact absurd hroom hgrants.level
  | succ budget ih =>
      unfold flowsBy
      by_cases hsame : alike want got = true
      · rw [if_pos hsame, halike.sound hsame]
        exact .yes (.refl got)
      rw [if_neg hsame]
      by_cases hopen : (want.isUnconstrained || got.isUnconstrained) = true
      · rw [if_pos hopen]
        exact .yes ((Bool.or_eq_true_iff.mp hopen).elim (.openWant · got) (.openGot want ·))
      rw [if_neg hopen]
      simp only [Bool.or_eq_true, not_or, Bool.not_eq_true] at hopen
      split
      · next w =>
        exact (ih hgot.present (hgrants.optional hroom)).congr flows_optional_iff.symm
      · next gs hwant =>
        obtain ⟨hne, hgs⟩ := proper_union_iff.mp hgot
        rw [if_neg (by simpa using hne)]
        exact (Decides.allM fun g hg => ih (hgs g hg) (hgrants.unionGot hg hroom)).congr
          (flows_union_got_iff hgot hwant).symm
      · next ws hunion =>
        exact (Decides.anyM fun w hw => ih hgot (hgrants.unionWant hw hroom)).congr
          (flows_union_want_iff hunion hopen.2).symm
      · next ws gs =>
        refine (Decides.allM fun e he => ?_).congr (flows_struct_iff hgot).symm
        cases hfind : NameMap.find? gs e.1 with
        | none => exact .yes (by simp)
        | some g =>
            have hmem := NameMap.mem_of_find?_eq_some hfind
            have hfield := (proper_struct_iff.mp hgot).2 _ hmem
            exact (ih hfield.present (hgrants.struct he hmem hroom)).congr (by simp)
      · next n ws m gs =>
        split
        · next hsame =>
          obtain ⟨rfl, hlength⟩ := hsame
          have hiff : (∀ p ∈ ws.zip gs, Flows p.1 p.2) ↔ Flows (.generic n ws) (.generic n gs) :=
            ⟨.generic hlength, fun h => (flows_generic_iff.mp h).2.2⟩
          refine (Decides.allM fun p hp => ?_).congr hiff
          exact ih (proper_generic_iff.mp hgot _ (List.of_mem_zip hp).2) (hgrants.generic hp hroom)
        · next hdiff =>
          refine .no fun h => ?_
          obtain ⟨hname, hlength, -⟩ := flows_generic_iff.mp h
          exact hdiff ⟨hname, hlength⟩
      · next hoptional hunion hunion' hstruct hgeneric =>
        exact .no (not_flows_of_clash halike hsame hopen hoptional hunion hunion' hstruct hgeneric)

/-! ## the shortcut is one -/

/-- The records `ws` and `gs` share the field `n`, of types `w` and `g`. -/
def Shares (ws gs : NameMap Ty) (n : String) (w g : Ty) : Prop := (n, w) ∈ ws ∧ (n, g) ∈ gs

/-- Records flow exactly when their shared fields do. -/
theorem flows_struct_iff_shared {ws gs : NameMap Ty} (hgs : Proper (.struct gs)) :
    Flows (.struct ws) (.struct gs) ↔ ∀ n w g, Shares ws gs n w g → Flows w g.present := by
  have hsorted := (proper_struct_iff.mp hgs).1
  rw [flows_struct_iff hgs]
  constructor
  · intro h n w g hshares
    exact h (n, w) hshares.1 g (NameMap.find?_eq_some_of_mem hsorted hshares.2)
  · intro h e he g hfind
    exact h e.1 e.2 g ⟨he, NameMap.mem_of_find?_eq_some hfind⟩

/-- **The rules alone decide what flows**, with levels for both types. -/
theorem flowsByRules_decides {limits : Limits} {want got : Ty} (hgot : Proper got)
    (hdepth : want.depth + got.depth ≤ limits.maxDepth) :
    Decides (flowsByRules limits want got) (Flows want got) :=
  flowsBy_decides isShortcut_sameLeaf grants_depths limits.maxDepth hgot
    (Nat.le_succ_of_le hdepth)

/-- **Equality is only a shortcut.**  The check of flow is the one with equality in
front of the rules.  With levels enough for both types it returns the same when nothing
but scalars and names is compared there; so the rules alone let every type flow to where
it is declared.  Records are no exception: of two pairs of records that share the same
fields either both flow or neither does. -/
theorem flows_without_shortcut (limits : Limits) :
    (∀ want got : Ty, flows limits want got =
      flowsBy (fun w g => decide (w = g)) limits.maxDepth limits.maxDepth want got) ∧
    (∀ want got : Ty, Proper got → want.depth + got.depth ≤ limits.maxDepth →
      ∃ b, flowsByRules limits want got = .ok b ∧ flows limits want got = .ok b) ∧
    (∀ t : Ty, Proper t → t.depth + t.depth ≤ limits.maxDepth →
      flowsByRules limits t t = .ok true) ∧
    ∀ ws gs ws' gs' : NameMap Ty, Proper (.struct gs) → Proper (.struct gs') →
      (Ty.struct ws).depth + (Ty.struct gs).depth ≤ limits.maxDepth →
      (Ty.struct ws').depth + (Ty.struct gs').depth ≤ limits.maxDepth →
      (∀ n w g, Shares ws gs n w g ↔ Shares ws' gs' n w g) →
      ∃ b, flows limits (.struct ws) (.struct gs) = .ok b ∧
        flows limits (.struct ws') (.struct gs') = .ok b := by
  refine ⟨flowsAt_eq_flowsBy _ _, fun want got hgot hdepth => ?_, fun t ht hdepth => ?_, ?_⟩
  · exact (flowsByRules_decides hgot hdepth).agree (flows_decides hdepth)
  · exact (flowsByRules_decides ht hdepth).eq_ok_true_iff.mpr (.refl t)
  · intro ws gs ws' gs' hgs hgs' hdepth hdepth' hshared
    have hiff : Flows (.struct ws') (.struct gs') ↔ Flows (.struct ws) (.struct gs) := by
      rw [flows_struct_iff_shared hgs, flows_struct_iff_shared hgs']
      simp only [hshared]
    exact (flows_decides hdepth).agree ((flows_decides hdepth').congr hiff)

/-- An optional union with an optional and a union in it flows to itself by the rules,
as a field of a record too.  The fields that one of two records lacks do not matter. -/
theorem flows_without_shortcut_record :
    let t : Ty := .optional (.union [.optional (.scalar .int), .union [.named "Foo", .scalar .int]])
    (∃ b, flowsByRules {} (.optional t) (.struct [("a", t)]) = .ok b ∧
      flows {} (.optional t) (.struct [("a", t)]) = .ok b) ∧
    flowsByRules {} (.struct [("a", t)]) (.struct [("a", t)]) = .ok true ∧
    ∃ b, flows {} (.struct [("a", t), ("b", .scalar .int)]) (.struct [("a", t)]) = .ok b ∧
      flows {} (.struct [("a", t)]) (.struct [("a", t), ("b", .scalar .bool)]) = .ok b := by
  intro t
  have ht : Proper t := by simp [t, Proper, everywhere_iff, args]
  have hbool : Proper (.scalar .bool) := by simp [Proper, everywhere_iff, args]
  have hnarrow : Proper (.struct [("a", t)]) :=
    proper_struct_iff.mpr ⟨by decide, List.forall_mem_singleton.mpr ht⟩
  have hwide : Proper (.struct [("a", t), ("b", .scalar .bool)]) :=
    proper_struct_iff.mpr ⟨by decide, by simp [ht, hbool]⟩
  obtain ⟨-, hsame, hrefl, hshared⟩ := flows_without_shortcut {}
  refine ⟨hsame _ _ hnarrow (by decide), hrefl _ hnarrow (by decide),
    hshared _ _ _ _ hnarrow hwide (by decide) (by decide) fun n w g => ?_⟩
  simp only [Shares, List.mem_cons, List.not_mem_nil, Prod.mk.injEq, or_false]
  grind

end Ty

end TypeFlow
