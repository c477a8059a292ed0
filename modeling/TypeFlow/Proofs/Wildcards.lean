import TypeFlow.Proofs.Meetings

/-!
# TypeFlow.Proofs.Wildcards

What the wildcard does in unification.  Against every type but a variable it
unifies without binding anything.  A variable comes first: it meets the wildcard as
it meets any other type, so a free variable is bound to it and a bound one is
compared with it.

Wildcards in the place of parts of the actual type (`Masked`) leave a declared type
that lines up as it is.  What they may change is what its variables meet, and
nothing but that decides whether a run still succeeds.

* `Aligned.masked` — types still line up when parts of the actual one are masked;
* `exists_meets_of_masked` — what a variable meets then is the masked form of
  something that it met before;
* `Unifier.unify_masked` — the wildcard on either side, and within the actual type.
-/

namespace TypeFlow

open Subst

/-- A member of two lists that are zipped has a counterpart in every list that is as
long as the second. -/
theorem exists_mem_zip_of_length_eq {α β γ : Type} {as : List α} {bs : List β} {cs : List γ}
    (h : bs.length = cs.length) {p : α × γ} (hp : p ∈ as.zip cs) :
    ∃ b, (p.1, b) ∈ as.zip bs ∧ (b, p.2) ∈ bs.zip cs := by
  obtain ⟨i, hi⟩ := List.mem_iff_getElem?.mp hp
  obtain ⟨ha, hc⟩ := List.getElem?_zip_eq_some.mp hi
  have hlt : i < bs.length := by
    rw [h]
    exact (List.getElem?_eq_some_iff.mp hc).1
  have hb : bs[i]? = some bs[i] := List.getElem?_eq_getElem hlt
  exact ⟨bs[i], List.mem_of_getElem? (List.getElem?_zip_eq_some.mpr ⟨ha, hb⟩),
    List.mem_of_getElem? (List.getElem?_zip_eq_some.mpr ⟨hb, hc⟩)⟩

namespace Ty

/-! ## masked types -/

/-- Some parts of the first type are wildcards in the second, and the rest is as it
was. -/
inductive Masked : Ty → Ty → Prop where
  | hidden (t : Ty) : Masked t (.named wildcardName)
  | scalar (s : Scalar) : Masked (.scalar s) (.scalar s)
  | named (n : String) : Masked (.named n) (.named n)
  | generic (n : String) {ts us : List Ty} (hlength : ts.length = us.length)
      (hargs : ∀ p ∈ ts.zip us, Masked p.1 p.2) : Masked (.generic n ts) (.generic n us)
  | optional {t u : Ty} (h : Masked t u) : Masked (.optional t) (.optional u)
  | struct {ts us : NameMap Ty} (hnames : ts.names = us.names)
      (hfields : ∀ p ∈ ts.values.zip us.values, Masked p.1 p.2) : Masked (.struct ts) (.struct us)
  | union {ts us : List Ty} (hlength : ts.length = us.length)
      (halts : ∀ p ∈ ts.zip us, Masked p.1 p.2) : Masked (.union ts) (.union us)

/-- What is left of a type without fields. -/
theorem Masked.of_heads {t u : Ty} (h : Masked t u) (ht : ∀ fields, t ≠ .struct fields) :
    u = .named wildcardName ∨
      (∀ fields, u ≠ .struct fields) ∧ t.head = u.head ∧ t.args.length = u.args.length := by
  cases h with
  | hidden _ => exact .inl rfl
  | scalar _ => exact .inr ⟨by simp, rfl, rfl⟩
  | named _ => exact .inr ⟨by simp, rfl, rfl⟩
  | generic _ hlength _ => exact .inr ⟨by simp, rfl, hlength⟩
  | optional _ => exact .inr ⟨by simp, rfl, rfl⟩
  | struct _ _ => exact absurd rfl (ht _)
  | union hlength _ => exact .inr ⟨by simp, rfl, hlength⟩

/-- Parts of the masked type that are paired with others come from parts that can be
paired likewise. -/
theorem Masked.exists_arg {t u : Ty} (h : Masked t u) {ws : List Ty} {p : Ty × Ty}
    (hp : p ∈ ws.zip u.args) : ∃ g, (p.1, g) ∈ ws.zip t.args ∧ Masked g p.2 := by
  have hparts : t.args.length = u.args.length ∧ ∀ p ∈ t.args.zip u.args, Masked p.1 p.2 := by
    cases h with
    | hidden _ => simp [args] at hp
    | scalar _ => exact ⟨rfl, by simp [args]⟩
    | named _ => exact ⟨rfl, by simp [args]⟩
    | generic _ hlength hargs => exact ⟨hlength, hargs⟩
    | optional h => exact ⟨rfl, List.forall_mem_singleton.mpr h⟩
    | struct _ _ => exact ⟨rfl, by simp [args]⟩
    | union hlength halts => exact ⟨hlength, halts⟩
  obtain ⟨g, hg, hgu⟩ := exists_mem_zip_of_length_eq hparts.1 hp
  exact ⟨g, hg, hparts.2 _ hgu⟩

theorem exists_field_of_masked {ts us : NameMap Ty} (hnames : ts.names = us.names)
    (hfields : ∀ p ∈ ts.values.zip us.values, Masked p.1 p.2) {ws : List Ty} {p : Ty × Ty}
    (hp : p ∈ ws.zip us.values) : ∃ g, (p.1, g) ∈ ws.zip ts.values ∧ Masked g p.2 := by
  have hlength : ts.values.length = us.values.length := by
    have h := congrArg List.length hnames
    simpa [NameMap.names, NameMap.values] using h
  obtain ⟨g, hg, hgu⟩ := exists_mem_zip_of_length_eq hlength hp
  exact ⟨g, hg, hfields _ hgu⟩

/-- Types still line up, within as many levels, when parts of the actual one are
masked. -/
theorem Aligned.masked {budget : Nat} {want got got' : Ty} (h : Aligned budget want got)
    (hmask : Masked got got') : Aligned budget want got' := by
  induction h generalizing got' with
  | var hv _ => exact .var hv got'
  | wildcardLeft _ => exact .wildcardLeft got'
  | wildcardRight want =>
      cases hmask with
      | hidden _ => exact .wildcardRight want
      | named _ => exact .wildcardRight want
  | fields hnames _ ih =>
      cases hmask with
      | hidden _ => exact .wildcardRight _
      | struct hnames' hfields =>
          refine .fields (hnames.trans hnames') fun p hp => ?_
          obtain ⟨g, hg, hmask⟩ := exists_field_of_masked hnames' hfields hp
          exact ih _ hg hmask
  | args hwant hgot hhead harity _ ih =>
      rcases hmask.of_heads hgot with rfl | ⟨hgot', hhead', hlength⟩
      · exact .wildcardRight _
      · refine .args hwant hgot' (hhead' ▸ hhead) (harity.trans hlength) fun p hp => ?_
        obtain ⟨g, hg, hmask⟩ := hmask.exists_arg hp
        exact ih _ hg hmask

/-- A variable that meets a part of the masked type has met what this part was. -/
theorem exists_meets_of_masked {v : String} {t want got got' : Ty} (h : Meets v t want got')
    (hmask : Masked got got') : ∃ t₀, Meets v t₀ want got ∧ Masked t₀ t := by
  induction h generalizing got with
  | here hv => exact ⟨got, .here hv, hmask⟩
  | arg hp _ ih =>
      obtain ⟨g, hg, hmask⟩ := hmask.exists_arg hp
      obtain ⟨t₀, hmeets, hmask⟩ := ih hmask
      exact ⟨t₀, .arg hg hmeets, hmask⟩
  | field hp _ ih =>
      cases hmask with
      | struct hnames hfields =>
          obtain ⟨g, hg, hmask⟩ := exists_field_of_masked hnames hfields hp
          obtain ⟨t₀, hmeets, hmask⟩ := ih hmask
          exact ⟨t₀, .field hg hmeets, hmask⟩

/-- The masking leaves alone what the variables of `want` meet. -/
def Spares (want got got' : Ty) : Prop := ∀ v t, Meets v t want got' → Meets v t want got

/-- Fewer meetings are consistent if all of them are. -/
theorem Consistent.of_spares {s : Subst} {want got got' : Ty} (h : Consistent s want got)
    (hspares : Spares want got got') : Consistent s want got' where
  bound v t b ht hfind := h.bound v t b (hspares v t ht) hfind
  once v t u ht hu := h.once v t u (hspares v t ht) (hspares v u hu)

/-- Nothing else is written as the wildcard is. -/
theorem chars_eq_wildcard_iff {t : Ty} :
    t.chars = (named wildcardName).chars ↔ t = .named wildcardName := by
  refine ⟨fun h => ?_, fun h => by rw [h]⟩
  -- the text of `t` has no letters but those of the wildcard, so it has no bracket
  have hletters : ∀ c ∈ t.chars, c = 'a' ∨ c = 'n' ∨ c = 'y' := by
    have hwild : (named wildcardName).chars = ['a', 'n', 'y'] := rfl
    rw [h, hwild]
    simp
  cases t with
  | scalar s => cases s <;> exact absurd h (by decide)
  | named n => rw [String.toList_inj.mp h]
  | generic n args => exact absurd (hletters '<' (by simp [chars, Text.angled])) (by decide)
  | optional t => exact absurd (hletters '<' (by simp [chars, Text.angled])) (by decide)
  | struct fields => exact absurd (hletters '\x7b' (by simp [chars, Text.braced])) (by decide)
  | union alts => exact absurd (hletters '<' (by simp [chars, Text.angled])) (by decide)

end Ty

namespace Unifier

open Ty

/-! ## calls -/

/-- A call is granted exactly when the types line up and what their variables meet
is consistent with the bindings. -/
theorem unify_granted_iff {u : Unifier} {want got : Ty} :
    (u.unify want got).1 = .ok () ↔
      Aligned u.limits.maxDepth want got ∧ Consistent u.subst want got := by
  rw [← exists_unifyAt_iff u.limits.maxDepth]
  constructor
  · intro h
    exact ⟨_, run_of_answer_ok (r := .types want got) h⟩
  · rintro ⟨s, h⟩
    exact (unify_of_outcome h).1

/-- The bindings after a call: those of before, and of the variables that were free
to what they met. -/
theorem met_unify {u : Unifier} {want got : Ty} (h : (u.unify want got).1 = .ok ()) :
    Met (Meets · · want got) u.subst (u.unify want got).2.subst :=
  (met_of_unifyAt (run_of_answer_ok (r := .types want got) h)).2

/-- A variable that a call binds anew is one that it was asked to unify. -/
theorem meets_of_fresh {u : Unifier} {want got : Ty} {v : String} {t : Ty}
    (hfree : NameMap.find? u.subst v = none)
    (hbound : NameMap.find? (u.unify want got).2.subst v = some t) :
    (u.unify want got).1 = .ok () ∧ Meets v t want got := by
  cases hresult : (u.unify want got).1 with
  | error e =>
      have hsame : (u.unify want got).2.subst = u.subst :=
        subst_of_answer_error (r := .types want got) hresult
      rw [hsame, hfree] at hbound
      cases hbound
  | ok _ => exact ⟨rfl, (met_unify hresult).fresh v t hfree hbound⟩

/-- At a level where the wildcard stands on one side and no variable on the other,
the bindings stay as they are. -/
theorem unify_unbound {u : Unifier} (hlevel : 1 ≤ u.limits.maxDepth) {want got : Ty}
    (hvar : want.isVar = false) (hwild : (want.isWildcard || got.isWildcard) = true) :
    (u.unify want got).1 = .ok () ∧ (u.unify want got).2.subst = u.subst := by
  obtain ⟨budget, hbudget⟩ := Nat.exists_eq_add_of_le' hlevel
  have hrun : (want.unify u.limits got u.subst).outcome = .ok u.subst := by
    rw [Ty.unify, hbudget]
    unfold unifyAt
    rw [if_neg (by simp [hvar]), if_pos hwild]
    rfl
  exact unify_of_outcome hrun

/-- A variable against the wildcard: bound to it where it was free, and compared
with it where it was not. -/
theorem unify_var_wildcard {u : Unifier} (hlevel : 1 ≤ u.limits.maxDepth) {v : String}
    (hv : Text.isVar v.toList = true) :
    (NameMap.find? u.subst v = none →
      (u.unify (.named v) (.named wildcardName)).1 = .ok () ∧
        (u.unify (.named v) (.named wildcardName)).2.subst =
          NameMap.insert u.subst v (.named wildcardName)) ∧
    ∀ b, NameMap.find? u.subst v = some b →
      ((u.unify (.named v) (.named wildcardName)).1 = .ok () ↔ b = .named wildcardName) ∧
        (u.unify (.named v) (.named wildcardName)).2.subst = u.subst := by
  obtain ⟨budget, hbudget⟩ := Nat.exists_eq_add_of_le' hlevel
  have hrun : (named v).unify u.limits (.named wildcardName) u.subst =
      bindVar v (.named wildcardName) u.subst := by
    rw [Ty.unify, hbudget]
    unfold unifyAt
    rw [if_pos (show (named v).isVar = true from hv)]
    rfl
  refine ⟨fun hfree => ?_, fun b hfind => ⟨?_, ?_⟩⟩
  · refine unify_of_outcome ?_
    rw [hrun]
    exact bindVar_eq_ok_iff.mpr (.inl ⟨hfree, rfl⟩)
  · rw [unify_granted_iff, ← chars_eq_wildcard_iff]
    constructor
    · rintro ⟨-, hconsistent⟩
      exact hconsistent.bound v _ b (.here hv) hfind
    · intro hchars
      rw [← exists_unifyAt_iff u.limits.maxDepth]
      refine ⟨u.subst, ?_⟩
      rw [← Ty.unify, hrun]
      exact bindVar_eq_ok_iff.mpr (.inr ⟨b, hfind, hchars, rfl⟩)
  · rw [unify, take_subst, hrun, bindVar, hfind]
    by_cases hchars : b.chars = (named wildcardName).chars <;>
      simp [hchars, Run.done, Run.failed]

/-- **The wildcard unifies without binding, except what a variable meets.**  On
either side it unifies with every type that is no variable and leaves the bindings
as they are; a variable is bound to it, or compared with its binding, as with any
other type.  Where a call is granted, it still is with any parts of the actual type
masked, provided that the variables then meet consistent types, and so in particular
if they meet nothing that they have not met before.  What is bound anew was bound
anew before, to something that has now been masked, and only masking what a variable
meets can bind it to the wildcard. -/
theorem unify_masked (u : Unifier) (hlevel : 1 ≤ u.limits.maxDepth) :
    (∀ t : Ty,
      (u.unify (.named wildcardName) t).1 = .ok () ∧
        (u.unify (.named wildcardName) t).2.subst = u.subst) ∧
    (∀ t : Ty, t.isVar = false →
      (u.unify t (.named wildcardName)).1 = .ok () ∧
        (u.unify t (.named wildcardName)).2.subst = u.subst) ∧
    (∀ v : String, Text.isVar v.toList = true →
      (NameMap.find? u.subst v = none →
        (u.unify (.named v) (.named wildcardName)).1 = .ok () ∧
          (u.unify (.named v) (.named wildcardName)).2.subst =
            NameMap.insert u.subst v (.named wildcardName)) ∧
      ∀ b, NameMap.find? u.subst v = some b →
        ((u.unify (.named v) (.named wildcardName)).1 = .ok () ↔ b = .named wildcardName) ∧
          (u.unify (.named v) (.named wildcardName)).2.subst = u.subst) ∧
    ∀ want got got' : Ty, (u.unify want got).1 = .ok () → Masked got got' →
      ((u.unify want got').1 = .ok () ↔ Consistent u.subst want got') ∧
      (∀ v t, NameMap.find? u.subst v = none →
        NameMap.find? (u.unify want got').2.subst v = some t →
        ∃ t₀ b, Meets v t₀ want got ∧ Masked t₀ t ∧
          NameMap.find? (u.unify want got).2.subst v = some b ∧ b.chars = t₀.chars) ∧
      (Spares want got got' →
        (u.unify want got').1 = .ok () ∧
          ∀ v, NameMap.find? (u.unify want got').2.subst v = some (.named wildcardName) →
            NameMap.find? (u.unify want got).2.subst v = some (.named wildcardName)) := by
  refine ⟨fun t => unify_unbound hlevel rfl rfl,
    fun t hvar => unify_unbound hlevel hvar (by simp [isWildcard]),
    fun v hv => unify_var_wildcard hlevel hv, fun want got got' hgranted hmask => ?_⟩
  obtain ⟨haligned, hconsistent⟩ := unify_granted_iff.mp hgranted
  have hmet := met_unify hgranted
  have hiff : (u.unify want got').1 = .ok () ↔ Consistent u.subst want got' := by
    rw [unify_granted_iff, and_iff_right (haligned.masked hmask)]
  refine ⟨hiff, fun v t hfree hbound => ?_, fun hspares => ?_⟩
  · obtain ⟨t₀, hmeets, ht⟩ := exists_meets_of_masked (meets_of_fresh hfree hbound).2 hmask
    obtain ⟨b, hfind, hchars⟩ := hmet.found v t₀ hmeets
    exact ⟨t₀, b, hmeets, ht, hfind, hchars⟩
  · have hgranted' := hiff.mpr (hconsistent.of_spares hspares)
    refine ⟨hgranted', fun v hwild => ?_⟩
    cases hfind : NameMap.find? u.subst v with
    | some b =>
        have hkept := (met_unify hgranted').keeps v b hfind
        rw [hwild, Option.some.injEq] at hkept
        rw [hmet.keeps v b hfind, hkept]
    | none =>
        have hmeets := hspares v _ (meets_of_fresh hfind hwild).2
        obtain ⟨b, hbound, hchars⟩ := hmet.found v _ hmeets
        rw [hbound, chars_eq_wildcard_iff.mp hchars]

/-- With the list of strings masked, `U` is not bound any more, `T` and `V` are as
before. -/
theorem unify_masked_pair :
    let u : Unifier := { limits := ⟨3⟩, subst := [("T", .scalar .int)] }
    let want : Ty := .generic "Triple" [.named "T", .generic "List" [.named "U"], .named "V"]
    let got : Ty :=
      .generic "Triple" [.scalar .int, .generic "List" [.scalar .string], .named "any"]
    let got' : Ty := .generic "Triple" [.scalar .int, .named "any", .named "any"]
    (u.unify (.named "any") want).1 = .ok () ∧ (u.unify want (.named "any")).2.subst = u.subst ∧
      (u.unify want got).1 = .ok () ∧ Masked got got' ∧ Spares want got got' ∧
      (u.unify want got').1 = .ok () ∧
      (u.unify want got').2.subst = [("T", .scalar .int), ("V", .named "any")] := by
  intro u want got got'
  have hgranted : (u.unify want got).1 = .ok () := eq_ok_of_toOption_eq_some (by decide +kernel)
  have hmask : Masked got got' := by
    refine .generic "Triple" rfl ?_
    simp only [List.zip_cons_cons, List.zip_nil_left, List.forall_mem_cons]
    exact ⟨.scalar .int, .hidden _, .named "any", by simp⟩
  have hspares : Spares want got got' := by
    intro v t h
    rw [meets_args_iff rfl (by simp [want])] at h ⊢
    simp only [want, got, got', Ty.args, List.zip_cons_cons, List.zip_nil_left, List.mem_cons,
      List.not_mem_nil, or_false, exists_eq_or_imp, exists_eq_left] at h ⊢
    rcases h with h | h | h
    · exact .inl h
    · exact absurd h (not_meets_wildcard rfl rfl)
    · exact .inr (.inr h)
  obtain ⟨hleft, hright, -, hmasked⟩ := unify_masked u (by decide)
  obtain ⟨-, -, hspared⟩ := hmasked want got got' hgranted hmask
  exact ⟨(hleft want).1, (hright want rfl).2, hgranted, hmask, hspares, (hspared hspares).1,
    by decide +kernel⟩

/-- A free variable is bound to the wildcard, a bound one conflicts with it, and a
pair of one variable stops unifying when one of its two integers is masked. -/
theorem unify_wildcard_binds :
    let free : Unifier := {}
    let bound : Unifier := { subst := [("T", .scalar .int)] }
    let want : Ty := .generic "Pair" [.named "T", .named "T"]
    (free.unify (.named "T") (.named "any")).2.subst = [("T", .named "any")] ∧
      (free.unify (.named "T") (.named "any")).2.subst ≠ free.subst ∧
      (bound.unify (.named "T") (.named "any")).1 =
        .error (.conflict "T" (.scalar .int) (.named "any")) ∧
      (free.unify want (.generic "Pair" [.scalar .int, .scalar .int])).1 = .ok () ∧
      (free.unify want (.generic "Pair" [.named "any", .scalar .int])).1 =
        .error (.conflict "T" (.named "any") (.scalar .int)) :=
  ⟨rfl, by decide, rfl, rfl, rfl⟩

end Unifier

end TypeFlow
