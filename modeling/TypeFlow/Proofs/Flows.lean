import TypeFlow.Flow
import TypeFlow.Proofs.Outcome
import TypeFlow.Proofs.Similar

/-!
# TypeFlow.Proofs.Flows

Flow as a relation.  `Flows want got` has one rule for each way in which a
payload of type `got` may flow to where `want` is declared, with the order of the
rules kept only where it matters: an optional declaration is opened before an
actual union is taken apart, and an actual union is taken apart before a declared
one is chosen from.

* `Grants` — what a measure of the levels left has to leave to each call, for the
  check to return;
* `flowsAt_eq_ok_true_iff` — with levels enough for both types the check decides
  the relation;
* `NoEmptyUnion.settled` — an optional may be taken off the actual type, a union
  put around the declared one, and an actual union replaced by an alternative;
* `flows_union_iff` — where an actual union flows, in terms of its alternatives.
-/

namespace TypeFlow

namespace Ty

/-- A payload of type `got` may flow to where `want` is declared. -/
inductive Flows : Ty → Ty → Prop where
  | refl (t : Ty) : Flows t t
  | openWant {want : Ty} (h : want.isUnconstrained = true) (got : Ty) : Flows want got
  | openGot (want : Ty) {got : Ty} (h : got.isUnconstrained = true) : Flows want got
  | optional {w got : Ty} (h : Flows w got.present) : Flows (.optional w) got
  | unionGot {want : Ty} {gs : List Ty} (hwant : ∀ w, want ≠ .optional w) (hne : gs ≠ [])
      (h : ∀ g ∈ gs, Flows want g) : Flows want (.union gs)
  | unionWant {ws : List Ty} {w got : Ty} (hgot : ∀ gs, got ≠ .union gs) (hw : w ∈ ws)
      (h : Flows w got) : Flows (.union ws) got
  | struct {ws gs : NameMap Ty}
      (h : ∀ e ∈ ws, ∀ g, gs.find? e.1 = some g → Flows e.2 g.present) :
      Flows (.struct ws) (.struct gs)
  | generic {n : String} {ws gs : List Ty} (hlength : ws.length = gs.length)
      (h : ∀ p ∈ ws.zip gs, Flows p.1 p.2) : Flows (.generic n ws) (.generic n gs)

/-! ## what each rule leaves -/

/-- What an optional declaration takes, its content takes once the actual type
is opened. -/
theorem flows_optional_iff {w got : Ty} : Flows (.optional w) got ↔ Flows w got.present := by
  constructor
  · intro h
    cases h with
    | refl _ => exact .refl w
    | openWant h _ => cases h
    | openGot _ h =>
        cases got with
        | named n => exact .openGot w h
        | _ => cases h
    | optional h => exact h
    | unionGot hwant _ _ => exact absurd rfl (hwant w)
  · exact .optional

/-- What a union flows to, when that is not opened first: itself, anything
unconstrained, or what all of its alternatives flow to. -/
theorem Flows.of_union_got {want : Ty} {gs : List Ty} (h : Flows want (.union gs))
    (hwant : ∀ w, want ≠ .optional w) :
    want = .union gs ∨ want.isUnconstrained = true ∨ (gs ≠ [] ∧ ∀ g ∈ gs, Flows want g) := by
  cases h with
  | refl _ => exact .inl rfl
  | openWant h _ => exact .inr (.inl h)
  | openGot _ h => cases h
  | optional _ => exact absurd rfl (hwant _)
  | unionGot _ hne h => exact .inr (.inr ⟨hne, h⟩)
  | unionWant hgot _ _ => exact absurd rfl (hgot gs)

/-- What flows to a union and is none itself flows to one of its alternatives, or
anywhere. -/
theorem Flows.of_union_want {ws : List Ty} {got : Ty} (h : Flows (.union ws) got)
    (hgot : ∀ gs, got ≠ .union gs) : got.isUnconstrained = true ∨ ∃ w ∈ ws, Flows w got := by
  cases h with
  | refl _ => exact absurd rfl (hgot ws)
  | openWant h _ => cases h
  | openGot _ h => exact .inl h
  | unionGot _ _ _ => exact absurd rfl (hgot _)
  | unionWant _ hw h => exact .inr ⟨_, hw, h⟩

/-- Records that flow are the same, or their shared fields flow. -/
theorem Flows.of_struct {ws gs : NameMap Ty} (h : Flows (.struct ws) (.struct gs)) :
    ws = gs ∨ ∀ e ∈ ws, ∀ g, gs.find? e.1 = some g → Flows e.2 g.present := by
  cases h with
  | refl _ => exact .inl rfl
  | openWant h _ => cases h
  | openGot _ h => cases h
  | struct h => exact .inr h

/-- Generics flow by their arguments, equal ones included. -/
theorem flows_generic_iff {n m : String} {ws gs : List Ty} :
    Flows (.generic n ws) (.generic m gs) ↔
      n = m ∧ ws.length = gs.length ∧ ∀ p ∈ ws.zip gs, Flows p.1 p.2 := by
  constructor
  · intro h
    cases h with
    | refl _ => exact ⟨rfl, rfl, forall_mem_zip_self fun t _ => .refl t⟩
    | openWant h _ => cases h
    | openGot _ h => cases h
    | generic hlength h => exact ⟨rfl, hlength, h⟩
  · rintro ⟨rfl, hlength, h⟩
    exact .generic hlength h

/-! ## the check and the relation -/

/-- Opening a type makes it no deeper. -/
theorem depth_present_le (t : Ty) : t.present.depth ≤ t.depth := by
  cases t with
  | optional u => simp only [present, depth]; omega
  | scalar _ => exact Nat.le_refl _
  | named _ => exact Nat.le_refl _
  | generic _ _ => exact Nat.le_refl _
  | struct _ => exact Nat.le_refl _
  | union _ => exact Nat.le_refl _

/-- What a level of the check does with two types, when `check` compares their
parts: which rule it takes, and what it then returns. -/
inductive Level (check : Ty → Ty → Except TooDeep Bool) : Ty → Ty → Except TooDeep Bool → Prop where
  | same (t : Ty) : Level check t t (.ok true)
  | free {want got : Ty} (h : want.isUnconstrained = true ∨ got.isUnconstrained = true) :
      Level check want got (.ok true)
  | optional (w got : Ty) : Level check (.optional w) got (check w got.present)
  | noAlternative {want : Ty} (hwant : ∀ w, want ≠ .optional w) (hne : want ≠ .union [])
      (hopen : want.isUnconstrained = false) : Level check want (.union []) (.ok false)
  | unionGot {want : Ty} {gs : List Ty} (hwant : ∀ w, want ≠ .optional w) (hne : want ≠ .union gs)
      (hopen : want.isUnconstrained = false) (hgs : gs ≠ []) :
      Level check want (.union gs) (gs.allM (check want))
  | unionWant {ws : List Ty} {got : Ty} (hgot : ∀ gs, got ≠ .union gs)
      (hopen : got.isUnconstrained = false) :
      Level check (.union ws) got (ws.anyM fun w => check w got)
  | struct {ws gs : NameMap Ty} (hne : ws ≠ gs) :
      Level check (.struct ws) (.struct gs) (ws.allM fun e =>
        match gs.find? e.1 with
        | none => .ok true
        | some g => check e.2 g.present)
  | generic {n : String} {ws gs : List Ty} (hlength : ws.length = gs.length) :
      Level check (.generic n ws) (.generic n gs) ((ws.zip gs).allM fun p => check p.1 p.2)
  | clash {want got : Ty} (h : ¬ Flows want got) : Level check want got (.ok false)

/-- **One level of the check**, rule by rule. -/
theorem level_flowsAt (limit budget : Nat) (want got : Ty) :
    Level (flowsAt limit budget) want got (flowsAt limit (budget + 1) want got) := by
  unfold flowsAt
  by_cases heq : want = got
  · rw [if_pos heq, heq]
    exact .same got
  rw [if_neg heq]
  by_cases hopen : (want.isUnconstrained || got.isUnconstrained) = true
  · rw [if_pos hopen]
    exact .free (Bool.or_eq_true_iff.mp hopen)
  rw [if_neg hopen]
  simp only [Bool.or_eq_true, not_or, Bool.not_eq_true] at hopen
  split
  · exact .optional _ _
  · next gs hwant =>
    cases gs with
    | nil => exact .noAlternative hwant heq hopen.1
    | cons g gs => exact .unionGot hwant heq hopen.1 (by simp)
  · next ws hgot => exact .unionWant hgot hopen.2
  · next ws gs => exact .struct (by simpa using heq)
  · next n ws m gs =>
    split
    · next hsame =>
      obtain ⟨rfl, hlength⟩ := hsame
      exact .generic hlength
    · next hdiff =>
      refine .clash fun h => ?_
      cases h with
      | refl _ => exact heq rfl
      | openWant h _ => rw [h] at hopen; exact absurd hopen.1 (by decide)
      | openGot _ h => rw [h] at hopen; exact absurd hopen.2 (by decide)
      | generic hlength _ => exact hdiff ⟨rfl, hlength⟩
  · next hoptional hunion hunion' hstruct hgeneric =>
    refine .clash fun h => ?_
    cases h with
    | refl _ => exact heq rfl
    | openWant h _ => rw [h] at hopen; exact absurd hopen.1 (by decide)
    | openGot _ h => rw [h] at hopen; exact absurd hopen.2 (by decide)
    | optional _ => exact hoptional _ rfl
    | unionGot _ _ _ => exact hunion' _ rfl
    | unionWant _ _ _ => exact hunion _ rfl
    | struct _ => exact hstruct _ _ rfl rfl
    | generic _ _ => exact hgeneric _ _ _ _ rfl rfl

/-- A flow that the check finds, with any number of levels, is one. -/
theorem flows_of_flowsAt {limit budget : Nat} {want got : Ty}
    (h : flowsAt limit budget want got = .ok true) : Flows want got := by
  induction budget generalizing want got with
  | zero => contradiction
  | succ budget ih =>
      have hlevel := level_flowsAt limit budget want got
      rw [h] at hlevel
      generalize hresult : Except.ok true = result at hlevel
      cases hlevel with
      | same _ => exact .refl _
      | free h => exact h.elim (.openWant · got) (.openGot want ·)
      | optional w got => exact .optional (ih hresult.symm)
      | noAlternative _ _ _ => cases hresult
      | unionGot hwant _ _ hgs =>
          have hall := allM_eq_ok_true_iff.mp hresult.symm
          exact .unionGot hwant hgs fun g hg => ih (hall g hg)
      | unionWant hgot _ =>
          obtain ⟨w, hw, hflow⟩ := exists_of_anyM_eq_ok_true hresult.symm
          exact .unionWant hgot hw (ih hflow)
      | struct _ =>
          have hall := allM_eq_ok_true_iff.mp hresult.symm
          refine .struct fun e he g hfind => ih ?_
          have hfield := hall e he
          rw [hfind] at hfield
          exact hfield
      | generic hlength =>
          have hall := allM_eq_ok_true_iff.mp hresult.symm
          exact .generic hlength fun p hp => ih (hall p hp)
      | clash _ => cases hresult

/-- What makes levels suffice: `room n w g` leaves a level for `w` and `g`
themselves, and the levels below it for every pair that the check goes on with. -/
structure Grants (room : Nat → Ty → Ty → Prop) : Prop where
  level : ∀ {w g : Ty}, ¬ room 0 w g
  optional : ∀ {n : Nat} {w g : Ty}, room (n + 1) (.optional w) g → room n w g.present
  unionGot : ∀ {n : Nat} {w g : Ty} {gs : List Ty}, g ∈ gs → room (n + 1) w (.union gs) →
    room n w g
  unionWant : ∀ {n : Nat} {w g : Ty} {ws : List Ty}, w ∈ ws → room (n + 1) (.union ws) g →
    room n w g
  struct : ∀ {n : Nat} {ws gs : NameMap Ty} {e : String × Ty} {g : Ty}, e ∈ ws →
    (e.1, g) ∈ gs → room (n + 1) (.struct ws) (.struct gs) → room n e.2 g.present
  generic : ∀ {n : Nat} {base : String} {ws gs : List Ty} {p : Ty × Ty}, p ∈ ws.zip gs →
    room (n + 1) (.generic base ws) (.generic base gs) → room n p.1 p.2

/-- The check returns when its levels suffice. -/
theorem Grants.exists_flowsAt {room : Nat → Ty → Ty → Prop} (hgrants : Grants room) (limit : Nat)
    {budget : Nat} {want got : Ty} (h : room budget want got) :
    ∃ b, flowsAt limit budget want got = .ok b := by
  induction budget generalizing want got with
  | zero => exact absurd h hgrants.level
  | succ budget ih =>
      have hlevel := level_flowsAt limit budget want got
      generalize flowsAt limit (budget + 1) want got = result at hlevel
      cases hlevel with
      | same t => exact ⟨true, rfl⟩
      | free _ => exact ⟨true, rfl⟩
      | optional w got => exact ih (hgrants.optional h)
      | noAlternative _ _ _ => exact ⟨false, rfl⟩
      | unionGot _ _ _ _ => exact exists_allM fun g hg => ih (hgrants.unionGot hg h)
      | unionWant _ _ => exact exists_anyM fun w hw => ih (hgrants.unionWant hw h)
      | @struct ws gs _ =>
          refine exists_allM fun e he => ?_
          cases hfind : gs.find? e.1 with
          | none => exact ⟨true, rfl⟩
          | some g => exact ih (hgrants.struct he (NameMap.mem_of_find?_eq_some hfind) h)
      | generic _ => exact exists_allM fun p hp => ih (hgrants.generic hp h)
      | clash _ => exact ⟨false, rfl⟩

/-- Levels for the depths of both types suffice, as each rule takes one off at least one
of the two. -/
theorem grants_depths : Grants fun n w g => w.depth + g.depth ≤ n + 1 where
  level := fun {w g} h => by
    have hw := w.depth_pos
    have hg := g.depth_pos
    omega
  optional := fun {n w g} h => by
    have hpresent := g.depth_present_le
    rw [depth] at h
    omega
  unionGot := fun {n w g gs} hg h => by
    have hlt : g.depth < (Ty.union gs).depth := depth_lt_of_mem_args hg
    omega
  unionWant := fun {n w g ws} hw h => by
    have hlt : w.depth < (Ty.union ws).depth := depth_lt_of_mem_args hw
    omega
  struct := fun {n ws gs e g} he hg h => by
    have hwlt := depth_lt_of_mem_fields he
    have hglt := depth_lt_of_mem_fields hg
    have hpresent := g.depth_present_le
    simp only at hglt
    omega
  generic := fun {n base ws gs p} hp h => by
    have hwlt : p.1.depth < (Ty.generic base ws).depth :=
      depth_lt_of_mem_args (List.of_mem_zip hp).1
    have hglt : p.2.depth < (Ty.generic base gs).depth :=
      depth_lt_of_mem_args (List.of_mem_zip hp).2
    omega

/-- The check goes no deeper than both types together; at the bottom one level
serves both. -/
theorem exists_flowsAt (limit : Nat) {budget : Nat} {want got : Ty}
    (hdepth : want.depth + got.depth ≤ budget + 1) :
    ∃ b, flowsAt limit budget want got = .ok b :=
  grants_depths.exists_flowsAt limit hdepth

/-- **The check decides the relation**, as soon as there are levels enough for
both types. -/
theorem flowsAt_eq_ok_true_iff (limit : Nat) {budget : Nat} {want got : Ty}
    (hdepth : want.depth + got.depth ≤ budget) :
    flowsAt limit budget want got = .ok true ↔ Flows want got := by
  refine ⟨flows_of_flowsAt, fun h => ?_⟩
  induction budget generalizing want got with
  | zero =>
      have hpos := want.depth_pos
      omega
  | succ budget ih =>
      have hlevel := level_flowsAt limit budget want got
      generalize flowsAt limit (budget + 1) want got = result at hlevel
      cases hlevel with
      | same t => rfl
      | free _ => rfl
      | optional w got =>
          have hpresent := got.depth_present_le
          rw [depth] at hdepth
          exact ih (by omega) (flows_optional_iff.mp h)
      | noAlternative hwant hne hopen =>
          rcases h.of_union_got hwant with heq | htrue | ⟨hnil, -⟩
          · exact absurd heq hne
          · rw [hopen] at htrue
            contradiction
          · exact absurd rfl hnil
      | @unionGot _ gs hwant hne hopen _ =>
          rcases h.of_union_got hwant with heq | htrue | ⟨-, hall⟩
          · exact absurd heq hne
          · rw [hopen] at htrue
            contradiction
          · refine allM_eq_ok_true_iff.mpr fun g hg => ?_
            have hlt : g.depth < (Ty.union gs).depth := depth_lt_of_mem_args hg
            exact ih (by omega) (hall g hg)
      | @unionWant ws _ hgot hopen =>
          have hlt : ∀ w ∈ ws, w.depth < (Ty.union ws).depth := fun w hw => depth_lt_of_mem_args hw
          have hreturns : ∀ w ∈ ws, ∃ b, flowsAt limit budget w got = .ok b := fun w hw => by
            have := hlt w hw
            exact exists_flowsAt limit (by omega)
          rcases h.of_union_want hgot with htrue | ⟨w, hw, hflow⟩
          · rw [hopen] at htrue
            contradiction
          · have := hlt w hw
            exact anyM_eq_ok_true hreturns hw (ih (by omega) hflow)
      | @struct ws gs hne =>
          have hfields := h.of_struct.resolve_left hne
          refine allM_eq_ok_true_iff.mpr fun e he => ?_
          cases hfind : gs.find? e.1 with
          | none => rfl
          | some g =>
              have hwlt := depth_lt_of_mem_fields he
              have hglt := depth_lt_of_mem_fields (NameMap.mem_of_find?_eq_some hfind)
              have hpresent := g.depth_present_le
              simp only at hglt
              exact ih (by omega) (hfields e he g hfind)
      | @generic n ws gs _ =>
          obtain ⟨-, -, hargs⟩ := flows_generic_iff.mp h
          refine allM_eq_ok_true_iff.mpr fun p hp => ?_
          have hwlt : p.1.depth < (Ty.generic n ws).depth :=
            depth_lt_of_mem_args (List.of_mem_zip hp).1
          have hglt : p.2.depth < (Ty.generic n gs).depth :=
            depth_lt_of_mem_args (List.of_mem_zip hp).2
          exact ih (by omega) (hargs p hp)
      | clash hnot => exact absurd h hnot

/-! ## parts of the actual type -/

/-- `P` holds of the type and of all that stands somewhere in it. -/
def Everywhere (P : Ty → Prop) (t : Ty) : Prop := ∀ u, Subterm u t → P u

/-- What holds everywhere holds of the type and everywhere in its arguments. -/
theorem everywhere_iff {P : Ty → Prop} {t : Ty} (ht : ∀ fields, t ≠ .struct fields) :
    Everywhere P t ↔ P t ∧ ∀ u ∈ t.args, Everywhere P u := by
  constructor
  · intro h
    exact ⟨h t (.refl t), fun u hu v hv => h v (.arg hu hv)⟩
  · rintro ⟨hP, hargs⟩ v hv
    cases hv with
    | refl => exact hP
    | arg hu h => exact hargs _ hu v h
    | field _ _ => exact absurd rfl (ht _)

/-- In a record it holds everywhere in the fields. -/
theorem everywhere_struct_iff {P : Ty → Prop} {fields : NameMap Ty} :
    Everywhere P (.struct fields) ↔ P (.struct fields) ∧ ∀ e ∈ fields, Everywhere P e.2 := by
  constructor
  · intro h
    exact ⟨h _ (.refl _), fun e he v hv => h v (.field he hv)⟩
  · rintro ⟨hP, hfields⟩ v hv
    cases hv with
    | refl => exact hP
    | arg hu _ => exact absurd hu List.not_mem_nil
    | field he h => exact hfields _ he v h

/-- Every union that stands somewhere in the type has an alternative. -/
def NoEmptyUnion : Ty → Prop := Everywhere (· ≠ .union [])

/-- A union that is not empty has alternatives. -/
theorem NoEmptyUnion.ne_nil {alts : List Ty} (h : NoEmptyUnion (.union alts)) : alts ≠ [] := by
  rintro rfl
  exact h _ (.refl _) rfl

/-- A type that is neither optional nor a union. -/
def Plain (t : Ty) : Prop := (∀ u, t ≠ .optional u) ∧ ∀ alts, t ≠ .union alts

/-- Induction on the optionals and unions that a type begins with. -/
@[elab_as_elim]
theorem peel {motive : Ty → Prop} (plain : ∀ t, Plain t → motive t)
    (optional : ∀ t, motive t → motive (.optional t))
    (union : ∀ alts, (∀ t ∈ alts, motive t) → motive (.union alts)) : ∀ t, motive t := by
  intro t
  induction t using induct with
  | optional t ih => exact optional t ih
  | union alts ih => exact union alts ih
  | scalar s => exact plain _ ⟨by simp, by simp⟩
  | named n => exact plain _ ⟨by simp, by simp⟩
  | generic n args _ => exact plain _ ⟨by simp, by simp⟩
  | struct fields _ => exact plain _ ⟨by simp, by simp⟩

/-- A type that is not optional has nothing to open. -/
theorem Plain.present_eq {t : Ty} (h : Plain t) : t.present = t := by
  cases t with
  | optional u => exact absurd rfl (h.1 u)
  | _ => rfl

/-- What may be done with `got` and with what it flows to: an optional is taken
off `got`, a union around the declared type takes it as well, and if it is a
union itself, its alternatives flow. -/
structure Settled (got : Ty) : Prop where
  present : ∀ w, Flows w got → Flows w got.present
  joins : ∀ w ws, w ∈ ws → Flows w got → Flows (.union ws) got
  splits : ∀ w gs, got = .union gs → Flows w got → ∀ g ∈ gs, Flows w g

/-- A type that is neither optional nor a union is settled: nothing about it can be
opened or split. -/
theorem Plain.settled {got : Ty} (h : Plain got) : Settled got where
  present := fun w hflow => by rwa [h.present_eq]
  joins := fun w ws hw hflow => .unionWant h.2 hw hflow
  splits := fun w gs hgs => absurd hgs (h.2 gs)

/-- An optional is settled when its content is. -/
theorem Settled.optional {got : Ty} (h : Settled got) : Settled (.optional got) where
  present := fun w hflow => by
    induction w using peel with
    | plain w hw =>
        cases hflow with
        | refl _ => exact absurd rfl (hw.1 got)
        | openWant hopen _ => exact .openWant hopen got
        | openGot _ hopen => cases hopen
        | optional _ => exact absurd rfl (hw.1 _)
        | unionWant _ _ _ => exact absurd rfl (hw.2 _)
    | optional w _ =>
        rw [flows_optional_iff] at hflow ⊢
        exact h.present w hflow
    | union ws ih =>
        rcases hflow.of_union_want (by simp) with hopen | ⟨w, hw, hw'⟩
        · cases hopen
        · exact h.joins w ws hw (ih w hw hw')
  joins := fun w ws hw hflow => .unionWant (by simp) hw hflow
  splits := fun w gs hgs => by cases hgs

/-- From a union of settled types each alternative flows. -/
theorem flows_alternative {gs : List Ty} (h : ∀ g ∈ gs, Settled g) {w : Ty}
    (hflow : Flows w (.union gs)) : ∀ g ∈ gs, Flows w g := by
  intro g hg
  induction w using peel with
  | plain w hw =>
      rcases hflow.of_union_got hw.1 with heq | hopen | ⟨-, hall⟩
      · exact absurd heq (hw.2 gs)
      · exact .openWant hopen g
      · exact hall g hg
  | optional w ih =>
      rw [flows_optional_iff] at hflow ⊢
      exact (h g hg).present w (ih hflow)
  | union ws _ =>
      rcases hflow.of_union_got (by simp) with heq | hopen | ⟨-, hall⟩
      · cases heq
        exact (h g hg).joins g gs hg (.refl g)
      · cases hopen
      · exact hall g hg

/-- A union is settled when its alternatives are. -/
theorem Settled.union {gs : List Ty} (hne : gs ≠ []) (h : ∀ g ∈ gs, Settled g) :
    Settled (.union gs) where
  present := fun w hflow => hflow
  joins := fun w ws hw hflow =>
    .unionGot (by simp) hne fun g hg => (h g hg).joins w ws hw (flows_alternative h hflow g hg)
  splits := fun w gs' hgs hflow => by
    cases hgs
    exact flows_alternative h hflow

/-- **Without empty unions every type is settled.**  An empty union has nothing that
could flow in its place. -/
theorem NoEmptyUnion.settled {got : Ty} (h : NoEmptyUnion got) : Settled got := by
  induction got using peel with
  | plain got hplain => exact hplain.settled
  | optional got ih => exact (ih (((everywhere_iff (by simp)).mp h).2 got List.mem_cons_self)).optional
  | union gs ih => exact .union h.ne_nil fun g hg => ih g hg (((everywhere_iff (by simp)).mp h).2 g hg)

/-! ## actual unions -/

/-- The type without the optionals around it. -/
def bare : Ty → Ty
  | .optional t => t.bare
  | t => t

/-- Without an optional around it a type is bare. -/
theorem bare_eq_self {t : Ty} (h : ∀ u, t ≠ .optional u) : t.bare = t := by
  cases t with
  | optional u => exact absurd rfl (h u)
  | _ => rfl

/-- No optional is left around a bare type. -/
theorem bare_ne_optional (t u : Ty) : t.bare ≠ .optional u := by
  induction t using peel with
  | plain t h =>
      rw [bare_eq_self h.1]
      exact h.1 u
  | optional t ih => exact ih
  | union alts _ => simp [bare]

theorem depth_bare_le (t : Ty) : t.bare.depth ≤ t.depth := by
  induction t using peel with
  | plain t h => exact Nat.le_of_eq (congrArg depth (bare_eq_self h.1))
  | optional t ih => simp only [bare, depth]; omega
  | union alts _ => exact Nat.le_refl _

/-- To a type that is not optional itself, the optionals around the declared type
make no difference. -/
theorem flows_bare_iff {want got : Ty} (h : ∀ t, got ≠ .optional t) :
    Flows want.bare got ↔ Flows want got := by
  induction want using peel with
  | plain w hw => rw [bare_eq_self hw.1]
  | optional w ih =>
      have hpresent : got.present = got := by
        cases got with
        | optional t => exact absurd rfl (h t)
        | _ => rfl
      rw [flows_optional_iff, hpresent]
      exact ih
  | union ws _ => rfl

/-- An actual union flows exactly where all of its alternatives flow once the
declared type is free of the optionals around it. -/
theorem flows_union_iff {want : Ty} {gs : List Ty} (h : NoEmptyUnion (.union gs)) :
    Flows want (.union gs) ↔ ∀ g ∈ gs, Flows want.bare g := by
  rw [← flows_bare_iff (by simp)]
  constructor
  · exact h.settled.splits _ gs rfl
  · exact .unionGot want.bare_ne_optional h.ne_nil

/-- With levels for both types, the check says yes exactly to what flows. -/
theorem flows_eq_ok_true_iff {limits : Limits} {want got : Ty}
    (h : want.depth + got.depth ≤ limits.maxDepth) :
    flows limits want got = .ok true ↔ Flows want got :=
  flowsAt_eq_ok_true_iff limits.maxDepth h

/-- With levels enough for both types the check returns, and is right. -/
theorem flows_decides {limits : Limits} {want got : Ty}
    (h : want.depth + got.depth ≤ limits.maxDepth) :
    Decides (flows limits want got) (Flows want got) := by
  obtain ⟨b, hb⟩ := exists_flowsAt limits.maxDepth (Nat.le_succ_of_le h)
  have hiff := flows_eq_ok_true_iff h
  rw [flows, hb, Except.ok.injEq] at hiff
  exact ⟨b, hb, hiff⟩

/-- **An actual union is taken apart behind the optionals of the declared type.**
It flows exactly where all of its alternatives flow once these optionals are off.
So where the union flows, each alternative does; the converse holds when the
declared type is not optional or no alternative is, but not in general. -/
theorem flows_union_alternatives {limits : Limits} {want : Ty} {alts : List Ty}
    (hunion : NoEmptyUnion (.union alts))
    (hdepth : want.depth + (Ty.union alts).depth ≤ limits.maxDepth) :
    (flows limits want (.union alts) = .ok true ↔
      ∀ alt ∈ alts, flows limits want.bare alt = .ok true) ∧
    (flows limits want (.union alts) = .ok true → ∀ alt ∈ alts, flows limits want alt = .ok true) ∧
    ((∀ w, want ≠ .optional w) ∨ (∀ alt ∈ alts, ∀ t, alt ≠ .optional t) →
      (flows limits want (.union alts) = .ok true ↔
        ∀ alt ∈ alts, flows limits want alt = .ok true)) := by
  have hlt : ∀ alt ∈ alts, alt.depth < (Ty.union alts).depth :=
    fun alt halt => depth_lt_of_mem_args halt
  have hwhole := flows_eq_ok_true_iff hdepth
  have halone : ∀ alt ∈ alts, (flows limits want alt = .ok true ↔ Flows want alt) := by
    intro alt halt
    have := hlt alt halt
    exact flows_eq_ok_true_iff (by omega)
  have hbare : ∀ alt ∈ alts, (flows limits want.bare alt = .ok true ↔ Flows want.bare alt) := by
    intro alt halt
    have := hlt alt halt
    have := want.depth_bare_le
    exact flows_eq_ok_true_iff (by omega)
  have hiff : flows limits want (.union alts) = .ok true ↔
      ∀ alt ∈ alts, flows limits want.bare alt = .ok true := by
    rw [hwhole, flows_union_iff hunion]
    exact forall₂_congr fun alt halt => (hbare alt halt).symm
  refine ⟨hiff, ?_, ?_⟩
  · intro h alt halt
    rw [halone alt halt]
    exact hunion.settled.splits want alts rfl (hwhole.mp h) alt halt
  · intro h
    rw [hiff]
    refine forall₂_congr fun alt halt => ?_
    rw [hbare alt halt, halone alt halt]
    rcases h with hwant | hplain
    · rw [bare_eq_self hwant]
    · exact flows_bare_iff (hplain alt halt)

/-- `Optional<Foo<int>>` takes a union of an integer in `Foo` and of the wildcard
in it. -/
theorem flows_union_alternatives_foo :
    flows {} (.optional (.generic "Foo" [.scalar .int]))
        (.union [.generic "Foo" [.scalar .int], .generic "Foo" [.named wildcardName]]) =
      .ok true := by
  have hunion : NoEmptyUnion (.union [.generic "Foo" [.scalar .int],
      .generic "Foo" [.named wildcardName]]) := by
    simp [NoEmptyUnion, everywhere_iff, args]
  refine (flows_union_alternatives hunion (by decide)).1.mpr ?_
  exact List.forall_mem_cons.mpr ⟨rfl, List.forall_mem_singleton.mpr rfl⟩

/-- An optional and a plain integer each flow to where an optional integer is
declared, but not the union of the two. -/
theorem not_flows_union_of_alternatives :
    flows {} (.optional (.scalar .int)) (.union [.optional (.scalar .int), .scalar .int]) =
        .ok false ∧
      ∀ alt ∈ [Ty.optional (.scalar .int), .scalar .int],
        flows {} (.optional (.scalar .int)) alt = .ok true :=
  ⟨rfl, List.forall_mem_cons.mpr ⟨rfl, List.forall_mem_singleton.mpr rfl⟩⟩

end Ty

end TypeFlow
