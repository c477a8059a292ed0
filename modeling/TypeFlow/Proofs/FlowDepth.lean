import TypeFlow.Boundary.Edge
import TypeFlow.Proofs.Comparison
import TypeFlow.Proofs.Deepening
import TypeFlow.Proofs.Flows

/-!
# TypeFlow.Proofs.FlowDepth

How deep the check of flow goes.  A level is used up for every step of the check,
and some steps take a layer off one of the two types only: an optional is opened
on the declared side, a union is taken apart on one side while the other waits.
So a limit that lets both types be read need not let them be compared.

* `HasRoom` — what a limit has to leave: a level for each layer of both types
  together, one of them shared at the bottom; or a level for each layer of the one
  type, when only that one is ever taken apart alone;
* `flows_of_hasRoom` — with room, the check returns and its answer is right;
* `flowsAt_layers` — the bound on both types together is the best possible, for
  types of any two depths.
-/

namespace TypeFlow

namespace Ty

/-! ## types that wait for each other -/

/-- No union stands anywhere in the type. -/
def UnionFree : Ty → Prop := Everywhere fun t => ∀ alts, t ≠ .union alts

/-- Neither an optional nor a union stands anywhere in the type. -/
def Solid : Ty → Prop := Everywhere Plain

/-- What holds everywhere in a type holds everywhere in its content. -/
theorem Everywhere.present {P : Ty → Prop} {t : Ty} (h : Everywhere P t) :
    Everywhere P t.present := by
  cases t with
  | optional u => exact fun v hv => h v (.arg (List.mem_singleton.mpr rfl) hv)
  | _ => exact h

/-- What holds everywhere in a record holds everywhere in its fields. -/
theorem Everywhere.of_mem_fields {P : Ty → Prop} {fields : NameMap Ty} {e : String × Ty}
    (h : Everywhere P (.struct fields)) (he : e ∈ fields) : Everywhere P e.2 :=
  fun v hv => h v (.field he hv)

/-- What holds everywhere in a type holds everywhere in its arguments. -/
theorem Everywhere.of_mem_args {P : Ty → Prop} {t u : Ty} (h : Everywhere P t) (hu : u ∈ t.args) :
    Everywhere P u :=
  fun v hv => h v (.arg hu hv)

/-- Without unions on the actual side, every step takes a layer off the declared
type. -/
theorem grants_unionFree : Grants fun n w g => w.depth ≤ n ∧ UnionFree g where
  level := fun {w g} h => by
    have hw := w.depth_pos
    omega
  optional := fun {n w g} h => by
    rw [depth] at h
    exact ⟨by omega, h.2.present⟩
  unionGot := fun {n w g gs} _ h => absurd rfl (h.2 _ (.refl _) gs)
  unionWant := fun {n w g ws} hw h => by
    have hlt : w.depth < (Ty.union ws).depth := depth_lt_of_mem_args hw
    exact ⟨by omega, h.2⟩
  struct := fun {n ws gs e g} he hg h => by
    have hlt := depth_lt_of_mem_fields he
    exact ⟨by omega, (h.2.of_mem_fields hg).present⟩
  generic := fun {n base ws gs p} hp h => by
    have hlt : p.1.depth < (Ty.generic base ws).depth :=
      depth_lt_of_mem_args (List.of_mem_zip hp).1
    exact ⟨by omega, h.2.of_mem_args (List.of_mem_zip hp).2⟩

/-- Without optionals and unions on the declared side, every step takes a layer off
the actual type. -/
theorem grants_solid : Grants fun n w g => g.depth ≤ n ∧ Solid w where
  level := fun {w g} h => by
    have hg := g.depth_pos
    omega
  optional := fun {n w g} h => absurd rfl ((h.2 _ (.refl _)).1 w)
  unionGot := fun {n w g gs} hg h => by
    have hlt : g.depth < (Ty.union gs).depth := depth_lt_of_mem_args hg
    exact ⟨by omega, h.2⟩
  unionWant := fun {n w g ws} _ h => absurd rfl ((h.2 _ (.refl _)).2 ws)
  struct := fun {n ws gs e g} he hg h => by
    have hlt := depth_lt_of_mem_fields hg
    have hpresent := g.depth_present_le
    simp only at hlt
    exact ⟨by omega, h.2.of_mem_fields he⟩
  generic := fun {n base ws gs p} hp h => by
    have hlt : p.2.depth < (Ty.generic base gs).depth :=
      depth_lt_of_mem_args (List.of_mem_zip hp).2
    exact ⟨by omega, h.2.of_mem_args (List.of_mem_zip hp).1⟩

/-! ## room -/

/-- The limits leave levels enough to check `got` against `want`. -/
def HasRoom (limits : Limits) (want got : Ty) : Prop :=
  want.depth + got.depth ≤ limits.maxDepth + 1 ∨
    (want.depth ≤ limits.maxDepth ∧ UnionFree got) ∨ (got.depth ≤ limits.maxDepth ∧ Solid want)

/-- With room the check returns, and what it returns is whether the payload flows. -/
theorem flows_of_hasRoom {limits : Limits} {want got : Ty} (h : HasRoom limits want got) :
    ∃ b, flows limits want got = .ok b ∧ (b = true ↔ Flows want got) := by
  have hreturns : ∃ b, flows limits want got = .ok b := by
    rcases h with hdepths | hfree | hsolid
    · exact exists_flowsAt limits.maxDepth hdepths
    · exact grants_unionFree.exists_flowsAt limits.maxDepth hfree
    · exact grants_solid.exists_flowsAt limits.maxDepth hsolid
  obtain ⟨b, hb⟩ := hreturns
  -- the answer is kept under a limit that is high enough to decide the relation
  have hhigh : limits.maxDepth ≤ limits.maxDepth + (want.depth + got.depth) := by omega
  have hkept := (flowsAt_kept limits.maxDepth limits.maxDepth hhigh want got).ok hb
  have hdecides := flowsAt_eq_ok_true_iff limits.maxDepth
    (Nat.le_add_left (want.depth + got.depth) limits.maxDepth)
  rw [hkept, Except.ok.injEq] at hdecides
  exact ⟨b, hb, hdecides⟩

/-! ## layers -/

/-- `n` optionals around a type. -/
def optionals : Nat → Ty → Ty
  | 0, t => t
  | n + 1, t => .optional (optionals n t)

/-- `n` unions of one alternative around a type. -/
def unions : Nat → Ty → Ty
  | 0, t => t
  | n + 1, t => .union [unions n t]

/-- Each optional is one level. -/
theorem depth_optionals (n : Nat) (t : Ty) : (optionals n t).depth = n + t.depth := by
  induction n with
  | zero => rw [optionals, Nat.zero_add]
  | succ n ih => rw [optionals, depth, ih]; omega

/-- Each union is one level. -/
theorem depth_unions (n : Nat) (t : Ty) : (unions n t).depth = n + t.depth := by
  induction n with
  | zero => rw [unions, Nat.zero_add]
  | succ n ih => rw [unions, depth, depthList, depthList, ih]; omega

theorem present_unions (n : Nat) (s : Scalar) :
    (unions n (.scalar s)).present = unions n (.scalar s) := by
  cases n <;> rfl

/-- A scalar flows out of any number of unions around it alone. -/
theorem flows_unions (n : Nat) (s : Scalar) : Flows (.scalar s) (unions n (.scalar s)) := by
  induction n with
  | zero => exact .refl _
  | succ n ih => exact .unionGot (by simp) (by simp) (List.forall_mem_singleton.mpr ih)

/-- A scalar flows out of any number of unions around it and into any number of
optionals. -/
theorem flows_layers (m n : Nat) (s : Scalar) :
    Flows (optionals m (.scalar s)) (unions n (.scalar s)) := by
  induction m with
  | zero => exact flows_unions n s
  | succ m ih =>
      refine .optional ?_
      rw [present_unions]
      exact ih

/-- An optional declaration takes a level from the actual type, which loses an optional
at most. -/
theorem flowsAt_optional (limit budget : Nat) {w got : Ty} (hne : .optional w ≠ got)
    (hopen : got.isUnconstrained = false) :
    flowsAt limit (budget + 1) (.optional w) got = flowsAt limit budget w got.present := by
  rw [flowsAt, if_neg hne, hopen]
  rfl

/-- A union of actual types takes a level from the declared type, which stays as it
is. -/
theorem flowsAt_union (limit budget : Nat) {want : Ty} {gs : List Ty} (hne : want ≠ .union gs)
    (hopen : want.isUnconstrained = false) (hwant : ∀ w, want ≠ .optional w) (hgs : gs ≠ []) :
    flowsAt limit (budget + 1) want (.union gs) = gs.allM (flowsAt limit budget want) := by
  rw [flowsAt, if_neg hne, hopen, if_neg (by simp [isUnconstrained, isVar, isWildcard]),
    if_neg (by simpa using hgs)]
  exact hwant

/-- Optionals are opened first and unions taken apart after them, one layer with
each level; so levels are missing as soon as there are no more of them than
layers. -/
theorem flowsAt_layers (limit : Nat) {budget m n : Nat} (h : budget ≤ m + n) (s : Scalar) :
    flowsAt limit budget (optionals m (.scalar s)) (unions n (.scalar s)) = .error ⟨limit⟩ := by
  induction budget generalizing m n with
  | zero => rfl
  | succ budget ih =>
      cases m with
      | succ m =>
          have hne : .optional (optionals m (.scalar s)) ≠ unions n (.scalar s) := by
            cases n <;> simp [unions]
          have hopen : (unions n (.scalar s)).isUnconstrained = false := by cases n <;> rfl
          rw [optionals, flowsAt_optional limit budget hne hopen, present_unions]
          exact ih (by omega)
      | zero =>
          cases n with
          | zero => omega
          | succ n =>
              have hinner : flowsAt limit budget (.scalar s) (unions n (.scalar s)) =
                  .error ⟨limit⟩ := ih (m := 0) (by omega)
              rw [optionals, unions, flowsAt_union limit budget (by simp) rfl (by simp) (by simp),
                List.allM, hinner]
              rfl

end Ty

/-! ## texts and edges -/

namespace Edge

/-- An edge passes without a complaint when its types flow, and only then, if the
limits leave room to tell. -/
theorem check_eq_none_iff {limits : Limits} {e : Edge} {w g : Ty}
    (hw : Ty.read limits e.consumer.ty = .ok w) (hg : Ty.read limits e.producer.ty = .ok g)
    (hdecided : Text.mayFlow limits e.consumer.ty.trim e.producer.ty.trim = true ↔ Ty.Flows w g) :
    e.check limits = none ↔ Ty.Flows w g := by
  rw [← hdecided]
  unfold check
  simp only
  by_cases heq : e.producer.ty.trim = e.consumer.ty.trim
  · rw [if_pos heq]
    have hsame : g = w := by
      rw [← Ty.read_trim, heq, Ty.read_trim, hw] at hg
      exact (Except.ok.inj hg).symm
    rw [hdecided, hsame]
    exact iff_of_true rfl (.refl w)
  rw [if_neg heq]
  by_cases hwild : (e.producer.isWildcard || e.consumer.isWildcard) = true
  · rw [if_pos hwild, hdecided]
    refine iff_of_true rfl ?_
    rcases Bool.or_eq_true_iff.mp hwild with hproducer | hconsumer
    · have hopen := Ty.isUnconstrained_of_absorbs hg (Text.absorbs_of_isWildcard hproducer)
      exact .openGot w hopen
    · have hopen := Ty.isUnconstrained_of_absorbs hw (Text.absorbs_of_isWildcard hconsumer)
      exact .openWant hopen g
  · rw [if_neg hwild]
    split
    · next hflow => exact iff_of_true rfl hflow
    · next hflow => simp [hflow]

end Edge

/-- With room for both, texts are let through exactly when their types flow. -/
theorem Text.mayFlow_iff {limits : Limits} {want got : Text} {w g : Ty}
    (hw : Ty.read limits want = .ok w) (hg : Ty.read limits got = .ok g)
    (h : Ty.HasRoom limits w g) : mayFlow limits want got = true ↔ Ty.Flows w g := by
  obtain ⟨b, hb, hflows⟩ := Ty.flows_of_hasRoom h
  rw [mayFlow, hw, hg, ← hflows]
  simp only [Ty.mayFlow, hb]

/-- **The check of flow returns where the limits leave room for both types**: when
they nest no deeper together than the limit and one more, or when the declared
type is within the limit and the actual one has no union, or when the actual type is
within the limit and the declared one has neither an optional nor a union.  The
answer is then the right one, and with it those for texts and for the edges of a
pipeline.  No less will do: of any two depths there are types that flow, but not
within a limit below the two depths together. -/
theorem flow_levels_suffice (limits : Limits) :
    (∀ want got : Ty, Ty.HasRoom limits want got →
      ∃ b, Ty.flows limits want got = .ok b ∧ (b = true ↔ Ty.Flows want got)) ∧
    (∀ (e : Edge) (w g : Ty), Ty.read limits e.consumer.ty = .ok w →
      Ty.read limits e.producer.ty = .ok g → Ty.HasRoom limits w g →
      (Text.mayFlow limits e.consumer.ty e.producer.ty = true ↔ Ty.Flows w g) ∧
        (e.check limits = none ↔ Ty.Flows w g)) ∧
    ∀ m n : Nat, ∃ want got : Ty, want.depth = m + 1 ∧ got.depth = n + 1 ∧ Ty.Flows want got ∧
      (limits.maxDepth + 1 < want.depth + got.depth →
        Ty.flows limits want got = .error ⟨limits.maxDepth⟩) := by
  refine ⟨fun want got => Ty.flows_of_hasRoom, fun e w g hw hg hroom => ?_, fun m n => ?_⟩
  · refine ⟨Text.mayFlow_iff hw hg hroom, Edge.check_eq_none_iff hw hg ?_⟩
    rw [← Ty.read_trim] at hw hg
    exact Text.mayFlow_iff hw hg hroom
  · refine ⟨Ty.optionals m (.scalar .int), Ty.unions n (.scalar .int), Ty.depth_optionals m _,
      Ty.depth_unions n _, Ty.flows_layers m n .int, fun hlow => ?_⟩
    rw [Ty.depth_optionals, Ty.depth_unions, Ty.depth] at hlow
    exact Ty.flowsAt_layers limits.maxDepth (by omega) .int

/-- With three levels a union of one alternative is compared with an optional; with
two levels a generic is, which has no union in it. -/
theorem flow_levels_suffice_optional :
    (∃ b, Ty.flows ⟨3⟩ (.optional (.scalar .int)) (.union [.scalar .int]) = .ok b ∧
      (b = true ↔ Ty.Flows (.optional (.scalar .int)) (.union [.scalar .int]))) ∧
    (Edge.check ⟨2⟩ ⟨{ ty := "slice<int>".toList }, { ty := "Optional<int>".toList }⟩ = none ↔
      Ty.Flows (.optional (.scalar .int)) (.generic "slice" [.scalar .int])) := by
  have hfree : Ty.UnionFree (.generic "slice" [.scalar .int]) := by
    simp [Ty.UnionFree, Ty.everywhere_iff, Ty.args]
  have hroom : Ty.HasRoom ⟨2⟩ (.optional (.scalar .int)) (.generic "slice" [.scalar .int]) :=
    .inr (.inl ⟨by decide, hfree⟩)
  obtain ⟨hreturns, -, -⟩ := flow_levels_suffice ⟨3⟩
  obtain ⟨-, hedges, -⟩ := flow_levels_suffice ⟨2⟩
  exact ⟨hreturns _ _ (.inl (by decide)), (hedges _ _ _ rfl rfl hroom).2⟩

/-- An optional and a union of integers can both be read with two levels, and the
union flows to where the optional is declared; but comparing them takes a third
level, and without it the edge between them is complained about. -/
theorem flow_tooDeep_of_readable :
    let want := "Optional<int>".toList
    let got := "Union<int>".toList
    Ty.read ⟨2⟩ want = .ok (.optional (.scalar .int)) ∧
      Ty.read ⟨2⟩ got = .ok (.union [.scalar .int]) ∧
      Ty.flows ⟨2⟩ (.optional (.scalar .int)) (.union [.scalar .int]) = .error ⟨2⟩ ∧
      Text.mayFlow ⟨2⟩ want got = false ∧
      (Edge.check ⟨2⟩ ⟨{ ty := got }, { ty := want }⟩).isSome = true ∧
      Ty.flows ⟨3⟩ (.optional (.scalar .int)) (.union [.scalar .int]) = .ok true :=
  ⟨rfl, rfl, rfl, rfl, by decide +kernel, rfl⟩

end TypeFlow
