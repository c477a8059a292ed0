import TypeFlow.Proofs.Flows

/-!
# TypeFlow.Proofs.Absence

A payload that may be absent gets only to where absence is provided for.

* `MayBeAbsent` — the actual types whose values may be absent;
* `AdmitsAbsence` — the declared types that provide for it;
* `Flows.admitsAbsence` — what flows keeps to this, by induction on the way in which it
  flows: every rule that takes an actual type apart keeps an alternative that may be
  absent in sight, and the one rule that opens it has an optional to put it into;
* `Beside` — the arguments of generics, at any depth, that are compared with each other.

Fields of records are left out on purpose.  A shared field has one optional taken off
before it is compared, so an optional field flows to one that is not.
-/

namespace TypeFlow

namespace Ty

/-- The type is optional, or a union that has such an alternative, maybe in a union of
its own. -/
inductive MayBeAbsent : Ty → Prop where
  | optional (t : Ty) : MayBeAbsent (.optional t)
  | alternative {t : Ty} {alts : List Ty} (ht : t ∈ alts) (h : MayBeAbsent t) :
      MayBeAbsent (.union alts)

/-- The type is optional, takes anything, or is a union that has such an
alternative. -/
inductive AdmitsAbsence : Ty → Prop where
  | optional (t : Ty) : AdmitsAbsence (.optional t)
  | free {t : Ty} (h : t.isUnconstrained = true) : AdmitsAbsence t
  | alternative {t : Ty} {alts : List Ty} (ht : t ∈ alts) (h : AdmitsAbsence t) :
      AdmitsAbsence (.union alts)

/-- Where values may be absent, an absent one is also taken. -/
theorem MayBeAbsent.admitsAbsence {t : Ty} (h : MayBeAbsent t) : AdmitsAbsence t := by
  induction h with
  | optional t => exact .optional t
  | alternative ht _ ih => exact .alternative ht ih

/-- The wildcard and type variables are names, and a name is never absent by itself. -/
theorem MayBeAbsent.isUnconstrained_eq {t : Ty} (h : MayBeAbsent t) :
    t.isUnconstrained = false := by
  cases h with
  | optional t => rfl
  | alternative _ _ => rfl

/-- A payload that may be absent flows only to where absence is admitted. -/
theorem Flows.admitsAbsence {want got : Ty} (h : Flows want got) (hgot : MayBeAbsent got) :
    AdmitsAbsence want := by
  induction h with
  | refl t => exact hgot.admitsAbsence
  | openWant h _ => exact .free h
  | openGot _ h =>
      rw [hgot.isUnconstrained_eq] at h
      contradiction
  | optional _ _ => exact .optional _
  | unionGot _ _ _ ih =>
      -- the alternative that may be absent flows by itself
      cases hgot with
      | alternative ht hg => exact ih _ ht hg
  | unionWant _ hw _ ih => exact .alternative hw (ih hgot)
  | struct _ _ => cases hgot
  | generic _ _ _ => cases hgot

/-- `w` and `g` stand at the same place of `want` and `got`, below generics of the same
name and number of arguments. -/
inductive Beside (w g : Ty) : Ty → Ty → Prop where
  | here : Beside w g w g
  | arg {n : String} {ws gs : List Ty} {want got : Ty} (hlength : ws.length = gs.length)
      (hpair : (want, got) ∈ ws.zip gs) (h : Beside w g want got) :
      Beside w g (.generic n ws) (.generic n gs)

/-- A flow holds between all arguments that stand side by side, at any depth. -/
theorem Flows.of_beside {want got w g : Ty} (hpair : Beside w g want got)
    (h : Flows want got) : Flows w g := by
  induction hpair with
  | here => exact h
  | arg _ hpair _ ih => exact ih ((flows_generic_iff.mp h).2.2 _ hpair)

/-- **Absence flows only to where it is admitted.**  When the check lets a payload pass,
under any limits, then a payload that may be absent has met a declared type that admits
absence; and so has every argument that may be absent, at any depth below generics of
the same name and number of arguments. -/
theorem absence_admitted {limits : Limits} {want got w g : Ty}
    (hflow : flows limits want got = .ok true) (hpair : Beside w g want got)
    (habsent : MayBeAbsent g) : AdmitsAbsence w :=
  ((flows_of_flowsAt hflow).of_beside hpair).admitsAbsence habsent

/-- An optional that is hidden in a union of a union, as the value of a map, meets an
optional that stands beside another alternative. -/
theorem absence_admitted_map :
    let want : Ty := .union [.scalar .int, .optional (.scalar .string)]
    let got : Ty := .union [.scalar .int, .union [.optional (.scalar .string)]]
    flows {} (.generic "map" [.scalar .string, want]) (.generic "map" [.scalar .string, got]) =
        .ok true ∧
      MayBeAbsent got ∧ AdmitsAbsence want := by
  intro want got
  have hflow : flows {} (.generic "map" [.scalar .string, want])
      (.generic "map" [.scalar .string, got]) = .ok true := rfl
  have habsent : MayBeAbsent got :=
    .alternative (t := .union [.optional (.scalar .string)]) (by simp)
      (.alternative List.mem_cons_self (.optional _))
  have hpair : Beside want got (.generic "map" [.scalar .string, want])
      (.generic "map" [.scalar .string, got]) :=
    .arg rfl (by simp) .here
  exact ⟨hflow, habsent, absence_admitted hflow hpair habsent⟩

/-- A field may be absent where it is not declared to be. -/
example : flows {} (.struct [("a", .scalar .int)]) (.struct [("a", .optional (.scalar .int))]) =
    .ok true := rfl

end Ty

end TypeFlow
