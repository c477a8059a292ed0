import TypeFlow.Proofs.FlowDepth
import TypeFlow.Proofs.Routes

/-!
# TypeFlow.Proofs.Mirror

Locating with the two types in each other's place.  Every route from two types is a
route from them the other way round, once the alternatives it takes are named in the
other order; what stands at its end is then reported with the two numbers of arguments
exchanged.  So there is something to be found from one side exactly when there is from
the other.  Which mismatch comes first is another question: alternatives are tried in the
order of the declared type.  Where no alternatives are tried the routes are the same
from both sides, and with them the first mismatch.

* `MismatchAt.swapped` — a mismatch seen from the other side;
* `Leads.route_swapped` — no alternatives are tried unless both types have unions;
* `First.unique` — a search has only one first find;
* `locate_swapped` — the two searches compared.
-/

namespace TypeFlow

open ArityMismatch

/-! ## the other side -/

/-- The same mismatch, seen from the other type. -/
def ArityMismatch.swapped (m : ArityMismatch) : ArityMismatch :=
  { m with wantArity := m.gotArity, gotArity := m.wantArity }

/-- The same step, seen from the other type. -/
def Turn.swapped : Turn → Turn
  | arg base index => arg base index
  | content => content
  | field name => field name
  | alternatives want got => alternatives got want

namespace Route

/-- The same steps, seen from the other type. -/
def swapped (route : Route) : Route := route.map Turn.swapped

/-- What a report says about the way is the same from both sides. -/
theorem mismatch_swapped (route : Route) (base : String) (wantArity gotArity : Nat) :
    route.swapped.mismatch base gotArity wantArity =
      (route.mismatch base wantArity gotArity).swapped := by
  have hbase : ∀ turn : Turn, turn.swapped.base? = turn.base? := by rintro ⟨⟩ <;> rfl
  have hindex : ∀ turn : Turn, turn.swapped.index? = turn.index? := by rintro ⟨⟩ <;> rfl
  have hfield : ∀ turn : Turn, turn.swapped.field? = turn.field? := by rintro ⟨⟩ <;> rfl
  simp [mismatch, swapped, ArityMismatch.swapped, List.filterMap_map, hbase, hindex,
    hfield]

end Route

namespace Ty

variable {turn : Turn} {route : Route} {want got w g w' g' : Ty}

/-- A turn can be taken with the sides exchanged; in a union its two indices are
exchanged too. -/
theorem Descends.swapped (h : Descends turn want got w g) :
    Descends turn.swapped got want g w := by
  cases h with
  | arg hlength hw hg => exact .arg hlength.symm hg hw
  | content w g => exact .content g w
  | field hw hg => exact .field hg hw
  | alternatives hw hg => exact .alternatives hg hw

/-- A whole route can be taken with the sides exchanged. -/
theorem Leads.swapped (h : Leads route want got w g) : Leads route.swapped got want g w := by
  induction h with
  | here want got => exact .here got want
  | down hturn _ ih => exact .down hturn.swapped ih

/-- **A mismatch from both sides**: the same way, with the alternatives named in the
other order, and the numbers of arguments exchanged. -/
theorem MismatchAt.swapped {m : ArityMismatch} (h : MismatchAt want got route m) :
    MismatchAt got want route.swapped m.swapped := by
  obtain ⟨hleads, hlength⟩ := h
  rw [← Route.mismatch_swapped]
  exact .intro hleads.swapped hlength.symm

/-! ## ways without alternatives -/

/-- A step tries alternatives only if both types are unions. -/
theorem Descends.turn_swapped (h : Descends turn want got w g)
    (hfree : UnionFree want ∨ UnionFree got) : turn.swapped = turn := by
  cases h with
  | arg _ _ _ => rfl
  | content _ _ => rfl
  | field _ _ => rfl
  | alternatives _ _ =>
      rcases hfree with hfree | hfree
      · exact absurd rfl (hfree _ (.refl _) _)
      · exact absurd rfl (hfree _ (.refl _) _)

/-- The side without unions stays without them. -/
theorem Descends.unionFree (h : Descends turn want got w g)
    (hfree : UnionFree want ∨ UnionFree got) : UnionFree w ∨ UnionFree g := by
  cases h with
  | arg _ hw hg =>
      exact hfree.imp (·.of_mem_args (List.mem_of_getElem? hw))
        (·.of_mem_args (List.mem_of_getElem? hg))
  | content _ _ =>
      exact hfree.imp (·.of_mem_args List.mem_cons_self) (·.of_mem_args List.mem_cons_self)
  | field hw hg =>
      exact hfree.imp (·.of_mem_fields (NameMap.mem_of_find?_eq_some hw))
        (·.of_mem_fields (NameMap.mem_of_find?_eq_some hg))
  | alternatives hw hg =>
      exact hfree.imp (·.of_mem_args (List.mem_of_getElem? hw))
        (·.of_mem_args (List.mem_of_getElem? hg))

/-- A way on which one of the types has no unions is the same from both sides. -/
theorem Leads.route_swapped (h : Leads route want got w g)
    (hfree : UnionFree want ∨ UnionFree got) : route.swapped = route := by
  induction h with
  | here want got => rfl
  | down hturn _ ih =>
      rw [Route.swapped, List.map_cons, hturn.turn_swapped hfree]
      exact congrArg (_ :: ·) (ih (hturn.unionFree hfree))

/-- Where one side has no unions, routes have no pairs of indices, and the mismatch is
seen at the same place from the other side. -/
theorem MismatchAt.swapped_in_place {m : ArityMismatch} (h : MismatchAt want got route m)
    (hfree : UnionFree want ∨ UnionFree got) : MismatchAt got want route m.swapped := by
  have hswapped := h.swapped
  obtain ⟨hleads, -⟩ := h
  rwa [hleads.route_swapped hfree] at hswapped

/-! ## one end for each way -/

/-- A turn leads to one pair. -/
theorem Descends.unique (h : Descends turn want got w g) (h' : Descends turn want got w' g') :
    w = w' ∧ g = g' := by
  cases h with
  | arg _ hw hg =>
      cases h' with
      | arg _ hw' hg' => exact ⟨Option.some.inj (hw ▸ hw'), Option.some.inj (hg ▸ hg')⟩
  | content _ _ =>
      cases h' with
      | content _ _ => exact ⟨rfl, rfl⟩
  | field hw hg =>
      cases h' with
      | field hw' hg' => exact ⟨Option.some.inj (hw ▸ hw'), Option.some.inj (hg ▸ hg')⟩
  | alternatives hw hg =>
      cases h' with
      | alternatives hw' hg' => exact ⟨Option.some.inj (hw ▸ hw'), Option.some.inj (hg ▸ hg')⟩

/-- A route leads to one pair. -/
theorem Leads.unique (h : Leads route want got w g) (h' : Leads route want got w' g') :
    w = w' ∧ g = g' := by
  induction h with
  | here want got =>
      cases h' with
      | here _ _ => exact ⟨rfl, rfl⟩
  | down hturn _ ih =>
      cases h' with
      | down hturn' hroute' =>
          obtain ⟨rfl, rfl⟩ := hturn.unique hturn'
          exact ih hroute'

/-- A way ends at no more than one mismatch. -/
theorem MismatchAt.unique {m m' : ArityMismatch} (h : MismatchAt want got route m)
    (h' : MismatchAt want got route m') : m = m' := by
  obtain ⟨hleads, -⟩ := h
  obtain ⟨hleads', -⟩ := h'
  obtain ⟨hw, hg⟩ := hleads.unique hleads'
  cases hw
  cases hg
  rfl

end Ty

/-! ## first finds -/

namespace First

variable {P Q : Route → ArityMismatch → Prop} {found found' : Option ArityMismatch}

/-- A search with a first find or without one has returned. -/
theorem returns {result : Search} (h : First P result) : ∃ found, result = .ok found := by
  cases h with
  | none _ => exact ⟨_, rfl⟩
  | some _ _ => exact ⟨_, rfl⟩

/-- A search finds something exactly when there is something. -/
theorem isSome_iff (h : First P (.ok found)) :
    found.isSome = true ↔ ∃ route m, P route m := by
  cases h with
  | none hnone => simp [hnone]
  | some hfound _ => exact ⟨fun _ => ⟨_, _, hfound⟩, fun _ => rfl⟩

/-- The first of the mismatches of `P` is the first of those of `Q`, if these are the
same seen from the other side. -/
theorem swapped (h : First P (.ok found)) (hto : ∀ route m, P route m → Q route m.swapped)
    (hfrom : ∀ route m, Q route m → P route m.swapped) :
    First Q (.ok (found.map ArityMismatch.swapped)) := by
  cases h with
  | none hnone => exact .none fun route m hm => hnone _ _ (hfrom route m hm)
  | some hfound hfirst =>
      exact .some (hto _ _ hfound) fun route' m' hm => hfirst route' _ (hfrom route' m' hm)

/-- A search has only one first find. -/
theorem unique (h : First P (.ok found)) (h' : First P (.ok found'))
    (hends : ∀ route m m', P route m → P route m' → m = m') : found = found' := by
  cases h with
  | none hnone =>
      cases h' with
      | none _ => rfl
      | some hfound' _ => exact absurd hfound' (hnone _ _)
  | some hfound hfirst =>
      cases h' with
      | none hnone' => exact absurd hfound (hnone' _ _)
      | some hfound' hfirst' =>
          rcases hfirst _ _ hfound' with rfl | hlater
          · rw [hends _ _ _ hfound hfound']
          · rcases hfirst' _ _ hfound with rfl | hearlier
            · rw [hends _ _ _ hfound hfound']
            · exact absurd hearlier hlater.asymm

end First

namespace Ty

/-- **Locating from both sides.**  With levels enough for one of the two types the search
returns from either side, and it finds something from one side exactly when it does from
the other.  Unless both types have unions it is the same mismatch, with the numbers of
arguments exchanged. -/
theorem locate_swapped {limits : Limits} {want got : Ty} (hwant : Mapped want)
    (hgot : Mapped got) (hdepth : min want.depth got.depth ≤ limits.maxDepth) :
    ∃ found found', locate limits want got = .ok found ∧ locate limits got want = .ok found' ∧
      (found.isSome = true ↔ found'.isSome = true) ∧
      (UnionFree want ∨ UnionFree got → found' = found.map ArityMismatch.swapped) := by
  have hfirst := locateAt_first limits.maxDepth hwant hdepth
  have hfirst' := locateAt_first limits.maxDepth hgot (Nat.min_comm _ _ ▸ hdepth)
  obtain ⟨found, hfound⟩ := hfirst.returns
  obtain ⟨found', hfound'⟩ := hfirst'.returns
  rw [hfound] at hfirst
  rw [hfound'] at hfirst'
  refine ⟨found, found', hfound, hfound', ?_, fun hfree => ?_⟩
  · rw [hfirst.isSome_iff, hfirst'.isSome_iff]
    exact ⟨fun ⟨_, _, hm⟩ => ⟨_, _, hm.swapped⟩, fun ⟨_, _, hm⟩ => ⟨_, _, hm.swapped⟩⟩
  · have hswapped := hfirst.swapped (Q := MismatchAt got want)
      (fun _ _ hm => hm.swapped_in_place hfree) (fun _ _ hm => hm.swapped_in_place hfree.symm)
    exact hfirst'.unique hswapped fun _ _ _ => MismatchAt.unique

/-- A `Pair` has lost an argument in a field that both records have.  The union beside it
is on one side only. -/
theorem locate_swapped_pair :
    let want : Ty := .struct
      [("a", .generic "map" [.scalar .string, .generic "Pair" [.scalar .int, .named "T"]])]
    let got : Ty := .struct
      [("a", .generic "map" [.union [.scalar .string], .generic "Pair" [.scalar .int]])]
    let found : ArityMismatch :=
      { path := ["map", "Pair"], pathIdx := [1], fieldPath := ["a"], base := "Pair",
        wantArity := 2, gotArity := 1 }
    locate ⟨4⟩ want got = .ok (some found) ∧ locate ⟨4⟩ got want = .ok (some found.swapped) := by
  intro want got found
  have hwant : Mapped want := by
    simp [want, Mapped, everywhere_iff, everywhere_struct_iff, args, NameMap.sorted_cons,
      NameMap.sorted_nil]
  have hgot : Mapped got := by
    simp [got, Mapped, everywhere_iff, everywhere_struct_iff, args, NameMap.sorted_cons,
      NameMap.sorted_nil]
  have hfree : UnionFree want := by
    simp [want, UnionFree, everywhere_iff, everywhere_struct_iff, args]
  have hfound : locate ⟨4⟩ want got = .ok (some found) := rfl
  obtain ⟨first, second, hfirst, hsecond, -, hswapped⟩ :=
    @locate_swapped ⟨4⟩ want got hwant hgot (by decide)
  rw [hfound] at hfirst
  cases hfirst
  rw [hswapped (.inl hfree)] at hsecond
  exact ⟨hfound, hsecond⟩

/-- Where both types have alternatives, each side finds what is first in its own order. -/
example :
    let want : Ty := .union [.generic "Pair" [.scalar .int], .generic "slice" [.scalar .int]]
    let got : Ty := .union [.generic "slice" [], .generic "Pair" []]
    locate ⟨2⟩ want got = .ok (some (here "Pair" 1 0)) ∧
      locate ⟨2⟩ got want = .ok (some (here "slice" 0 1)) :=
  ⟨rfl, rfl⟩

end Ty

end TypeFlow
