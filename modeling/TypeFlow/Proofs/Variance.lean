import Mathlib.Data.List.Forall2
import Mathlib.Logic.Relation
import TypeFlow.Proofs.Flows

/-!
# TypeFlow.Proofs.Variance

Flow is monotone: what flows still does when the declared type is widened and
the actual type narrowed, at any place in them.

A place is given by `InPlace`, so a widening or a narrowing is a chain of rewrites
that each change one part.  What such a rewrite is good for is said by two
relations that do not mention it:

* `Relaxes w w'` — all that flows to `w` flows to `w'`;
* `Refines g g'` — where `g` flows, `g'` flows.

Each form of type hands them on from its parts to itself, and with them
`Widens.relaxes` and `Narrows.refines` follow along the chains.  To put the
alternatives of a union into another order is both to widen and to narrow it, so the
order does not matter on either side (`Flows.reordered`).
-/

namespace TypeFlow

namespace Ty

/-! ## widening and narrowing -/

/-- One part of a type, or the type itself, is rewritten by `step`. -/
inductive InPlace (step : Ty → Ty → Prop) : Ty → Ty → Prop where
  | here {t u : Ty} (h : step t u) : InPlace step t u
  | arg (n : String) (pre post : List Ty) {t u : Ty} (h : InPlace step t u) :
      InPlace step (.generic n (pre ++ t :: post)) (.generic n (pre ++ u :: post))
  | content {t u : Ty} (h : InPlace step t u) : InPlace step (.optional t) (.optional u)
  | alternative (pre post : List Ty) {t u : Ty} (h : InPlace step t u) :
      InPlace step (.union (pre ++ t :: post)) (.union (pre ++ u :: post))
  | field (n : String) (pre post : NameMap Ty) {t u : Ty} (h : InPlace step t u) :
      InPlace step (.struct (pre ++ (n, t) :: post)) (.struct (pre ++ (n, u) :: post))

/-- The ways to ask for less. -/
inductive Widening : Ty → Ty → Prop where
  | optional (t : Ty) : Widening t (.optional t)
  | alternative {t : Ty} {alts : List Ty} (ht : t ∈ alts) : Widening t (.union alts)
  | union {alts alts' : List Ty} (h : alts ⊆ alts') : Widening (.union alts) (.union alts')
  | struct {fields fields' : NameMap Ty} (h : fields'.Sublist fields) :
      Widening (.struct fields) (.struct fields')

/-- The ways to offer more. -/
inductive Narrowing : Ty → Ty → Prop where
  | optional (t : Ty) : Narrowing (.optional t) t
  | alternative {t : Ty} {alts : List Ty} (ht : t ∈ alts) : Narrowing (.union alts) t
  | union {alts alts' : List Ty} (hne : alts' ≠ []) (h : alts' ⊆ alts) :
      Narrowing (.union alts) (.union alts')

/-- `want'` comes from `want` by widening parts of it, one after the other. -/
def Widens : Ty → Ty → Prop := Relation.ReflTransGen (InPlace Widening)

/-- `got'` comes from `got` by narrowing parts of it, one after the other. -/
def Narrows : Ty → Ty → Prop := Relation.ReflTransGen (InPlace Narrowing)

/-! ## proper types -/

/-- The records in a type are maps: no field name stands twice. -/
def Mapped : Ty → Prop := Everywhere fun t => ∀ fields, t = .struct fields → NameMap.Sorted fields

/-- Whatever can be read has maps for its records. -/
theorem Readable.mapped {t : Ty} (h : Readable t) : Mapped t := by
  rintro u hu fields rfl
  cases hu.readable h with
  | struct hsorted _ _ => exact hsorted

/-- A type whose unions have alternatives and whose records are maps. -/
def Proper : Ty → Prop :=
  Everywhere fun t => t ≠ .union [] ∧ ∀ fields, t = .struct fields → NameMap.Sorted fields

/-- A proper type is settled, as it has no empty union. -/
theorem Proper.settled {t : Ty} (h : Proper t) : Settled t :=
  NoEmptyUnion.settled fun u hu => (h u hu).1

/-- A generic is proper when its arguments are. -/
theorem proper_generic_iff {n : String} {args : List Ty} :
    Proper (.generic n args) ↔ ∀ t ∈ args, Proper t := by
  rw [Proper, everywhere_iff (by simp)]
  simp [Ty.args]

/-- An optional is proper when its content is. -/
theorem proper_optional_iff {t : Ty} : Proper (.optional t) ↔ Proper t := by
  rw [Proper, everywhere_iff (by simp)]
  simp [Ty.args]

/-- A union is proper when it has alternatives and they are proper. -/
theorem proper_union_iff {alts : List Ty} :
    Proper (.union alts) ↔ alts ≠ [] ∧ ∀ t ∈ alts, Proper t := by
  rw [Proper, everywhere_iff (by simp)]
  simp [Ty.args]

/-- A record is proper when its fields are in order and proper. -/
theorem proper_struct_iff {fields : NameMap Ty} :
    Proper (.struct fields) ↔ fields.Sorted ∧ ∀ e ∈ fields, Proper e.2 := by
  rw [Proper, everywhere_struct_iff]
  simp

/-- Opening a type keeps it proper. -/
theorem Proper.present {t : Ty} (h : Proper t) : Proper t.present := by
  cases t with
  | optional u => exact proper_optional_iff.mp h
  | _ => exact h

/-- Records flow by their shared fields, equal records included. -/
theorem flows_struct_iff {ws gs : NameMap Ty} (hgs : Proper (.struct gs)) :
    Flows (.struct ws) (.struct gs) ↔
      ∀ e ∈ ws, ∀ g, gs.find? e.1 = some g → Flows e.2 g.present := by
  refine ⟨fun h => ?_, .struct⟩
  rcases h.of_struct with rfl | h
  · intro e he g hfind
    obtain ⟨hsorted, hfields⟩ := proper_struct_iff.mp hgs
    have hsame : some g = some e.2 := hfind.symm.trans (NameMap.find?_eq_some_of_mem hsorted he)
    cases hsame
    exact (hfields e he).settled.present e.2 (.refl e.2)
  · exact h

/-! ## declared types that ask for less -/

/-- All that flows to `w` flows to `w'`. -/
def Relaxes (w w' : Ty) : Prop := ∀ g, Proper g → Flows w g → Flows w' g

theorem Relaxes.refl (w : Ty) : Relaxes w w := fun _ _ h => h

/-- Only the actual types that are no unions need a look. -/
theorem relaxes_of_apart {w w' : Ty} (hw' : ∀ u, w' ≠ .optional u)
    (h : ∀ g, Proper g → (∀ gs, g ≠ .union gs) → Flows w g → Flows w' g) : Relaxes w w' := by
  intro g hg hflow
  induction g using peel with
  | plain g hplain => exact h g hg hplain.2 hflow
  | optional g _ => exact h _ hg (by simp) hflow
  | union gs ih =>
      -- `w'` is not opened first, so it is enough that each alternative flows to it
      obtain ⟨hne, hgs⟩ := proper_union_iff.mp hg
      exact .unionGot hw' hne fun g hmem =>
        ih g hmem (hgs g hmem) (hg.settled.splits w gs rfl hflow g hmem)

/-- An optional may be put around both types. -/
theorem Relaxes.optional {w w' : Ty} (h : Relaxes w w') :
    Relaxes (.optional w) (.optional w') := by
  intro g hg hflow
  rw [flows_optional_iff] at hflow ⊢
  exact h g.present hg.present hflow

/-- A union takes at least as much when every alternative has one that does. -/
theorem relaxes_union {ws ws' : List Ty} (h : ∀ w ∈ ws, ∃ w' ∈ ws', Relaxes w w') :
    Relaxes (.union ws) (.union ws') := by
  refine relaxes_of_apart (by simp) fun g hg hunion hflow => ?_
  rcases hflow.of_union_want hunion with hopen | ⟨w, hw, hflow⟩
  · exact .openGot _ hopen
  · obtain ⟨w', hw', hrelax⟩ := h w hw
    exact .unionWant hunion hw' (hrelax g hg hflow)

/-- A record takes at least as much when each field that it still has does. -/
theorem relaxes_struct {ws ws' : NameMap Ty}
    (h : ∀ e' ∈ ws', ∃ e ∈ ws, e.1 = e'.1 ∧ Relaxes e.2 e'.2) :
    Relaxes (.struct ws) (.struct ws') := by
  refine relaxes_of_apart (by simp) fun g hg hunion hflow => ?_
  have hshape : g.isUnconstrained = true ∨ ∃ gs, g = .struct gs := by
    cases hflow with
    | refl _ => exact .inr ⟨ws, rfl⟩
    | openWant hopen _ => cases hopen
    | openGot _ hopen => exact .inl hopen
    | unionGot _ _ _ => exact absurd rfl (hunion _)
    | struct _ => exact .inr ⟨_, rfl⟩
  rcases hshape with hopen | ⟨gs, rfl⟩
  · exact .openGot _ hopen
  rw [flows_struct_iff hg] at hflow ⊢
  intro e' he' g hfind
  obtain ⟨e, he, hname, hrelax⟩ := h e' he'
  have hproper := (proper_struct_iff.mp hg).2 _ (NameMap.mem_of_find?_eq_some hfind)
  exact hrelax g.present hproper.present (hflow e he g (hname ▸ hfind))

/-- Generics of one name flow argument by argument. -/
theorem flows_generic_iff_forall₂ {n : String} {ws gs : List Ty} :
    Flows (.generic n ws) (.generic n gs) ↔ List.Forall₂ Flows ws gs := by
  rw [flows_generic_iff, List.forall₂_iff_zip]
  simp

/-- A generic takes at least as much when its arguments do, one by one. -/
theorem relaxes_generic {n : String} {ws ws' : List Ty} (h : List.Forall₂ Relaxes ws ws') :
    Relaxes (.generic n ws) (.generic n ws') := by
  refine relaxes_of_apart (by simp) fun g hg hunion hflow => ?_
  have hshape : g.isUnconstrained = true ∨ ∃ gs, g = .generic n gs := by
    cases hflow with
    | refl _ => exact .inr ⟨ws, rfl⟩
    | openWant hopen _ => cases hopen
    | openGot _ hopen => exact .inl hopen
    | unionGot _ _ _ => exact absurd rfl (hunion _)
    | generic _ _ => exact .inr ⟨_, rfl⟩
  rcases hshape with hopen | ⟨gs, rfl⟩
  · exact .openGot _ hopen
  rw [flows_generic_iff_forall₂] at hflow ⊢
  rw [proper_generic_iff] at hg
  clear hunion
  induction h generalizing gs with
  | nil => exact hflow
  | cons hrelax _ ih =>
      cases hflow with
      | cons hw hws =>
          obtain ⟨hg, hgs⟩ := List.forall_mem_cons.mp hg
          exact .cons (hrelax _ hg hw) (ih _ hgs hws)

/-- One rewritten member, and the others as they were. -/
theorem forall₂_append_cons {α : Type} {R : α → α → Prop} (hrefl : ∀ a, R a a) {a b : α}
    (h : R a b) (pre post : List α) :
    List.Forall₂ R (pre ++ a :: post) (pre ++ b :: post) :=
  List.rel_append (List.forall₂_same.mpr fun a _ => hrefl a)
    (.cons h (List.forall₂_same.mpr fun a _ => hrefl a))

/-- With one member rewritten, each member has its counterpart. -/
theorem exists_mem_append_cons {α : Type} {R : α → α → Prop} (hrefl : ∀ a, R a a) {a b : α}
    (h : R a b) (pre post : List α) :
    ∀ x ∈ pre ++ a :: post, ∃ y ∈ pre ++ b :: post, R x y := by
  intro x hx
  rcases List.mem_append.mp hx with hx | hx
  · exact ⟨x, by simp [hx], hrefl x⟩
  rcases List.mem_cons.mp hx with rfl | hx
  · exact ⟨b, by simp, h⟩
  · exact ⟨x, by simp [hx], hrefl x⟩

/-- **Each way of widening a declared type loses nothing.** -/
theorem Widening.relaxes {w w' : Ty} (h : Widening w w') : Relaxes w w' := by
  intro g hg hflow
  cases h with
  | optional _ => exact .optional (hg.settled.present w hflow)
  | alternative hw => exact hg.settled.joins w _ hw hflow
  | union h => exact relaxes_union (fun w hw => ⟨w, h hw, .refl w⟩) g hg hflow
  | struct h => exact relaxes_struct (fun e he => ⟨e, h.subset he, rfl, .refl e.2⟩) g hg hflow

/-- What a rewrite does not lose when it is done to the whole of a declared type, it
does not lose when it is done to a part of one. -/
theorem relaxes_of_inPlace {step : Ty → Ty → Prop} (hstep : ∀ {w w'}, step w w' → Relaxes w w')
    {w w' : Ty} (h : InPlace step w w') : Relaxes w w' := by
  induction h with
  | here h => exact hstep h
  | arg n pre post _ ih => exact relaxes_generic (forall₂_append_cons Relaxes.refl ih pre post)
  | content _ ih => exact ih.optional
  | alternative pre post _ ih =>
      exact relaxes_union (exists_mem_append_cons Relaxes.refl ih pre post)
  | @field n pre post t u _ ih =>
      have hentry : (n, t).1 = (n, u).1 ∧ Relaxes (n, t).2 (n, u).2 := ⟨rfl, ih⟩
      -- a field of the widened record is traced back to the given one
      exact relaxes_struct (exists_mem_append_cons
        (R := fun e' e : String × Ty => e.1 = e'.1 ∧ Relaxes e.2 e'.2)
        (fun e => ⟨rfl, .refl e.2⟩) hentry pre post)

/-- Nothing is lost in any number of steps that lose nothing each. -/
theorem relaxes_of_chain {step : Ty → Ty → Prop} (hstep : ∀ {w w'}, step w w' → Relaxes w w')
    {w w' : Ty} (h : Relation.ReflTransGen (InPlace step) w w') : Relaxes w w' := by
  induction h with
  | refl => exact .refl w
  | tail _ hlast ih => exact fun g hg hflow => relaxes_of_inPlace hstep hlast g hg (ih g hg hflow)

/-- A widened declaration takes all that it took before. -/
theorem Widens.relaxes {w w' : Ty} (h : Widens w w') : Relaxes w w' :=
  relaxes_of_chain Widening.relaxes h

/-! ## actual types that offer more -/

/-- Where `g` flows, `g'` flows. -/
def Refines (g g' : Ty) : Prop := ∀ w, Flows w g → Flows w g'

theorem Refines.refl (g : Ty) : Refines g g := fun _ h => h

/-- An optional declaration opens the actual type, so a refinement is kept when
both types are opened. -/
theorem Refines.present {g g' : Ty} (h : Refines g g') : Refines g.present g'.present :=
  fun w hflow => flows_optional_iff.mp (h (.optional w) (.optional hflow))

/-- Only the declared types that are neither optional nor unions need a look. -/
theorem refines_of_plain {g g' : Ty} (hg : Plain g) (hopen : g.isUnconstrained = false)
    (hg' : Plain g') (h : ∀ w, Plain w → Flows w g → Flows w g') : Refines g g' := by
  intro w hflow
  induction w using peel with
  | plain w hw => exact h w hw hflow
  | optional w ih =>
      rw [flows_optional_iff, hg.present_eq] at hflow
      rw [flows_optional_iff, hg'.present_eq]
      exact ih hflow
  | union ws ih =>
      rcases hflow.of_union_want hg.2 with htrue | ⟨w, hw, hflow⟩
      · rw [hopen] at htrue
        contradiction
      · exact .unionWant hg'.2 hw (ih w hw hflow)

/-- An optional may be put around both types. -/
theorem Refines.optional {g g' : Ty} (h : Refines g g') :
    Refines (.optional g) (.optional g') := by
  intro w hflow
  induction w using peel with
  | plain w hw =>
      cases hflow with
      | refl _ => exact absurd rfl (hw.1 g)
      | openWant hopen _ => exact .openWant hopen _
      | openGot _ hopen => cases hopen
      | optional _ => exact absurd rfl (hw.1 _)
      | unionWant _ _ _ => exact absurd rfl (hw.2 _)
  | optional w _ =>
      rw [flows_optional_iff] at hflow ⊢
      exact h w hflow
  | union ws ih =>
      rcases hflow.of_union_want (by simp) with hopen | ⟨w, hw, hflow⟩
      · cases hopen
      · exact .unionWant (by simp) hw (ih w hw hflow)

/-- A union flows to at least as much when each of its alternatives refines one that was
there. -/
theorem refines_union {gs gs' : List Ty} (hgs : Proper (.union gs)) (hgs' : Proper (.union gs'))
    (h : ∀ g' ∈ gs', ∃ g ∈ gs, Refines g g') : Refines (.union gs) (.union gs') := by
  intro w hflow
  rw [flows_union_iff fun u hu => (hgs u hu).1] at hflow
  rw [flows_union_iff fun u hu => (hgs' u hu).1]
  intro g' hg'
  obtain ⟨g, hg, hrefine⟩ := h g' hg'
  exact hrefine w.bare (hflow g hg)

/-- A record flows to at least as much when each of its fields refines the one that was
there. -/
theorem refines_struct {gs gs' : NameMap Ty} (hgs : Proper (.struct gs))
    (h : ∀ n g', gs'.find? n = some g' → ∃ g, gs.find? n = some g ∧ Refines g g') :
    Refines (.struct gs) (.struct gs') := by
  refine refines_of_plain ⟨by simp, by simp⟩ rfl ⟨by simp, by simp⟩ fun w hw hflow => ?_
  have hshape : w.isUnconstrained = true ∨ ∃ ws, w = .struct ws := by
    cases hflow with
    | refl _ => exact .inr ⟨gs, rfl⟩
    | openWant hopen _ => exact .inl hopen
    | openGot _ hopen => cases hopen
    | optional _ => exact absurd rfl (hw.1 _)
    | unionWant _ _ _ => exact absurd rfl (hw.2 _)
    | struct _ => exact .inr ⟨_, rfl⟩
  rcases hshape with hopen | ⟨ws, rfl⟩
  · exact .openWant hopen _
  rw [flows_struct_iff hgs] at hflow
  refine .struct fun e he g' hfind' => ?_
  obtain ⟨g, hfind, hrefine⟩ := h e.1 g' hfind'
  exact hrefine.present e.2 (hflow e he g hfind)

/-- A generic flows to at least as much when its arguments do, one by one. -/
theorem refines_generic {n : String} {gs gs' : List Ty} (h : List.Forall₂ Refines gs gs') :
    Refines (.generic n gs) (.generic n gs') := by
  refine refines_of_plain ⟨by simp, by simp⟩ rfl ⟨by simp, by simp⟩ fun w hw hflow => ?_
  have hshape : w.isUnconstrained = true ∨ ∃ ws, w = .generic n ws := by
    cases hflow with
    | refl _ => exact .inr ⟨gs, rfl⟩
    | openWant hopen _ => exact .inl hopen
    | openGot _ hopen => cases hopen
    | optional _ => exact absurd rfl (hw.1 _)
    | unionWant _ _ _ => exact absurd rfl (hw.2 _)
    | generic _ _ => exact .inr ⟨_, rfl⟩
  rcases hshape with hopen | ⟨ws, rfl⟩
  · exact .openWant hopen _
  rw [flows_generic_iff_forall₂] at hflow ⊢
  clear hw
  induction h generalizing ws with
  | nil => exact hflow
  | cons hrefine _ ih =>
      cases hflow with
      | cons hg hgs => exact .cons (hrefine _ hg) (ih _ hgs)

/-- A record with the value of one field rewritten: what is found in it. -/
theorem find?_append_cons {pre post : NameMap Ty} {n m : String} {t u v : Ty}
    (h : NameMap.find? (pre ++ (n, u) :: post) m = some v) :
    ∃ v', NameMap.find? (pre ++ (n, t) :: post) m = some v' ∧ (v' = v ∨ v' = t ∧ v = u) := by
  induction pre with
  | nil =>
      by_cases hn : n = m
      · simp only [List.nil_append, NameMap.find?, if_pos hn, Option.some.injEq] at h ⊢
        exact ⟨t, rfl, .inr ⟨rfl, h.symm⟩⟩
      · simp only [List.nil_append, NameMap.find?, if_neg hn] at h ⊢
        exact ⟨v, h, .inl rfl⟩
  | cons e pre ih =>
      by_cases hn : e.1 = m
      · simp only [List.cons_append, NameMap.find?, if_pos hn] at h ⊢
        exact ⟨v, h, .inl rfl⟩
      · simp only [List.cons_append, NameMap.find?, if_neg hn] at h ⊢
        exact ih h

/-- **Each way of narrowing an actual type loses nothing**, and keeps it proper. -/
theorem Narrowing.refines {g g' : Ty} (hg : Proper g) (h : Narrowing g g') :
    Proper g' ∧ Refines g g' := by
  cases h with
  | optional _ => exact ⟨proper_optional_iff.mp hg, hg.settled.present⟩
  | alternative ht =>
      exact ⟨(proper_union_iff.mp hg).2 g' ht, fun w hflow => hg.settled.splits w _ rfl hflow g' ht⟩
  | union hne h =>
      have hg' := proper_union_iff.mpr ⟨hne, fun t ht => (proper_union_iff.mp hg).2 t (h ht)⟩
      exact ⟨hg', refines_union hg hg' fun t ht => ⟨t, h ht, .refl t⟩⟩

/-- With one member replaced, what holds of it and of the others holds of all. -/
theorem forall_mem_append_cons {α : Type} {P : α → Prop} {pre post : List α} {a b : α}
    (h : ∀ x ∈ pre ++ a :: post, P x) (hb : P b) : ∀ x ∈ pre ++ b :: post, P x := by
  simp only [List.forall_mem_append, List.forall_mem_cons] at h ⊢
  exact ⟨h.1, hb, h.2.2⟩

/-- What a rewrite of proper types keeps when it is done to the whole of an actual
type, it keeps when it is done to a part of one. -/
theorem refines_of_inPlace {step : Ty → Ty → Prop}
    (hstep : ∀ {g g'}, Proper g → step g g' → Proper g' ∧ Refines g g') {g g' : Ty}
    (hg : Proper g) (h : InPlace step g g') : Proper g' ∧ Refines g g' := by
  induction h with
  | here h => exact hstep hg h
  | @arg n pre post t u _ ih =>
      have hargs := proper_generic_iff.mp hg
      obtain ⟨hu, hrefine⟩ := ih (hargs t (by simp))
      exact ⟨proper_generic_iff.mpr (forall_mem_append_cons hargs hu),
        refines_generic (forall₂_append_cons Refines.refl hrefine pre post)⟩
  | content _ ih =>
      obtain ⟨hu, hrefine⟩ := ih (proper_optional_iff.mp hg)
      exact ⟨proper_optional_iff.mpr hu, hrefine.optional⟩
  | @alternative pre post t u _ ih =>
      have halts := (proper_union_iff.mp hg).2
      obtain ⟨hu, hrefine⟩ := ih (halts t (by simp))
      have hg' : Proper (.union (pre ++ u :: post)) :=
        proper_union_iff.mpr ⟨by simp, forall_mem_append_cons halts hu⟩
      exact ⟨hg', refines_union hg hg'
        (exists_mem_append_cons (R := fun x y => Refines y x) Refines.refl hrefine pre post)⟩
  | @field n pre post t u _ ih =>
      obtain ⟨hsorted, hfields⟩ := proper_struct_iff.mp hg
      obtain ⟨hu, hrefine⟩ := ih (hfields (n, t) (by simp))
      refine ⟨proper_struct_iff.mpr ⟨?_, forall_mem_append_cons hfields hu⟩,
        refines_struct hg fun m v hfind => ?_⟩
      · simpa [NameMap.Sorted, NameMap.names] using hsorted
      · obtain ⟨v', hfind', rfl | ⟨rfl, rfl⟩⟩ := find?_append_cons (t := t) hfind
        · exact ⟨v', hfind', .refl v'⟩
        · exact ⟨v', hfind', hrefine⟩

/-- Nothing is lost in any number of steps that lose nothing each. -/
theorem refines_of_chain {step : Ty → Ty → Prop}
    (hstep : ∀ {g g'}, Proper g → step g g' → Proper g' ∧ Refines g g') {g g' : Ty}
    (hg : Proper g) (h : Relation.ReflTransGen (InPlace step) g g') :
    Proper g' ∧ Refines g g' := by
  induction h with
  | refl => exact ⟨hg, .refl g⟩
  | tail _ hlast ih =>
      obtain ⟨hproper, hrefine⟩ := refines_of_inPlace hstep ih.1 hlast
      exact ⟨hproper, fun w hflow => hrefine w (ih.2 w hflow)⟩

/-- A narrowed type is proper and flows to all that it flowed to before. -/
theorem Narrows.refines {g g' : Ty} (hg : Proper g) (h : Narrows g g') :
    Proper g' ∧ Refines g g' :=
  refines_of_chain Narrowing.refines hg h

/-! ## monotonicity -/

/-- **Flow is monotone**: once a payload flows, it still flows after the declared
type is widened and the actual one narrowed, as long as there are levels enough
for the two types that result. -/
theorem flows_monotone {limits limits' : Limits} {want want' got got' : Ty}
    (hunions : NoEmptyUnion got) (hrecords : Mapped got)
    (h : flows limits want got = .ok true) (hwant : Widens want want') (hgot : Narrows got got')
    (hdepth : want'.depth + got'.depth ≤ limits'.maxDepth) :
    flows limits' want' got' = .ok true := by
  have hproper : Proper got := fun u hu => ⟨hunions u hu, hrecords u hu⟩
  obtain ⟨hproper', hrefine⟩ := hgot.refines hproper
  have hnarrowed : Flows want got' := hrefine want (flows_of_flowsAt h)
  exact (flows_eq_ok_true_iff hdepth).mpr (hwant.relaxes got' hproper' hnarrowed)

/-- `Foo` of a record with two fields takes `Foo` of either of two records.  Once a
field is no longer asked for and the whole is optional, and once the first record
is chosen and its field known to be there, the payload still flows. -/
theorem flows_monotone_foo :
    flows {} (.optional (.generic "Foo" [.struct [("a", .scalar .int)]]))
        (.generic "Foo" [.struct [("a", .scalar .int)]]) = .ok true := by
  have hunions : NoEmptyUnion (.generic "Foo" [.union [.struct [("a", .optional (.scalar .int))],
      .struct [("c", .scalar .int)]]]) := by
    simp [NoEmptyUnion, everywhere_iff, everywhere_struct_iff, args]
  have hrecords : Mapped (.generic "Foo" [.union [.struct [("a", .optional (.scalar .int))],
      .struct [("c", .scalar .int)]]]) := by
    have hread := @Readable.of_read {}
      "Foo<Union<Struct\x7ba:Optional<int>\x7d,Struct\x7bc:int\x7d>>".toList _ rfl
    exact hread.1.mapped
  have hwant : Widens
      (.generic "Foo" [.struct [("a", .scalar .int), ("b", .scalar .string)]])
      (.optional (.generic "Foo" [.struct [("a", .scalar .int)]])) :=
    .head (.arg "Foo" [] [] (.here (.struct (by decide)))) (.single (.here (.optional _)))
  have hgot : Narrows
      (.generic "Foo" [.union [.struct [("a", .optional (.scalar .int))],
        .struct [("c", .scalar .int)]]])
      (.generic "Foo" [.struct [("a", .scalar .int)]]) :=
    .head (.arg "Foo" [] [] (.here (.alternative List.mem_cons_self)))
      (.single (.arg "Foo" [] [] (.field "a" [] [] (.here (.optional _)))))
  have hflow : flows {}
      (.generic "Foo" [.struct [("a", .scalar .int), ("b", .scalar .string)]])
      (.generic "Foo" [.union [.struct [("a", .optional (.scalar .int))],
        .struct [("c", .scalar .int)]]]) = .ok true := rfl
  exact flows_monotone hunions hrecords hflow hwant hgot (by decide)

/-! ## the order of alternatives -/

/-- The alternatives of a union, in another order. -/
inductive Reordering : Ty → Ty → Prop where
  | union {alts alts' : List Ty} (h : alts.Perm alts') : Reordering (.union alts) (.union alts')

/-- `t'` comes from `t` by reordering unions in it, one after the other. -/
def Reordered : Ty → Ty → Prop := Relation.ReflTransGen (InPlace Reordering)

/-- What has been reordered can be put back. -/
theorem Reordering.symm {t t' : Ty} (h : Reordering t t') : Reordering t' t := by
  cases h with
  | union h => exact .union h.symm

/-- A step back can be taken in place. -/
theorem InPlace.symm {step : Ty → Ty → Prop} (hstep : ∀ {t u}, step t u → step u t) {t u : Ty}
    (h : InPlace step t u) : InPlace step u t := by
  induction h with
  | here h => exact .here (hstep h)
  | arg n pre post _ ih => exact .arg n pre post ih
  | content _ ih => exact .content ih
  | alternative pre post _ ih => exact .alternative pre post ih
  | field n pre post _ ih => exact .field n pre post ih

/-- Any number of reorderings can be put back. -/
theorem Reordered.symm {t t' : Ty} (h : Reordered t t') : Reordered t' t := by
  induction h with
  | refl => exact .refl
  | tail _ hlast ih => exact .head (hlast.symm Reordering.symm) ih

/-- One member may be replaced by one as deep. -/
theorem depthList_append_cons {t u : Ty} (h : t.depth = u.depth) (pre post : List Ty) :
    depthList (pre ++ t :: post) = depthList (pre ++ u :: post) := by
  induction pre with
  | nil => simp only [List.nil_append, depthList, h]
  | cons v pre ih => simp only [List.cons_append, depthList, ih]

/-- One field may be replaced by one as deep. -/
theorem depthFields_append_cons {t u : Ty} (h : t.depth = u.depth) (n : String)
    (pre post : NameMap Ty) :
    depthFields (pre ++ (n, t) :: post) = depthFields (pre ++ (n, u) :: post) := by
  induction pre with
  | nil => simp only [List.nil_append, depthFields, h]
  | cons e pre ih => simp only [List.cons_append, depthFields, ih]

/-- More members are at least as deep. -/
theorem depthList_le_of_subset {ts us : List Ty} (h : ts ⊆ us) : depthList ts ≤ depthList us :=
  depthList_le_iff.mpr fun t ht => depthList_le_iff.mp (Nat.le_refl _) t (h ht)

/-- Reordering changes no depth. -/
theorem Reordering.depth_eq {t t' : Ty} (h : Reordering t t') : t.depth = t'.depth := by
  cases h with
  | union h =>
      have hle := depthList_le_of_subset h.subset
      have hge := depthList_le_of_subset h.symm.subset
      simp only [depth]
      omega

/-- A step that changes no depth changes none in place. -/
theorem InPlace.depth_eq {step : Ty → Ty → Prop} (hstep : ∀ {t u}, step t u → t.depth = u.depth)
    {t u : Ty} (h : InPlace step t u) : t.depth = u.depth := by
  induction h with
  | here h => exact hstep h
  | arg n pre post _ ih => simp only [depth, depthList_append_cons ih]
  | content _ ih => simp only [depth, ih]
  | alternative pre post _ ih => simp only [depth, depthList_append_cons ih]
  | field n pre post _ ih => simp only [depth, depthFields_append_cons ih]

/-- Reordered types have the same depth, so they need the same levels. -/
theorem Reordered.depth_eq {t t' : Ty} (h : Reordered t t') : t.depth = t'.depth := by
  induction h with
  | refl => rfl
  | tail _ hlast ih => exact ih.trans (hlast.depth_eq Reordering.depth_eq)

/-- To reorder a declared union is to widen it. -/
theorem Reordering.relaxes {w w' : Ty} (h : Reordering w w') : Relaxes w w' := by
  cases h with
  | union h => exact (Widening.union h.subset).relaxes

/-- To reorder an actual union is to narrow it. -/
theorem Reordering.refines {g g' : Ty} (hg : Proper g) (h : Reordering g g') :
    Proper g' ∧ Refines g g' := by
  cases h with
  | @union alts alts' h =>
      have hne : alts' ≠ [] := by
        rintro rfl
        exact (proper_union_iff.mp hg).1 h.eq_nil
      exact (Narrowing.union hne h.symm.subset).refines hg

/-- **A flow survives any reordering**, on both sides. -/
theorem Flows.reordered {want want' got got' : Ty} (hgot : Proper got)
    (hwant : Reordered want want') (hgots : Reordered got got') (h : Flows want got) :
    Flows want' got' := by
  obtain ⟨hproper, hrefine⟩ := refines_of_chain Reordering.refines hgot hgots
  exact relaxes_of_chain Reordering.relaxes hwant got' hproper (hrefine want h)

/-- **The order of alternatives does not matter.**  However the unions in the declared
and in the actual type are reordered, the check returns what it returned before, as
long as there are levels enough for both types. -/
theorem flows_reordered {limits : Limits} {want want' got got' : Ty} (hproper : Proper got)
    (hwant : Reordered want want') (hgot : Reordered got got')
    (hdepth : want.depth + got.depth ≤ limits.maxDepth) :
    ∃ b, flows limits want got = .ok b ∧ flows limits want' got' = .ok b := by
  have hproper' : Proper got' := (refines_of_chain Reordering.refines hproper hgot).1
  have hiff : Flows want' got' ↔ Flows want got :=
    ⟨fun h => h.reordered hproper' hwant.symm hgot.symm, fun h => h.reordered hproper hwant hgot⟩
  have hdepth' : want'.depth + got'.depth ≤ limits.maxDepth := by
    rwa [← hwant.depth_eq, ← hgot.depth_eq]
  exact (flows_decides hdepth).agree ((flows_decides hdepth').congr hiff)

/-- A type flows to itself, so it still does when the unions of the declared one are
reordered, inside and out: no part of the two is equal any more. -/
theorem flows_reordered_foo :
    let inner : Ty := .optional (.union [.scalar .string, .named "Bar"])
    let inner' : Ty := .optional (.union [.named "Bar", .scalar .string])
    flows {} (.generic "Foo" [.union [inner', .scalar .int]])
      (.generic "Foo" [.union [.scalar .int, inner]]) = .ok true := by
  intro inner inner'
  have hproper : Proper (.generic "Foo" [.union [.scalar .int, inner]]) := by
    simp [inner, Proper, everywhere_iff, args]
  have hinside : InPlace Reordering (.generic "Foo" [.union [.scalar .int, inner]])
      (.generic "Foo" [.union [.scalar .int, inner']]) :=
    .arg "Foo" [] [] (.alternative [.scalar .int] [] (.content (.here (.union (.swap _ _ [])))))
  have houtside : InPlace Reordering (.generic "Foo" [.union [.scalar .int, inner']])
      (.generic "Foo" [.union [inner', .scalar .int]]) :=
    .arg "Foo" [] [] (.here (.union (.swap _ _ [])))
  have hanswers : ∃ b, flows {} (.generic "Foo" [.union [.scalar .int, inner]])
        (.generic "Foo" [.union [.scalar .int, inner]]) = .ok b ∧
      flows {} (.generic "Foo" [.union [inner', .scalar .int]])
        (.generic "Foo" [.union [.scalar .int, inner]]) = .ok b :=
    flows_reordered hproper (.tail (.single hinside) houtside) .refl (by decide)
  obtain ⟨b, hsame, hb⟩ := hanswers
  rw [hb, ← hsame]
  exact flowsAt_self _ _ _

end Ty

end TypeFlow
