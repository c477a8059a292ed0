import TypeFlow.Arity.Locate
import TypeFlow.Proofs.Search
import TypeFlow.Proofs.Variance

/-!
# TypeFlow.Proofs.Routes

Locating finds the first mismatch.  Two types are gone down in step: by arguments
at the same place, by the contents of optionals, by the fields that records share
and by all pairs of alternatives of unions.  A `Route` lists such steps, outermost
first, and the routes from a pair of types are ordered depth first.

* `MismatchAt` — at the end of a route stand two generics of one name with
  different numbers of arguments, and what is to be reported of them is read off
  the route;
* `First` — a search returns the first of the mismatches there are;
* `First.findSomeM?` — so does a search through a list, when each member has its
  own mismatches and these come in the order of the list;
* `locateAt_first` — with levels enough for one of the types, locating does.
-/

namespace TypeFlow

open ArityMismatch

/-! ## routes -/

/-- A step down from two types to a part of each. -/
inductive Turn where
  | arg (base : String) (index : Nat)
  | content
  | field (name : String)
  | alternatives (want got : Nat)
  deriving DecidableEq

namespace Turn

/-- The generic whose arguments are gone into. -/
def base? : Turn → Option String
  | arg base _ => some base
  | _ => none

/-- The argument that is taken. -/
def index? : Turn → Option Nat
  | arg _ index => some index
  | _ => none

/-- The field that is crossed. -/
def field? : Turn → Option String
  | field name => some name
  | _ => none

/-- Of two steps from the same types, the first is tried before the second:
arguments by place, fields by name, alternatives by the place of the declared one
and then of the actual one. -/
inductive Before : Turn → Turn → Prop where
  | arg {base base' : String} {i j : Nat} (h : i < j) : Before (arg base i) (arg base' j)
  | field {m n : String} (h : m < n) : Before (field m) (field n)
  | wantAlternative {i i' : Nat} (h : i < i') (j j' : Nat) :
      Before (alternatives i j) (alternatives i' j')
  | gotAlternative (i : Nat) {j j' : Nat} (h : j < j') :
      Before (alternatives i j) (alternatives i j')

/-- Of two turns at most one comes before the other. -/
theorem Before.asymm {a b : Turn} (h : Before a b) : ¬ Before b a := by
  cases h with
  | arg h => rintro (h' | _); omega
  | field h => rintro (_ | h'); exact String.lt_asymm h h'
  | wantAlternative h _ _ => rintro (_ | _ | h' | h') <;> omega
  | gotAlternative _ h => rintro (_ | _ | h' | h') <;> omega

/-- A mismatch seen from above the step. -/
def outside : Turn → ArityMismatch → ArityMismatch
  | arg base index => inArg base index
  | content => id
  | field name => inField name
  | alternatives _ _ => id

end Turn

/-- Steps down from two types, the outermost first. -/
abbrev Route := List Turn

namespace Route

/-- The depth-first order of routes. -/
def Earlier (route route' : Route) : Prop := List.Lex Turn.Before route route'

/-- Of two routes at most one is earlier than the other. -/
theorem Earlier.asymm {route route' : Route} (h : Earlier route route') : ¬ Earlier route' route :=
  List.lex_asymm (fun h => h.asymm) h

/-- What is reported of the generic `base` at the end of a route: the generics
gone into and then `base` itself, the arguments taken and the fields crossed. -/
def mismatch (route : Route) (base : String) (wantArity gotArity : Nat) : ArityMismatch where
  path := route.filterMap Turn.base? ++ [base]
  pathIdx := route.filterMap Turn.index?
  fieldPath := route.filterMap Turn.field?
  base := base
  wantArity := wantArity
  gotArity := gotArity

/-- A mismatch is told from outside turn by turn. -/
theorem mismatch_cons (turn : Turn) (route : Route) (base : String) (wantArity gotArity : Nat) :
    mismatch (turn :: route) base wantArity gotArity =
      turn.outside (mismatch route base wantArity gotArity) := by
  cases turn <;> rfl

/-- On every route as many arguments are taken as generics are gone into. -/
theorem length_indices (route : Route) :
    (route.filterMap Turn.index?).length = (route.filterMap Turn.base?).length := by
  induction route with
  | nil => rfl
  | cons turn route ih =>
      cases turn with
      | arg base index => exact congrArg (· + 1) ih
      | _ => exact ih

end Route

/-! ## mismatches -/

namespace Ty

/-- The step leads from `want` and `got` to their parts `w` and `g`. -/
inductive Descends : Turn → Ty → Ty → Ty → Ty → Prop where
  | arg {n : String} {ws gs : List Ty} (hlength : ws.length = gs.length) {i : Nat} {w g : Ty}
      (hw : ws[i]? = some w) (hg : gs[i]? = some g) :
      Descends (.arg n i) (.generic n ws) (.generic n gs) w g
  | content (w g : Ty) : Descends .content (.optional w) (.optional g) w g
  | field {ws gs : NameMap Ty} {n : String} {w g : Ty} (hw : ws.find? n = some w)
      (hg : gs.find? n = some g) : Descends (.field n) (.struct ws) (.struct gs) w g
  | alternatives {ws gs : List Ty} {i j : Nat} {w g : Ty} (hw : ws[i]? = some w)
      (hg : gs[j]? = some g) : Descends (.alternatives i j) (.union ws) (.union gs) w g

/-- The route leads from `want` and `got` to their parts `w` and `g`. -/
inductive Leads : Route → Ty → Ty → Ty → Ty → Prop where
  | here (want got : Ty) : Leads [] want got want got
  | down {turn : Turn} {route : Route} {want got w g w' g' : Ty}
      (hturn : Descends turn want got w g) (hroute : Leads route w g w' g') :
      Leads (turn :: route) want got w' g'

/-- The route leads from `want` and `got` to two generics of one name with
different numbers of arguments, which is what `m` reports. -/
inductive MismatchAt (want got : Ty) (route : Route) : ArityMismatch → Prop where
  | intro {n : String} {ws gs : List Ty}
      (hleads : Leads route want got (.generic n ws) (.generic n gs))
      (hlength : ws.length ≠ gs.length) :
      MismatchAt want got route (route.mismatch n ws.length gs.length)

/-- The mismatches `P` below a step, seen from above it. -/
inductive Below (turn : Turn) (P : Route → ArityMismatch → Prop) : Route → ArityMismatch → Prop where
  | intro {route : Route} {m : ArityMismatch} (h : P route m) :
      Below turn P (turn :: route) (turn.outside m)

/-- What is below an earlier step comes first. -/
theorem Below.earlier {turn turn' : Turn} (hbefore : turn.Before turn')
    {P P' : Route → ArityMismatch → Prop} {route route' : Route} {m m' : ArityMismatch}
    (h : Below turn P route m) (h' : Below turn' P' route' m') : Route.Earlier route route' := by
  obtain ⟨-⟩ := h
  obtain ⟨-⟩ := h'
  exact .rel hbefore

/-- A mismatch behind a turn is one of the whole types. -/
theorem mismatchAt_of_below {turn : Turn} {want got w g : Ty} {route : Route} {m : ArityMismatch}
    (hturn : Descends turn want got w g) (h : Below turn (MismatchAt w g) route m) :
    MismatchAt want got route m := by
  obtain ⟨h⟩ := h
  obtain ⟨hleads, hlength⟩ := h
  rw [← Route.mismatch_cons]
  exact .intro (.down hturn hleads) hlength

/-- A mismatch is at the types themselves or below a step from them. -/
theorem MismatchAt.here_or_below {want got : Ty} {route : Route} {m : ArityMismatch}
    (h : MismatchAt want got route m) :
    (∃ n ws gs, want = .generic n ws ∧ got = .generic n gs ∧ ws.length ≠ gs.length ∧
        route = [] ∧ m = here n ws.length gs.length) ∨
      ∃ turn w g, Descends turn want got w g ∧ Below turn (MismatchAt w g) route m := by
  obtain ⟨hleads, hlength⟩ := h
  cases hleads with
  | here _ _ => exact .inl ⟨_, _, _, rfl, rfl, hlength, rfl, rfl⟩
  | down hturn hroute =>
      rw [Route.mismatch_cons]
      exact .inr ⟨_, _, _, hturn, .intro (.intro hroute hlength)⟩

/-- Where no arity is at odds here, all mismatches lie behind a turn. -/
theorem mismatchAt_iff_below {want got : Ty} {route : Route} {m : ArityMismatch}
    (hhere : ∀ n ws gs, want = .generic n ws → got = .generic n gs → ws.length = gs.length) :
    MismatchAt want got route m ↔
      ∃ turn w g, Descends turn want got w g ∧ Below turn (MismatchAt w g) route m := by
  constructor
  · intro h
    refine h.here_or_below.resolve_left ?_
    rintro ⟨n, ws, gs, hwant, hgot, hlength, -⟩
    exact hlength (hhere n ws gs hwant hgot)
  · rintro ⟨turn, w, g, hturn, hbelow⟩
    exact mismatchAt_of_below hturn hbelow

/-- Alternatives that are not compared have no mismatch below them. -/
theorem not_mismatchAt_of_sameKind {w g : Ty} (h : sameKind w g = false) (route : Route)
    (m : ArityMismatch) : ¬ MismatchAt w g route m := by
  intro hm
  rcases hm.here_or_below with ⟨n, ws, gs, rfl, rfl, -⟩ | ⟨turn, w', g', hturn, -⟩
  · simp [sameKind] at h
  · cases hturn <;> simp [sameKind] at h

end Ty

/-! ## first finds -/

/-- The search returns the first of the mismatches `P`: its route is earlier than
all others.  If there are none, it returns none. -/
inductive First (P : Route → ArityMismatch → Prop) : Search → Prop where
  | none (h : ∀ route m, ¬ P route m) : First P (.ok none)
  | some {route : Route} {m : ArityMismatch} (h : P route m)
      (hfirst : ∀ route' m', P route' m' → route' = route ∨ Route.Earlier route route') :
      First P (.ok (some m))

namespace First

variable {α : Type} {P Q : Route → ArityMismatch → Prop} {result : Search}

/-- Only which mismatches there are matters. -/
theorem congr (h : First P result) (hiff : ∀ route m, P route m ↔ Q route m) : First Q result := by
  have heq : P = Q := funext fun route => funext fun m => propext (hiff route m)
  rwa [← heq]

/-- The first mismatch behind a turn, told from outside, is the first one that lies
behind this turn. -/
theorem below (h : First P result) (turn : Turn) :
    First (Ty.Below turn P) (do return (← result).map turn.outside) := by
  cases h with
  | none h =>
      refine .none fun route m hm => ?_
      obtain ⟨hm⟩ := hm
      exact h _ _ hm
  | some h hfirst =>
      refine .some (.intro h) fun route' m' hm => ?_
      obtain ⟨hm⟩ := hm
      exact (hfirst _ _ hm).imp (congrArg (turn :: ·)) List.Lex.cons

/-- A step that leaves no trace in the report. -/
theorem below_unseen (h : First P result) (turn : Turn) (hturn : turn.outside = id) :
    First (Ty.Below turn P) result := by
  have hbelow := h.below turn
  rw [hturn] at hbelow
  simpa using hbelow

/-- **A search through a list** returns the first of all mismatches, when each
member has its own and those of earlier members come before those of later ones. -/
theorem findSomeM? {P : α → Route → ArityMismatch → Prop} {f : α → Search} {xs : List α}
    (h : ∀ x ∈ xs, First (P x) (f x))
    (horder : xs.Pairwise fun x y => ∀ route m route' m', P x route m → P y route' m' →
      Route.Earlier route route') :
    First (fun route m => ∃ x ∈ xs, P x route m) (xs.findSomeM? f) := by
  induction xs with
  | nil => exact .none (by simp)
  | cons x xs ih =>
      obtain ⟨hx, hxs⟩ := List.forall_mem_cons.mp h
      obtain ⟨hbefore, horder⟩ := List.pairwise_cons.mp horder
      rw [List.findSomeM?_cons]
      generalize f x = found at hx
      cases hx with
      | none hnone =>
          refine (ih hxs horder).congr fun route m => ?_
          simp [hnone]
      | some hfound hfirst =>
          refine .some ⟨x, List.mem_cons_self, hfound⟩ ?_
          rintro route' m' ⟨y, hy, hm⟩
          rcases List.mem_cons.mp hy with rfl | hy
          · exact hfirst _ _ hm
          · exact .inr (hbefore y hy _ _ _ _ hfound hm)

end First

/-! ## the parts of two types -/

theorem findSomeM?_zipIdx {α β ε : Type} (f : α → Except ε (Option β)) (xs : List α) :
    xs.findSomeM? f = xs.zipIdx.findSomeM? fun p => f p.1 := by
  rw [← findSomeM?_map Prod.fst, List.zipIdx_map_fst]

theorem pairwise_zipIdx {α : Type} (xs : List α) : xs.zipIdx.Pairwise fun p q => p.2 < q.2 := by
  rw [← List.pairwise_map, List.zipIdx_map_snd]
  exact List.pairwise_lt_range'

namespace Ty

variable {search : Ty → Ty → Search}

/-- Generics give their own arity first, and else that of the first argument that has
one. -/
theorem first_generic {n m : String} {ws gs : List Ty}
    (h : ∀ w ∈ ws, ∀ g ∈ gs, First (MismatchAt w g) (search w g)) :
    First (MismatchAt (.generic n ws) (.generic m gs)) (amongGenerics search n ws m gs) := by
  unfold amongGenerics
  split
  · next hname =>
    refine .none fun route found hm => ?_
    rcases hm.here_or_below with ⟨_, _, _, hw, hg, -⟩ | ⟨_, _, _, hturn, -⟩
    · cases hw
      cases hg
      exact hname rfl
    · cases hturn
      exact hname rfl
  next hname =>
  rw [Decidable.not_not] at hname
  subst hname
  split
  · next hlength =>
    refine .some (.intro (.here _ _) hlength) fun route' m' hm => ?_
    rcases hm.here_or_below with ⟨_, _, _, _, _, _, hroute, _⟩ | ⟨_, _, _, hturn, -⟩
    · exact .inl hroute
    · cases hturn with
      | arg hequal _ _ => exact absurd hequal hlength
  next hlength =>
  rw [Decidable.not_not] at hlength
  have hargs : First (fun route found => ∃ p ∈ (ws.zip gs).zipIdx,
      Below (.arg n p.2) (MismatchAt p.1.1 p.1.2) route found) (amongArgs search n ws gs) := by
    refine First.findSomeM? ?_ ?_
    · rintro ⟨⟨w, g⟩, i⟩ hp
      obtain ⟨hw, hg⟩ := List.of_mem_zip (List.fst_mem_of_mem_zipIdx hp)
      exact (h w hw g hg).below (.arg n i)
    · exact (pairwise_zipIdx _).imp fun hlt _ _ _ _ => Below.earlier (.arg hlt)
  have hhere : ∀ k ws' gs', Ty.generic n ws = .generic k ws' → Ty.generic n gs = .generic k gs' →
      ws'.length = gs'.length := by
    rintro k ws' gs' ⟨⟩ ⟨⟩
    exact hlength
  refine hargs.congr fun route found => ?_
  rw [mismatchAt_iff_below hhere]
  constructor
  · rintro ⟨⟨⟨w, g⟩, i⟩, hp, hbelow⟩
    obtain ⟨hw, hg⟩ := List.getElem?_zip_eq_some.mp (List.mem_zipIdx_iff_getElem?.mp hp)
    exact ⟨_, w, g, .arg hlength hw hg, hbelow⟩
  · rintro ⟨_, w, g, hturn, hbelow⟩
    cases hturn with
    | @arg _ _ _ _ i _ _ hw hg =>
        have hp : (ws.zip gs)[i]? = some (w, g) := List.getElem?_zip_eq_some.mpr ⟨hw, hg⟩
        exact ⟨((w, g), i), List.mem_zipIdx_iff_getElem?.mpr hp, hbelow⟩

/-- An optional gives what its content gives. -/
theorem first_optional {w g : Ty} {result : Search} (h : First (MismatchAt w g) result) :
    First (MismatchAt (.optional w) (.optional g)) result := by
  refine (h.below_unseen .content rfl).congr fun route m => ?_
  rw [mismatchAt_iff_below (by simp)]
  constructor
  · exact fun hbelow => ⟨_, w, g, .content w g, hbelow⟩
  · rintro ⟨_, _, _, ⟨⟩, hbelow⟩
    exact hbelow

/-- Records give what the first shared field gives, in the order of names. -/
theorem first_struct {ws gs : NameMap Ty} (hsorted : ws.Sorted)
    (h : ∀ e ∈ ws, ∀ g, gs.find? e.1 = some g → First (MismatchAt e.2 g) (search e.2 g)) :
    First (MismatchAt (.struct ws) (.struct gs)) (amongFields search ws gs) := by
  have hfields : First (fun route m => ∃ e ∈ ws, ∃ g, gs.find? e.1 = some g ∧
      Below (.field e.1) (MismatchAt e.2 g) route m) (amongFields search ws gs) := by
    refine First.findSomeM? (fun e he => ?_) ?_
    · cases hfind : gs.find? e.1 with
      | none => exact .none (by simp)
      | some g =>
          refine ((h e he g hfind).below (.field e.1)).congr fun route m => ?_
          simp
    · refine (List.pairwise_map.mp hsorted).imp fun hlt route m route' m' hm hm' => ?_
      obtain ⟨_, _, hbelow⟩ := hm
      obtain ⟨_, _, hbelow'⟩ := hm'
      exact hbelow.earlier (.field hlt) hbelow'
  refine hfields.congr fun route m => ?_
  rw [mismatchAt_iff_below (by simp)]
  constructor
  · rintro ⟨⟨n, w⟩, he, g, hg, hbelow⟩
    exact ⟨_, w, g, .field (NameMap.find?_eq_some_of_mem hsorted he) hg, hbelow⟩
  · rintro ⟨_, w, g, hturn, hbelow⟩
    cases hturn with
    | field hw hg => exact ⟨(_, w), NameMap.mem_of_find?_eq_some hw, g, hg, hbelow⟩

/-- Unions give what the first pair of alternatives gives, in the order of both. -/
theorem first_union {ws gs : List Ty} (h : ∀ w ∈ ws, ∀ g ∈ gs, First (MismatchAt w g) (search w g)) :
    First (MismatchAt (.union ws) (.union gs)) (amongAlts search sameKind ws gs) := by
  -- the alternatives of other kinds, which the search passes over, have nothing to be found
  have hpair : ∀ w ∈ ws, ∀ g ∈ gs,
      First (MismatchAt w g) (if sameKind w g then search w g else .ok none) := by
    intro w hw g hg
    split
    · exact h w hw g hg
    · next hkind => exact .none (not_mismatchAt_of_sameKind (Bool.not_eq_true _ ▸ hkind))
  have hpairs : First (fun route m => ∃ p ∈ ws.zipIdx, ∃ q ∈ gs.zipIdx,
      Below (.alternatives p.2 q.2) (MismatchAt p.1 q.1) route m)
      (amongAlts search sameKind ws gs) := by
    unfold amongAlts
    rw [findSomeM?_zipIdx]
    refine First.findSomeM? (fun p hp => ?_) ?_
    · rw [findSomeM?_zipIdx]
      refine First.findSomeM? (fun q hq => ?_) ?_
      · exact (hpair p.1 (List.fst_mem_of_mem_zipIdx hp) q.1
          (List.fst_mem_of_mem_zipIdx hq)).below_unseen _ rfl
      · exact (pairwise_zipIdx _).imp fun hlt _ _ _ _ => Below.earlier (.gotAlternative _ hlt)
    · refine (pairwise_zipIdx _).imp fun hlt route m route' m' hm hm' => ?_
      obtain ⟨_, _, hbelow⟩ := hm
      obtain ⟨_, _, hbelow'⟩ := hm'
      exact hbelow.earlier (.wantAlternative hlt _ _) hbelow'
  refine hpairs.congr fun route m => ?_
  rw [mismatchAt_iff_below (by simp)]
  constructor
  · rintro ⟨⟨w, i⟩, hp, ⟨g, j⟩, hq, hbelow⟩
    exact ⟨_, w, g, .alternatives (List.mem_zipIdx_iff_getElem?.mp hp)
      (List.mem_zipIdx_iff_getElem?.mp hq), hbelow⟩
  · rintro ⟨_, w, g, hturn, hbelow⟩
    cases hturn with
    | alternatives hw hg =>
        exact ⟨(w, _), List.mem_zipIdx_iff_getElem?.mpr hw, (g, _),
          List.mem_zipIdx_iff_getElem?.mpr hg, hbelow⟩

/-! ## locating -/

/-- **Locating finds the first mismatch**, with levels enough for one of the two
types. -/
theorem locateAt_first (limit : Nat) {budget : Nat} {want got : Ty} (hmapped : Mapped want)
    (hdepth : min want.depth got.depth ≤ budget) :
    First (MismatchAt want got) (locateAt limit budget want got) := by
  induction budget generalizing want got with
  | zero =>
      have hwant := want.depth_pos
      have hgot := got.depth_pos
      omega
  | succ budget ih =>
      unfold locateAt
      split
      · next n ws m gs =>
        obtain ⟨-, hargs⟩ := (everywhere_iff (by simp)).mp hmapped
        refine first_generic fun w hw g hg => ih (hargs w hw) ?_
        have hwlt : w.depth < (Ty.generic n ws).depth := depth_lt_of_mem_args hw
        have hglt : g.depth < (Ty.generic m gs).depth := depth_lt_of_mem_args hg
        omega
      · next w g =>
        obtain ⟨-, hargs⟩ := (everywhere_iff (by simp)).mp hmapped
        refine first_optional (ih (hargs w List.mem_cons_self) ?_)
        rw [depth, depth] at hdepth
        omega
      · next ws gs =>
        obtain ⟨hsorted, hfields⟩ := everywhere_struct_iff.mp hmapped
        refine first_struct (hsorted ws rfl) fun e he g hg => ih (hfields e he) ?_
        have hwlt := depth_lt_of_mem_fields he
        have hglt := depth_lt_of_mem_fields (NameMap.mem_of_find?_eq_some hg)
        simp only at hglt
        omega
      · next ws gs =>
        obtain ⟨-, halts⟩ := (everywhere_iff (by simp)).mp hmapped
        refine first_union fun w hw g hg => ih (halts w hw) ?_
        have hwlt : w.depth < (Ty.union ws).depth := depth_lt_of_mem_args hw
        have hglt : g.depth < (Ty.union gs).depth := depth_lt_of_mem_args hg
        omega
      · next hgeneric hoptional hstruct hunion =>
        -- types of different forms have no parts that correspond
        refine .none fun route m hm => ?_
        rcases hm.here_or_below with ⟨n, ws, gs, hwant, hgot, -⟩ | ⟨turn, w, g, hturn, -⟩
        · exact hgeneric n ws n gs hwant hgot
        · cases hturn with
          | arg _ _ _ => exact hgeneric _ _ _ _ rfl rfl
          | content _ _ => exact hoptional _ _ rfl rfl
          | field _ _ => exact hstruct _ _ rfl rfl
          | alternatives _ _ => exact hunion _ _ rfl rfl

/-- A mismatch is one: its two arities differ. -/
theorem MismatchAt.arity_ne {want got : Ty} {route : Route} {m : ArityMismatch}
    (h : MismatchAt want got route m) : m.wantArity ≠ m.gotArity := by
  obtain ⟨-, hlength⟩ := h
  exact hlength

/-- The way to a mismatch names one generic more than it takes arguments, as the last
one is where it ends. -/
theorem MismatchAt.length_path {want got : Ty} {route : Route} {m : ArityMismatch}
    (h : MismatchAt want got route m) : m.path.length = m.pathIdx.length + 1 := by
  obtain ⟨-, -⟩ := h
  simp [Route.mismatch, Route.length_indices]

/-- **Locating is sound, complete and reports the first mismatch.**  With levels
enough for one of the two types it returns, and it returns none exactly when all
generics of one name that a route leads to have as many arguments.  What it
returns otherwise is the report on the mismatch at the end of a route; no other
mismatch is at the end of an earlier one. -/
theorem locate_first_mismatch {limits : Limits} {want got : Ty} (hmapped : Mapped want)
    (hdepth : min want.depth got.depth ≤ limits.maxDepth) :
    (∃ found, locate limits want got = .ok found) ∧
      (locate limits want got = .ok none ↔
        ∀ route n ws gs, Leads route want got (.generic n ws) (.generic n gs) →
          ws.length = gs.length) ∧
      ∀ m, locate limits want got = .ok (some m) →
        m.wantArity ≠ m.gotArity ∧ m.path.length = m.pathIdx.length + 1 ∧
        ∃ route, MismatchAt want got route m ∧
          ∀ route' m', MismatchAt want got route' m' →
            ¬ Route.Earlier route' route ∧ (route' = route ∨ Route.Earlier route route') := by
  have hfirst := locateAt_first limits.maxDepth hmapped hdepth
  rw [locate]
  generalize locateAt limits.maxDepth limits.maxDepth want got = result at hfirst
  cases hfirst with
  | none hnone =>
      refine ⟨⟨none, rfl⟩, ⟨fun _ route n ws gs hleads => ?_, fun _ => rfl⟩, nofun⟩
      exact Decidable.byContradiction fun hlength => hnone route _ (.intro hleads hlength)
  | @some route found hfound hfirst =>
      have hnone : ¬ ∀ route n ws gs, Leads route want got (.generic n ws) (.generic n gs) →
          ws.length = gs.length := by
        obtain ⟨hleads, hlength⟩ := hfound
        exact fun hall => hlength (hall _ _ _ _ hleads)
      refine ⟨⟨_, rfl⟩, ⟨nofun, fun hall => absurd hall hnone⟩, ?_⟩
      rintro m ⟨⟩
      refine ⟨hfound.arity_ne, hfound.length_path, route, hfound, fun route' m' hm => ?_⟩
      have hlater := hfirst route' m' hm
      refine ⟨fun hearlier => ?_, hlater⟩
      rcases hlater with rfl | hlater
      · exact hearlier.asymm hearlier
      · exact hearlier.asymm hlater

/-- In both fields a `Pair` has lost an argument, and in the first there are two
alternatives that it may be compared in.  The one inside `slice` is reported,
since the declared type has it in its first alternative. -/
theorem locate_first_mismatch_pair :
    let pair : Ty := .generic "Pair" [.scalar .int, .named "T"]
    let single : Ty := .generic "Pair" [.optional (.optional (.scalar .int))]
    let want : Ty := .struct [("a", .union [.generic "slice" [pair], pair]), ("b", pair)]
    let got : Ty :=
      .struct [("a", .union [single, .generic "slice" [single]]), ("b", single), ("c", single)]
    let found : ArityMismatch :=
      { path := ["slice", "Pair"], pathIdx := [0], fieldPath := ["a"], base := "Pair",
        wantArity := 2, gotArity := 1 }
    locate ⟨5⟩ want got = .ok (some found) ∧
      ∃ route, MismatchAt want got route found ∧
        ∀ route' m', MismatchAt want got route' m' → ¬ Route.Earlier route' route := by
  intro pair single want got found
  have hread := @Readable.of_read ⟨5⟩
    "Struct\x7ba:Union<slice<Pair<int,T>>,Pair<int,T>>,b:Pair<int,T>\x7d".toList want rfl
  have hfound : locate ⟨5⟩ want got = .ok (some found) := rfl
  obtain ⟨-, -, hfirst⟩ :=
    @locate_first_mismatch ⟨5⟩ want got hread.1.mapped (by decide)
  obtain ⟨-, -, route, hroute, hearliest⟩ := hfirst found hfound
  exact ⟨hfound, route, hroute, fun route' m' hm => (hearliest route' m' hm).1⟩

end Ty

end TypeFlow
