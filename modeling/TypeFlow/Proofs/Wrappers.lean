import TypeFlow.Proofs.Boundaries
import TypeFlow.Proofs.Comparison
import TypeFlow.Proofs.Deepening
import TypeFlow.Proofs.Matching
import TypeFlow.Proofs.Spelling

/-!
# TypeFlow.Proofs.Wrappers

Variables that a return leaves open do not depend on what the two types are wrapped in.  A
`Layer` is a name around one argument or a record around one field; a text with a hole in
it is a `Context` of layers, with blanks wherever they may stand.

* `Layer.locateAt_wrap`, `Layer.outcome_unifyAt_wrap` — one layer takes one level, and hands
  on what is found and what is bound inside of it;
* `Return.leftOpen_wrap` — so the variables that are left open are the same;
* `Return.filter_check` — what a return reports about them, wildcards included;
* `Return.uninferred_in_context` — the same under any context.
-/

namespace TypeFlow

open ArityMismatch

/-! ## layers -/

/-- One level around a type. -/
inductive Layer where
  | optional
  | union
  | generic (base : String)
  | record (name : String)
  deriving DecidableEq, Repr

namespace Layer

/-- The layer that a name makes with one argument. -/
def ofName (base : String) : Layer :=
  if base = "Optional" then .optional else if base = "Union" then .union else .generic base

/-- The layer around a type. -/
def wrap : Layer → Ty → Ty
  | .optional, t => .optional t
  | .union, t => .union [t]
  | .generic base, t => .generic base [t]
  | .record name, t => .struct [(name, t)]

/-- A mismatch inside of the layer, seen from outside of it. -/
def outside : Layer → ArityMismatch → ArityMismatch
  | .optional, m => m
  | .union, m => m
  | .generic base, m => m.inArg base 0
  | .record name, m => m.inField name

/-- A layer is what its base makes of one argument. -/
theorem applied_wrap (base : String) (t : Ty) : Ty.Applied base [t] ((ofName base).wrap t) := by
  unfold ofName
  by_cases ho : base = "Optional"
  · rw [if_pos ho, ho]
    exact .optional t
  rw [if_neg ho]
  by_cases hu : base = "Union"
  · rw [if_pos hu, hu]
    exact .union (by simp)
  · rw [if_neg hu]
    exact .generic ho hu

/-- A layer is one level. -/
theorem depth_wrap (layer : Layer) (t : Ty) : (layer.wrap t).depth = t.depth + 1 := by
  cases layer <;> simp [wrap, Ty.depth, Ty.depthList, Ty.depthFields, Nat.add_comm]

end Layer

namespace Ty

/-- Alternatives that are not compared have no mismatch to find. -/
theorem locateAt_of_not_sameKind (limit budget : Nat) {t u : Ty} (h : sameKind t u = false) :
    locateAt limit (budget + 1) t u = .ok none := by
  unfold locateAt
  split
  · next n _ m _ =>
    have hne : n ≠ m := by simpa [sameKind] using h
    rw [amongGenerics, if_pos hne]
  · cases h
  · cases h
  · cases h
  · rfl

/-- One pair is unified as it would be by itself. -/
theorem outcome_unifyPairs_singleton (limit budget : Nat) (t u : Ty) (s : Subst) :
    (unifyPairs limit budget [(t, u)] s).outcome = (unifyAt limit budget t u s).outcome := by
  rw [unifyPairs, Run.each, Run.outcome_andThen]
  cases (unifyAt limit budget t u s).outcome <;> rfl

/-- No type variable is the wildcard. -/
theorem not_isWildcard_of_isVar {t : Ty} (h : t.isVar = true) : t.isWildcard = false := by
  rw [← Bool.not_eq_true]
  intro hwild
  rw [eq_of_isWildcard hwild] at h
  revert h
  decide

end Ty

namespace Layer

/-- What is located inside of a layer is located through it, one level further out. -/
theorem locateAt_wrap (layer : Layer) (limit budget : Nat) (t u : Ty) :
    Ty.locateAt limit (budget + 2) (layer.wrap t) (layer.wrap u) =
      (Ty.locateAt limit (budget + 1) t u).map (Option.map layer.outside) := by
  have hsame : ∀ x : Search, x.map (Option.map fun m => m) = x := by
    intro x
    cases x with
    | error e => rfl
    | ok found => cases found <;> rfl
  cases layer with
  | optional => exact (hsame _).symm
  | union =>
      refine Eq.trans ?_ (hsame _).symm
      rw [wrap, wrap, Ty.locateAt, amongAlts, findSomeM?_singleton, findSomeM?_singleton]
      by_cases hkind : Ty.sameKind t u = true
      · rw [if_pos hkind]
      · rw [if_neg hkind, Ty.locateAt_of_not_sameKind limit budget (Bool.not_eq_true _ ▸ hkind)]
  | generic base =>
      rw [wrap, wrap, Ty.locateAt, amongGenerics, if_neg (by simp), if_neg (by simp)]
      exact findSomeM?_singleton _ ((t, u), 0)
  | record name =>
      rw [wrap, wrap, Ty.locateAt, amongFields, findSomeM?_singleton, NameMap.find?_cons_self]
      rfl

/-- What is unified inside of a layer is unified through it. -/
theorem outcome_unifyAt_wrap (layer : Layer) (limit budget : Nat) (t u : Ty) (s : Subst) :
    (Ty.unifyAt limit (budget + 1) (layer.wrap t) (layer.wrap u) s).outcome =
      (Ty.unifyAt limit budget t u s).outcome := by
  refine Eq.trans ?_ (Ty.outcome_unifyPairs_singleton limit budget t u s)
  cases layer with
  | record name => exact Ty.unifyAt_struct (by rfl) s
  | _ =>
      refine Ty.unifyAt_parts ?_ ?_ ?_ ?_ ?_ ?_ s
      all_goals simp [wrap, Ty.isVar, Ty.isWildcard, Ty.head, Ty.arity, Ty.args, Ty.sameHead]

end Layer

/-! ## variables that are left open -/

namespace Return

/-- The variables that a return leaves open between two types, where nothing else is wrong. -/
def leftOpen (limits : Limits) (t u : Ty) : List String :=
  match Ty.locate limits t u, (t.unify limits u []).outcome with
  | .ok none, .ok s => uninferred s
  | _, _ => []

/-- **A layer hides no variable and adds none**, if there is a level for it. -/
theorem leftOpen_wrap (layer : Layer) {limits : Limits} {t : Ty}
    (h : t.depth + 1 ≤ limits.maxDepth) (u : Ty) :
    leftOpen limits (layer.wrap t) (layer.wrap u) = leftOpen limits t u := by
  obtain ⟨budget, hbudget⟩ : ∃ budget, limits.maxDepth = budget + 2 :=
    Nat.exists_eq_add_of_le' (Nat.le_trans (Nat.succ_le_succ t.depth_pos) h)
  have hdepth : t.depth ≤ budget + 1 := by omega
  have hle : budget + 1 ≤ limits.maxDepth := by omega
  have hlocate : Ty.locate limits t u = Ty.locateAt limits.maxDepth (budget + 1) t u := by
    obtain ⟨found, hfound⟩ := Ty.exists_locateAt limits.maxDepth hdepth u
    rw [hfound]
    exact (Ty.locateAt_kept limits.maxDepth limits.maxDepth hle t u).ok hfound
  have hunify : t.unify limits u [] = Ty.unifyAt limits.maxDepth (budget + 1) t u [] := by
    obtain ⟨limit, herror⟩ | hsame :=
      Ty.unifyAt_kept limits.maxDepth limits.maxDepth hle t u []
    · exact absurd herror (Ty.answered_unifyAt limits.maxDepth hdepth u [] _)
    · exact hsame.symm
  unfold leftOpen
  rw [hlocate, hunify, Ty.locate, Ty.unify, hbudget, layer.locateAt_wrap,
    layer.outcome_unifyAt_wrap]
  cases Ty.locateAt (budget + 2) (budget + 1) t u with
  | error e => rfl
  | ok found => cases found <;> rfl

/-- Nothing is left open where one of the types is open itself. -/
theorem leftOpen_of_isWildcard (limits : Limits) {t u : Ty}
    (h : (t.isWildcard || u.isWildcard) = true) : leftOpen limits t u = [] := by
  have hunify : ∀ s, (t.unify limits u []).outcome = .ok s → uninferred s = [] := by
    intro s hs
    unfold Ty.unify at hs
    cases hdepth : limits.maxDepth with
    | zero =>
        rw [hdepth] at hs
        cases hs
    | succ budget =>
        rw [hdepth] at hs
        unfold Ty.unifyAt at hs
        by_cases hvar : t.isVar = true
        · -- the variable is bound, but to the wildcard
          rw [if_pos hvar] at hs
          cases hs
          have hu : u.isWildcard = true := by
            rw [Ty.not_isWildcard_of_isVar hvar, Bool.false_or] at h
            exact h
          rw [Ty.eq_of_isWildcard hu]
          rfl
        · rw [if_neg hvar, if_pos h] at hs
          cases hs
          rfl
  unfold leftOpen
  split
  · next s _ hs => exact hunify s hs
  · rfl

/-- What a return reports about one value of a plain type. -/
theorem filter_check {limits : Limits} {want got : Site} {t u : Ty}
    (hw : Ty.read limits want.ty = .ok t) (hg : Ty.read limits got.ty = .ok u)
    (position : Option Position) :
    (check limits { declared := [want], returned := [got], position }).filter
        (·.category == .typeUninferred) =
      match leftOpen limits t u with
      | [] => []
      | v :: vs => [(uninferredDiagnostic 0 (v :: vs)).placed (got.position <|> position)] := by
  obtain ⟨hwtext, hwdepth⟩ := Ty.read_eq_ok_iff.mp hw
  obtain ⟨hgtext, -⟩ := Ty.read_eq_ok_iff.mp hg
  rw [check_pair, checkAt]
  by_cases hskip : (want.isWildcard || got.isAny) = true
  · have hwild := Site.isWildcard_of_skipped hskip
    rw [hwtext.isWildcard_eq, hgtext.isWildcard_eq] at hwild
    rw [if_pos hskip, leftOpen_of_isWildcard limits hwild]
    rfl
  rw [if_neg hskip]
  have hlocate : Text.locate? limits want.ty got.ty = (Ty.locate limits t u).place? := by
    rw [Text.locate?, Text.locate, hw, hg]
  have hunify : Text.unify limits want.ty got.ty [] = (t.unify limits u []).outcome := by
    rw [Text.unify, TyRef.readToUnify, TyRef.readToUnify, TyRef.read_of_ty_read hw,
      TyRef.read_of_ty_read hg]
    rfl
  unfold valueDiagnostic? leftOpen
  rw [hlocate, hunify]
  obtain ⟨found, hfound⟩ := Ty.exists_locateAt limits.maxDepth hwdepth u
  rw [Ty.locate, hfound]
  cases found with
  | some m =>
      have hcategory : (Diagnostic.ofArity want.ty got.ty m).category = .genericArityMismatch := rfl
      cases (t.unify limits u []).outcome <;> simp [Search.place?, hcategory]
  | none =>
      cases (t.unify limits u []).outcome with
      | error e =>
          cases hcompatible : Text.isCompatible limits want.ty got.ty <;>
            simp [Search.place?, mismatchDiagnostic, Diagnostic.withTypes]
      | ok s =>
          cases hopen : uninferred s <;> simp [Search.place?, hopen, uninferredDiagnostic]

end Return

/-! ## contexts -/

namespace Text

/-- A text with a hole in it: layers around the hole, the outermost first, each written with
blanks wherever they may stand. -/
inductive Context : List Layer → (Text → Text) → Prop where
  | hole : Context [] fun s => s
  | blanks {layers : List Layer} {C : Text → Text} {pre post : Text} (hpre : pre.Blank)
      (hpost : post.Blank) (h : Context layers C) : Context layers fun s => pre ++ C s ++ post
  | generic {layers : List Layer} {C : Text → Text} {base : String} {pad : Text}
      (hbase : Text.isName base.toList = true) (hpad : pad.Blank) (h : Context layers C) :
      Context (.ofName base :: layers) fun s => base.toList ++ pad ++ angled [C s]
  | record {layers : List Layer} {C : Text → Text} {pad pre post : Text} {name : String}
      (hname : Text.isName name.toList = true) (hpad : pad.Blank) (hpre : pre.Blank)
      (hpost : post.Blank) (h : Context layers C) :
      Context (.record name :: layers) fun s =>
        Ty.structWord ++ pad ++ braced [Shape.FieldText.chars ⟨pre, name, post, C s⟩]

/-- A context puts its layers around the type of the text in its hole. -/
theorem Context.derives {layers : List Layer} {C : Text → Text} (h : Context layers C) {s : Text}
    {t : Ty} (hs : Ty.Derives s t) : Ty.Derives (C s) (layers.foldr Layer.wrap t) := by
  induction h with
  | hole => exact hs
  | blanks hpre hpost _ ih => exact .padded hpre hpost ih
  | @generic layers C base pad hbase hpad _ ih =>
      let inner := layers.foldr Layer.wrap t
      have hargs : ∀ a ∈ [(C s, inner)], Ty.Derives a.1 a.2 := by
        intro a ha
        rw [List.mem_singleton.mp ha]
        exact ih
      exact .generic hbase hpad (by simp) hargs (Layer.applied_wrap base inner)
  | @record layers C pad pre post name hname hpad hpre hpost _ ih =>
      let f : Shape.FieldText × Ty := (⟨pre, name, post, C s⟩, layers.foldr Layer.wrap t)
      have hlabel : f.1.Labelled := ⟨hpre, hname, hpost⟩
      exact @Ty.Derives.record pad [f] [(name, f.2)] hpad (by simp) (by simpa using hlabel)
        (by simp) (by simpa using ih) (NameMap.sorted_cons.mpr ⟨by simp, NameMap.sorted_nil⟩)
        (List.Perm.refl _)

end Text

/-- Layers add their number to the depth. -/
theorem Layer.depth_foldr_wrap (layers : List Layer) (t : Ty) :
    (layers.foldr wrap t).depth = layers.length + t.depth := by
  induction layers with
  | nil => simp
  | cons layer layers ih =>
      rw [List.foldr_cons, depth_wrap, ih, List.length_cons]
      omega

namespace Return

/-- **What is left open does not depend on the layers around both types**, one layer
after the other. -/
theorem leftOpen_foldr_wrap {layers : List Layer} {limits : Limits} {t : Ty}
    (h : layers.length + t.depth ≤ limits.maxDepth) (u : Ty) :
    leftOpen limits (layers.foldr Layer.wrap t) (layers.foldr Layer.wrap u) =
      leftOpen limits t u := by
  induction layers with
  | nil => rfl
  | cons layer layers ih =>
      rw [List.length_cons] at h
      have hdepth : (layers.foldr Layer.wrap t).depth + 1 ≤ limits.maxDepth := by
        rw [Layer.depth_foldr_wrap]
        omega
      rw [List.foldr_cons, List.foldr_cons, leftOpen_wrap layer hdepth]
      exact ih (by omega)

/-- **What is left open does not depend on the wrapper.**  Two plain types may be put into any
context of optionals, unions of one alternative, records of one field and generics of one
argument, as long as the limit leaves room for its layers: what a return reports about
variables that are not inferred is the same, in every part, as without the context. -/
theorem uninferred_in_context (limits : Limits) (want got : Site) (position : Option Position)
    (layers : List Layer) (C : Text → Text) (t u : Ty) (hC : Text.Context layers C)
    (hw : Ty.read limits want.ty = .ok t) (hg : Ty.read limits got.ty = .ok u)
    (hwroom : layers.length + t.depth ≤ limits.maxDepth)
    (hgroom : layers.length + u.depth ≤ limits.maxDepth) :
    let reports (w g : Site) :=
      (check limits { declared := [w], returned := [g], position }).filter
        (·.category == .typeUninferred)
    reports { want with ty := C want.ty } { got with ty := C got.ty } = reports want got := by
  intro reports
  have hread : ∀ {s : Text} {v : Ty}, Ty.read limits s = .ok v →
      layers.length + v.depth ≤ limits.maxDepth →
      Ty.read limits (C s) = .ok (layers.foldr Layer.wrap v) := by
    intro s v hs hroom
    rw [Ty.read_eq_ok_iff, Layer.depth_foldr_wrap]
    exact ⟨hC.derives (Ty.read_eq_ok_iff.mp hs).1, hroom⟩
  have hwrapped : reports { want with ty := C want.ty } { got with ty := C got.ty } = _ :=
    filter_check (hread hw hwroom) (hread hg hgroom) position
  rw [leftOpen_foldr_wrap hwroom] at hwrapped
  exact hwrapped.trans (filter_check hw hg position).symm

/-- A pair that leaves `A` and `T` open, and the same pair in a union in an optional in
a record that is written with blanks: what is left open is reported once, in the same
words. -/
theorem uninferred_in_context_record :
    let want := "Pair<T,A>".toList
    let got := "Pair<U,B>".toList
    let C (s : Text) := "Struct \x7b v:Optional<Union<".toList ++ s ++ ">>\x7d".toList
    let reports (w g : Text) :=
      (check ⟨5⟩ { declared := [{ ty := w }], returned := [{ ty := g }] }).filter
        (·.category == .typeUninferred)
    reports want got = [uninferredDiagnostic 0 ["A", "T"]] ∧
      reports (C want) (C got) = [uninferredDiagnostic 0 ["A", "T"]] := by
  intro want got C reports
  let inUnion (s : Text) := "Union".toList ++ [] ++ Text.angled [s]
  let inOptional (s : Text) := "Optional".toList ++ [] ++ Text.angled [inUnion s]
  let written (s : Text) :=
    Ty.structWord ++ [' '] ++ Text.braced [Shape.FieldText.chars ⟨[' '], "v", [], inOptional s⟩]
  have hC : Text.Context [.record "v", .ofName "Optional", .ofName "Union"] written :=
    .record (by decide +kernel) (by decide +kernel) (by decide +kernel) Text.blank_nil
      (.generic Ty.isName_optionalWord Text.blank_nil
        (.generic Ty.isName_unionWord Text.blank_nil .hole))
  have hCwant : C want = written want := by decide +kernel
  have hCgot : C got = written got := by decide +kernel
  let t : Ty := .generic "Pair" [.named "T", .named "A"]
  let u : Ty := .generic "Pair" [.named "U", .named "B"]
  have hw : Ty.read ⟨5⟩ want = .ok t := rfl
  have hg : Ty.read ⟨5⟩ got = .ok u := rfl
  have hopen : leftOpen ⟨5⟩ t u = ["A", "T"] := by decide +kernel
  have hplain : reports want got = [uninferredDiagnostic 0 ["A", "T"]] := by
    have hcheck : reports want got = _ :=
      @filter_check ⟨5⟩ { ty := want } { ty := got } t u hw hg none
    rw [hcheck, hopen]
    rfl
  have hwrapped : reports (written want) (written got) = reports want got :=
    uninferred_in_context ⟨5⟩ { ty := want } { ty := got } none _ written t u hC hw hg
      (by decide +kernel) (by decide +kernel)
  rw [hCwant, hCgot]
  exact ⟨hplain, hwrapped.trans hplain⟩

end Return

end TypeFlow
