import TypeFlow.Boundary.Assignment
import TypeFlow.Boundary.Call
import TypeFlow.Proofs.Unification
import TypeFlow.Proofs.Walks

/-!
# TypeFlow.Proofs.Rejection

When a located arity mismatch means that the two types are refused.  Locating
compares every alternative of a union with all alternatives of its kind of the
other, wherever these stand, while compatibility and unification compare types
part by part.  So a mismatch may be found in a pair that is accepted, but then it
comes from alternatives at different places:

* `Finds` — what one level of a search that finds something has done;
* `Compared` — what one level of the comparison of two texts has done;
* `Crossed` — below two texts, a mismatch between alternatives that stand at
  different places of two unions;
* `Hereditary` — a relation between texts that passes from types to their
  corresponding parts; compatibility and unification are such
  (`hereditary_compatible`, `hereditary_unifies`);
* `Hereditary.crossed` — where such a relation holds, what is located is crossed.
-/

namespace TypeFlow

open ArityMismatch

namespace Text

/-! ## texts with parts -/

/-- The text of a generic or a record. -/
def HasParts (text : Text) : Prop := ∃ shape, Shape.scan text = .ok shape ∧ ∀ n, shape ≠ .atom n

/-- A generic has parts, even if they are none in number. -/
theorem hasParts_of_generic {text : Text} {base : String} {args : List Text}
    (h : Shape.scan text = .ok (.generic base args)) : text.HasParts :=
  ⟨_, h, by simp⟩

/-- A record has parts. -/
theorem hasParts_of_struct {text : Text} {fields : List (String × Text)}
    (h : Shape.scan text = .ok (.struct fields)) : text.HasParts :=
  ⟨_, h, by simp⟩

/-- A text with parts starts with a name and has a bracket behind it. -/
theorem HasParts.exists_mark {text : Text} (h : text.HasParts) :
    ∃ c s d, text.trim = c :: s ∧ c ∉ markChars ∧ d ∈ s ∧ d ∈ markChars := by
  obtain ⟨shape, hscan, hshape⟩ := h
  have hfront : ∀ {n pad rest : Text} (m : Char), n.isName = true → m ∈ markChars →
      ∃ c s d, n ++ pad ++ m :: rest = c :: s ∧ c ∉ markChars ∧ d ∈ s ∧ d ∈ markChars := by
    intro n pad rest m hn hm
    obtain ⟨c, n, rfl⟩ := List.exists_cons_of_ne_nil (ne_nil_of_isName hn)
    exact ⟨c, n ++ pad ++ m :: rest, m, rfl, not_mem_markChars_of_isName hn c List.mem_cons_self,
      by simp, hm⟩
  have houtline := Shape.scan_eq_ok_iff.mp hscan
  generalize text.trim = s at houtline
  cases houtline with
  | atom _ => exact absurd rfl (hshape _)
  | bare hbase _ _ => exact hfront '<' hbase (by decide)
  | generic hbase _ _ _ => exact hfront '<' hbase (by decide)
  | bareRecord _ _ => exact hfront '\x7b' Shape.isName_structWord (by decide)
  | record _ _ _ _ _ => exact hfront '\x7b' Shape.isName_structWord (by decide)

/-- A text with parts is neither a type variable nor the wildcard. -/
theorem HasParts.absorbs_eq_false {text : Text} (h : text.HasParts) : text.absorbs = false := by
  obtain ⟨c, s, m, htrim, -, hm, hmark⟩ := h.exists_mark
  have hvar : isVar (c :: s) = false := by
    cases s with
    | nil => exact absurd hm List.not_mem_nil
    | cons d s => rfl
  have hany : c :: s ≠ wildcard := by
    intro heq
    cases heq
    have hplain : ∀ m ∈ ['n', 'y'], m ∉ markChars := by simp [markChars]
    exact hplain m hm hmark
  simp [absorbs, isWildcard, htrim, hvar, hany]

/-- A text with parts is read without modifiers. -/
theorem HasParts.exists_read {text : Text} (h : text.HasParts) {limits : Limits} {r : TyRef}
    (hread : TyRef.readToUnify limits text = .ok r) :
    ∃ t, Ty.read limits text = .ok t ∧ r = .plain t := by
  obtain ⟨c, s, -, htrim, hc, -, -⟩ := h.exists_mark
  have hstar : c ≠ '*' := fun heq => hc (by rw [heq]; decide)
  have hsquare : c ≠ '[' := fun heq => hc (by rw [heq]; decide)
  unfold TyRef.readToUnify TyRef.read at hread
  rw [htrim, TyRef.modifier_of_ne hstar] at hread
  simp only at hread
  rw [TyRef.modifier_of_ne hsquare, ← htrim, Ty.read_trim] at hread
  cases ht : Ty.read limits text with
  | error e =>
      rw [ht] at hread
      cases hread
  | ok t =>
      rw [ht] at hread
      cases hread
      exact ⟨t, rfl, rfl⟩

/-! ## finds -/

/-- What a level of locating that finds something has done, when `found` says that
something is found between two parts. -/
inductive Finds (found : Text → Text → Prop) (want got : Text) : Prop where
  | count {base : String} {ws gs : List Text} (hw : Shape.scan want = .ok (.generic base ws))
      (hg : Shape.scan got = .ok (.generic base gs)) (hlength : ws.length ≠ gs.length)
  | arg {base : String} {ws gs : List Text} (hw : Shape.scan want = .ok (.generic base ws))
      (hg : Shape.scan got = .ok (.generic base gs)) {p : Text × Text} (hp : p ∈ ws.zip gs)
      (h : found p.1 p.2)
  | alternative {ws gs : List Text} (hw : Shape.scan want = .ok (.generic "Union" ws))
      (hg : Shape.scan got = .ok (.generic "Union" gs)) {a b : Text} (ha : a ∈ ws) (hb : b ∈ gs)
      (hkind : sameKind a b = true) (h : found a b)
  | field {ws gs : List (String × Text)} (hw : Shape.scan want = .ok (.struct ws))
      (hg : Shape.scan got = .ok (.struct gs)) {n : String} {a b : Text} (ha : (n, a) ∈ ws)
      (hb : (n, b) ∈ gs) (h : found a b)

/-- **One level of locating that finds something**, told by where it has found it. -/
theorem finds_of_locateByShapeAt {limit budget : Nat} {want got : Text} {m : ArityMismatch}
    (h : locateByShapeAt limit (budget + 1) want got = .ok (some m)) :
    Finds (fun a b => ∃ m, locateByShapeAt limit budget a b = .ok (some m)) want got := by
  have hgenerics : ∀ {w g : String} {ws gs : List Text}, Shape.scan want = .ok (.generic w ws) →
      Shape.scan got = .ok (.generic g gs) →
      amongGenerics (locateByShapeAt limit budget) w ws g gs = .ok (some m) →
      Finds (fun a b => ∃ m, locateByShapeAt limit budget a b = .ok (some m)) want got := by
    intro w g ws gs hw hg hfound
    obtain ⟨rfl, hlength | ⟨p, hp, hpart⟩⟩ := found_amongGenerics hfound
    · exact .count hw hg hlength
    · exact .arg hw hg hp hpart
  unfold locateByShapeAt at h
  split at h
  · next ws gs hw hg =>
    obtain ⟨e, he, b, hfind, hpart⟩ := found_amongFields h
    exact .field hw hg (NameMap.mem_of_mem_ofList he) (NameMap.mem_of_find?_eq_some hfind) hpart
  · next w ws g gs hw hg =>
    split at h
    · next hunion =>
      obtain ⟨rfl, rfl⟩ := hunion
      obtain ⟨a, ha, b, hb, hkind, hpart⟩ := found_amongAlts h
      exact .alternative hw hg ha hb hkind ⟨m, hpart⟩
    · split at h
      · next a b =>
        split at h
        · next hoptional =>
          obtain ⟨rfl, rfl⟩ := hoptional
          exact .arg hw hg List.mem_cons_self ⟨m, h⟩
        · exact hgenerics hw hg h
      · exact hgenerics hw hg h
  · cases h

/-- Something is only found between texts that have parts. -/
theorem Finds.hasParts {found : Text → Text → Prop} {want got : Text} (h : Finds found want got) :
    want.HasParts ∧ got.HasParts := by
  cases h with
  | count hw hg _ => exact ⟨hasParts_of_generic hw, hasParts_of_generic hg⟩
  | arg hw hg _ _ => exact ⟨hasParts_of_generic hw, hasParts_of_generic hg⟩
  | alternative hw hg _ _ _ _ => exact ⟨hasParts_of_generic hw, hasParts_of_generic hg⟩
  | field hw hg _ _ _ => exact ⟨hasParts_of_struct hw, hasParts_of_struct hg⟩

/-- With some number of levels, an arity mismatch is found between the texts. -/
def Located (want got : Text) : Prop :=
  ∃ limit budget m, locateByShapeAt limit budget want got = .ok (some m)

/-- A mismatch is only located between texts that have parts. -/
theorem Located.hasParts {want got : Text} (h : Located want got) :
    want.HasParts ∧ got.HasParts := by
  obtain ⟨limit, budget, m, h⟩ := h
  cases budget with
  | zero => cases h
  | succ budget => exact (finds_of_locateByShapeAt h).hasParts

/-- What is reported as located has been found on some level. -/
theorem located_of_locate? {limits : Limits} {want got : Text} {m : ArityMismatch}
    (h : locate? limits want got = some m) : Located want got := by
  refine ⟨limits.maxDepth, limits.maxDepth, m, ?_⟩
  rw [locate?, locate_eq_locateByShape, locateByShape] at h
  cases hfound : locateByShapeAt limits.maxDepth limits.maxDepth want got with
  | error e =>
      rw [hfound] at h
      cases h
  | ok found =>
      rw [hfound] at h
      exact congrArg Except.ok h

/-! ## crossed alternatives -/

/-- Somewhere below two texts, on a way through arguments at the same place and
fields of the same name, there are two unions with alternatives at different
places between which a mismatch is located. -/
inductive Crossed : Text → Text → Prop where
  | here {want got : Text} {ws gs : List Text} (hw : Shape.scan want = .ok (.generic "Union" ws))
      (hg : Shape.scan got = .ok (.generic "Union" gs)) {i j : Nat} (hne : i ≠ j) {a b : Text}
      (ha : ws[i]? = some a) (hb : gs[j]? = some b) (hkind : sameKind a b = true)
      (h : Located a b) : Crossed want got
  | arg {want got : Text} {base : String} {ws gs : List Text}
      (hw : Shape.scan want = .ok (.generic base ws)) (hg : Shape.scan got = .ok (.generic base gs))
      {p : Text × Text} (hp : p ∈ ws.zip gs) (h : Crossed p.1 p.2) : Crossed want got
  | field {want got : Text} {ws gs : List (String × Text)} (hw : Shape.scan want = .ok (.struct ws))
      (hg : Shape.scan got = .ok (.struct gs)) {n : String} {a b : Text} (ha : (n, a) ∈ ws)
      (hb : (n, b) ∈ gs) (h : Crossed a b) : Crossed want got

/-- Alternatives are not crossed where there are none. -/
theorem not_crossed_of_atom {want got : Text} {n : String}
    (h : Shape.scan want = .ok (.atom n)) : ¬ Crossed want got := by
  intro hcrossed
  cases hcrossed with
  | here hw _ _ _ _ _ _ => rw [h] at hw; cases hw
  | arg hw _ _ _ => rw [h] at hw; cases hw
  | field hw _ _ _ _ => rw [h] at hw; cases hw

/-- Generics cross nothing themselves unless they are unions with alternatives of
one kind at different places. -/
theorem not_crossed_of_args {want got : Text} {base base' : String} {ws gs : List Text}
    (hw : Shape.scan want = .ok (.generic base ws)) (hg : Shape.scan got = .ok (.generic base' gs))
    (hkinds : base = "Union" → ∀ p ∈ ws.zipIdx, ∀ q ∈ gs.zipIdx, p.2 ≠ q.2 →
      sameKind p.1 q.1 = false)
    (hargs : ∀ p ∈ ws.zip gs, ¬ Crossed p.1 p.2) : ¬ Crossed want got := by
  intro hcrossed
  cases hcrossed with
  | @here _ _ _ _ hw' hg' i j hne a b ha hb hkind _ =>
      rw [hw] at hw'
      rw [hg] at hg'
      cases hw'
      cases hg'
      have ha' : (a, i) ∈ ws.zipIdx := List.mem_zipIdx_iff_getElem?.mpr ha
      have hb' : (b, j) ∈ gs.zipIdx := List.mem_zipIdx_iff_getElem?.mpr hb
      have hfalse := hkinds rfl (a, i) ha' (b, j) hb' hne
      rw [hkind] at hfalse
      cases hfalse
  | arg hw' hg' hp h =>
      rw [hw] at hw'
      rw [hg] at hg'
      cases hw'
      cases hg'
      exact hargs _ hp h
  | field hw' _ _ _ _ =>
      rw [hw] at hw'
      cases hw'

/-- A relation between texts that passes on to the parts that stand at the same
place: generics of one name have as many arguments, related one by one, and so
have records the fields that they share. -/
structure Hereditary (R : Text → Text → Prop) : Prop where
  args : ∀ {want got : Text} {base : String} {ws gs : List Text}, R want got →
    Shape.scan want = .ok (.generic base ws) → Shape.scan got = .ok (.generic base gs) →
    ws.length = gs.length ∧ ∀ p ∈ ws.zip gs, R p.1 p.2
  fields : ∀ {want got : Text} {ws gs : List (String × Text)}, R want got →
    Shape.scan want = .ok (.struct ws) → Shape.scan got = .ok (.struct gs) →
    ∀ n a b, (n, a) ∈ ws → (n, b) ∈ gs → R a b

/-- **What is located between related texts is crossed.**  On the way to the
mismatch each level is related to the next, until two alternatives at different
places are compared; there is no other way, since a level whose numbers of
arguments differ is not related. -/
theorem Hereditary.crossed {R : Text → Text → Prop} (hR : Hereditary R) {want got : Text}
    (hrelated : R want got) (h : Located want got) : Crossed want got := by
  obtain ⟨limit, budget, m, h⟩ := h
  induction budget generalizing want got m with
  | zero => cases h
  | succ budget ih =>
      cases finds_of_locateByShapeAt h with
      | count hw hg hlength => exact absurd (hR.args hrelated hw hg).1 hlength
      | arg hw hg hp hpart =>
          obtain ⟨m', hpart⟩ := hpart
          exact .arg hw hg hp (ih ((hR.args hrelated hw hg).2 _ hp) m' hpart)
      | @alternative ws gs hw hg a b ha hb hkind hpart =>
          obtain ⟨m', hpart⟩ := hpart
          obtain ⟨i, hi⟩ := List.mem_iff_getElem?.mp ha
          obtain ⟨j, hj⟩ := List.mem_iff_getElem?.mp hb
          -- alternatives at one place are parts like any other
          by_cases hij : i = j
          · have hp : (a, b) ∈ ws.zip gs :=
              List.mem_of_getElem? (List.getElem?_zip_eq_some.mpr ⟨hi, hij ▸ hj⟩)
            exact .arg hw hg hp (ih ((hR.args hrelated hw hg).2 _ hp) m' hpart)
          · exact .here hw hg hij hi hj hkind ⟨limit, budget, m', hpart⟩
      | field hw hg ha hb hpart =>
          obtain ⟨m', hpart⟩ := hpart
          exact .field hw hg ha hb (ih (hR.fields hrelated hw hg _ _ _ ha hb) m' hpart)

/-! ## compatible texts -/

/-- One of the texts is open, or comparing them with some number of levels finds
them compatible. -/
def Compatible (want got : Text) : Prop :=
  want.absorbs = true ∨ got.absorbs = true ∨
    ∃ limit budget, compatibleAt limit budget want got = .ok true

/-- The same text agrees with itself, with one level. -/
theorem compatibleAt_of_trim_eq {want got : Text} (h : want.trim = got.trim) (limit budget : Nat) :
    compatibleAt limit (budget + 1) want got = .ok true := by
  unfold compatibleAt
  by_cases hopen : (want.isWildcard || got.isWildcard) = true
  · rw [if_pos hopen]
  · rw [if_neg hopen, if_pos h]

/-- Every text is compatible with itself. -/
theorem Compatible.refl (text : Text) : Compatible text text :=
  .inr (.inr ⟨1, 1, compatibleAt_of_trim_eq rfl 1 0⟩)

/-- The wildcard agrees with every other text. -/
theorem absorbs_of_isWildcard {text : Text} (h : text.isWildcard = true) : text.absorbs = true := by
  rw [absorbs, h, Bool.or_true]

/-- The entries of two maps agree when their keys and their values do. -/
theorem entries_eq_ok_true_iff {keys values : Except ReadError Bool} :
    (do if ← keys then values else .ok false : Except ReadError Bool) = .ok true ↔
      keys = .ok true ∧ values = .ok true := by
  rcases keys with e | _ | _ <;> simp [bind, Except.bind]

/-- What a level of the comparison does with two texts, when `compare` compares
their parts: which rule it takes, and what it then returns. -/
inductive Compared (compare : Text → Text → Except ReadError Bool) (want got : Text) :
    Except ReadError Bool → Prop where
  | wildcard (h : want.isWildcard = true ∨ got.isWildcard = true) :
      Compared compare want got (.ok true)
  | same (h : want.trim = got.trim) : Compared compare want got (.ok true)
  | unscanned {e : ReadError} (h : Shape.scan want = .error e ∨ Shape.scan got = .error e) :
      Compared compare want got (.error e)
  | absorbed {base : String} (hbase : base ∈ covariant) {a b : Text}
      (hw : Shape.scan want = .ok (.generic base [a])) (hg : Shape.scan got = .ok (.generic base [b]))
      (h : a.absorbs = true ∨ b.absorbs = true) : Compared compare want got (.ok true)
  | argument {base : String} (hbase : base ∈ covariant) {a b : Text}
      (hw : Shape.scan want = .ok (.generic base [a]))
      (hg : Shape.scan got = .ok (.generic base [b])) : Compared compare want got (compare a b)
  | entries {key value key' value' : Text}
      (hw : Shape.scan want = .ok (.generic "map" [key, value]))
      (hg : Shape.scan got = .ok (.generic "map" [key', value'])) :
      Compared compare want got (do
        if ← compare key key' then compare value value' else .ok false)
  | apart : Compared compare want got (.ok false)

/-- **One level of the comparison**, rule by rule. -/
theorem compared_compatibleAt (limit budget : Nat) (want got : Text) :
    Compared (compatibleAt limit budget) want got (compatibleAt limit (budget + 1) want got) := by
  unfold compatibleAt
  split
  · next hopen => exact .wildcard (Bool.or_eq_true_iff.mp hopen)
  split
  · next htrim => exact .same htrim
  cases hw : Shape.scan want with
  | error e => exact .unscanned (.inl hw)
  | ok wantShape =>
      cases hg : Shape.scan got with
      | error e => exact .unscanned (.inr hg)
      | ok gotShape =>
          simp only [bind, Except.bind]
          split
          · split
            · next hbase =>
              obtain ⟨rfl, hbase⟩ := hbase
              split
              · next hopen => exact .absorbed hbase hw hg (Bool.or_eq_true_iff.mp hopen)
              · exact .argument hbase hw hg
            · exact .apart
          · split
            · next hbase =>
              obtain ⟨rfl, rfl⟩ := hbase
              exact .entries hw hg
            · exact .apart
          · exact .apart

/-- Why a level of the comparison finds two texts compatible. -/
theorem compatibleAt_succ {limit budget : Nat} {want got : Text}
    (h : compatibleAt limit (budget + 1) want got = .ok true) :
    (want.absorbs = true ∨ got.absorbs = true) ∨ want.trim = got.trim ∨
      ∃ base ws gs, Shape.scan want = .ok (.generic base ws) ∧
        Shape.scan got = .ok (.generic base gs) ∧ ws.length = gs.length ∧
        ∀ p ∈ ws.zip gs, Compatible p.1 p.2 := by
  have hlevel := compared_compatibleAt limit budget want got
  rw [h] at hlevel
  generalize hresult : Except.ok true = result at hlevel
  cases hlevel with
  | wildcard hopen => exact .inl (hopen.imp absorbs_of_isWildcard absorbs_of_isWildcard)
  | same htrim => exact .inr (.inl htrim)
  | unscanned _ => cases hresult
  | absorbed _ hw hg hopen =>
      refine .inr (.inr ⟨_, _, _, hw, hg, rfl, List.forall_mem_singleton.mpr ?_⟩)
      exact hopen.imp_right .inl
  | argument _ hw hg =>
      refine .inr (.inr ⟨_, _, _, hw, hg, rfl, List.forall_mem_singleton.mpr ?_⟩)
      exact .inr (.inr ⟨limit, budget, hresult.symm⟩)
  | entries hw hg =>
      refine .inr (.inr ⟨_, _, _, hw, hg, rfl, ?_⟩)
      obtain ⟨hkey, hvalue⟩ := entries_eq_ok_true_iff.mp hresult.symm
      exact List.forall_mem_cons.mpr ⟨.inr (.inr ⟨limit, budget, hkey⟩),
        List.forall_mem_singleton.mpr (.inr (.inr ⟨limit, budget, hvalue⟩))⟩
  | apart => cases hresult

/-- Compatible texts with parts have the same shape, or their arguments are
compatible. -/
theorem Compatible.of_hasParts {want got : Text} (h : Compatible want got) (hw : want.HasParts)
    (hg : got.HasParts) :
    Shape.scan want = Shape.scan got ∨
      ∃ base ws gs, Shape.scan want = .ok (.generic base ws) ∧
        Shape.scan got = .ok (.generic base gs) ∧ ws.length = gs.length ∧
        ∀ p ∈ ws.zip gs, Compatible p.1 p.2 := by
  have hclosed : ¬ (want.absorbs = true ∨ got.absorbs = true) := by
    simp [hw.absorbs_eq_false, hg.absorbs_eq_false]
  obtain ⟨limit, budget, h⟩ := (or_assoc.mpr h).resolve_left hclosed
  cases budget with
  | zero => cases h
  | succ budget =>
      refine ((compatibleAt_succ h).resolve_left hclosed).imp_left fun htrim => ?_
      rw [← Shape.scan_trim, htrim, Shape.scan_trim]

/-- **Compatible texts have compatible parts**, whichever rule has accepted them. -/
theorem hereditary_compatible : Hereditary Compatible where
  args := fun h hw hg => by
    rcases h.of_hasParts (hasParts_of_generic hw) (hasParts_of_generic hg) with
      hsame | ⟨base, ws, gs, hw', hg', hlength, hargs⟩
    · rw [hw, hg] at hsame
      cases hsame
      exact ⟨rfl, Ty.forall_mem_zip_self fun a _ => .refl a⟩
    · rw [hw] at hw'
      rw [hg] at hg'
      cases hw'
      cases hg'
      exact ⟨hlength, hargs⟩
  fields := fun h hw hg n a b ha hb => by
    rcases h.of_hasParts (hasParts_of_struct hw) (hasParts_of_struct hg) with
      hsame | ⟨base, ws, gs, hw', -⟩
    · rw [hw, hg] at hsame
      cases hsame
      have hpair := NameMap.mem_zip_values rfl (Shape.nodup_names_of_scan hw) ha hb
      exact Ty.forall_mem_zip_self (P := fun p => Compatible p.1 p.2) (fun a _ => .refl a) _ hpair
    · rw [hw] at hw'
      cases hw'

/-! ## texts that unify -/

/-- The texts can be read, and unifying their types succeeds with some number of
levels, from some bindings. -/
def Unifies (want got : Text) : Prop :=
  ∃ limit budget w g, Ty.readAt limit budget want = .ok w ∧ Ty.readAt limit budget got = .ok g ∧
    ∃ limit' budget' s s', (Ty.unifyAt limit' budget' w g s).outcome = .ok s'

end Text

namespace Ty

/-- A list of pairs unifies pair by pair, each from the bindings of those before it. -/
theorem exists_unifyAt_of_mem {limit budget : Nat} {ps : List (Ty × Ty)} {s s' : Subst}
    (h : (unifyPairs limit budget ps s).outcome = .ok s') :
    ∀ p ∈ ps, ∃ s₁ s₂, (unifyAt limit budget p.1 p.2 s₁).outcome = .ok s₂ := by
  induction ps generalizing s with
  | nil => simp
  | cons p ps ih =>
      obtain ⟨s₁, hp, hps⟩ := andThen_eq_ok h
      exact List.forall_mem_cons.mpr ⟨⟨s, s₁, hp⟩, ih hps⟩

/-- The arguments of what a name makes are those that it is applied to. -/
theorem Applied.args_eq {base : String} {args : List Ty} {t : Ty} (h : Applied base args t) :
    t.args = args := by
  cases h <;> rfl

/-- Unified types with arguments have as many, and these unify one by one. -/
theorem Applied.unified {base base' : String} {ws gs : List Ty} {w g : Ty} (hw : Applied base ws w)
    (hg : Applied base' gs g) {limit budget : Nat} {s s' : Subst}
    (h : (unifyAt limit budget w g s).outcome = .ok s') :
    ws.length = gs.length ∧
      ∀ p ∈ ws.zip gs, ∃ budget s₁ s₂, (unifyAt limit budget p.1 p.2 s₁).outcome = .ok s₂ := by
  cases budget with
  | zero => cases h
  | succ budget =>
      cases unified_of_unifyAt h with
      | bind _ _ _ => cases hw
      | bound _ _ _ => cases hw
      | wildcardLeft _ _ => cases hw
      | wildcardRight _ _ => cases hg
      | fields _ _ => cases hw
      | args _ _ _ _ harity hparts =>
          rw [arity, arity, hw.args_eq, hg.args_eq] at harity
          rw [hw.args_eq, hg.args_eq] at hparts
          exact ⟨harity, fun p hp => ⟨budget, exists_unifyAt_of_mem hparts p hp⟩⟩

/-- Unified records have the same names, and their fields unify one by one. -/
theorem struct_unified {ws gs : NameMap Ty} {limit budget : Nat} {s s' : Subst}
    (h : (unifyAt limit budget (.struct ws) (.struct gs) s).outcome = .ok s') :
    ws.names = gs.names ∧ ∀ p ∈ ws.values.zip gs.values,
      ∃ budget s₁ s₂, (unifyAt limit budget p.1 p.2 s₁).outcome = .ok s₂ := by
  cases budget with
  | zero => cases h
  | succ budget =>
      cases unified_of_unifyAt h with
      | fields hnames hparts =>
          exact ⟨hnames, fun p hp => ⟨budget, exists_unifyAt_of_mem hparts p hp⟩⟩
      | args _ hwant _ _ _ _ => exact absurd rfl (hwant ws)

end Ty

namespace Text

/-- The types that fill the shapes of two texts that unify. -/
theorem Unifies.exists_fills {want got : Text} (h : Unifies want got) {wshape gshape : Shape}
    (hw : Shape.scan want = .ok wshape) (hg : Shape.scan got = .ok gshape) :
    ∃ limit budget w g, Ty.Fills (fun s t => Ty.readAt limit budget s = .ok t) wshape w ∧
      Ty.Fills (fun s t => Ty.readAt limit budget s = .ok t) gshape g ∧
      ∃ limit' budget' s s', (Ty.unifyAt limit' budget' w g s).outcome = .ok s' := by
  obtain ⟨limit, budget, w, g, hreadw, hreadg, hrun⟩ := h
  cases budget with
  | zero => cases hreadw
  | succ budget =>
      obtain ⟨wshape', hw', hwfills⟩ := Ty.readAt_succ_eq_ok_iff.mp hreadw
      obtain ⟨gshape', hg', hgfills⟩ := Ty.readAt_succ_eq_ok_iff.mp hreadg
      rw [hw] at hw'
      rw [hg] at hg'
      cases hw'
      cases hg'
      exact ⟨limit, budget, w, g, hwfills, hgfills, hrun⟩

/-- The field of a record that has a given text, with its type. -/
theorem mem_record_of_mem {fields : List ((String × Text) × Ty)}
    (hnodup : (NameMap.names (fields.map Prod.fst)).Nodup) {f : (String × Text) × Ty}
    (hf : f ∈ fields) :
    (f.1.1, f.2) ∈ NameMap.ofList (fields.map fun f => (f.1.1, f.2)) := by
  have hnames : NameMap.names (fields.map fun f => (f.1.1, f.2)) =
      NameMap.names (fields.map Prod.fst) := by
    rw [NameMap.names, NameMap.names, List.map_map, List.map_map]
    rfl
  rw [← hnames] at hnodup
  exact (NameMap.perm_ofList hnodup).mem_iff.mpr (List.mem_map_of_mem hf)

/-- **Texts that unify have parts that do.** -/
theorem hereditary_unifies : Hereditary Unifies where
  args := fun h hw hg => by
    obtain ⟨limit, budget, w, g, hwfills, hgfills, limit', budget', s, s', hrun⟩ :=
      h.exists_fills hw hg
    obtain ⟨as, rfl, has, hwapplied⟩ := hwfills.exists_args
    obtain ⟨bs, rfl, hbs, hgapplied⟩ := hgfills.exists_args
    obtain ⟨hlength, hparts⟩ := hwapplied.unified hgapplied hrun
    rw [List.length_map, List.length_map] at hlength ⊢
    refine ⟨hlength, ?_⟩
    rw [List.zip_map, List.forall_mem_map] at hparts ⊢
    intro p hp
    obtain ⟨ha, hb⟩ := List.of_mem_zip hp
    exact ⟨limit, budget, p.1.2, p.2.2, has _ ha, hbs _ hb, limit', hparts p hp⟩
  fields := fun h hw hg n a b ha hb => by
    obtain ⟨limit, budget, w, g, hwfills, hgfills, limit', budget', s, s', hrun⟩ :=
      h.exists_fills hw hg
    obtain ⟨ws, rfl, hws, rfl⟩ := hwfills.exists_fields
    obtain ⟨gs, rfl, hgs, rfl⟩ := hgfills.exists_fields
    obtain ⟨hnames, hparts⟩ := Ty.struct_unified hrun
    obtain ⟨e, he, heq⟩ := List.mem_map.mp ha
    obtain ⟨d, hd, hdeq⟩ := List.mem_map.mp hb
    have hwmem := mem_record_of_mem (Shape.nodup_names_of_scan hw) he
    have hgmem := mem_record_of_mem (Shape.nodup_names_of_scan hg) hd
    have hread := hws e he
    have hread' := hgs d hd
    rw [heq] at hwmem hread
    rw [hdeq] at hgmem hread'
    -- both records are sorted by the same names, so the fields are unified with each other
    have hpair := NameMap.mem_zip_values hnames
      (NameMap.nodup_names (NameMap.sorted_ofList _)) hwmem hgmem
    exact ⟨limit, budget, e.2, d.2, hread, hread', limit', hparts _ hpair⟩

/-! ## accepted texts -/

/-- What is accepted under some limit is compatible. -/
theorem compatible_of_isCompatible {limits : Limits} {want got : Text}
    (h : isCompatible limits want got = true) : Compatible want got :=
  .inr (.inr ⟨limits.maxDepth, limits.maxDepth, isCompatible_iff.mp h⟩)

/-- What can be unified under some limit unifies. -/
theorem unifies_of_canUnify {limits : Limits} {want got : Text} (hw : want.HasParts)
    (hg : got.HasParts) (h : canUnify limits want got = true) : Unifies want got := by
  unfold canUnify at h
  split at h
  · next s' hunify =>
    unfold unify at hunify
    rw [bind_eq_ok_iff] at hunify
    obtain ⟨r, hwref, hunify⟩ := hunify
    rw [bind_eq_ok_iff] at hunify
    obtain ⟨r', hgref, hrun⟩ := hunify
    obtain ⟨w, hwread, rfl⟩ := hw.exists_read hwref
    obtain ⟨g, hgread, rfl⟩ := hg.exists_read hgref
    exact ⟨limits.maxDepth, limits.maxDepth, w, g, hwread, hgread, limits.maxDepth, limits.maxDepth,
      [], s', hrun⟩
  · cases h

/-- A mismatch that is located between texts that are accepted is crossed. -/
theorem crossed_of_accepts {limits limits' : Limits} {want got : Text} {m : ArityMismatch}
    (hfound : locate? limits want got = some m) (h : accepts limits' want got = true) :
    Crossed want got := by
  have hlocated := located_of_locate? hfound
  rw [accepts, Bool.or_eq_true] at h
  rcases h with hcompatible | hunify
  · exact hereditary_compatible.crossed (compatible_of_isCompatible hcompatible) hlocated
  · obtain ⟨hw, hg⟩ := hlocated.hasParts
    exact hereditary_unifies.crossed (unifies_of_canUnify hw hg hunify) hlocated

/-- A text that is at odds with itself has crossed its own alternatives. -/
theorem crossed_self {limits : Limits} {text : Text} {m : ArityMismatch}
    (hfound : locate? limits text text = some m) : Crossed text text :=
  hereditary_compatible.crossed (.refl text) (located_of_locate? hfound)

end Text

/-! ## what is reported -/

/-- An arity is at odds only where it has been located. -/
theorem locate?_of_discord? {limits : Limits} {want got : Text} {m : ArityMismatch}
    (h : discord? limits want got = some (.arity m)) : Text.locate? limits want got = some m := by
  unfold discord? at h
  split at h
  · next found hfound =>
    cases h
    exact hfound
  · split at h <;> cases h

namespace Call

/-- The category of a report on an argument tells what was found. -/
theorem Misfit.category_diagnostic (callee : String) (misfit : Misfit) :
    (misfit.diagnostic callee).category =
      match misfit.discord with
      | .arity _ => .genericArityMismatch
      | .type => .callArgTypeMismatch := by
  have hreport : (misfit.diagnostic callee).category = misfit.report.category := by
    simp [diagnostic]
  rw [hreport, report]
  cases misfit.discord <;> rfl

/-- A report on an argument is about the arity of a generic only if that is what
was found. -/
theorem Misfit.exists_arity {callee : String} {misfit : Misfit}
    (h : (misfit.diagnostic callee).category = .genericArityMismatch) :
    ∃ m, misfit.discord = .arity m := by
  rw [category_diagnostic] at h
  split at h
  · next m hdiscord => exact ⟨m, hdiscord⟩
  · cases h

/-- The report on an argument has its number. -/
theorem Misfit.find?_argIndex (callee : String) (misfit : Misfit) :
    (misfit.diagnostic callee).data.find? "argIndex" = some (.nat misfit.index) := by
  rw [diagnostic, Diagnostic.data_placed, Diagnostic.find?_withData?_of_ne (by decide),
    Diagnostic.find?_withData, if_neg (by decide), Diagnostic.find?_withData, if_pos rfl]

/-- The arguments that do not fit are those with something wrong between them and the
parameters at their places. -/
theorem mem_misfits_iff {limits : Limits} {call : Call} {misfit : Misfit} :
    misfit ∈ call.misfits limits ↔
      call.params[misfit.index]? = some misfit.param ∧ call.args[misfit.index]? = some misfit.arg ∧
        argDiscord? limits misfit.param misfit.arg = some misfit.discord := by
  constructor
  · intro hmem
    obtain ⟨⟨⟨param, arg⟩, i⟩, hp, hmap⟩ := List.mem_filterMap.mp hmem
    obtain ⟨discord, hdiscord, rfl⟩ := Option.map_eq_some_iff.mp hmap
    obtain ⟨hparam, harg⟩ :=
      List.getElem?_zip_eq_some.mp (List.mem_zipIdx_iff_getElem?.mp hp)
    exact ⟨hparam, harg, hdiscord⟩
  · rintro ⟨hparam, harg, hdiscord⟩
    have hpair : ((misfit.param, misfit.arg), misfit.index) ∈
        (call.params.zip call.args).zipIdx :=
      List.mem_zipIdx_iff_getElem?.mpr (List.getElem?_zip_eq_some.mpr ⟨hparam, harg⟩)
    exact List.mem_filterMap.mpr ⟨_, hpair, by simp [hdiscord]⟩

/-- What a call reports, beside its number of arguments and the summary, is an
argument that does not fit the parameter at its place. -/
theorem exists_misfit_of_mem_check {limits : Limits} {call : Call} {d : Diagnostic}
    (hd : d ∈ call.check limits) (hcount : d.category ≠ .callArityMismatch)
    (hnotsum : d.category ≠ .callArgsMismatchSummary) :
    ∃ i param arg discord, call.params[i]? = some param ∧ call.args[i]? = some arg ∧
      discord? limits param.ty arg.ty = some discord ∧
      d = Misfit.diagnostic call.callee ⟨i, param, arg, discord⟩ := by
  unfold check at hd
  split at hd
  · rw [List.mem_singleton.mp hd] at hcount
    exact absurd (by simp [arityDiagnostic, Diagnostic.ofCategory]) hcount
  rcases List.mem_append.mp hd with hmisfit | hsummary
  · obtain ⟨misfit, hmem, rfl⟩ := List.mem_map.mp hmisfit
    obtain ⟨hparam, harg, hdiscord⟩ := mem_misfits_iff.mp hmem
    rw [argDiscord?] at hdiscord
    split at hdiscord
    · cases hdiscord
    · exact ⟨_, _, _, _, hparam, harg, hdiscord, rfl⟩
  · split at hsummary
    · rw [List.mem_singleton.mp hsummary] at hnotsum
      exact absurd (by simp [summary, Diagnostic.ofCategory]) hnotsum
    · exact absurd hsummary List.not_mem_nil

/-- An argument is reported for the arity of a generic only where a mismatch is
located between it and its parameter. -/
theorem located_of_mem_check {limits : Limits} {call : Call} {d : Diagnostic}
    (hd : d ∈ call.check limits) (hcategory : d.category = .genericArityMismatch) :
    ∃ i param arg m, call.params[i]? = some param ∧ call.args[i]? = some arg ∧
      d.data.find? "argIndex" = some (.nat i) ∧ Text.locate? limits param.ty arg.ty = some m := by
  obtain ⟨i, param, arg, discord, hparam, harg, hdiscord, rfl⟩ :=
    exists_misfit_of_mem_check hd (by simp [hcategory]) (by simp [hcategory])
  obtain ⟨m, rfl⟩ := Misfit.exists_arity hcategory
  exact ⟨i, param, arg, m, hparam, harg, Misfit.find?_argIndex _ _,
    locate?_of_discord? hdiscord⟩

end Call

/-- A value is reported for the arity of a generic only where a mismatch is
located between it and the target. -/
theorem Assignment.located_of_check {limits : Limits} {a : Assignment} {d : Diagnostic}
    (h : a.check limits = some d) (hcategory : d.category = .genericArityMismatch) :
    ∃ m, Text.locate? limits a.target.ty a.value.ty = some m := by
  unfold check checkAs at h
  split at h
  · cases h
  obtain ⟨d', hvalue, rfl⟩ := Option.map_eq_some_iff.mp h
  rw [Diagnostic.category_placed, Diagnostic.withName, Diagnostic.category_withData?] at hcategory
  unfold valueDiagnostic? at hvalue
  split at hvalue
  · next m hfound => exact ⟨m, hfound⟩
  · split at hvalue
    · cases hvalue
    · cases hvalue
      cases hcategory

/-- **A located mismatch is a reason to refuse, unless alternatives were
crossed.**  Where no alternatives of unions are crossed, two texts with a located
mismatch are neither compatible nor can they be unified; so an argument or a value
that is reported for the arity of a generic although it is accepted has crossed
alternatives, and a text against itself has no mismatch. -/
theorem arity_mismatch_refused (limits : Limits) :
    (∀ want got m, Text.locate? limits want got = some m → ¬ Text.Crossed want got →
      Text.isCompatible limits want got = false ∧ Text.canUnify limits want got = false) ∧
    (∀ (call : Call) (d : Diagnostic), d ∈ call.check limits →
      d.category = .genericArityMismatch →
      ∃ i param arg, call.params[i]? = some param ∧ call.args[i]? = some arg ∧
        d.data.find? "argIndex" = some (.nat i) ∧
        (Text.accepts limits param.ty arg.ty = true → Text.Crossed param.ty arg.ty)) ∧
    (∀ (a : Assignment) (d : Diagnostic), a.check limits = some d →
      d.category = .genericArityMismatch →
      Text.accepts limits a.target.ty a.value.ty = true →
      Text.Crossed a.target.ty a.value.ty) ∧
    ∀ text, ¬ Text.Crossed text text → Text.locate? limits text text = none := by
  refine ⟨fun want got m hfound hcrossed => ?_, fun call d hd hcategory => ?_,
    fun a d hcheck hcategory haccepts => ?_, fun text hcrossed => ?_⟩
  · have hrefused : Text.accepts limits want got = false := by
      rw [← Bool.not_eq_true]
      exact fun haccepts => hcrossed (Text.crossed_of_accepts hfound haccepts)
    exact Bool.or_eq_false_iff.mp hrefused
  · obtain ⟨i, param, arg, m, hparam, harg, hindex, hfound⟩ :=
      Call.located_of_mem_check hd hcategory
    exact ⟨i, param, arg, hparam, harg, hindex, Text.crossed_of_accepts hfound⟩
  · obtain ⟨m, hfound⟩ := Assignment.located_of_check hcheck hcategory
    exact Text.crossed_of_accepts hfound haccepts
  · cases hfound : Text.locate? limits text text with
    | none => rfl
    | some m => exact absurd (Text.crossed_self hfound) hcrossed

/-- A union whose second alternatives differ in their number of arguments.  No
alternative is compared with one at another place, as these are of other kinds. -/
theorem arity_mismatch_refused_event :
    let want := "Union<slice<T>,Event<T>>".toList
    let got := "Union<slice<int>,Event<T,U>>".toList
    Text.locate? {} want got = some (here "Event" 1 2) ∧
      Text.isCompatible {} want got = false ∧ Text.canUnify {} want got = false := by
  intro want got
  have hfound : Text.locate? {} want got = some (here "Event" 1 2) := rfl
  have hwant : Shape.scan want = .ok (.generic "Union" ["slice<T>".toList, "Event<T>".toList]) := rfl
  have hgot : Shape.scan got = .ok (.generic "Union" ["slice<int>".toList, "Event<T,U>".toList]) :=
    rfl
  have hvar : ∀ text, ¬ Text.Crossed ['T'] text := fun text => Text.not_crossed_of_atom rfl
  have hslice : ¬ Text.Crossed "slice<T>".toList "slice<int>".toList := by
    have hw : Shape.scan "slice<T>".toList = .ok (.generic "slice" [['T']]) := rfl
    have hg : Shape.scan "slice<int>".toList = .ok (.generic "slice" ["int".toList]) := rfl
    exact Text.not_crossed_of_args hw hg (by decide +kernel) (List.forall_mem_singleton.mpr (hvar _))
  have hevent : ¬ Text.Crossed "Event<T>".toList "Event<T,U>".toList := by
    have hw : Shape.scan "Event<T>".toList = .ok (.generic "Event" [['T']]) := rfl
    have hg : Shape.scan "Event<T,U>".toList = .ok (.generic "Event" [['T'], ['U']]) := rfl
    exact Text.not_crossed_of_args hw hg (by decide +kernel) (List.forall_mem_singleton.mpr (hvar _))
  have hcrossed : ¬ Text.Crossed want got := by
    refine Text.not_crossed_of_args hwant hgot (fun _ => by decide +kernel) ?_
    exact List.forall_mem_cons.mpr ⟨hslice, List.forall_mem_singleton.mpr hevent⟩
  exact ⟨hfound, (arity_mismatch_refused {}).1 want got _ hfound hcrossed⟩

/-- Against itself, a union of two generics of one name has a mismatch, although
it is compatible with itself and unifies with itself; an assignment of a value to
a target of its own type is reported for it. -/
theorem arity_mismatch_of_accepted :
    let text := "Union<Foo<int>,Foo<int,int>>".toList
    Text.locate? {} text text = some (here "Foo" 1 2) ∧
      Text.isCompatible {} text text = true ∧ Text.canUnify {} text text = true ∧
      (Assignment.check {} ⟨{ ty := text }, { ty := text }⟩).map Diagnostic.category =
        some .genericArityMismatch :=
  ⟨rfl, rfl, rfl, rfl⟩

end TypeFlow
