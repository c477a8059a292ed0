import TypeFlow.Proofs.RoundTrip
import TypeFlow.Unify.Run

/-!
# TypeFlow.Proofs.Similar

What unification promises about two types.  It does not make them equal: the
wildcard stands for any type, and heads may differ in the case of their ASCII
letters.  What it does make of them is `Similar`.

* `Similar.refl` — a type is similar to itself;
* `Subterm.readable` — the parts of a readable type are readable;
* `Similar.of_apply_struct`, `Similar.of_apply_head` — a substitution makes two
  types similar when it does so with their parts.
-/

namespace TypeFlow

namespace Ty

/-! ## parts of types -/

/-- A type that is another one or stands somewhere in it. -/
inductive Subterm : Ty → Ty → Prop where
  | refl (t : Ty) : Subterm t t
  | arg {t u v : Ty} (hu : u ∈ v.args) (h : Subterm t u) : Subterm t v
  | field {t : Ty} {fields : NameMap Ty} {e : String × Ty} (he : e ∈ fields) (h : Subterm t e.2) :
      Subterm t (.struct fields)

/-- What stands in a value of a record stands in the record. -/
theorem Subterm.of_mem_values {t u : Ty} {fields : NameMap Ty} (hu : u ∈ fields.values)
    (h : Subterm t u) : Subterm t (.struct fields) := by
  obtain ⟨e, he, rfl⟩ := List.mem_map.mp hu
  exact .field he h

/-- Arguments, the content of an optional and alternatives are read as types of their
own. -/
theorem Readable.of_mem_args {t u : Ty} (h : Readable t) (hu : u ∈ t.args) : Readable u := by
  cases h with
  | scalar _ => exact absurd hu List.not_mem_nil
  | named _ _ => exact absurd hu List.not_mem_nil
  | quoted _ => exact absurd hu List.not_mem_nil
  | generic _ _ _ hargs => exact hargs u hu
  | optional ht =>
      rw [List.mem_singleton.mp hu]
      exact ht
  | struct _ _ _ => exact absurd hu List.not_mem_nil
  | union _ halts => exact halts u hu

/-- The values of a record are read as types of their own. -/
theorem Readable.of_mem_fields {fields : NameMap Ty} {e : String × Ty}
    (h : Readable (.struct fields)) (he : e ∈ fields) : Readable e.2 := by
  cases h with
  | struct _ _ hfields => exact hfields e he

/-- **The parts of a readable type are readable**, at any depth. -/
theorem Subterm.readable {t u : Ty} (h : Subterm t u) (hu : Readable u) : Readable t := by
  induction h with
  | refl => exact hu
  | arg hmem _ ih => exact ih (hu.of_mem_args hmem)
  | field he _ ih => exact ih (hu.of_mem_fields he)

/-! ## similar types -/

/-- Types that are the same up to wildcards and the case of their heads. -/
inductive Similar : Ty → Ty → Prop where
  | wildcardLeft (u : Ty) : Similar (.named wildcardName) u
  | wildcardRight (t : Ty) : Similar t (.named wildcardName)
  | struct {ts us : NameMap Ty} (hnames : ts.names = us.names)
      (hfields : ∀ p ∈ ts.values.zip us.values, Similar p.1 p.2) :
      Similar (.struct ts) (.struct us)
  | head {t u : Ty} (ht : ∀ fields, t ≠ .struct fields) (hu : ∀ fields, u ≠ .struct fields)
      (hhead : t.head.toList.map Char.toLower = u.head.toList.map Char.toLower)
      (harity : t.args.length = u.args.length) (hargs : ∀ p ∈ t.args.zip u.args, Similar p.1 p.2) :
      Similar t u

/-- Heads are compared letter by letter, after ASCII capitals are made small. -/
theorem sameHead_iff {w g : String} :
    sameHead w g = true ↔ w.toList.map Char.toLower = g.toList.map Char.toLower := by
  rw [sameHead, beq_iff_eq]

/-- A list zipped with itself holds each member beside itself. -/
theorem forall_mem_zip_self {α : Type} {P : α × α → Prop} {xs : List α}
    (h : ∀ x ∈ xs, P (x, x)) : ∀ p ∈ xs.zip xs, P p := by
  induction xs with
  | nil => simp
  | cons x xs ih =>
      obtain ⟨hx, hxs⟩ := List.forall_mem_cons.mp h
      exact List.forall_mem_cons.mpr ⟨hx, ih hxs⟩

/-- A type that is no record is similar to itself if its arguments are. -/
theorem similar_of_args {t : Ty} (ht : ∀ fields, t ≠ .struct fields)
    (hargs : ∀ u ∈ t.args, Similar u u) : Similar t t :=
  .head ht ht rfl rfl (forall_mem_zip_self hargs)

/-- **A type is similar to itself**, whatever stands in it. -/
theorem Similar.refl (t : Ty) : Similar t t := by
  induction t using Ty.induct with
  | scalar s => exact similar_of_args (by simp) (by simp [args])
  | named n => exact similar_of_args (by simp) (by simp [args])
  | generic n args ih => exact similar_of_args (by simp) ih
  | optional t ih => exact similar_of_args (by simp) (by simpa [args] using ih)
  | struct fields ih =>
      refine .struct rfl (forall_mem_zip_self fun t ht => ?_)
      obtain ⟨e, he, rfl⟩ := List.mem_map.mp ht
      exact ih e he
  | union alts ih => exact similar_of_args (by simp) ih

end Ty

namespace Subst

/-! ## substitutions put into types -/

/-- A bound variable becomes the type that it is bound to, in which nothing is replaced
again. -/
theorem apply_named_of_isVar {s : Subst} {v : String} {t : Ty} (hv : Text.isVar v.toList = true)
    (hfind : NameMap.find? s v = some t) : s.apply (.named v) = t := by
  rw [apply, ofName, if_pos hv, hfind, Option.getD_some]

/-- Only variables are replaced, other names stay. -/
theorem apply_named_of_not_isVar (s : Subst) {n : String} (hn : Text.isVar n.toList = false) :
    s.apply (.named n) = .named n := by
  rw [apply, ofName, hn]
  rfl

/-- A substitution changes no head but that of a variable. -/
theorem head_apply (s : Subst) {t : Ty} (h : t.isVar = false) : (s.apply t).head = t.head := by
  cases t with
  | named n => rw [apply_named_of_not_isVar s h]
  | scalar _ => rfl
  | generic _ _ => rfl
  | optional _ => rfl
  | struct _ => rfl
  | union _ => rfl

/-- A substitution goes into the arguments one by one. -/
theorem args_apply (s : Subst) {t : Ty} (h : t.isVar = false) :
    (s.apply t).args = t.args.map s.apply := by
  cases t with
  | named n => rw [apply_named_of_not_isVar s h]; rfl
  | scalar _ => rfl
  | generic _ args => rw [apply, Ty.args, Ty.args, applyList_eq_map]
  | optional _ => rfl
  | struct _ => rfl
  | union alts => rw [apply, Ty.args, Ty.args, applyList_eq_map]

/-- A substitution makes no record of a type that is none, unless that is a variable. -/
theorem apply_ne_struct (s : Subst) {t : Ty} (h : t.isVar = false)
    (ht : ∀ fields, t ≠ .struct fields) (fields : NameMap Ty) : s.apply t ≠ .struct fields := by
  cases t with
  | named n => rw [apply_named_of_not_isVar s h]; exact ht fields
  | scalar _ => exact ht fields
  | generic _ _ => simp [apply]
  | optional _ => simp [apply]
  | struct fs => exact absurd rfl (ht fs)
  | union _ => simp [apply]

/-- The fields of a record keep their names. -/
theorem names_applyFields (s : Subst) (fields : NameMap Ty) :
    NameMap.names (s.applyFields fields) = NameMap.names fields := by
  rw [applyFields_eq_map, NameMap.names, NameMap.names, List.map_map]
  rfl

/-- A substitution goes into the values of a record one by one. -/
theorem values_applyFields (s : Subst) (fields : NameMap Ty) :
    NameMap.values (s.applyFields fields) = (NameMap.values fields).map s.apply := by
  rw [applyFields_eq_map, NameMap.values, NameMap.values, List.map_map, List.map_map]
  rfl

end Subst

namespace Ty

/-- Pairs of parts are similar once the substitution is put in the first ones. -/
theorem forall_mem_zip_apply {s : Subst} {ts us : List Ty}
    (h : ∀ p ∈ ts.zip us, Similar (s.apply p.1) p.2) :
    ∀ p ∈ (ts.map s.apply).zip us, Similar p.1 p.2 := by
  rw [List.zip_map_left]
  exact List.forall_mem_map.mpr h

/-- A substitution makes two records with the same names similar when it does so with
their values. -/
theorem Similar.of_apply_struct {s : Subst} {ws gs : NameMap Ty} (hnames : ws.names = gs.names)
    (h : ∀ p ∈ ws.values.zip gs.values, Similar (s.apply p.1) p.2) :
    Similar (s.apply (.struct ws)) (.struct gs) := by
  rw [Subst.apply]
  refine .struct ?_ ?_
  · rw [Subst.names_applyFields, hnames]
  · rw [Subst.values_applyFields]
    exact forall_mem_zip_apply h

/-- A substitution makes two types that are no records similar, if the first is no
variable, when their heads agree and it does so with their arguments. -/
theorem Similar.of_apply_head {s : Subst} {w g : Ty} (hvar : w.isVar = false)
    (hw : ∀ fields, w ≠ .struct fields) (hg : ∀ fields, g ≠ .struct fields)
    (hhead : sameHead w.head g.head = true) (harity : w.arity = g.arity)
    (h : ∀ p ∈ w.args.zip g.args, Similar (s.apply p.1) p.2) : Similar (s.apply w) g := by
  refine .head (s.apply_ne_struct hvar hw) hg ?_ ?_ ?_
  · rw [s.head_apply hvar]
    exact sameHead_iff.mp hhead
  · rw [s.args_apply hvar, List.length_map]
    exact harity
  · rw [s.args_apply hvar]
    exact forall_mem_zip_apply h

end Ty

end TypeFlow
