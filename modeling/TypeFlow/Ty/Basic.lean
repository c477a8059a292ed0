import TypeFlow.NameMap
import TypeFlow.Scalar
import TypeFlow.Text.Name

/-!
# TypeFlow.Ty.Basic

Type expressions. A name on its own may follow one of two conventions: one
upper-case ASCII letter is a type variable, and `any` is the wildcard. The
fields of a record are a `NameMap`, so records built by `Ty.record` list their
fields in the order of their names.

* `Ty.induct` — induction with a hypothesis for every argument, field and
  alternative;
* `Ty.same_iff` — equality of types is decidable;
* `Ty.depth` — how deeply a type nests, leaves counting 1.
-/

namespace TypeFlow

/-- A type expression. -/
inductive Ty where
  | scalar (s : Scalar)
  | named (name : String)
  | generic (name : String) (args : List Ty)
  | optional (inner : Ty)
  | struct (fields : List (String × Ty))
  | union (alts : List Ty)

namespace Ty

instance : Inhabited Ty := ⟨.named ""⟩

/-- Induction on types with a hypothesis for every part. -/
@[elab_as_elim]
theorem induct {motive : Ty → Prop} (scalar : ∀ s, motive (.scalar s))
    (named : ∀ n, motive (.named n))
    (generic : ∀ n args, (∀ t ∈ args, motive t) → motive (.generic n args))
    (optional : ∀ t, motive t → motive (.optional t))
    (struct : ∀ fields, (∀ e ∈ fields, motive e.2) → motive (.struct fields))
    (union : ∀ alts, (∀ t ∈ alts, motive t) → motive (.union alts)) : ∀ t, motive t := by
  intro t
  exact @Ty.rec motive (fun l => ∀ t ∈ l, motive t) (fun l => ∀ e ∈ l, motive e.2)
    (fun e => motive e.2) scalar named generic optional struct union
    (fun _ h => absurd h List.not_mem_nil)
    (fun _ _ ht hl u hu => (List.mem_cons.1 hu).elim (fun h => h ▸ ht) (hl u))
    (fun _ h => absurd h List.not_mem_nil)
    (fun _ _ he hl d hd => (List.mem_cons.1 hd).elim (fun h => h ▸ he) (hl d))
    (fun _ _ ih => ih) t

/-! ## equality -/

mutual
/-- Whether two types are the same. -/
def same : Ty → Ty → Bool
  | .scalar a, .scalar b => a == b
  | .named a, .named b => a == b
  | .generic a as, .generic b bs => a == b && sameList as bs
  | .optional a, .optional b => same a b
  | .struct as, .struct bs => sameFields as bs
  | .union as, .union bs => sameList as bs
  | _, _ => false

/-- Whether two lists of types are the same. -/
def sameList : List Ty → List Ty → Bool
  | [], [] => true
  | a :: as, b :: bs => same a b && sameList as bs
  | _, _ => false

/-- Whether two lists of fields are the same. -/
def sameFields : List (String × Ty) → List (String × Ty) → Bool
  | [], [] => true
  | (m, a) :: as, (n, b) :: bs => m == n && same a b && sameFields as bs
  | _, _ => false
end

/-- Lists are compared member by member. -/
theorem sameList_iff {as : List Ty} (h : ∀ a ∈ as, ∀ b, same a b = true ↔ a = b) :
    ∀ bs, sameList as bs = true ↔ as = bs := by
  induction as with
  | nil => intro bs; cases bs <;> simp [sameList]
  | cons a as ih =>
    intro bs
    cases bs with
    | nil => simp [sameList]
    | cons b bs =>
      have hs := ih (fun t ht => h t (List.mem_cons_of_mem _ ht)) bs
      simp [sameList, h a List.mem_cons_self b, hs]

/-- Fields are compared name by name and type by type, in their order. -/
theorem sameFields_iff {as : List (String × Ty)} (h : ∀ e ∈ as, ∀ b, same e.2 b = true ↔ e.2 = b) :
    ∀ bs, sameFields as bs = true ↔ as = bs := by
  induction as with
  | nil => intro bs; cases bs <;> simp [sameFields]
  | cons e as ih =>
    intro bs
    cases bs with
    | nil => simp [sameFields]
    | cons d bs =>
      obtain ⟨m, a⟩ := e
      obtain ⟨n, b⟩ := d
      have hs := ih (fun t ht => h t (List.mem_cons_of_mem _ ht)) bs
      simp [sameFields, h _ List.mem_cons_self b, hs]

/-- **The comparison of types decides whether they are equal.** -/
theorem same_iff {a b : Ty} : same a b = true ↔ a = b := by
  induction a using induct generalizing b with
  | scalar s => cases b <;> simp [same]
  | named n => cases b <;> simp [same]
  | generic n args ih =>
    cases b <;> simp [same, sameList_iff fun t ht u => ih t ht (b := u)]
  | optional t ih => cases b <;> simp [same, ih]
  | struct fields ih =>
    cases b <;> simp [same, sameFields_iff fun e he u => ih e he (b := u)]
  | union alts ih =>
    cases b <;> simp [same, sameList_iff fun t ht u => ih t ht (b := u)]

instance : DecidableEq Ty := fun _ _ => decidable_of_iff _ same_iff

/-! ## conventions and heads -/

/-- The record with the given fields; the last field of a name counts. -/
def record (fields : List (String × Ty)) : Ty := .struct (NameMap.ofList fields)

/-- The type that a name on its own stands for. -/
def ofName (name : String) : Ty :=
  match Scalar.ofName? name with
  | some s => .scalar s
  | none => .named name

/-- Whether the type is a type variable. -/
def isVar : Ty → Bool
  | .named n => Text.isVar n.toList
  | _ => false

/-- Whether the type is the wildcard. -/
def isWildcard : Ty → Bool
  | .named n => n == wildcardName
  | _ => false

/-- Whether the type accepts anything: a type variable or the wildcard. -/
def isUnconstrained (t : Ty) : Bool := t.isVar || t.isWildcard

/-- The name that heads a type. -/
def head : Ty → String
  | .scalar s => s.name
  | .named n => n
  | .generic n _ => n
  | .optional _ => "Optional"
  | .struct _ => "Struct"
  | .union _ => "Union"

/-- The arguments that a type has by position. -/
def args : Ty → List Ty
  | .generic _ args => args
  | .optional t => [t]
  | .union alts => alts
  | .scalar _ => []
  | .named _ => []
  | .struct _ => []

/-- The number of arguments that a type has by position. -/
def arity (t : Ty) : Nat := t.args.length

/-! ## depth -/

mutual
/-- How deeply a type nests; a type without parts has depth 1. -/
def depth : Ty → Nat
  | .scalar _ => 1
  | .named _ => 1
  | .generic _ args => 1 + depthList args
  | .optional t => 1 + depth t
  | .struct fields => 1 + depthFields fields
  | .union alts => 1 + depthList alts

/-- The depth of the deepest of a list of types. -/
def depthList : List Ty → Nat
  | [] => 0
  | t :: ts => max (depth t) (depthList ts)

/-- The depth of the deepest of a list of fields. -/
def depthFields : List (String × Ty) → Nat
  | [] => 0
  | (_, t) :: es => max (depth t) (depthFields es)
end

/-- Every type has at least one level. -/
theorem depth_pos (t : Ty) : 0 < t.depth := by
  cases t <;> rw [depth] <;> omega

/-- A list is as deep as the deepest of its members. -/
theorem depthList_le_iff {ts : List Ty} {n : Nat} :
    depthList ts ≤ n ↔ ∀ t ∈ ts, t.depth ≤ n := by
  induction ts with
  | nil => simp [depthList]
  | cons t ts ih => rw [depthList, Nat.max_le, ih]; simp

/-- The fields of a record are as deep as the deepest of them. -/
theorem depthFields_le_iff {es : List (String × Ty)} {n : Nat} :
    depthFields es ≤ n ↔ ∀ e ∈ es, e.2.depth ≤ n := by
  induction es with
  | nil => simp [depthFields]
  | cons e es ih => rw [depthFields, Nat.max_le, ih]; simp

/-- An argument, the content of an optional and an alternative are less deep than the
type. -/
theorem depth_lt_of_mem_args {t u : Ty} (h : u ∈ t.args) : u.depth < t.depth := by
  cases t with
  | scalar _ => exact absurd h List.not_mem_nil
  | named _ => exact absurd h List.not_mem_nil
  | generic _ args =>
    have := depthList_le_iff.1 (Nat.le_refl (depthList args)) u h
    rw [depth]; omega
  | optional t => rw [List.mem_singleton.1 h, depth]; omega
  | struct _ => exact absurd h List.not_mem_nil
  | union alts =>
    have := depthList_le_iff.1 (Nat.le_refl (depthList alts)) u h
    rw [depth]; omega

/-- A field is less deep than its record. -/
theorem depth_lt_of_mem_fields {fields : NameMap Ty} {e : String × Ty} (h : e ∈ fields) :
    e.2.depth < (Ty.struct fields).depth := by
  have := depthFields_le_iff.1 (Nat.le_refl (depthFields fields)) e h
  rw [depth]; omega

end Ty

end TypeFlow
