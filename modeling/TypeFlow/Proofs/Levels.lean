import TypeFlow.Proofs.Outcome
import TypeFlow.Ty.Read

/-!
# TypeFlow.Proofs.Levels

Reading, one level at a time.  A type is read by filling the shape of its text:
every part of the shape is read with one level less, and the types of the parts
are put together by the name that heads them (`Applied`).

* `readAt_succ_eq_ok_iff` — what a text is read as, by its shape;
* `depth_le_of_readAt` — a type that is read is within the limit.
-/

namespace TypeFlow

namespace Ty

/-! ## names applied to arguments -/

/-- What a name makes of its arguments. -/
inductive Applied : String → List Ty → Ty → Prop where
  | optional (t : Ty) : Applied "Optional" [t] (.optional t)
  | union {alts : List Ty} (hne : alts ≠ []) : Applied "Union" alts (.union alts)
  | generic {n : String} {args : List Ty} (ho : n ≠ "Optional") (hu : n ≠ "Union") :
      Applied n args (.generic n args)

/-- A name is applied to arguments as `Applied` says, and refused where that says
nothing. -/
theorem ofGeneric_eq_ok_iff {text : Text} {base : String} {args : List Ty} {t : Ty} :
    ofGeneric text base args = .ok t ↔ Applied base args t := by
  constructor
  · intro h
    unfold ofGeneric at h
    by_cases ho : base = "Optional"
    · rw [if_pos ho] at h
      split at h
      · cases h
        rw [ho]
        exact .optional _
      · contradiction
    · rw [if_neg ho] at h
      by_cases hu : base = "Union"
      · rw [if_pos hu] at h
        split at h
        · contradiction
        · cases h
          rw [hu]
          exact .union (by simp)
      · rw [if_neg hu] at h
        cases h
        exact .generic ho hu
  · intro h
    cases h with
    | optional t => rfl
    | union hne =>
        obtain ⟨t, ts, rfl⟩ := List.exists_cons_of_ne_nil hne
        rfl
    | generic ho hu =>
        unfold ofGeneric
        rw [if_neg ho, if_neg hu]

/-- What a name makes of its arguments is one level deeper than they are. -/
theorem Applied.depth_eq {base : String} {args : List Ty} {t : Ty} (h : Applied base args t) :
    t.depth = 1 + depthList args := by
  cases h with
  | optional t => simp [depth, depthList]
  | union _ => rw [depth]
  | generic _ _ => rw [depth]

/-! ## shapes filled with types -/

/-- The type that fills a shape when `reads` says how its parts are read. -/
inductive Fills (reads : Text → Ty → Prop) : Shape → Ty → Prop where
  | atom (n : String) : Fills reads (.atom n) (ofName n)
  | generic {base : String} {args : List (Text × Ty)} {t : Ty} (hargs : ∀ a ∈ args, reads a.1 a.2)
      (happlied : Applied base (args.map Prod.snd) t) :
      Fills reads (.generic base (args.map Prod.fst)) t
  | record {fields : List ((String × Text) × Ty)} (hfields : ∀ f ∈ fields, reads f.1.2 f.2) :
      Fills reads (.struct (fields.map Prod.fst)) (record (fields.map fun f => (f.1.1, f.2)))

/-- A shape is filled by any wider way to read its parts. -/
theorem Fills.mono {reads reads' : Text → Ty → Prop} {shape : Shape} {t : Ty}
    (h : Fills reads shape t) (hreads : ∀ s u, reads s u → reads' s u) : Fills reads' shape t := by
  cases h with
  | atom n => exact .atom n
  | generic hargs happlied => exact .generic (fun a ha => hreads _ _ (hargs a ha)) happlied
  | record hfields => exact .record fun f hf => hreads _ _ (hfields f hf)

/-- A generic is filled argument by argument. -/
theorem Fills.exists_args {reads : Text → Ty → Prop} {base : String} {texts : List Text} {t : Ty}
    (h : Fills reads (.generic base texts) t) :
    ∃ args : List (Text × Ty), args.map Prod.fst = texts ∧ (∀ a ∈ args, reads a.1 a.2) ∧
      Applied base (args.map Prod.snd) t := by
  cases h with
  | generic hargs happlied => exact ⟨_, rfl, hargs, happlied⟩

/-- A record is filled field by field. -/
theorem Fills.exists_fields {reads : Text → Ty → Prop} {texts : List (String × Text)} {t : Ty}
    (h : Fills reads (.struct texts) t) :
    ∃ fields : List ((String × Text) × Ty), fields.map Prod.fst = texts ∧
      (∀ f ∈ fields, reads f.1.2 f.2) ∧ t = Ty.record (fields.map fun f => (f.1.1, f.2)) := by
  cases h with
  | record hfields => exact ⟨_, rfl, hfields, rfl⟩

/-- The fields of a record are read when the types of all of them are. -/
theorem readFields_eq_ok_iff {limit budget : Nat} {texts : List (String × Text)}
    {es : List (String × Ty)} :
    (texts.mapM fun field => do return (field.1, ← readAt limit budget field.2)) = .ok es ↔
      ∃ fields : List ((String × Text) × Ty), texts = fields.map Prod.fst ∧
        es = (fields.map fun f => (f.1.1, f.2)) ∧
        ∀ f ∈ fields, readAt limit budget f.1.2 = .ok f.2 := by
  have hone : ∀ (field : String × Text) (e : String × Ty),
      (do return (field.1, ← readAt limit budget field.2) : Except ReadError (String × Ty)) =
        .ok e ↔ readAt limit budget field.2 = .ok e.2 ∧ e.1 = field.1 := by
    intro field e
    obtain ⟨n, t⟩ := e
    cases readAt limit budget field.2 <;>
      simp [bind, Except.bind, pure, Except.pure, and_comm, eq_comm]
  rw [mapM_eq_ok_iff]
  constructor
  · rintro ⟨ps, hfst, hsnd, hps⟩
    refine ⟨ps.map fun p => (p.1, p.2.2), ?_, ?_, ?_⟩
    · rw [hfst, List.map_map]; rfl
    · rw [hsnd, List.map_map]
      refine List.map_congr_left fun p hp => ?_
      exact Prod.ext ((hone _ _).mp (hps p hp)).2 rfl
    · intro f hf
      obtain ⟨p, hp, rfl⟩ := List.mem_map.mp hf
      exact ((hone _ _).mp (hps p hp)).1
  · rintro ⟨fields, hfst, hsnd, hfields⟩
    refine ⟨fields.map fun f => (f.1, (f.1.1, f.2)), ?_, ?_, ?_⟩
    · rw [hfst, List.map_map]; rfl
    · rw [hsnd, List.map_map]; rfl
    · intro p hp
      obtain ⟨f, hf, rfl⟩ := List.mem_map.mp hp
      exact (hone _ _).mpr ⟨hfields f hf, rfl⟩

/-- **One level of reading**: the shape of the text, filled with what its parts
are read as one level further down. -/
theorem readAt_succ_eq_ok_iff {limit budget : Nat} {text : Text} {t : Ty} :
    readAt limit (budget + 1) text = .ok t ↔
      ∃ shape, Shape.scan text = .ok shape ∧
        Fills (fun s u => readAt limit budget s = .ok u) shape t := by
  rw [readAt, bind_eq_ok_iff]
  refine exists_congr fun shape => and_congr_right fun _ => ?_
  cases shape with
  | atom n =>
      constructor
      · intro h
        cases h
        exact .atom n
      · intro h
        cases h
        rfl
  | generic base texts =>
      simp only [bind_eq_ok_iff, mapM_eq_ok_iff, ofGeneric_eq_ok_iff]
      constructor
      · rintro ⟨ts, ⟨args, rfl, rfl, hread⟩, happlied⟩
        exact .generic hread happlied
      · intro h
        cases h with
        | generic hread happlied => exact ⟨_, ⟨_, rfl, rfl, hread⟩, happlied⟩
  | struct texts =>
      rw [bind_eq_ok_iff]
      simp only [readFields_eq_ok_iff]
      constructor
      · rintro ⟨es, ⟨fields, rfl, rfl, hread⟩, h⟩
        cases h
        exact .record hread
      · intro h
        cases h with
        | record hread => exact ⟨_, ⟨_, rfl, rfl, hread⟩, rfl⟩

/-! ## the depth of what is read -/

theorem depth_ofName (n : String) : (ofName n).depth = 1 := by
  unfold ofName
  cases Scalar.ofName? n <;> rfl

/-- A shape is at most one level deeper than what fills it. -/
theorem Fills.depth_le {reads : Text → Ty → Prop} {shape : Shape} {t : Ty} {budget : Nat}
    (h : Fills reads shape t) (hreads : ∀ s u, reads s u → u.depth ≤ budget) :
    t.depth ≤ budget + 1 := by
  cases h with
  | atom n => rw [depth_ofName]; omega
  | @generic base args _ hargs happlied =>
      have hle : depthList (args.map Prod.snd) ≤ budget := by
        rw [depthList_le_iff]
        intro u hu
        obtain ⟨a, ha, rfl⟩ := List.mem_map.mp hu
        exact hreads a.1 a.2 (hargs a ha)
      rw [happlied.depth_eq]
      omega
  | @record fields hfields =>
      have hle : depthFields (NameMap.ofList (fields.map fun f => (f.1.1, f.2))) ≤ budget := by
        rw [depthFields_le_iff]
        intro e he
        obtain ⟨f, hf, rfl⟩ := List.mem_map.mp (NameMap.mem_of_mem_ofList he)
        exact hreads f.1.2 f.2 (hfields f hf)
      rw [Ty.record, depth]
      omega

/-- A type that is read nests no deeper than there are levels. -/
theorem depth_le_of_readAt {limit budget : Nat} {text : Text} {t : Ty}
    (h : readAt limit budget text = .ok t) : t.depth ≤ budget := by
  induction budget generalizing text t with
  | zero => simp [readAt] at h
  | succ budget ih =>
      obtain ⟨shape, -, hfills⟩ := readAt_succ_eq_ok_iff.mp h
      exact hfills.depth_le fun s u hu => ih hu

end Ty

end TypeFlow
