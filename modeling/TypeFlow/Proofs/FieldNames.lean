import TypeFlow.Boundary.Merge
import TypeFlow.Proofs.RoundTrip

/-!
# TypeFlow.Proofs.FieldNames

Fields that a merge can name.  A merge names a field by a path, in which dots stand
between the names; a record may have a field with a dot in its name, since a name may be
qualified.  So a name without a dot is the path to its field, for every name that the
reader takes.  A name with a dot is a path of several names: it leads through the field
that is named before the first dot, and what the record has under the whole name is not
looked at.

* `Ty.pathNames_of_isName`, `Ty.pathNames_append` — the path that a name is;
* `Ty.follow_record` — the first name of a path into a record;
* `resolve_field_name` — what a merge gives for the name of a field.
-/

namespace TypeFlow

/-! ## names as paths -/

namespace Text

/-- Without a separator there is one part. -/
theorem cutAt_of_not_mem {sep : Char} {s : Text} (h : sep ∉ s) : cutAt sep s = [s] := by
  induction s with
  | nil => rfl
  | cons c s ih =>
      rw [List.mem_cons, not_or] at h
      rw [cutAt, if_neg (Ne.symm h.1), ih h.2]

/-- A text is cut at its first separator. -/
theorem cutAt_append {sep : Char} {s : Text} (h : sep ∉ s) (rest : Text) :
    cutAt sep (s ++ sep :: rest) = s :: cutAt sep rest := by
  induction s with
  | nil => rw [List.nil_append, cutAt, if_pos rfl]
  | cons c s ih =>
      rw [List.mem_cons, not_or] at h
      rw [List.cons_append, cutAt, if_neg (Ne.symm h.1), ih h.2]

/-- What stands before a dot in a name is a name. -/
theorem isName_of_append {first rest : Text} (h : isName (first ++ '.' :: rest) = true) :
    first.isName = true := by
  cases first with
  | nil => simp [isName, isNameStart_dot] at h
  | cons c s =>
      simp only [List.cons_append, isName, List.all_append, Bool.and_eq_true] at h
      simp only [isName, Bool.and_eq_true]
      exact ⟨h.1, h.2.1⟩

end Text

namespace Ty

/-- A name without a dot is a path of one name. -/
theorem pathNames_of_isName {name : Text} (h : name.isName = true) (hdot : '.' ∉ name) :
    pathNames name = [String.ofList name] := by
  simp [pathNames, Text.cutAt_of_not_mem hdot, Text.trim_of_isName h, Text.ne_nil_of_isName h]

/-- A dot ends the first name of a path. -/
theorem pathNames_append {first : Text} (h : first.isName = true) (hdot : '.' ∉ first)
    (rest : Text) : pathNames (first ++ '.' :: rest) = String.ofList first :: pathNames rest := by
  simp [pathNames, Text.cutAt_append hdot, Text.trim_of_isName h, Text.ne_nil_of_isName h]

/-- A path into a record goes on in the field that is named first. -/
theorem follow_record (fields : NameMap Ty) (name : String) (names : List String) :
    follow false (.struct fields) (name :: names) =
      (fields.find? name).bind (follow false · names) := by
  simp only [follow, field?]
  cases fields.find? name <;> rfl

end Ty

/-! ## merges -/

namespace MergeField

/-- A payload that is a record is followed by the names of the path. -/
theorem resolve_of_record {limits : Limits} {f : MergeField} {fields : NameMap Ty}
    (hread : Ty.read limits f.payload.ty = .ok (.struct fields)) :
    f.resolve limits =
      match Ty.follow false (.struct fields) (Ty.pathNames f.path) with
      | some t => .ok t
      | none => .error (f.missingDiagnostic (.ofCategory .mergeFieldUnknown) (.struct fields)) := by
  rw [resolve, hread]
  rfl

/-- **What a merge gives for the name of a field.**  In a payload that is read as a record,
the name of a field without a dot is the path to this field.  A name with a dot is a path
through the field that is named before the dot: where this field is there and the rest of
the path leads on from it, the merge gives what stands at the end, and otherwise it
reports that there is no such field. -/
theorem resolve_field_name {limits : Limits} {payload : Site} {fields : NameMap Ty}
    (hread : Ty.read limits payload.ty = .ok (.struct fields)) {name : String} {t : Ty}
    (hfield : (name, t) ∈ fields) :
    ('.' ∉ name.toList → resolve limits ⟨payload, name.toList⟩ = .ok t) ∧
    ∀ first rest, name.toList = first ++ '.' :: rest → '.' ∉ first →
      resolve limits ⟨payload, name.toList⟩ =
        match (fields.find? (String.ofList first)).bind
            (Ty.follow false · (Ty.pathNames rest)) with
        | some u => .ok u
        | none => .error (missingDiagnostic ⟨payload, name.toList⟩
            (.ofCategory .mergeFieldUnknown) (.struct fields)) := by
  obtain ⟨hreadable, -⟩ := Ty.Readable.of_read hread
  cases hreadable with
  | struct hsorted hnames _ =>
      have hname : Text.isName name.toList = true := hnames (name, t) hfield
      refine ⟨fun hdot => ?_, fun first rest hcut hdot => ?_⟩
      · rw [resolve_of_record hread, Ty.pathNames_of_isName hname hdot, Ty.follow_record,
          String.ofList_toList, NameMap.find?_eq_some_of_mem hsorted hfield]
        rfl
      · have hfirst : Text.isName first = true := Text.isName_of_append (hcut ▸ hname)
        have hpath : Ty.pathNames name.toList = String.ofList first :: Ty.pathNames rest := by
          rw [hcut, Ty.pathNames_append hfirst hdot]
        rw [resolve_of_record hread, hpath, Ty.follow_record]

/-- A record with a name outside ASCII, and with a field that has the name of the path to
another one. -/
theorem read_ambiguous :
    Ty.read ⟨3⟩ "Struct\x7bé:bool,a:Struct\x7bb:string\x7d,a.b:int\x7d".toList =
      .ok (.struct
        [("a", .struct [("b", .scalar .string)]), ("a.b", .scalar .int), ("é", .scalar .bool)]) :=
  eq_ok_of_toOption_eq_some (by decide +kernel)

/-- The name `é` is the path to its field, and `a.b` leads to the field `b` of the field
`a`. -/
theorem resolve_field_name_ambiguous :
    let payload : Site := { ty := "Struct\x7bé:bool,a:Struct\x7bb:string\x7d,a.b:int\x7d".toList }
    resolve ⟨3⟩ ⟨payload, "é".toList⟩ = .ok (.scalar .bool) ∧
      resolve ⟨3⟩ ⟨payload, "a.b".toList⟩ = .ok (.scalar .string) := by
  intro payload
  have hplain := @resolve_field_name ⟨3⟩ payload _ read_ambiguous "é" (.scalar .bool) (by simp)
  have hdivided := @resolve_field_name ⟨3⟩ payload _ read_ambiguous "a.b" (.scalar .int) (by simp)
  exact ⟨hplain.1 (by decide), hdivided.2 ['a'] ['b'] rfl (by decide)⟩

/-- A field with a dot in its name is not what this name leads to. -/
theorem resolve_dotted_field :
    let payload : Site := { ty := "Struct\x7bé:bool,a:Struct\x7bb:string\x7d,a.b:int\x7d".toList }
    ∃ fields, Ty.read ⟨3⟩ payload.ty = .ok (.struct fields) ∧
      ("a.b", .scalar .int) ∈ fields ∧
      resolve ⟨3⟩ ⟨payload, "a.b".toList⟩ ≠ .ok (.scalar .int) := by
  intro payload
  have hresolve := @resolve_of_record ⟨3⟩ ⟨payload, "a.b".toList⟩ _ read_ambiguous
  refine ⟨_, read_ambiguous, by simp, ?_⟩
  rw [hresolve]
  nofun

end MergeField

end TypeFlow
