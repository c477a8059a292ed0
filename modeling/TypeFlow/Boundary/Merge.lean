import TypeFlow.Boundary.Site
import TypeFlow.Ty.Field

/-!
# TypeFlow.Boundary.Merge

Checking the field that a merge step names in the payloads it merges: the
field has to be there and, where the merge sorts by it, its values need an
order.
-/

namespace TypeFlow

/-- A field of the payloads of a merge, named by a dotted path. -/
structure MergeField where
  payload : Site
  path : Text

namespace MergeField

/-- A payload type that cannot be read. -/
def unreadableDiagnostic (f : MergeField) (cause : ReadError) : Diagnostic :=
  let d : Diagnostic := { category := .typeSyntax, message := cause.message }
  (d.withData "type" (.text f.payload.ty)).placed f.payload.position

/-- A field that a payload of type `root` does not have. -/
def missingDiagnostic (f : MergeField) (d : Diagnostic) (root : Ty) : Diagnostic :=
  let d := (d.withData "field" (.text f.path)).withData "type" (.str root.render)
  d.placed f.payload.position

/-- The field of a payload of type `root`. -/
def resolveIn (f : MergeField) (root : Ty) : Except Diagnostic Ty :=
  match root.payload with
  | .scalar _ =>
    let message := "cannot reference field on Event<primitive> payload"
    .error (f.missingDiagnostic { category := .mergeFieldOnPrimitive, message } root)
  | _ =>
    match root.resolve? f.path with
    | some t => .ok t
    | none => .error (f.missingDiagnostic (.ofCategory .mergeFieldUnknown) root)

/-- The type of the field. -/
def resolve (limits : Limits) (f : MergeField) : Except Diagnostic Ty :=
  match Ty.read limits f.payload.ty with
  | .error cause => .error (f.unreadableDiagnostic cause)
  | .ok root => f.resolveIn root

/-- A field whose values have no order. -/
def unorderableDiagnostic (f : MergeField) (t : Ty) : Diagnostic :=
  let d := (Diagnostic.ofCategory .mergeFieldUnorderable).withData "field" (.text f.path)
  (d.withData "fieldType" (.str t.render)).placed f.payload.position

/-- The type of the field as a key to sort by. -/
def sortKey (limits : Limits) (f : MergeField) : Except Diagnostic Ty := do
  let t ← f.resolve limits
  if t.isOrderable then return t else .error (f.unorderableDiagnostic t)

end MergeField

end TypeFlow
