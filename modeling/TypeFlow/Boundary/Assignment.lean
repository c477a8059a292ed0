import TypeFlow.Boundary.Site
import TypeFlow.Unify.Texts

/-!
# TypeFlow.Boundary.Assignment

Checking the value of an assignment against its target, and finding the type
of a local variable from its annotation and its initializer. A value fits
where the texts are compatible or can be unified.
-/

namespace TypeFlow

/-- Whether a value of type `got` fits where `want` is declared. -/
def Text.accepts (limits : Limits) (want got : Text) : Bool :=
  Text.isCompatible limits want got || Text.canUnify limits want got

namespace Diagnostic

/-- Adds the name of a site, if it has one. -/
def withName (d : Diagnostic) (site : Site) : Diagnostic :=
  d.withData? "name" (site.name.map .str)

end Diagnostic

/-- A value that is put into a target. -/
structure Assignment where
  target : Site
  value : Site

namespace Assignment

/-- What is wrong with the value, without a place. `what` begins the message
on a value of another type. -/
def valueDiagnostic? (limits : Limits) (what : String) (want got : Text) : Option Diagnostic :=
  match Text.locate? limits want got with
  | some found => some (.ofArity want got found)
  | none =>
    if Text.accepts limits want got then none
    else
      let message := what ++ ": " ++ String.ofList want ++ " != " ++ String.ofList got
      let d : Diagnostic := { category := .assignTypeMismatch, message }
      some (d.withTypes want got)

/-- What is wrong with an assignment; open types fit everything. A value
without a place is reported at the target. -/
def checkAs (limits : Limits) (what : String) (a : Assignment) : Option Diagnostic :=
  if a.target.isWildcard || a.value.isWildcard then none
  else
    (valueDiagnostic? limits what a.target.ty a.value.ty).map fun d =>
      (d.withName a.target).placed (a.value.position <|> a.target.position)

/-- What is wrong with an assignment. -/
def check (limits : Limits) (a : Assignment) : Option Diagnostic :=
  a.checkAs limits "assignment type mismatch"

end Assignment

/-! ## local variables -/

/-- The declaration of a local variable. `declared` has no text where there
is no annotation. -/
structure LocalVar where
  declared : Site
  init : Option Site := none

namespace LocalVar

/-- A local whose type is left open. -/
def openDiagnostic (v : LocalVar) (message : String) : Diagnostic :=
  let d : Diagnostic := { category := .typeUninferred, message }
  (d.withName v.declared).placed v.declared.position

/-- The type of a local: its annotation, which the initializer has to fit,
or else the type of the initializer. -/
def infer (limits : Limits) (v : LocalVar) : Except Diagnostic Text :=
  let annotation := v.declared.ty.trim
  match v.init with
  | none =>
    if annotation = [] then
      .error (v.openDiagnostic "variable declaration missing type and initializer")
    else
      .ok annotation
  | some init =>
    if annotation = [] then
      if init.isWildcard then
        .error (v.openDiagnostic "cannot infer variable type from initializer")
      else
        .ok init.ty.trim
    else
      match Assignment.checkAs limits "var init type mismatch" ⟨v.declared, init⟩ with
      | some d => .error d
      | none => .ok annotation

end LocalVar

end TypeFlow
