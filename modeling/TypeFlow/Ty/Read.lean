import TypeFlow.Limits
import TypeFlow.Shape
import TypeFlow.Ty.Ref

/-!
# TypeFlow.Ty.Read

Reading a type from its text: the shape of the text, then the types of its
parts, each one level deeper. The depth is checked before a text is looked
at, and the number of arguments of `Optional` and `Union` after the arguments
have been read.

Main statement: `read_trim`, blanks around a text do not matter.
-/

namespace TypeFlow

namespace Ty

/-- The type `base<args>`; `text` is where it was read. -/
def ofGeneric (text : Text) (base : String) (args : List Ty) : Except ReadError Ty :=
  if base = "Optional" then
    match args with
    | [t] => .ok (.optional t)
    | _ => .error (.optionalArity args.length)
  else if base = "Union" then
    match args with
    | [] => .error (.emptyArgument text.trim)
    | _ :: _ => .ok (.union args)
  else
    .ok (.generic base args)

/-- The type of a text with `budget` levels left. -/
def readAt (limit : Nat) (budget : Nat) (text : Text) : Except ReadError Ty :=
  match budget with
  | 0 => .error (.tooDeep limit)
  | budget + 1 => do
    match ← Shape.scan text with
    | .atom name => return ofName name
    | .generic base args =>
      let args ← args.mapM fun arg => readAt limit budget arg
      ofGeneric text base args
    | .struct fields =>
      let fields ← fields.mapM fun field => do
        return (field.1, ← readAt limit budget field.2)
      return record fields

/-- The type of a text. -/
def read (limits : Limits) (text : Text) : Except ReadError Ty :=
  readAt limits.maxDepth limits.maxDepth text

/-- Blanks around a text do not matter, not even to what is complained
about. -/
@[simp] theorem readAt_trim (limit budget : Nat) (text : Text) :
    readAt limit budget text.trim = readAt limit budget text := by
  cases budget <;> simp [readAt, ofGeneric]

@[simp] theorem read_trim (limits : Limits) (text : Text) :
    read limits text.trim = read limits text :=
  readAt_trim _ _ text

end Ty

namespace TyRef

/-- The text after `word` and the blanks behind it, with whether it was
there. -/
def modifier (word s : Text) : Bool × Text :=
  match Text.after? word s with
  | some rest => (true, rest.trimStart)
  | none => (false, s)

/-- A type with modifiers from its text. -/
def read (limits : Limits) (text : Text) : Except ReadError TyRef := do
  let (pointer, rest) := modifier ['*'] text.trim
  let (slice, rest) := modifier ['[', ']'] rest
  return { pointer, slice, ty := ← Ty.read limits rest }

end TyRef

end TypeFlow
