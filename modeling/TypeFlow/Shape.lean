import TypeFlow.ReadError
import TypeFlow.Text.Name

/-!
# TypeFlow.Shape

The outermost level of a type text, with the texts of its parts unread:

* an atom, which is a name or one quoted part;
* a generic `base<…>` and the texts of its arguments;
* a record `Struct{…}` and the names and texts of its fields, as written.

`Shape.scan` finds the shape or says what is wrong at this level. Faults of
the nesting are complaints about the whole text; what stands inside the parts
is not looked at beyond its brackets and quotes.
-/

namespace TypeFlow

namespace Text

/-- The pieces of a text between the commas outside of all brackets and
quotes, each trimmed. -/
def split (s : Text) : Except ReadError (List Text) :=
  match Nest.top.pieces s with
  | .ok ps => .ok (ps.map trim)
  | .error f => .error (f.of s)

end Text

/-- The outermost level of a type text. -/
inductive Shape where
  | atom (name : String)
  | generic (base : String) (args : List Text)
  | struct (fields : List (String × Text))
  deriving DecidableEq, Repr

namespace Shape

/-! ## brackets that hold the rest of the text -/

/-- What an opening bracket encloses, when `rest` follows it and its closing
bracket is the last character of the whole text. -/
def body (whole : Text) (b : Bracket) (rest : Text) : Except ReadError Text :=
  match (Nest.opened b).enclosed rest with
  | .error f => .error (f.of whole)
  | .ok (inner, []) => .ok inner
  | .ok (_, _ :: _) => .error (.unbalanced whole)

/-- The comma-separated parts of what a bracket encloses; a blank inside has
none. -/
def parts (inner : Text) : Except ReadError (List Text) :=
  if inner.trim = [] then .ok [] else inner.split

/-! ## atoms -/

/-- A text that starts with the quote `q`, followed by `rest`. -/
def ofQuoted (whole : Text) (q : Quote) (rest : Text) : Except ReadError Shape :=
  match (Nest.quoted q).enclosed rest with
  | .error f => .error (f.of whole)
  | .ok (_, []) => .ok (.atom (String.ofList whole))
  | .ok (_, _ :: _) => .error (.invalidName whole)

/-- A text without quotes in front and without opening brackets. -/
def ofWord (whole : Text) : Except ReadError Shape :=
  if whole.any isClosing then .error (.unbalanced whole)
  else if whole.isName then .ok (.atom (String.ofList whole))
  else .error (.invalidName whole)

/-! ## records -/

/-- What follows the opening brace of a record. -/
def recordRest? (s : Text) : Option Text :=
  match Text.after? ['S', 't', 'r', 'u', 'c', 't'] s with
  | none => none
  | some rest => Text.after? ['\x7b'] rest.trimStart

/-- A field `name:type`, cut at its first colon. -/
def field (whole segment : Text) : Except ReadError (String × Text) :=
  match segment.breakAt (· == ':') with
  | (_, []) => .error (.invalidField segment)
  | (name, _ :: ty) =>
    if name.trim.isName = false then .error (.invalidField segment)
    else if Text.trim ty = [] then .error (.emptyArgument whole)
    else .ok (String.ofList name.trim, Text.trim ty)

/-- Fields in the order they are written; no name may come twice. `seen` are
the names that came before. -/
def fields (whole : Text) : List String → List Text → Except ReadError (List (String × Text))
  | _, [] => .ok []
  | seen, segment :: rest => do
    let (name, ty) ← field whole segment
    if name ∈ seen then
      .error (.duplicateField name)
    else
      return (name, ty) :: (← fields whole (name :: seen) rest)

/-- A record, when `rest` follows its opening brace. -/
def ofRecord (whole rest : Text) : Except ReadError Shape := do
  let inner ← body whole .brace rest
  let segments ← parts inner
  return .struct (← fields whole [] segments)

/-! ## generics -/

/-- A generic, when `rest` follows the angle bracket after `base`. -/
def ofGeneric (whole base rest : Text) : Except ReadError Shape :=
  if base = [] then .error (.emptyBase whole)
  else if base.isName = false then .error (.invalidName base)
  else do
    let inner ← body whole .angle rest
    let args ← parts inner
    if [] ∈ args then
      .error (.emptyArgument whole)
    else
      return .generic (String.ofList base) args

/-- A text that is no quoted part and no record: what stands before its first
opening bracket is the base of a generic. -/
def ofPlain (whole : Text) : Except ReadError Shape :=
  match whole.breakAt isOpening with
  | (_, []) => ofWord whole
  | (base, c :: rest) =>
    if c = '<' then ofGeneric whole base.trim rest else .error (.invalidName whole)

/-! ## scanning -/

/-- The shape of a text without blanks around it. -/
def ofTrimmed (s : Text) : Except ReadError Shape :=
  match s with
  | [] => .error .empty
  | c :: rest =>
    match Quote.ofChar? c with
    | some q => ofQuoted s q rest
    | none =>
      match recordRest? s with
      | some rest => ofRecord s rest
      | none => ofPlain s

/-- The outermost level of a type text. -/
def scan (text : Text) : Except ReadError Shape := ofTrimmed text.trim

/-- The base and the arguments, if the text is a generic. -/
def generic? (text : Text) : Option (String × List Text) :=
  match scan text with
  | .ok (.generic base args) => some (base, args)
  | _ => none

/-- The fields, if the text is a record. -/
def struct? (text : Text) : Option (List (String × Text)) :=
  match scan text with
  | .ok (.struct fields) => some fields
  | _ => none

/-- Blanks around a text do not matter. -/
@[simp] theorem scan_trim (text : Text) : scan text.trim = scan text := by
  simp [scan]

end Shape

end TypeFlow
