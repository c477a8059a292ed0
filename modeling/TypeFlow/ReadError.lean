import TypeFlow.Text.Nesting

/-!
# TypeFlow.ReadError

Why a type text could not be read, and the wording of each cause.
-/

namespace TypeFlow

/-- A traversal went past the nesting limit. -/
structure TooDeep where
  limit : Nat
  deriving DecidableEq, Repr

/-- Why a type text could not be read. The text that a cause carries is the
part it complains about. -/
inductive ReadError where
  | empty
  | unbalanced (text : Text)
  | openQuote (text : Text)
  | emptyBase (text : Text)
  | emptyArgument (text : Text)
  | optionalArity (found : Nat)
  | invalidField (field : Text)
  | duplicateField (name : String)
  | invalidName (name : Text)
  | tooDeep (limit : Nat)
  deriving DecidableEq, Repr

/-- A fault of the nesting of `text`. -/
def Fault.of (text : Text) : Fault → ReadError
  | .unbalanced => .unbalanced text
  | .openQuote => .openQuote text

/-- Passing the nesting limit, as a reason not to read a text. -/
def TooDeep.toReadError (e : TooDeep) : ReadError := .tooDeep e.limit

namespace ReadError

/-- A text between the marks that set it off in a message. -/
def ticked (text : Text) : String := "`" ++ String.ofList text ++ "`"

/-- The cause in words. -/
def message : ReadError → String
  | empty => "empty type"
  | unbalanced t => "unbalanced brackets in " ++ ticked t
  | openQuote t => "unterminated quote in " ++ ticked t
  | emptyBase t => "missing generic base name in " ++ ticked t
  | emptyArgument t => "empty type argument in " ++ ticked t
  | optionalArity n => "`Optional` takes exactly one type argument, found " ++ toString n
  | invalidField f => "malformed struct field " ++ ticked f
  | duplicateField n => "duplicate struct field `" ++ n ++ "`"
  | invalidName n => "invalid type name " ++ ticked n
  | tooDeep l => "type nesting exceeds the depth limit of " ++ toString l

end ReadError

end TypeFlow
