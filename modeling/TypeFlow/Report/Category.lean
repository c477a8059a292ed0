/-!
# TypeFlow.Report.Category

The categories of diagnostics, with the code that identifies each of them and
a description. `ofCode?_code` says that a category is found by its code, so no
two of them share one.
-/

namespace TypeFlow

/-- What a diagnostic is about. -/
inductive Category where
  /-- A generic has different numbers of arguments on the two sides. -/
  | genericArityMismatch
  /-- A call passes the wrong number of arguments. -/
  | callArityMismatch
  /-- An argument of a call does not fit its parameter. -/
  | callArgTypeMismatch
  /-- Several arguments of one call do not fit. -/
  | callArgsMismatchSummary
  /-- Returned values do not fit the declared results. -/
  | returnTypeMismatch
  /-- An assigned value does not fit its target. -/
  | assignTypeMismatch
  /-- A type is left open. -/
  | typeUninferred
  /-- A payload cannot flow along an edge. -/
  | eventTypeFlow
  /-- A merge field is not there. -/
  | mergeFieldUnknown
  /-- A merge field has no order. -/
  | mergeFieldUnorderable
  /-- A merge field is asked of a scalar. -/
  | mergeFieldOnPrimitive
  /-- A type text cannot be read. -/
  | typeSyntax
  deriving DecidableEq, Repr

namespace Category

/-- All categories. -/
def all : List Category :=
  [genericArityMismatch, callArityMismatch, callArgTypeMismatch, callArgsMismatchSummary,
   returnTypeMismatch, assignTypeMismatch, typeUninferred, eventTypeFlow, mergeFieldUnknown,
   mergeFieldUnorderable, mergeFieldOnPrimitive, typeSyntax]

/-- The code that identifies a category. -/
def code : Category → String
  | genericArityMismatch => "E_GENERIC_ARITY_MISMATCH"
  | callArityMismatch => "E_CALL_ARITY_MISMATCH"
  | callArgTypeMismatch => "E_CALL_ARG_TYPE_MISMATCH"
  | callArgsMismatchSummary => "E_CALL_ARGS_MISMATCH_SUMMARY"
  | returnTypeMismatch => "E_RETURN_TYPE_MISMATCH"
  | assignTypeMismatch => "E_ASSIGN_TYPE_MISMATCH"
  | typeUninferred => "E_TYPE_UNINFERRED"
  | eventTypeFlow => "E_EVENT_TYPE_FLOW"
  | mergeFieldUnknown => "E_MERGE_SORT_FIELD_UNKNOWN"
  | mergeFieldUnorderable => "E_MERGE_SORT_FIELD_UNORDERABLE"
  | mergeFieldOnPrimitive => "E_MERGE_FIELD_ON_PRIMITIVE"
  | typeSyntax => "E_TYPE_SYNTAX"

/-- The category in words. -/
def description : Category → String
  | genericArityMismatch => "generic type argument count mismatch"
  | callArityMismatch => "call arity mismatch"
  | callArgTypeMismatch => "call argument type mismatch"
  | callArgsMismatchSummary => "multiple call arguments mismatch"
  | returnTypeMismatch => "return type mismatch"
  | assignTypeMismatch => "assignment type mismatch"
  | typeUninferred => "unable to infer a concrete type"
  | eventTypeFlow => "event payload type mismatch between upstream output and downstream input"
  | mergeFieldUnknown => "merge field not found in payload"
  | mergeFieldUnorderable => "merge field is not orderable"
  | mergeFieldOnPrimitive => "cannot reference field on a primitive payload"
  | typeSyntax => "malformed type expression"

/-- The category that a code identifies. -/
def ofCode? (code : String) : Option Category := all.find? fun c => c.code == code

/-- Every category is the one that its code identifies. -/
theorem ofCode?_code (c : Category) : ofCode? c.code = some c := by
  cases c <;> decide

end Category

end TypeFlow
