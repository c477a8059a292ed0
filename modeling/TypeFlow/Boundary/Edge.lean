import TypeFlow.Boundary.Site
import TypeFlow.Flow

/-!
# TypeFlow.Boundary.Edge

Checking an edge of a pipeline: the payload that one step produces has to be
one that the next step takes. Texts that cannot be read pass only when they
are equal.
-/

namespace TypeFlow

/-- An edge between two steps of a pipeline. -/
structure Edge where
  producer : Site
  consumer : Site

namespace Edge

/-- A payload that cannot flow along the edge. -/
def diagnostic (e : Edge) : Diagnostic :=
  let d := (Diagnostic.ofCategory .eventTypeFlow).withTypes e.consumer.ty.trim e.producer.ty.trim
  let d := d.withData? "from" (e.producer.name.map .str)
  let d := d.withData? "to" (e.consumer.name.map .str)
  d.placed (e.consumer.position <|> e.producer.position)

/-- What is wrong with an edge. -/
def check (limits : Limits) (e : Edge) : Option Diagnostic :=
  let got := e.producer.ty.trim
  let want := e.consumer.ty.trim
  if got = want then none
  else if e.producer.isWildcard || e.consumer.isWildcard then none
  else if Text.mayFlow limits want got then none
  else some e.diagnostic

end Edge

end TypeFlow
