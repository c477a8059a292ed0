import TypeFlow.Text.Ranges
import TypeFlow.Text.Blank
import TypeFlow.Text.Letter
import TypeFlow.Text.Numeral
import TypeFlow.Text.Name
import TypeFlow.Text.Nesting
import TypeFlow.NameMap
import TypeFlow.Report.Datum
import TypeFlow.ReadError
import TypeFlow.Limits
import TypeFlow.Scalar
import TypeFlow.Ty.Basic
import TypeFlow.Ty.Print
import TypeFlow.Ty.Ref
import TypeFlow.Shape
import TypeFlow.Ty.Read
import TypeFlow.Ty.Field
import TypeFlow.Compatible
import TypeFlow.Arity.Mismatch
import TypeFlow.Arity.Locate
import TypeFlow.Flow
import TypeFlow.Subst
import TypeFlow.Unify.Step
import TypeFlow.Unify.Run
import TypeFlow.Unify.Unifier
import TypeFlow.Report.Category
import TypeFlow.Report.Diagnostic
import TypeFlow.Unify.Texts
import TypeFlow.Boundary.Site
import TypeFlow.Boundary.Call
import TypeFlow.Boundary.Return
import TypeFlow.Boundary.Assignment
import TypeFlow.Boundary.Edge
import TypeFlow.Boundary.Merge
import TypeFlow.Boundary.Signature
import TypeFlow.Sample
import TypeFlow.Proofs.Nesting
import TypeFlow.Proofs.Outline
import TypeFlow.Proofs.Levels
import TypeFlow.Proofs.Grammar
import TypeFlow.Proofs.RoundTrip
import TypeFlow.Proofs.Search
import TypeFlow.Proofs.Similar
import TypeFlow.Proofs.Unification
import TypeFlow.Proofs.Walks
import TypeFlow.Proofs.Flows
import TypeFlow.Proofs.Matching
import TypeFlow.Proofs.Variance
import TypeFlow.Proofs.Rejection
import TypeFlow.Proofs.Deepening
import TypeFlow.Proofs.Routes
import TypeFlow.Proofs.Comparison
import TypeFlow.Proofs.FlowDepth
import TypeFlow.Proofs.Payloads
import TypeFlow.Proofs.CallOrder
import TypeFlow.Proofs.Trace
import TypeFlow.Proofs.Meetings
import TypeFlow.Proofs.Wildcards
import TypeFlow.Proofs.Boundaries
import TypeFlow.Proofs.Acceptance
import TypeFlow.Proofs.Spelling
import TypeFlow.Proofs.Shortcut
import TypeFlow.Proofs.Absence
import TypeFlow.Proofs.Paths
import TypeFlow.Proofs.Mirror
import TypeFlow.Proofs.FieldNames
import TypeFlow.Proofs.CallReport
import TypeFlow.Proofs.Buried
import TypeFlow.Proofs.Exchange
import TypeFlow.Proofs.FieldOrder
import TypeFlow.Proofs.Wrappers
import TypeFlow.Proofs.Indexing
import TypeFlow.Proofs.Segments
import TypeFlow.Proofs.Bytewise
