import DocQuery.Calendar
import DocQuery.Double
import DocQuery.Double.Decimal
import DocQuery.Double.Elementary
import DocQuery.Double.Reader
import DocQuery.Expr
import DocQuery.Fault
import DocQuery.Fields
import DocQuery.Fields.Edit
import DocQuery.Filter
import DocQuery.Filter.Reader
import DocQuery.Filter.Test
import DocQuery.Find
import DocQuery.Find.Options
import DocQuery.Instant
import DocQuery.Instant.Printer
import DocQuery.Instant.Reader
import DocQuery.Instant.Timezone
import DocQuery.Json
import DocQuery.Json.Parser
import DocQuery.Json.Printer
import DocQuery.Path
import DocQuery.Pattern
import DocQuery.Pattern.Parser
import DocQuery.Pipeline
import DocQuery.Proofs.Checked
import DocQuery.Proofs.Double.Code
import DocQuery.Proofs.Double.Shortest
import DocQuery.Proofs.Double.Text
import DocQuery.Proofs.Stage.Group
import DocQuery.Proofs.Stage.Identity
import DocQuery.Proofs.Text.Digits
import DocQuery.Proofs.Text.Quoted
import DocQuery.Proofs.Value.Induction
import DocQuery.Proofs.Value.Key
import DocQuery.Proofs.Value.Millis
import DocQuery.Proofs.Value.Order
import DocQuery.Proofs.Worth
import DocQuery.Query
import DocQuery.Schema
import DocQuery.Stage
import DocQuery.Text.Numeral
import DocQuery.Text.Quoted
import DocQuery.Text.Search
import DocQuery.Unicode.Case
import DocQuery.Value
import DocQuery.Value.Json
import DocQuery.Value.Key
import DocQuery.Value.Order
import DocQuery.Value.Type
import DocQuery.Proofs.Checked.Related
import DocQuery.Proofs.Value.WellFormed
import DocQuery.Proofs.Expr.Discipline
import DocQuery.Proofs.Expr.Scalars
import DocQuery.Proofs.Expr.Collections
import DocQuery.Proofs.Expr.Named
import DocQuery.Proofs.Expr.Control
import DocQuery.Proofs.Expr.Evaluation
import DocQuery.Proofs.Expr.Form
import DocQuery.Proofs.Expr.Mention
import DocQuery.Proofs.Expr.WellFormed
import DocQuery.Proofs.Filter.Parts
import DocQuery.Proofs.Filter.Check
import DocQuery.Proofs.Filter.Faults
import DocQuery.Proofs.Stage.WellFormed
import DocQuery.Proofs.Stage.Documents
import DocQuery.Proofs.Pipeline.Documents
import DocQuery.Proofs.Filter.Algebra
import DocQuery.Proofs.Filter.Gaps
import DocQuery.Proofs.Filter.Spread
import DocQuery.Proofs.Value.Recoded
import DocQuery.Proofs.Filter.Recoded
import DocQuery.Proofs.Path.Walk
import DocQuery.Proofs.Filter.Comparison
import DocQuery.Proofs.Stage.Sort
import DocQuery.Proofs.Pipeline.Composition
import DocQuery.Proofs.Find
import DocQuery.Proofs.Find.Pages
import DocQuery.Proofs.Path.Prefix
import DocQuery.Proofs.Find.Sort
import DocQuery.Proofs.Calendar
import DocQuery.Proofs.Instant.Text
import DocQuery.Proofs.Json.Proper
import DocQuery.Proofs.Value.Json
import DocQuery.Proofs.Json.Normal
import DocQuery.Proofs.Stage.Limits
import DocQuery.Proofs.Pipeline.Limits
import DocQuery.Proofs.Pipeline.Matching
import DocQuery.Proofs.Path.Set
import DocQuery.Proofs.Path.Reached
import DocQuery.Proofs.Path.Beside
import DocQuery.Proofs.Path.Written
import DocQuery.Proofs.Stage.Unwind
import DocQuery.Proofs.Fields.Adjust
import DocQuery.Proofs.Path.Remove
import DocQuery.Proofs.Expr.Kept
import DocQuery.Proofs.Stage.Field
import DocQuery.Proofs.Stage.Projection
import DocQuery.Proofs.Pipeline.Projecting
import DocQuery.Proofs.Pipeline.Regrouping
import DocQuery.Proofs.Expr.Folds
import DocQuery.Proofs.Path.Removed
import DocQuery.Proofs.Path.Copied
import DocQuery.Proofs.Fields.Names
import DocQuery.Proofs.Path.Copies
import DocQuery.Proofs.Stage.Reprojection
import DocQuery.Proofs.Stage.Computed
import DocQuery.Proofs.Filter.Membership
import DocQuery.Proofs.Filter.Range
import DocQuery.Proofs.Value.Exact
import DocQuery.Proofs.Filter.Bits
import DocQuery.Proofs.Double.Nearest
import DocQuery.Proofs.Filter.Remainder
import DocQuery.Proofs.Schema.Bounds
import DocQuery.Proofs.Number.Sum
import DocQuery.Proofs.Pipeline.Extremes
import DocQuery.Proofs.Schema.Groups
import DocQuery.Proofs.Schema.Keywords
import DocQuery.Proofs.Schema.Order
import DocQuery.Proofs.Double.Quotient
import DocQuery.Proofs.Double.Whole
import DocQuery.Proofs.Number.Scaled
import DocQuery.Proofs.Number.Places
import DocQuery.Proofs.Expr.Applied
import DocQuery.Proofs.Items.Range
import DocQuery.Proofs.Items.Slice
import DocQuery.Proofs.Text.Occurrence
import DocQuery.Proofs.Double.Overflow
import DocQuery.Proofs.Number.Finite
import DocQuery.Proofs.Expr.Branches
import DocQuery.Proofs.Records.Pairs
import DocQuery.Proofs.Instant.Conversion
import DocQuery.Proofs.Instant.Shift
import DocQuery.Proofs.Number.Moments
import DocQuery.Proofs.Instant.Timezone
import DocQuery.Proofs.Fields.History
