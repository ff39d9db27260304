import SearchCompiler.Assoc
import SearchCompiler.Clause.Aggs
import SearchCompiler.Clause.Basic
import SearchCompiler.Clause.BoolGroup
import SearchCompiler.Clause.Error
import SearchCompiler.Clause.Field
import SearchCompiler.Clause.Highlight
import SearchCompiler.Clause.Kind
import SearchCompiler.Clause.MinimumShouldMatch
import SearchCompiler.Clause.Params
import SearchCompiler.Clause.Registry
import SearchCompiler.Clause.Request
import SearchCompiler.Clause.Terms
import SearchCompiler.Clause.TimeScope
import SearchCompiler.Compile.Error
import SearchCompiler.Compile.Group
import SearchCompiler.Compile.Inverse
import SearchCompiler.Compile.Leaf
import SearchCompiler.Compile.Projection
import SearchCompiler.Compile.Request
import SearchCompiler.Config
import SearchCompiler.Decimal.Layout
import SearchCompiler.Decimal.Parts
import SearchCompiler.Decimal.Read
import SearchCompiler.Decimal.Shortest
import SearchCompiler.Field.Basic
import SearchCompiler.Field.Error
import SearchCompiler.Field.Validate
import SearchCompiler.Json.Basic
import SearchCompiler.Json.Members
import SearchCompiler.Json.Printer
import SearchCompiler.Json.Reader
import SearchCompiler.Numeral
import SearchCompiler.Predicate.Error
import SearchCompiler.Predicate.Expr
import SearchCompiler.Predicate.Grammar
import SearchCompiler.Predicate.Op
import SearchCompiler.Predicate.Tuple
import SearchCompiler.Query.Basic
import SearchCompiler.Query.Binding
import SearchCompiler.Schema.Basic
import SearchCompiler.Schema.Record
import SearchCompiler.SortOrder
import SearchCompiler.Statement.Basic
import SearchCompiler.Statement.OrderBy
import SearchCompiler.Text.Blank
import SearchCompiler.Text.Case
import SearchCompiler.Text.Case.Table
import SearchCompiler.Text.DecimalDigit
import SearchCompiler.Time.Bound
import SearchCompiler.Time.Date
import SearchCompiler.Time.DateTime
import SearchCompiler.Time.Moment
import SearchCompiler.Time.Pattern
import SearchCompiler.Time.Span
import SearchCompiler.Value.Basic
import SearchCompiler.Value.Tagged
import SearchCompiler.Version
import SearchCompiler.Zone.Basic
import SearchCompiler.Proofs.Assoc.Sorted
import SearchCompiler.Proofs.Clause.AggsCalls
import SearchCompiler.Proofs.Clause.Construct
import SearchCompiler.Proofs.Clause.GroupCalls
import SearchCompiler.Proofs.Clause.RequestCalls
import SearchCompiler.Proofs.Clause.Root
import SearchCompiler.Proofs.Clause.TimeWindow
import SearchCompiler.Proofs.Clause.Writes
import SearchCompiler.Proofs.Decimal.Sign
import SearchCompiler.Proofs.Decimal.Whole
import SearchCompiler.Proofs.Field.Conforms
import SearchCompiler.Proofs.Field.Idempotent
import SearchCompiler.Proofs.Field.Members
import SearchCompiler.Proofs.Field.Scalars
import SearchCompiler.Proofs.Field.Source
import SearchCompiler.Proofs.Field.Spelled
import SearchCompiler.Proofs.Group.Depth
import SearchCompiler.Proofs.Group.Flat
import SearchCompiler.Proofs.Group.Items
import SearchCompiler.Proofs.Group.Joined
import SearchCompiler.Proofs.Group.Meaning
import SearchCompiler.Proofs.Group.Outline
import SearchCompiler.Proofs.Group.Versions
import SearchCompiler.Proofs.Group.Walk
import SearchCompiler.Proofs.Json.Canonical
import SearchCompiler.Proofs.Leaf.Bound
import SearchCompiler.Proofs.Leaf.Clause
import SearchCompiler.Proofs.Leaf.Exact
import SearchCompiler.Proofs.Leaf.Finite
import SearchCompiler.Proofs.Leaf.Fraction
import SearchCompiler.Proofs.Leaf.Integers
import SearchCompiler.Proofs.Leaf.Inverse
import SearchCompiler.Proofs.Leaf.Listed
import SearchCompiler.Proofs.Leaf.Membership
import SearchCompiler.Proofs.Leaf.Moved
import SearchCompiler.Proofs.Leaf.Validated
import SearchCompiler.Proofs.Leaf.Versions
import SearchCompiler.Proofs.Predicate.Aggregation
import SearchCompiler.Proofs.Predicate.Condition
import SearchCompiler.Proofs.Predicate.Selection
import SearchCompiler.Proofs.Query.Conjunction
import SearchCompiler.Proofs.Query.Ordering
import SearchCompiler.Proofs.Query.Page
import SearchCompiler.Proofs.Rebuild.Additions
import SearchCompiler.Proofs.Rebuild.Clause
import SearchCompiler.Proofs.Rebuild.Entries
import SearchCompiler.Proofs.Rebuild.Group
import SearchCompiler.Proofs.Rebuild.Normal
import SearchCompiler.Proofs.Rebuild.Predicate
import SearchCompiler.Proofs.Rebuild.Request
import SearchCompiler.Proofs.Rebuild.SingleClause
import SearchCompiler.Proofs.Request.Buckets
import SearchCompiler.Proofs.Request.Columns
import SearchCompiler.Proofs.Request.Members
import SearchCompiler.Proofs.Request.Ordering
import SearchCompiler.Proofs.Request.Versions
import SearchCompiler.Proofs.Schema.Declarations
import SearchCompiler.Proofs.Schema.Inheritance
import SearchCompiler.Proofs.Schema.Lookup
import SearchCompiler.Proofs.Schema.Names
import SearchCompiler.Proofs.Schema.RecordCalls
import SearchCompiler.Proofs.Statement.Insertions
import SearchCompiler.Proofs.Text.Blank
import SearchCompiler.Proofs.Text.Numeral
import SearchCompiler.Proofs.Text.Pieces
import SearchCompiler.Proofs.Time.Calendar
import SearchCompiler.Proofs.Time.Clock
import SearchCompiler.Proofs.Time.Dashed
import SearchCompiler.Proofs.Time.Reading
import SearchCompiler.Proofs.Time.Relative
import SearchCompiler.Proofs.Time.Spelling
import SearchCompiler.Proofs.Time.UtcForm
import SearchCompiler.Proofs.Zone.Minutes
import SearchCompiler.Proofs.Zone.Offset
import SearchCompiler.Proofs.Zone.Reading
