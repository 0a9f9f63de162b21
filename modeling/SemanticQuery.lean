import SemanticQuery.Binding.Apply
import SemanticQuery.Binding.Build
import SemanticQuery.Binding.Error
import SemanticQuery.Binding.Expand
import SemanticQuery.Binding.Occurrences
import SemanticQuery.Binding.Plan
import SemanticQuery.Binding.SlotIndex
import SemanticQuery.Binding.Store
import SemanticQuery.Catalog
import SemanticQuery.ColumnType
import SemanticQuery.Comparison
import SemanticQuery.Decimal.Shortest
import SemanticQuery.Digest.Sha256
import SemanticQuery.Digits
import SemanticQuery.Event
import SemanticQuery.ExprType
import SemanticQuery.Failure
import SemanticQuery.Fingerprint.Encoding
import SemanticQuery.Interpretation
import SemanticQuery.KeyedList
import SemanticQuery.Kind
import SemanticQuery.Lowering.Error
import SemanticQuery.Lowering.Expr
import SemanticQuery.Lowering.Ledger
import SemanticQuery.Lowering.Predicate
import SemanticQuery.Lowering.Statement
import SemanticQuery.Mapping.Basic
import SemanticQuery.Mapping.Converter
import SemanticQuery.Mapping.Decompose
import SemanticQuery.Mapping.Error
import SemanticQuery.Model.Basic
import SemanticQuery.Model.Resolve
import SemanticQuery.Model.Sample
import SemanticQuery.Path
import SemanticQuery.Precedence
import SemanticQuery.Query.Builder
import SemanticQuery.Query.Copy
import SemanticQuery.Query.Expr
import SemanticQuery.Query.Function
import SemanticQuery.Query.Parameter
import SemanticQuery.Query.Statement
import SemanticQuery.Query.Typing
import SemanticQuery.Request
import SemanticQuery.Session
import SemanticQuery.Settings
import SemanticQuery.Settings.Escape
import SemanticQuery.Settings.Item
import SemanticQuery.Settings.Json
import SemanticQuery.Settings.Load
import SemanticQuery.Settings.Numeral
import SemanticQuery.Settings.Toml.Document
import SemanticQuery.Settings.Toml.Item
import SemanticQuery.Settings.Toml.Layout
import SemanticQuery.Settings.Toml.Moment
import SemanticQuery.Settings.Toml.Text
import SemanticQuery.Sql.Expr
import SemanticQuery.Sql.FromClause
import SemanticQuery.Sql.Result
import SemanticQuery.Sql.Statement
import SemanticQuery.Sql.Text
import SemanticQuery.Value
import SemanticQuery.Value.Text
import SemanticQuery.Proofs.Fingerprint.Decoding
import SemanticQuery.Proofs.KeyedList
import SemanticQuery.Proofs.Outcome
import SemanticQuery.Proofs.Binding.Filling
import SemanticQuery.Proofs.Binding.Build
import SemanticQuery.Proofs.Binding.Occurrences
import SemanticQuery.Proofs.Query.Builder
import SemanticQuery.Proofs.Binding.Expand
import SemanticQuery.Proofs.Binding.History
import SemanticQuery.Proofs.Binding.SlotIndex
import SemanticQuery.Proofs.Sql.Placeholders
import SemanticQuery.Proofs.Lowering.Allocation
import SemanticQuery.Proofs.Lowering.Slots
import SemanticQuery.Proofs.Binding.Coverage
import SemanticQuery.Proofs.Query.Copies
import SemanticQuery.Proofs.Binding.Calls
import SemanticQuery.Proofs.Binding.Execution
import SemanticQuery.Proofs.Query.Bare
import SemanticQuery.Proofs.Query.Numbering
import SemanticQuery.Proofs.Lowering.SideBySide
import SemanticQuery.Proofs.Lowering.Agreement
import SemanticQuery.Proofs.Cache.Builds
import SemanticQuery.Proofs.Cache.Requests
import SemanticQuery.Proofs.Cache.Transparency
import SemanticQuery.Proofs.Binding.Reexpansion
import SemanticQuery.Proofs.Binding.Width
import SemanticQuery.Proofs.Mapping.Columns
import SemanticQuery.Proofs.Binding.OwnTypes
import SemanticQuery.Proofs.Binding.ContextTypes
import SemanticQuery.Proofs.Value.Text
import SemanticQuery.Proofs.Sql.Scanning
import SemanticQuery.Proofs.Sql.Words
import SemanticQuery.Proofs.Lowering.Order
import SemanticQuery.Proofs.Binding.Partition
import SemanticQuery.Proofs.Cache.Accounting
import SemanticQuery.Proofs.Lowering.Selections
import SemanticQuery.Proofs.Lowering.Sources
import SemanticQuery.Proofs.Binding.Unbound
import SemanticQuery.Proofs.Query.Renaming
import SemanticQuery.Proofs.Query.Sharing
import SemanticQuery.Proofs.Query.Resolution
import SemanticQuery.Proofs.Lowering.Queries
import SemanticQuery.Proofs.Cache.Untouched
import SemanticQuery.Proofs.Lowering.Reached
import SemanticQuery.Proofs.Lowering.Coherence
import SemanticQuery.Proofs.Fingerprint.Bare
import SemanticQuery.Proofs.Lowering.PrivateCopy
import SemanticQuery.Proofs.Model.Provision
import SemanticQuery.Proofs.Sql.References
import SemanticQuery.Proofs.Lowering.References
import SemanticQuery.Proofs.Binding.Isolation
import SemanticQuery.Proofs.Lowering.Strictness
import SemanticQuery.Proofs.Sql.Outline
import SemanticQuery.Proofs.Sql.Grouping
import SemanticQuery.Proofs.Binding.Nulls
import SemanticQuery.Proofs.Binding.SingleValue
import SemanticQuery.Proofs.Lowering.Sequences
import SemanticQuery.Proofs.Lowering.Lists
import SemanticQuery.Proofs.Lowering.Opposite
import SemanticQuery.Proofs.Mapping.Components
import SemanticQuery.Proofs.Model.Components
import SemanticQuery.Proofs.Mapping.Verbatim
import SemanticQuery.Proofs.Lowering.ReadBack
import SemanticQuery.Proofs.Lowering.Literals
import SemanticQuery.Proofs.Lowering.InlineRows
import SemanticQuery.Proofs.Lowering.Siblings
import SemanticQuery.Proofs.Lowering.Unhinted
import SemanticQuery.Proofs.Model.Climbing
import SemanticQuery.Proofs.Query.Reach
import SemanticQuery.Proofs.Binding.Recorded
import SemanticQuery.Proofs.Binding.EmptyCollections
import SemanticQuery.Proofs.Binding.Registration
import SemanticQuery.Proofs.Lowering.ReadTables
import SemanticQuery.Proofs.Mapping.Ordinals
import SemanticQuery.Proofs.Path.Dots
import SemanticQuery.Proofs.Lowering.Walk
