import StoreQuery.CommandLine.Arguments
import StoreQuery.CommandLine.Run
import StoreQuery.Condition.Basic
import StoreQuery.Condition.Builder
import StoreQuery.Condition.Compiler
import StoreQuery.Condition.Filter
import StoreQuery.Condition.Json
import StoreQuery.Condition.Search
import StoreQuery.Config.Basic
import StoreQuery.Config.Builder
import StoreQuery.Config.Decode
import StoreQuery.Dict
import StoreQuery.Document.Cursor
import StoreQuery.Document.Filter
import StoreQuery.Document.Model
import StoreQuery.Error
import StoreQuery.Json.Basic
import StoreQuery.Json.Fields
import StoreQuery.Json.Read
import StoreQuery.Json.Text
import StoreQuery.KeyValue.Attribute
import StoreQuery.KeyValue.Compile
import StoreQuery.KeyValue.Query
import StoreQuery.KeyValue.Store
import StoreQuery.Main
import StoreQuery.Memory.Lookup
import StoreQuery.Memory.Predicate
import StoreQuery.Memory.Query
import StoreQuery.Number.Double
import StoreQuery.Number.Shortest
import StoreQuery.Number.Text
import StoreQuery.Operator
import StoreQuery.Path
import StoreQuery.Proofs.Condition.Growth
import StoreQuery.Proofs.Condition.Meaning
import StoreQuery.Proofs.KeyValue.Classification
import StoreQuery.Proofs.KeyValue.Expression
import StoreQuery.Proofs.KeyValue.Keys
import StoreQuery.Proofs.KeyValue.Tokens
import StoreQuery.Proofs.KeyValue.Walk
import StoreQuery.Proofs.Memory.Allowlist
import StoreQuery.Proofs.Memory.Reading
import StoreQuery.Proofs.Search.Clause
import StoreQuery.Proofs.Search.Formula
import StoreQuery.Proofs.Search.Leaves
import StoreQuery.Proofs.Search.Meaning
import StoreQuery.Proofs.Search.Separate
import StoreQuery.Proofs.Search.Steps
import StoreQuery.Proofs.Success
import StoreQuery.Proofs.Text.Numbered
import StoreQuery.Proofs.Text.Split
import StoreQuery.Request.Basic
import StoreQuery.Request.Page
import StoreQuery.Request.Params
import StoreQuery.Request.Restrict
import StoreQuery.Scalar
import StoreQuery.Sql.Build
import StoreQuery.Sql.Query
import StoreQuery.Sql.Registry
import StoreQuery.Sql.Store
import StoreQuery.Text.CaseTable
import StoreQuery.Text.Lower
import StoreQuery.Text.Numbered
import StoreQuery.Text.Split
import StoreQuery.Time.Timestamp
import StoreQuery.Yaml.Cell
import StoreQuery.Yaml.Node
import StoreQuery.Yaml.Scalar
import StoreQuery.Yaml.Tag
import StoreQuery.Yaml.Token
import StoreQuery.Proofs.Condition.Alike
import StoreQuery.Proofs.Condition.Truth
import StoreQuery.Proofs.Condition.Compiling
import StoreQuery.Proofs.Sql.Values
import StoreQuery.Proofs.Condition.Calls
import StoreQuery.Proofs.Memory.Forced
import StoreQuery.Proofs.Search.Items
import StoreQuery.Proofs.Search.Names
import StoreQuery.Proofs.Document.Keys
import StoreQuery.Proofs.KeyValue.Formula
import StoreQuery.Proofs.KeyValue.Lexical
import StoreQuery.Proofs.KeyValue.Meaning
import StoreQuery.Proofs.KeyValue.Remainder
import StoreQuery.Proofs.KeyValue.FilterText
import StoreQuery.Proofs.KeyValue.Values
import StoreQuery.Proofs.KeyValue.Vocabulary
import StoreQuery.Proofs.Sql.Identifiers
import StoreQuery.Proofs.Memory.Pages
import StoreQuery.Proofs.Sql.Stages
import StoreQuery.Proofs.Sql.Joins
import StoreQuery.Proofs.Sql.Qualifiers
import StoreQuery.Proofs.Condition.Links
import StoreQuery.Proofs.Condition.Insertions
import StoreQuery.Proofs.Search.Sessions
import StoreQuery.Proofs.Request.Outcome
import StoreQuery.Proofs.Search.Agreement
import StoreQuery.Proofs.Sql.Placeholders
import StoreQuery.Proofs.Sql.Parameters
import StoreQuery.Proofs.Sql.BaseParameters
import StoreQuery.Proofs.KeyValue.Occurrences
import StoreQuery.Proofs.KeyValue.Registrations
import StoreQuery.Proofs.KeyValue.Uses
import StoreQuery.Proofs.KeyValue.Writing
import StoreQuery.Proofs.KeyValue.Bindings
import StoreQuery.Proofs.KeyValue.Counting
import StoreQuery.Proofs.Store.Journal
import StoreQuery.Proofs.Store.Failures
import StoreQuery.Proofs.Store.FirstRow
import StoreQuery.Proofs.Condition.Commuting
import StoreQuery.Proofs.KeyValue.Calls
import StoreQuery.Proofs.KeyValue.Positions
import StoreQuery.Proofs.KeyValue.Caps
import StoreQuery.Proofs.KeyValue.Totals
import StoreQuery.Proofs.Condition.Normal
import StoreQuery.Proofs.Store.Brackets
import StoreQuery.Proofs.Sql.Reading
import StoreQuery.Proofs.Sql.Structure
import StoreQuery.Proofs.Condition.Faults
import StoreQuery.Proofs.Document.Faults
import StoreQuery.Proofs.Document.Meaning
import StoreQuery.Proofs.KeyValue.Faults
import StoreQuery.Proofs.Store.Rejections
import StoreQuery.Proofs.KeyValue.Modes
import StoreQuery.Proofs.Request.Stored
import StoreQuery.Proofs.Memory.Sorting
import StoreQuery.Proofs.Number.Rounding
import StoreQuery.Proofs.Memory.Wholes
import StoreQuery.Proofs.Request.Shape
import StoreQuery.Proofs.Sql.Patterns
import StoreQuery.Proofs.Sql.Selections
import StoreQuery.Proofs.Memory.Membership
import StoreQuery.Proofs.Memory.LetterCase
import StoreQuery.Proofs.Request.Canonical
import StoreQuery.Proofs.KeyValue.Marshalling
import StoreQuery.Proofs.Condition.Retained
import StoreQuery.Proofs.Memory.Lookup
import StoreQuery.Proofs.Request.Allowed
import StoreQuery.Proofs.Memory.Projection
import StoreQuery.Proofs.Config.Order
import StoreQuery.Proofs.Json.Properties
import StoreQuery.Proofs.Memory.Entity
import StoreQuery.Proofs.Config.Valid
import StoreQuery.Proofs.Request.Collecting
import StoreQuery.Proofs.Number.Word
import StoreQuery.Proofs.CommandLine.Limits
import StoreQuery.Proofs.KeyValue.Parts
import StoreQuery.Proofs.Sql.Following
import StoreQuery.Proofs.Time.Calendar
import StoreQuery.Proofs.Time.Written
import StoreQuery.Proofs.Memory.Dates
import StoreQuery.Proofs.KeyValue.ReadBack
import StoreQuery.Proofs.Search.Grammar
import StoreQuery.Proofs.Request.PathTexts
