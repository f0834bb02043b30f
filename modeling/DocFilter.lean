import DocFilter.Binary64.Basic
import DocFilter.Binary64.Shortest
import DocFilter.Binary64.Text
import DocFilter.Clause.Basic
import DocFilter.Clause.Operand
import DocFilter.CommandLine.Arguments
import DocFilter.CommandLine.Directory
import DocFilter.CommandLine.Report
import DocFilter.CommandLine.Run
import DocFilter.Compile
import DocFilter.Diagnostic
import DocFilter.Document
import DocFilter.Event
import DocFilter.Field
import DocFilter.Json.Basic
import DocFilter.Json.Printer
import DocFilter.Json.Reading
import DocFilter.Json.Token
import DocFilter.Json.Tree
import DocFilter.Main
import DocFilter.NameMap
import DocFilter.Operator
import DocFilter.Options
import DocFilter.Pending.Basic
import DocFilter.Pending.Partition
import DocFilter.Predicate.Basic
import DocFilter.Predicate.Encoding
import DocFilter.Predicate.Outline
import DocFilter.Proofs.Accounting.Document
import DocFilter.Proofs.Accounting.Predicates
import DocFilter.Proofs.Clause.Keys
import DocFilter.Proofs.Clause.Leaves
import DocFilter.Proofs.Clause.Paths
import DocFilter.Proofs.Clause.Scope
import DocFilter.Proofs.Clause.Sound
import DocFilter.Proofs.CommandLine.Comments
import DocFilter.Proofs.Compile.Canonical
import DocFilter.Proofs.Compile.Longhand
import DocFilter.Proofs.Compile.OneLine
import DocFilter.Proofs.Compile.Outcome
import DocFilter.Proofs.Compile.References
import DocFilter.Proofs.Compile.Scoping
import DocFilter.Proofs.Compile.Strictness
import DocFilter.Proofs.Field.Grammar
import DocFilter.Proofs.Field.Resolution
import DocFilter.Proofs.Json.Writing
import DocFilter.Proofs.Meaning.Document
import DocFilter.Proofs.Meaning.Exclusion
import DocFilter.Proofs.Meaning.Memberships
import DocFilter.Proofs.Meaning.Narrowing
import DocFilter.Proofs.Meaning.Predicates
import DocFilter.Proofs.Meaning.Preservation
import DocFilter.Proofs.Meaning.Sharing
import DocFilter.Proofs.Meaning.Subqueries
import DocFilter.Proofs.Placement.Count
import DocFilter.Proofs.Placement.Cover
import DocFilter.Proofs.Placement.FirstFit
import DocFilter.Proofs.Placement.Growth
import DocFilter.Proofs.Placement.Members
import DocFilter.Proofs.Placement.Slots
import DocFilter.Proofs.Relation.Bulk
import DocFilter.Proofs.Relation.Calls
import DocFilter.Proofs.Relation.Config
import DocFilter.Proofs.Relation.Extension
import DocFilter.Proofs.Relation.Registry
import DocFilter.Proofs.Relation.Written
import DocFilter.Proofs.Reordering.Clauses
import DocFilter.Proofs.Reordering.Demands
import DocFilter.Proofs.Reordering.Document
import DocFilter.Proofs.Reordering.Predicates
import DocFilter.Proofs.Reordering.Tests
import DocFilter.Proofs.Sql.Assembly
import DocFilter.Proofs.Sql.Evaluation
import DocFilter.Proofs.Sql.Grammar
import DocFilter.Proofs.Sql.Operands
import DocFilter.Proofs.Sql.Scanning
import DocFilter.Proofs.Sql.Token
import DocFilter.Proofs.Sql.Translation
import DocFilter.Proofs.Value.Display
import DocFilter.Proofs.Value.Reading
import DocFilter.Quote
import DocFilter.Relation.Basic
import DocFilter.Relation.Config
import DocFilter.Relation.Registry
import DocFilter.Scope
import DocFilter.Sql.Conditions
import DocFilter.Sql.Dialect
import DocFilter.Sql.Expr
import DocFilter.Sql.Fragment
import DocFilter.Sql.Render
import DocFilter.Sql.Where
import DocFilter.Value
