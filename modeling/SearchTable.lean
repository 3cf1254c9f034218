import SearchTable.Host
import SearchTable.Main
import SearchTable.Store.Observed
import SearchTable.Store.Run
import SearchTable.Proofs.Condition.LateBinding
import SearchTable.Proofs.Query.Operands
import SearchTable.Store.Memory
import SearchTable.Proofs.Query.Clauses
import SearchTable.Proofs.Condition.Meaning
import SearchTable.Proofs.Dictionary
import SearchTable.Proofs.Document
import SearchTable.Proofs.Store.Paging
import SearchTable.Proofs.Store.Writes
import SearchTable.Proofs.Table.Groups
import SearchTable.Proofs.Table.Batching
import SearchTable.Proofs.Table.Revision
import SearchTable.Proofs.Table.Reachable
import SearchTable.Proofs.Table.Frame
import SearchTable.Proofs.Store.Unreliable
import SearchTable.Proofs.Store.Uses
import SearchTable.Proofs.Store.Unpaged
import SearchTable.Proofs.Table.Calls
import SearchTable.Proofs.Table.Reports
import SearchTable.Proofs.Condition.Unreadable
import SearchTable.Proofs.Condition.Malformed
import SearchTable.Proofs.Number.Widening
import SearchTable.Proofs.Store.Versions
import SearchTable.Proofs.Table.Survival
import SearchTable.Proofs.Table.Reading
import SearchTable.Proofs.Table.Rows
import SearchTable.Proofs.Failure
import SearchTable.Proofs.Table.DeclaredIdentity
import SearchTable.Proofs.Table.RowCount
import SearchTable.Proofs.Condition.Nesting
import SearchTable.Proofs.Table.Upsert
import SearchTable.Proofs.Table.Matches
import SearchTable.Proofs.Table.Deletion
import SearchTable.Proofs.Table.KeyIdentity
import SearchTable.Proofs.Table.ExplicitIdentity
import SearchTable.Proofs.Schema.Merging
import SearchTable.Proofs.Table.Latch
import SearchTable.Proofs.Table.SchemaUnion
import SearchTable.Proofs.Json.Reading
import SearchTable.Proofs.Schema.RoundTrip
import SearchTable.Proofs.Host.Holders
import SearchTable.Proofs.Host.Sharing
import SearchTable.Proofs.Number.Rounding
import SearchTable.Proofs.Number.Text
import SearchTable.Proofs.Condition.RangeEnds
import SearchTable.Proofs.Condition.Equality
import SearchTable.Proofs.Table.PredictedIdentity
import SearchTable.Proofs.Schema.Joining
import SearchTable.Proofs.Condition.Placeholders
import SearchTable.Proofs.Table.KnownFields
import SearchTable.Proofs.Query.Trees
import SearchTable.Proofs.Query.Counting
import SearchTable.Proofs.Expression.Parts
import SearchTable.Proofs.Query.Escaping
import SearchTable.Proofs.Store.Failing
import SearchTable.Proofs.Table.Auditing
