import ItemStore.Dict.Lemmas
import ItemStore.Text.Blank
import ItemStore.Text.Base64
import ItemStore.Number.Range
import ItemStore.Value.Equality
import ItemStore.Value.Validity
import ItemStore.Value.Display
import ItemStore.Json.Writer
import ItemStore.Json.Reader
import ItemStore.Value.Document
import ItemStore.Expression.Token
import ItemStore.Expression.Condition.Parse
import ItemStore.Expression.Update.Parse
import ItemStore.Expression.Condition.Evaluate
import ItemStore.Expression.Update.Targets
import ItemStore.Expression.Update.Apply
import ItemStore.Expression.Projection
import ItemStore.Expression.Placeholders
import ItemStore.Expression.KeyCondition
import ItemStore.Table.IndexRow
import ItemStore.Number.Double
import ItemStore.Config
import ItemStore.Cursor
import ItemStore.Response.Wire
import ItemStore.Capacity
import ItemStore.Store.Transaction
import ItemStore.Store.Memory
import ItemStore.Engine.Answer
import ItemStore.Key.Order
import ItemStore.Proofs.Store.Rows
import ItemStore.Proofs.Store.Undo
import ItemStore.Proofs.Engine.Actions
import ItemStore.Proofs.Engine.Plans
import ItemStore.Proofs.Engine.Keeping
import ItemStore.Proofs.Engine.Atomicity
import ItemStore.Proofs.Engine.Failures
import ItemStore.Proofs.Json.RoundTrip
import ItemStore.Proofs.Text.Base64
import ItemStore.Proofs.Value.RoundTrip
import ItemStore.Proofs.Value.Equality
import ItemStore.Proofs.Value.Inherited
import ItemStore.Proofs.Value.Ordered
import ItemStore.Proofs.Expression.Updates
import ItemStore.Proofs.Store.Writes
import ItemStore.Proofs.Engine.Effects
import ItemStore.Proofs.Engine.Runs
import ItemStore.Proofs.Engine.Acceptance
import ItemStore.Proofs.Engine.IndexConsistency
import ItemStore.Proofs.Engine.Independence
import ItemStore.Proofs.Engine.Transactions
import ItemStore.Proofs.Cursor
import ItemStore.Proofs.Key.Bounds
import ItemStore.Proofs.Store.Ranges
import ItemStore.Proofs.Engine.Pages
import ItemStore.Proofs.Engine.Pagination
import ItemStore.Proofs.Expression.KeyConditions
import ItemStore.Proofs.Engine.Ownership
import ItemStore.Proofs.Engine.Refusals
import ItemStore.Proofs.Engine.PlainMap
import ItemStore.Proofs.Engine.Refinement
import ItemStore.Proofs.Engine.Readability
import ItemStore.Proofs.Engine.Expiry
import ItemStore.Proofs.Store.NaiveReads
import ItemStore.Proofs.Store.Sequences
import ItemStore.Proofs.Engine.StoredRows
import ItemStore.Proofs.Value.Children
import ItemStore.Proofs.Value.Edits
import ItemStore.Proofs.Value.EditSequences
import ItemStore.Proofs.Expression.UpdateTasks
import ItemStore.Proofs.Expression.Simultaneous
import ItemStore.Proofs.Engine.SingleWrites
import ItemStore.Proofs.Engine.ChangeStream
import ItemStore.Proofs.Expression.Completions
import ItemStore.Proofs.Engine.Completions
import ItemStore.Proofs.Engine.Placeholders
import ItemStore.Proofs.Engine.ExpiredRows
import ItemStore.Proofs.Engine.TwinRuns
import ItemStore.Proofs.Engine.BatchPlans
import ItemStore.Proofs.Engine.BlindHooks
import ItemStore.Proofs.Engine.BatchWrites
import ItemStore.Proofs.Expression.Lexemes
import ItemStore.Proofs.Expression.Readers
import ItemStore.Proofs.Expression.ConditionGrammar
import ItemStore.Proofs.Expression.ConditionTexts
import ItemStore.Proofs.Expression.UpdateGrammar
import ItemStore.Proofs.Value.Codec
import ItemStore.Proofs.Expression.MapPaths
import ItemStore.Proofs.Value.EditOrder
import ItemStore.Proofs.Expression.SetOrder
import ItemStore.Proofs.Value.Removals
import ItemStore.Proofs.Expression.Removals
import ItemStore.Proofs.Number.Rational
import ItemStore.Proofs.Number.Grammar
import ItemStore.Proofs.Number.Canonical
import ItemStore.Proofs.Number.Arithmetic
import ItemStore.Proofs.Value.Sets
import ItemStore.Proofs.Value.Valid
import ItemStore.Proofs.Expression.ValidUpdates
import ItemStore.Proofs.Expression.SetClauses
import ItemStore.Proofs.Value.Spelling
import ItemStore.Proofs.Expression.Spelling
import ItemStore.Proofs.Engine.IndexFilters
import ItemStore.Proofs.Expression.PlaceholderUse
import ItemStore.Proofs.Value.Restriction
import ItemStore.Proofs.Expression.PathTrees
import ItemStore.Proofs.Expression.Projections
import ItemStore.Proofs.Engine.MultiReads
import ItemStore.Proofs.Engine.BatchCharges
import ItemStore.Proofs.Value.KeptPlaces
import ItemStore.Proofs.Expression.WrittenValues
import ItemStore.Proofs.Engine.UpdatedAttributes
import ItemStore.Proofs.Store.Memory
import ItemStore.Proofs.Store.MemoryReads
