import Chronicle.Command.Run
import Chronicle.Diff.Json
import Chronicle.Diff.Query
import Chronicle.Diff.Text
import Chronicle.Enhance.Inline
import Chronicle.Main
import Chronicle.Proofs.Command.Effects
import Chronicle.Proofs.Command.Ending
import Chronicle.Proofs.Command.Jobs
import Chronicle.Proofs.Command.Plan
import Chronicle.Proofs.Command.Sources
import Chronicle.Proofs.Diff.Algebra
import Chronicle.Proofs.Diff.Json
import Chronicle.Proofs.Diff.Merge
import Chronicle.Proofs.Diff.Names
import Chronicle.Proofs.Diff.Place
import Chronicle.Proofs.Diff.Proper
import Chronicle.Proofs.Diff.Queries
import Chronicle.Proofs.Diff.Received
import Chronicle.Proofs.Diff.Repetition
import Chronicle.Proofs.Enhance.Agreement
import Chronicle.Proofs.Enhance.Classes
import Chronicle.Proofs.Enhance.Frame
import Chronicle.Proofs.Enhance.Getters
import Chronicle.Proofs.Enhance.Keys
import Chronicle.Proofs.Enhance.Kinds
import Chronicle.Proofs.Enhance.Marks
import Chronicle.Proofs.Enhance.OptionElements
import Chronicle.Proofs.Enhance.OptionGrammar
import Chronicle.Proofs.Enhance.Repetition
import Chronicle.Proofs.Enhance.Scopes
import Chronicle.Proofs.Enhance.Setters
import Chronicle.Proofs.Enhance.Spelling
import Chronicle.Proofs.Enhance.Visibility
import Chronicle.Proofs.Enhance.Wrapping
import Chronicle.Proofs.Entity.Access
import Chronicle.Proofs.Entity.Comparison
import Chronicle.Proofs.Entity.Conversion
import Chronicle.Proofs.Entity.Equality
import Chronicle.Proofs.Entity.Insertion
import Chronicle.Proofs.Entity.Scalar
import Chronicle.Proofs.Entity.World
import Chronicle.Proofs.Event.Json
import Chronicle.Proofs.Event.Publication
import Chronicle.Proofs.Event.Readable
import Chronicle.Proofs.Files.Frame
import Chronicle.Proofs.Files.Paths
import Chronicle.Proofs.Files.Proper
import Chronicle.Proofs.Identity.Uuid
import Chronicle.Proofs.Json.Decode
import Chronicle.Proofs.Json.Number
import Chronicle.Proofs.Json.Text
import Chronicle.Proofs.Number.Decimal
import Chronicle.Proofs.Number.Monotone
import Chronicle.Proofs.Number.Rounding
import Chronicle.Proofs.Sample.Sources
import Chronicle.Proofs.Sample.World
import Chronicle.Proofs.Source.Opening
import Chronicle.Proofs.Source.TextValue
import Chronicle.Proofs.Text.Numeral
import Chronicle.Proofs.Time.Calendar
import Chronicle.Proofs.Time.Instant
import Chronicle.Proofs.Tracking.Accumulation
import Chronicle.Proofs.Tracking.ChangeSet
import Chronicle.Proofs.Tracking.Collection
import Chronicle.Proofs.Tracking.Creation
import Chronicle.Proofs.Tracking.Deletion
import Chronicle.Proofs.Tracking.Detection
import Chronicle.Proofs.Tracking.Effects
import Chronicle.Proofs.Tracking.Extract
import Chronicle.Proofs.Tracking.FailedCommit
import Chronicle.Proofs.Tracking.Following
import Chronicle.Proofs.Tracking.History
import Chronicle.Proofs.Tracking.Lifecycle
import Chronicle.Proofs.Tracking.Notification
import Chronicle.Proofs.Tracking.Pending
import Chronicle.Proofs.Tracking.Placement
import Chronicle.Proofs.Tracking.Removal
import Chronicle.Proofs.Tracking.Rollback
import Chronicle.Proofs.Tracking.Rounds
import Chronicle.Proofs.Tracking.Session
import Chronicle.Proofs.Tracking.Snapshot
import Chronicle.Proofs.Tracking.SoftDeletion
import Chronicle.Proofs.Tracking.Translation
import Chronicle.Proofs.Tracking.Undo
import Chronicle.Proofs.Transaction.Completion
import Chronicle.Proofs.Transaction.Lifetime
import Chronicle.Sample.FieldTypes
import Chronicle.Sample.Setters
import Chronicle.Tracking.ConfigText
import Chronicle.Tracking.UnitOfWork
import Chronicle.Transaction.Action
import Chronicle.Yaml.Reader
