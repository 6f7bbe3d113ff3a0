import Roster.Number.Text
import Roster.Text.Word
import Roster.Text.Printable
import Roster.Text.Lowercase
import Roster.Text.Digit
import Roster.Text.Blank
import Roster.Value.Text
import Roster.Value.Json
import Roster.NameSet
import Roster.Identity
import Roster.Record
import Roster.Journal
import Roster.Store.Snapshot
import Roster.Policy
import Roster.Config
import Roster.Retry
import Roster.Redaction
import Roster.Channel
import Roster.Directory.Filter
import Roster.Directory.Name
import Roster.Directory.Connection
import Roster.Retry.Run
import Roster.Provider.Memory
import Roster.Sync.Result
import Roster.Sync.Context
import Roster.Sync
import Roster.Sync.Persistence
import Roster.Source
import Roster.Session
import Roster.Job
import Roster.CommandLine
import Roster.Logging
import Roster.Main
import Roster.Proofs.Reference
import Roster.Proofs.Snapshot
import Roster.Proofs.Logic
import Roster.Proofs.Rollback
import Roster.Proofs.Membership
import Roster.Proofs.Unwinding
import Roster.Proofs.Sweeping
import Roster.Proofs.Frame
import Roster.Proofs.Statuses
import Roster.Proofs.Invariance
import Roster.Proofs.Jobs
import Roster.Proofs.Conversion
import Roster.Proofs.Completion
import Roster.Proofs.Collecting
import Roster.Proofs.Attributes
import Roster.Proofs.Materializing
import Roster.Proofs.Migration
import Roster.Proofs.Order
import Roster.Proofs.Replay
import Roster.Proofs.Binding
import Roster.Proofs.Loading
import Roster.Proofs.Connecting
import Roster.Proofs.Ownership
import Roster.Proofs.Escaping
import Roster.Proofs.Enrolling
import Roster.Proofs.Settling
import Roster.Proofs.Renewing
import Roster.Proofs.Again
import Roster.Proofs.Receding
import Roster.Proofs.Memberless
import Roster.Proofs.Parallel
import Roster.Proofs.Foreign
import Roster.Proofs.Agreement
import Roster.Proofs.Exactness
import Roster.Proofs.Freshness
import Roster.Proofs.Resync
import Roster.Proofs.Shortcut
import Roster.Proofs.Spelling
import Roster.Proofs.GroupNames
import Roster.Proofs.Nesting
import Roster.Proofs.Chains
import Roster.Proofs.Saturation
import Roster.Proofs.Placeholders
import Roster.Proofs.Answering
import Roster.Proofs.Backoff
import Roster.Proofs.Completing
import Roster.Proofs.Configured
import Roster.Proofs.Compatibility
import Roster.Proofs.Reloading
import Roster.Proofs.Searching
import Roster.Proofs.Patterns
import Roster.Proofs.Scrubbing
import Roster.Proofs.Credentials
