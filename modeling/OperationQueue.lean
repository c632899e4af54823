import OperationQueue.Files
import OperationQueue.Main
import OperationQueue.Session
import OperationQueue.Store.Memory
import OperationQueue.Store.Table.Foreign
import OperationQueue.Proofs.OrderedMap
import OperationQueue.Proofs.Pipeline.Queue
import OperationQueue.Proofs.Pipeline.Settled
import OperationQueue.Proofs.Commit
import OperationQueue.Proofs.Dependencies
import OperationQueue.Proofs.Pipeline.Choice
import OperationQueue.Proofs.Pipeline.Committing
import OperationQueue.Proofs.Pipeline.Pass
import OperationQueue.Proofs.Pipeline.Progress
import OperationQueue.Proofs.Commit.Changeset
import OperationQueue.Proofs.Registry.Agreement
import OperationQueue.Proofs.Registry.Applying
import OperationQueue.Proofs.Registry.Committing
import OperationQueue.Proofs.Registry.Registering
import OperationQueue.Proofs.Registry.Restarting
import OperationQueue.Proofs.Commit.Cycles
import OperationQueue.Proofs.Operation
import OperationQueue.Proofs.Pipeline.Checking
import OperationQueue.Proofs.Pipeline.Invariant
import OperationQueue.Proofs.Store.RowByRow
import OperationQueue.Proofs.Registry.Live
import OperationQueue.Proofs.Registry.Atomicity
import OperationQueue.Proofs.Pipeline.Exhaustion
import OperationQueue.Proofs.Pipeline.HandingOut
import OperationQueue.Proofs.Registry.Isolation
import OperationQueue.Proofs.Pipeline.Roundtrip
import OperationQueue.Proofs.Pipeline.Exclusion
import OperationQueue.Proofs.Instant
import OperationQueue.Proofs.Registry.Waking
import OperationQueue.Proofs.Registry.StaleCopies
import OperationQueue.Proofs.Registry.Refusing
import OperationQueue.Proofs.Store.Adoption
import OperationQueue.Proofs.Store.Mirroring
import OperationQueue.Proofs.Commit.Writes
import OperationQueue.Proofs.Store.Lookup
import OperationQueue.Proofs.Registry.Names
import OperationQueue.Proofs.Config
import OperationQueue.Proofs.Config.Path
import OperationQueue.Proofs.Registry.Configured
import OperationQueue.Proofs.Pipeline.Outcome
import OperationQueue.Proofs.Commit.Copies
import OperationQueue.Proofs.Store.Registration
import OperationQueue.Proofs.Store.Keeping
import OperationQueue.Proofs.Store.HoldDates
import OperationQueue.Proofs.Store.SnapshotNumbers
import OperationQueue.Proofs.HoldTable.Dates
import OperationQueue.Proofs.Pipeline.Rebuilding
import OperationQueue.Proofs.Pipeline.Links
