import Dispatch.Main
import Dispatch.Proofs.Conservation
import Dispatch.Proofs.Membership
import Dispatch.Proofs.Messages
import Dispatch.Proofs.Placement
import Dispatch.Proofs.Resolutions
import Dispatch.Proofs.SnapshotReuse
import Dispatch.Proofs.StoredNames
import Dispatch.Proofs.Submission
import Dispatch.Simulation
import Dispatch.Proofs.CounterBalance
import Dispatch.Proofs.Deadlines
import Dispatch.Proofs.Callers
import Dispatch.Proofs.Timelines
import Dispatch.Proofs.Census
import Dispatch.Proofs.TransitionLog
import Dispatch.Proofs.Delivery
import Dispatch.Proofs.WireFormat
import Dispatch.Proofs.Outputs
import Dispatch.Proofs.Settings
import Dispatch.Proofs.StoredRecords
import Dispatch.Proofs.DeadlineRange
import Dispatch.Proofs.ProbeVisits
import Dispatch.Proofs.Filling
import Dispatch.Proofs.InvokerLoss
import Dispatch.Proofs.MissedHeartbeats
import Dispatch.Proofs.LedgerRuns
import Dispatch.Proofs.Overcommit
import Dispatch.Proofs.SharedRoutes
import Dispatch.Proofs.Notation
import Dispatch.Proofs.PoolGrowth
import Dispatch.Proofs.Feedback
import Dispatch.Proofs.Exposition.Families
import Dispatch.Proofs.Upgrades
