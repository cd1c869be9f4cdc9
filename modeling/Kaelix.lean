import Kaelix.Cluster.Consensus.Apply
import Kaelix.Cluster.Consensus.CommitQuorum
import Kaelix.Cluster.Consensus.VoteCounting
import Kaelix.Cluster.Consensus.PreVote
import Kaelix.Cluster.Time.VersionVector
import Kaelix.Cluster.Time.HybridClock
import Kaelix.Cluster.Membership.Suspicion
import Kaelix.Cluster.Membership.Group
import Kaelix.Core.Protocol.Chunking
import Kaelix.Core.Protocol.Soundness
import Kaelix.Core.Config.Merge
import Kaelix.Core.Config.EnvironmentOrder
import Kaelix.Core.Telemetry.Windows
import Kaelix.Core.Telemetry.SelfDeadlock
import Kaelix.Storage.Segments.Survival
import Kaelix.Storage.Wal.Batch
import Kaelix.Storage.Replication.QuorumReads
import Kaelix.Storage.Replication.Sessions
import Kaelix.Storage.Replication.Topology
import Kaelix.Storage.Segments.Index
import Kaelix.Storage.Wal.Rotation
import Kaelix.Storage.Replication.Protocol
import Kaelix.Storage.Replication.RecoveryTasks
import Kaelix.Core.Multiplexing.Removal
import Kaelix.Core.Multiplexing.RegistryMap
import Kaelix.Core.Multiplexing.Routing
import Kaelix.Core.Multiplexing.Allowance
import Kaelix.Core.Multiplexing.Pressure
import Kaelix.Core.Multiplexing.Propagation
import Kaelix.Storage.Backends.Limits
import Kaelix.Core.Runtime.TaskQueues
import Kaelix.Core.Runtime.Histogram
import Kaelix.Core.Runtime.Placement
import Kaelix.Core.Runtime.Detection
import Kaelix.Core.Plugin.HookOrder
import Kaelix.Core.Plugin.AuditTrail
import Kaelix.Cluster.Ha.CircuitBreaker
import Kaelix.Cluster.Ha.PlanExecution
import Kaelix.Core.Protocol.Framing
import Kaelix.Cluster.Consensus.DenseLogs
import Kaelix.Cluster.Ha.Recovery
import Kaelix.Storage.Integration.Aborts
import Kaelix.Storage.Integration.Replay
import Kaelix.Cluster.Consensus.WalRecovery
import Kaelix.Cluster.Consensus.ManagerApply
import Kaelix.Cluster.Consensus.Durability
import Kaelix.Cluster.Consensus.IntegratedCoordinator
