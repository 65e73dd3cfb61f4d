import Vaylix.Engine.Store
import Vaylix.Engine.State
import Vaylix.Engine.Command
import Vaylix.Engine.Evaluate
import Vaylix.Engine.Wal
import Vaylix.Engine.Core
import Vaylix.Engine.Storage
import Vaylix.Engine.Replay
import Vaylix.Lib.Run
import Vaylix.Server.Commands
import Vaylix.Engine.Shedding
import Vaylix.Engine.CommandEffects
import Vaylix.Engine.DirectEffects
import Vaylix.Engine.BatchUndo
import Vaylix.Engine.LogState
import Vaylix.Engine.Transactions
import Vaylix.Engine.Versions
import Vaylix.Engine.LogIndex
import Vaylix.Replication.State
import Vaylix.Server.EngineWorker
import Vaylix.Server.ReadIndex
import Vaylix.Engine.Recovery
import Vaylix.Server.Standalone
import Vaylix.Engine.Reapply
import Vaylix.Engine.Segments
import Vaylix.Engine.SnapshotRecovery
import Vaylix.Engine.Truncation
import Vaylix.Replication.Consensus
import Vaylix.Server.AppendHandler
import Vaylix.Server.Lockout
import Vaylix.Server.MatchingAppend
import Vaylix.Lib.Ballots
import Vaylix.Lib.MapFold
import Vaylix.Replication.Voters
import Vaylix.Server.AppendRound
import Vaylix.Cluster.Model
import Vaylix.Cluster.Standing
import Vaylix.Cluster.Elections
import Vaylix.Cluster.Setup
import Vaylix.Engine.WholeLog
import Vaylix.Lib.VersionHistory
import Vaylix.Server.AcceptedAppend
import Vaylix.Engine.VersionChecks
import Vaylix.Engine.History
import Vaylix.Engine.SuffixState
import Vaylix.Engine.SnapshotCrash
import Vaylix.Engine.PointInTime
import Vaylix.Engine.WalBytes
import Vaylix.Engine.FailedAppend
import Vaylix.Engine.SampleBytes
import Vaylix.Server.FollowerCommit
import Vaylix.Server.IndexExposure
import Vaylix.Server.LeaderReads
import Vaylix.Server.Steady
import Vaylix.Cluster.Progress
import Vaylix.Cluster.Events
import Vaylix.Cluster.Rollbacks
import Vaylix.Engine.Wildcard
import Vaylix.Auth.Identity
import Vaylix.Auth.Administered
import Vaylix.Server.Authorization
import Vaylix.Lib.Cursor
import Vaylix.Transport.Payload
import Vaylix.Transport.PayloadCodec
import Vaylix.Transport.Request
import Vaylix.Transport.Frame
import Vaylix.Transport.Stream
import Vaylix.Transport.Negotiation
import Vaylix.Server.Session
import Vaylix.Server.TransactionSession
import Vaylix.Engine.Confinement
import Vaylix.Server.WriteConfinement
import Vaylix.Server.Maintenance
import Vaylix.Server.WriteTasks
import Vaylix.Server.ConcurrentWrites
import Vaylix.Server.Scanning
import Vaylix.Server.SentAppend
import Vaylix.Engine.Backup
import Vaylix.Engine.BatchAtomicity
import Vaylix.Engine.WalSessions
import Vaylix.Engine.ReadBack
import Vaylix.Lib.HashChain
import Vaylix.Lib.Lines
import Vaylix.Server.AuditChain
import Vaylix.Server.SampleAudit
import Vaylix.Server.AuditLog
import Vaylix.Lib.FileTree
import Vaylix.Lib.MakeDirectories
import Vaylix.Server.BackupPaths
import Vaylix.Lib.LogTree
import Vaylix.Cluster.Matching
import Vaylix.Server.Counting
import Vaylix.Cluster.Counts
import Vaylix.Cluster.Quorums
import Vaylix.Transport.Hello
import Vaylix.Transport.ResponsePayload
import Vaylix.Command.Lexer
import Vaylix.Command.Parser
import Vaylix.Server.Authentication
import Vaylix.Engine.SnapshotInstall
import Vaylix.Server.Publication
import Vaylix.Cluster.Creations
import Vaylix.Cluster.Membership
import Vaylix.Server.AppendSize
import Vaylix.Server.VoteHistory
import Vaylix.Server.InstallHandler
import Vaylix.Server.SnapshotBaseline
import Vaylix.Engine.BothWays
import Vaylix.Auth.FailedChanges
import Vaylix.Engine.Keyring
import Vaylix.Cluster.Terms
import Vaylix.Server.WriteCoordinator
