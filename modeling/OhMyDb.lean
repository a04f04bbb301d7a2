import OhMyDb.Lib.AppliedLog
import OhMyDb.Lib.Ascending
import OhMyDb.Lib.Execution
import OhMyDb.Lib.Modify
import OhMyDb.Lib.Quorum
import OhMyDb.Lib.RecordFile
import OhMyDb.Lib.Records
import OhMyDb.Lib.LeaderLog.Agreement
import OhMyDb.Lib.LeaderLog.Evolution
import OhMyDb.Lib.LeaderLog.Merging
import OhMyDb.Model.Admin
import OhMyDb.Model.Client
import OhMyDb.Model.Cluster
import OhMyDb.Model.PersistentStore
import OhMyDb.Model.PersistentVector
import OhMyDb.Model.Prototype
import OhMyDb.Model.Restart
import OhMyDb.Model.SenderLoop
import OhMyDb.Model.Startup
import OhMyDb.Raft.History
import OhMyDb.Raft.Safety
import OhMyDb.Raft.Senders
import OhMyDb.Raft.Scan
import OhMyDb.Raft.LogOrder
import OhMyDb.Raft.NextIndex
import OhMyDb.Raft.Leadership
import OhMyDb.Raft.Backtracking
import OhMyDb.Prototype.Transition
import OhMyDb.Prototype.Tally
import OhMyDb.Prototype.Simulation
import OhMyDb.Prototype.Voting
import OhMyDb.Prototype.Refinement
import OhMyDb.Prototype.Counting
import OhMyDb.Prototype.Safety
import OhMyDb.Prototype.Slices
import OhMyDb.Prototype.Arrays
import OhMyDb.Lib.Serial
import OhMyDb.Raft.Alone
import OhMyDb.Raft.Handlers
import OhMyDb.Raft.Suspended
import OhMyDb.Raft.Gaps
import OhMyDb.Raft.Overlap
import OhMyDb.Raft.Interleaved
import OhMyDb.Raft.DeadEnds
import OhMyDb.Server.RoundTrip
import OhMyDb.Server.Decoding
import OhMyDb.Server.Refusals
import OhMyDb.Server.ConfigFile
import OhMyDb.Storage.Bootstrap
import OhMyDb.Storage.Directories
import OhMyDb.Storage.Durability
import OhMyDb.Storage.LogFile
import OhMyDb.Storage.LogTerms
import OhMyDb.Storage.Recovery
import OhMyDb.Storage.Representation
import OhMyDb.Storage.Votes
import OhMyDb.Membership.Acknowledgement
import OhMyDb.Membership.Configuration
import OhMyDb.Membership.OneChange
import OhMyDb.Membership.Peers
import OhMyDb.Membership.Tables
import OhMyDb.Membership.Verdicts
import OhMyDb.Db.Completion
import OhMyDb.Db.Custody
import OhMyDb.Db.Failover
import OhMyDb.Db.Reads
import OhMyDb.Db.Replays
import OhMyDb.Db.Retries
import OhMyDb.Db.Stores
import OhMyDb.Db.Wakeups
import OhMyDb.Db.Writes
