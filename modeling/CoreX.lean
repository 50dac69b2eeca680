import CoreX.Lib.Run
import CoreX.Lib.Quorum
import CoreX.Lib.Indexed
import CoreX.Lib.TermLog
import CoreX.Lib.Overwrite
import CoreX.Lib.Protocol
import CoreX.Lib.Completeness
import CoreX.Lib.Bytes
import CoreX.Lib.Frames
import CoreX.Lib.GoJson
import CoreX.Lib.Places
import CoreX.Lib.Replay
import CoreX.Lib.Outputs
import CoreX.Lib.Channel
import CoreX.Lib.Calls
import CoreX.Lib.Circle
import CoreX.Lib.Checked
import CoreX.Lib.Decimal
import CoreX.Lib.Highest
import CoreX.Raft.Past
import CoreX.Raft.Rounds
import CoreX.Raft.Types
import CoreX.Raft.CommandJson
import CoreX.Raft.Node
import CoreX.Raft.Snapshot
import CoreX.Raft.Leader
import CoreX.Raft.System
import CoreX.Raft.Sections
import CoreX.Raft.Ballot
import CoreX.Raft.StepDown
import CoreX.Raft.Votes
import CoreX.Raft.Cluster
import CoreX.Raft.Static
import CoreX.Raft.Batch
import CoreX.Raft.Simulation
import CoreX.Raft.Election
import CoreX.Raft.LogMatching
import CoreX.Raft.Commit
import CoreX.Raft.Install
import CoreX.Raft.Splice
import CoreX.Raft.Replicate
import CoreX.Raft.StoreFaults
import CoreX.Raft.Pointers
import CoreX.Raft.Record
import CoreX.Raft.Representation
import CoreX.Raft.Recovery
import CoreX.Raft.Membership
import CoreX.Raft.ConfigRequests
import CoreX.Raft.Overlap
import CoreX.Storage.Wal
import CoreX.Storage.Durability
import CoreX.Storage.Kv
import CoreX.Storage.KvRecovery
import CoreX.Storage.EventStore
import CoreX.Storage.RoundTrip
import CoreX.Storage.CutFile
import CoreX.Storage.Refusals
import CoreX.Storage.ReceiveTimes
import CoreX.Storage.Writers
import CoreX.Storage.Landed
import CoreX.Storage.Replication
import CoreX.Storage.Streaming
import CoreX.Storage.RunningStreams
import CoreX.Raft.LogStore
import CoreX.Raft.LogFormats
import CoreX.Raft.MetaFile
import CoreX.Raft.SnapshotFormat
import CoreX.Raft.SnapshotDir
import CoreX.Raft.Reassembly
import CoreX.Raft.Decoders
import CoreX.Raft.Machine
import CoreX.Raft.KvSections
import CoreX.Raft.Mvcc
import CoreX.Raft.Versions
import CoreX.Raft.MvccReads
import CoreX.Raft.Process
import CoreX.Raft.Delivery
import CoreX.Raft.Applied
import CoreX.Raft.CommitLedger
import CoreX.Raft.Deployment
import CoreX.Raft.MvccAgreement
import CoreX.Raft.CasOutcome
import CoreX.Raft.MvccSnapshot
import CoreX.Raft.Retained
import CoreX.Raft.Acknowledged
import CoreX.Raft.Leadership
import CoreX.Raft.Frontier
import CoreX.Raft.ReadIndex
import CoreX.Raft.Whole
import CoreX.Raft.Histories
import CoreX.Raft.Unsnapped
import CoreX.Raft.Counted
import CoreX.Raft.Backup
import CoreX.Raft.ConfigSkip
import CoreX.Cdc.ChangeLog
import CoreX.Cdc.History
import CoreX.Cdc.Stream
import CoreX.Cdc.Entries
import CoreX.Service.Ring
import CoreX.Service.RingOrder
import CoreX.Service.RingMoves
import CoreX.Service.Site
import CoreX.Service.Routes
import CoreX.Service.ReadBack
import CoreX.Service.Ingestion
