/-
CoreX/Raft/Types.lean

The data of a Raft node: log entries, cluster configurations, the records its
stores hold, and the messages it exchanges.  Terms and indices are integers (the
`int64` of the code without its bounds, see `Node.fitsInt64`), addresses and node ids
are strings, and the empty string is the "nobody" of `votedFor`, as in the code.
-/
import Mathlib.Data.List.Basic
import Mathlib.Data.List.Induction
import Mathlib.Tactic.Linarith

namespace Raft

abbrev Addr := String
abbrev NodeID := String
abbrev Bytes := List UInt8

/-- The bytes of a Go string. -/
def goString (s : String) : Bytes := s.toByteArray.data.toList

/-! ### Log entries -/

/-- `EntryType`: a byte of which two values have a meaning. -/
abbrev EntryType := UInt8

def entryTypeCommand : EntryType := 0
def entryTypeConfig : EntryType := 1

structure LogEntry where
  index : Int
  term : Int
  type : EntryType
  data : Bytes
  deriving DecidableEq, Repr

/-- `pb.LogEntry`: a log entry on the wire, where the type is a `uint32`. -/
structure PbLogEntry where
  index : Int
  term : Int
  entryType : UInt32
  data : Bytes
  deriving DecidableEq, Repr

/-- How `sendHeartbeats` puts an entry on the wire. -/
def LogEntry.toPb (e : LogEntry) : PbLogEntry :=
  ⟨e.index, e.term, e.type.toUInt32, e.data⟩

/-- How `HandleAppendEntries` takes an entry from the wire. -/
def PbLogEntry.toEntry (e : PbLogEntry) : LogEntry :=
  ⟨e.index, e.term, e.entryType.toUInt8, e.data⟩

@[simp] theorem LogEntry.toEntry_toPb (e : LogEntry) : e.toPb.toEntry = e := by
  simp [LogEntry.toPb, PbLogEntry.toEntry]

@[simp] theorem LogEntry.toPb_index (e : LogEntry) : e.toPb.index = e.index := rfl
@[simp] theorem LogEntry.toPb_term (e : LogEntry) : e.toPb.term = e.term := rfl
@[simp] theorem PbLogEntry.toEntry_index (e : PbLogEntry) : e.toEntry.index = e.index := rfl
@[simp] theorem PbLogEntry.toEntry_term (e : PbLogEntry) : e.toEntry.term = e.term := rfl

/-! ### Cluster configurations -/

inductive ConfigPhase
  | stable
  | joint
  deriving DecidableEq, Repr

/-- The active membership.  Neither list contains the node itself. -/
structure ClusterConfig where
  phase : ConfigPhase
  voters : List Addr
  newVoters : List Addr
  deriving DecidableEq, Repr

namespace ClusterConfig

variable (c : ClusterConfig)

def isJoint : Bool := c.phase == .joint

/-- The guard against snapshots that carry no configuration. -/
def isZero : Bool := c.voters.length == 0

def oldQuorumSize : Nat := (c.voters.length + 1) / 2 + 1

def newQuorumSize : Nat := (c.newVoters.length + 1) / 2 + 1

/-- The union of both lists, each address once, in order of appearance. -/
def allPeers : List Addr :=
  (c.voters ++ c.newVoters).foldl (fun out addr => if addr ∈ out then out else out ++ [addr]) []

end ClusterConfig

/-- `quorumFor`: the node itself always counts, every acknowledging address of
the list counts once per occurrence. -/
def quorumFor (cfg : ClusterConfig) (ackFn : Addr → Bool) : Bool :=
  match cfg.phase with
  | .stable => decide (cfg.oldQuorumSize ≤ 1 + cfg.voters.countP ackFn)
  | .joint =>
      decide (cfg.oldQuorumSize ≤ 1 + cfg.voters.countP ackFn) &&
        decide (cfg.newQuorumSize ≤ 1 + cfg.newVoters.countP ackFn)

/-- The payload of a configuration entry. -/
structure ConfigChangePayload where
  phase : String
  voters : List Addr
  newVoters : List Addr
  deriving DecidableEq, Repr

/-! ### The key-value state machine -/

structure RaftKVCommand where
  op : String
  key : String
  value : String
  /-- The version a conditional write expects, `0` for an unconditional one. -/
  expectedVersion : Nat
  deriving DecidableEq, Repr

/-- `KVStateMachine`: the map and the index applied last. -/
structure KVStateMachine where
  data : String → Option String
  lastApplied : Int

/-- `NewKVStateMachine`. -/
def newKVStateMachine : KVStateMachine := ⟨fun _ => none, 0⟩

/-! ### Snapshots -/

structure SnapshotData where
  kv : String → Option String
  config : ClusterConfig

structure SnapshotMeta where
  index : Int
  term : Int
  deriving DecidableEq, Repr

structure SnapshotConfig where
  threshold : Int
  retainCount : Int
  deriving DecidableEq, Repr

/-- One file of the snapshot store. -/
structure Snapshot where
  snapMeta : SnapshotMeta
  data : SnapshotData

/-- The encodings the node relies on and this development leaves open. -/
class Codec where
  /-- `json.Unmarshal` into a `ConfigChangePayload`. -/
  unmarshalConfig : Bytes → Option ConfigChangePayload
  /-- `json.Marshal` of a `ConfigChangePayload`. -/
  marshalConfig : ConfigChangePayload → Bytes
  /-- `json.Unmarshal` into a `RaftKVCommand`. -/
  unmarshalCommand : Bytes → Option RaftKVCommand
  /-- `unmarshalSnapshotData`. -/
  unmarshalSnapshotData : Bytes → Option (SnapshotMeta × SnapshotData)
  /-- `marshalSnapshotData`. -/
  marshalSnapshotData : SnapshotMeta → SnapshotData → Bytes

/-- A codec that never succeeds, for runs in which no entry is interpreted. -/
abbrev Codec.silent : Codec where
  unmarshalConfig _ := none
  marshalConfig _ := []
  unmarshalCommand _ := none
  unmarshalSnapshotData _ := none
  marshalSnapshotData _ _ := []

/-- The JSON list of addresses that need no escape. -/
def jsonList (l : List Addr) : Bytes :=
  goString "[" ++ List.intercalate (goString ",")
    (l.map fun addr => goString "\"" ++ goString addr ++ goString "\"") ++ goString "]"

/-- The JSON text of a configuration change, for such addresses. -/
def ConfigChangePayload.json (p : ConfigChangePayload) : Bytes :=
  goString "\x7b\"phase\":\"" ++ goString p.phase ++ goString "\",\"voters\":" ++
    jsonList p.voters ++
    (if p.newVoters = [] then [] else goString ",\"new_voters\":" ++ jsonList p.newVoters) ++
    goString "\x7d"

/-- A codec that knows the JSON texts of these commands and configuration changes.  A change
has no field of a command. -/
abbrev Codec.ofTexts (commands : List (String × RaftKVCommand))
    (configs : List ConfigChangePayload) : Codec where
  unmarshalConfig data := configs.find? fun p => p.json = data
  marshalConfig := ConfigChangePayload.json
  unmarshalCommand data := ((commands.find? fun p => goString p.1 = data).map Prod.snd).or
    ((configs.find? fun p => p.json = data).map fun _ => ⟨"", "", "", 0⟩)
  unmarshalSnapshotData _ := none
  marshalSnapshotData _ _ := []

/-- `a` is set to `1`. -/
def setA : String := "\x7b\"op\":\"set\",\"key\":\"a\",\"value\":\"1\"\x7d"

/-- `b` is set to `2`. -/
def setB : String := "\x7b\"op\":\"set\",\"key\":\"b\",\"value\":\"2\"\x7d"

/-- A codec of these two commands. -/
abbrev Codec.twoKeys : Codec :=
  .ofTexts [(setA, ⟨"set", "a", "1", 0⟩), (setB, ⟨"set", "b", "2", 0⟩)] []

/-- The first entry of a log, with the first command. -/
def entryA : LogEntry := ⟨1, 1, entryTypeCommand, goString setA⟩

/-! ### Stores -/

/-- What the `MetaStore` keeps. -/
structure RaftMeta where
  term : Int
  votedFor : NodeID
  deriving DecidableEq, Repr

/-- A record of the log's write-ahead file: an entry, or the mark that entries
from an index on are void. -/
inductive LogRecord
  | entry (e : LogEntry)
  | truncate (fromIndex : Int)
  deriving DecidableEq, Repr

/-- `LoadAll`, one record. -/
def LogRecord.replay (entries : List LogEntry) : LogRecord → List LogEntry
  | .entry e => entries ++ [e]
  | .truncate fromIndex => entries.takeWhile fun e => e.index < fromIndex

variable (wal : List LogRecord) (files : SnapshotFiles)

/-- `LoadAll`. -/
def loadAll : List LogEntry := wal.foldl LogRecord.replay []

@[simp] theorem loadAll_entry (e : LogEntry) :
    loadAll (wal ++ [.entry e]) = loadAll wal ++ [e] := by
  simp [loadAll, LogRecord.replay]

@[simp] theorem loadAll_truncate (i : Int) :
    loadAll (wal ++ [.truncate i]) = (loadAll wal).takeWhile fun e => e.index < i := by
  simp [loadAll, LogRecord.replay]

theorem loadAll_map_entry (l : List LogEntry) : loadAll (l.map LogRecord.entry) = l := by
  induction l using List.reverseRecOn with
  | nil => rfl
  | append_singleton l e ih =>
    rw [List.map_append, List.map_singleton, loadAll_entry, ih]

/-- `CompactPrefix`: the file is rewritten with the live entries above
`upToIndex`. -/
def compactPrefix (upToIndex : Int) : List LogRecord :=
  ((loadAll wal).filter fun e => upToIndex < e.index).map LogRecord.entry

/-- The snapshot files, newest (highest index) first, as `List` sorts them. -/
abbrev SnapshotFiles := List Snapshot

/-- `Save`: a file is named by index and term; a file of the same name is
replaced. -/
def SnapshotFiles.save (s : Snapshot) : SnapshotFiles :=
  let rest := files.filter fun f => f.snapMeta ≠ s.snapMeta
  rest.takeWhile (fun f => s.snapMeta.index < f.snapMeta.index) ++
    s :: rest.dropWhile (fun f => s.snapMeta.index < f.snapMeta.index)

/-- `Latest`. -/
def SnapshotFiles.latest : Option SnapshotMeta :=
  files.head?.map Snapshot.snapMeta

/-- `Load`: the first file of that index. -/
def SnapshotFiles.load (index : Int) : Option Snapshot :=
  files.find? fun f => f.snapMeta.index == index

/-- `Prune`: all but the newest `retainCount` files go, at least one stays. -/
def SnapshotFiles.prune (retainCount : Int) : SnapshotFiles :=
  files.take (max retainCount 1).toNat

/-! ### Messages -/

structure RequestVoteArgs where
  term : Int
  candidateID : NodeID
  lastLogIndex : Int
  lastLogTerm : Int
  deriving DecidableEq, Repr

structure AppendEntriesArgs where
  term : Int
  leaderID : NodeID
  prevLogIndex : Int
  prevLogTerm : Int
  entries : List PbLogEntry
  leaderCommit : Int
  deriving DecidableEq, Repr

structure AppendEntriesResult where
  term : Int
  success : Bool
  conflictIndex : Int
  conflictTerm : Int
  deriving DecidableEq, Repr

structure InstallSnapshotArgs where
  term : Int
  leaderID : NodeID
  lastIncludedIndex : Int
  lastIncludedTerm : Int
  offset : Int
  data : Bytes
  done : Bool
  deriving DecidableEq, Repr

/-- A request of one of the three RPCs. -/
inductive Request
  | vote (args : RequestVoteArgs)
  | append (args : AppendEntriesArgs)
  | install (args : InstallSnapshotArgs)
  deriving DecidableEq, Repr

/-- One call: who calls whom, the caller's running number, and the request. -/
structure Call where
  src : Addr
  id : Nat
  dst : Addr
  req : Request
  deriving DecidableEq, Repr

/-- The answer to a call. -/
inductive Response
  | vote (term : Int) (granted : Bool)
  | append (res : AppendEntriesResult)
  | install (term : Int)
  deriving DecidableEq, Repr

/-- The term a request is sent in. -/
def Request.term : Request → Int
  | .vote args => args.term
  | .append args => args.term
  | .install args => args.term

/-- The term an answer carries. -/
def Response.term : Response → Int
  | .vote term _ => term
  | .append res => res.term
  | .install term => term

/-- Which store operations of one handler call fail.  A handler stops at the
first failing append, so its position says it all. -/
structure Faults where
  /-- The `Save` of a newly seen term fails. -/
  saveTerm : Bool
  /-- The `Save` of a vote (or of the node's own candidacy) fails. -/
  saveVote : Bool
  /-- The `TruncateSuffix` fails. -/
  truncate : Bool
  /-- The `Append` of the batch entry at this position fails. -/
  append : Option Nat
  deriving DecidableEq, Repr

/-- No store operation fails. -/
def Faults.none : Faults := ⟨false, false, false, .none⟩

end Raft
