/-
CoreX/Raft/Snapshot.lean

Snapshots: the key-value state machine, `maybeSnapshot` and the goroutine it
starts, `HandleInstallSnapshot`, and recovery at startup.
-/
import CoreX.Raft.Node

namespace Raft

/-! ### The state machine -/

namespace KVStateMachine

/-- `apply`: a malformed command and a failed durable write change nothing, an
unknown operation only advances the index. -/
def apply [Codec] (sm : KVStateMachine) (entry : LogEntry) (writeFails : Bool) : KVStateMachine :=
  match Codec.unmarshalCommand entry.data with
  | none => sm
  | some cmd =>
      if cmd.op = "set" then
        if writeFails then sm
        else ⟨Function.update sm.data cmd.key (some cmd.value), entry.index⟩
      else if cmd.op = "del" then
        if writeFails then sm else ⟨Function.update sm.data cmd.key none, entry.index⟩
      else { sm with lastApplied := entry.index }

/-- `RestoreSnapshot`. -/
def restoreSnapshot (data : SnapshotData) (lastApplied : Int) : KVStateMachine :=
  ⟨data.kv, lastApplied⟩

end KVStateMachine

namespace RaftNode

variable (n : RaftNode)

/-- `truncateLogPrefix`: drop the leading entries up to `upToIndex`; the
snapshot boundary is set whatever it was. -/
def truncateLogPrefix (upToIndex term : Int) : RaftNode :=
  { n with
    log := n.log.dropWhile fun e => e.index ≤ upToIndex
    snapshotIndex := upToIndex
    snapshotTerm := term }

/-- The number of snapshot files kept. -/
def retainCount : Int := if n.snapshotCfg.retainCount < 1 then 2 else n.snapshotCfg.retainCount

/-- `snapshotStore.Save` followed by `Prune`. -/
def saveSnapshot (s : Snapshot) : RaftNode :=
  { n with snapshotStore := n.snapshotStore.map fun files => (files.save s).prune n.retainCount }

/-! ### Taking a snapshot -/

/-- `maybeSnapshot`, up to the end of `TakeSnapshot`: the captured data and
index. -/
def snapshotTake : Option (KVStateMachine × Int) :=
  if n.snapshotStore.isNone || n.snapshotCfg.threshold ≤ 0 then none
  else
    match n.sm with
    | none => none
    | some sm => if sm.lastApplied = 0 then none else some (sm, sm.lastApplied)

/-- The section of `maybeSnapshot` under the lock: the threshold, the term of
the captured index, and the configuration that is active now. -/
def snapshotCapture (sm : KVStateMachine) (capturedIndex : Int) : Option Snapshot :=
  if capturedIndex - n.snapshotIndex < n.snapshotCfg.threshold then none
  else
    let capturedTerm :=
      match n.entryAt capturedIndex with
      | some e => some e.term
      | none => if capturedIndex = n.snapshotIndex then some n.snapshotTerm else none
    capturedTerm.map fun term => ⟨⟨capturedIndex, term⟩, ⟨sm.data, n.clusterConfig⟩⟩

/-- The last step of the snapshot goroutine: compact the file of the log. -/
def compactLog (upToIndex : Int) : RaftNode :=
  { n with logStore := n.logStore.map fun wal => compactPrefix wal upToIndex }

/-! ### Sending a snapshot -/

/-- `sendSnapshot`, up to the call: the newest file, and the term it is sent
in. -/
def snapshotToSend : Option Snapshot :=
  n.snapshotStore.bind fun files => files.latest.bind fun latest => files.load latest.index

/-- `RaftClient.InstallSnapshot`: the bytes from `offset` on, cut into chunks of
`size`; the first argument bounds the number of chunks. -/
def snapshotChunks (mk : Int → Bytes → Bool → InstallSnapshotArgs) (size : Nat) :
    Nat → Nat → Bytes → List InstallSnapshotArgs
  | 0, _, _ => []
  | _ + 1, _, [] => []
  | k + 1, offset, raw =>
      mk offset (raw.take size) (decide (raw.length ≤ size)) ::
        snapshotChunks mk size k (offset + size) (raw.drop size)

/-- `snapshotChunkSize`. -/
def snapshotChunkSize : Nat := 1024 * 1024

/-- The requests of one transfer. -/
def snapshotRequests [Codec] (s : Snapshot) : List InstallSnapshotArgs :=
  let raw := Codec.marshalSnapshotData s.snapMeta s.data
  snapshotChunks (fun offset data done =>
    ⟨n.currentTerm, n.id, s.snapMeta.index, s.snapMeta.term, offset, data, done⟩)
    snapshotChunkSize raw.length 0 raw

/-! ### Receiving a snapshot -/

variable (args : InstallSnapshotArgs)

/-- The first section of `HandleInstallSnapshot`; `none` if the term is stale. -/
def installAdmit (f : Faults) : Option RaftNode :=
  if args.term < n.currentTerm then none
  else
    some
      { (if n.currentTerm < args.term then n.observeTerm args.term f.saveTerm else n) with
        role := .follower
        leaderID := args.leaderID
        resetCh := true }

/-- Put one chunk into the buffer; offset `0` starts it anew. -/
def installBuffer : RaftNode :=
  { n with snapBuf := (if args.offset = 0 then [] else n.snapBuf) ++ args.data }

/-- The last chunk has come: take the buffer. -/
def installTake : RaftNode × Bytes := ({ n with snapBuf := [] }, n.snapBuf)

/-- The snapshot in the buffer, if it parses and is the announced one. -/
def installDecode [Codec] (buf : Bytes) : Option SnapshotData :=
  match Codec.unmarshalSnapshotData buf with
  | none => none
  | some (snapMeta, data) =>
      if snapMeta.index ≠ args.lastIncludedIndex ∨ snapMeta.term ≠ args.lastIncludedTerm then none
      else some data

/-- Whether the prefix can be discarded without a restore: the entry at the
snapshot's index is in the log and has been applied. -/
def installFast : Bool :=
  match n.entryAt args.lastIncludedIndex, n.sm with
  | some e, some sm =>
      e.term == args.lastIncludedTerm && decide (args.lastIncludedIndex ≤ sm.lastApplied)
  | _, _ => false

/-- `RestoreSnapshot`, which runs without the node's lock. -/
def installRestore (data : SnapshotData) : RaftNode :=
  { n with sm := n.sm.map fun _ => .restoreSnapshot data args.lastIncludedIndex }

/-- The section after the restore: the log is discarded, the indices are raised,
the configuration is taken from the snapshot unless it is the zero value. -/
def installDiscard (data : SnapshotData) : RaftNode :=
  { n with
    log := []
    snapshotIndex := args.lastIncludedIndex
    snapshotTerm := args.lastIncludedTerm
    commitIndex :=
      if n.commitIndex < args.lastIncludedIndex then args.lastIncludedIndex else n.commitIndex
    lastApplied :=
      if n.lastApplied < args.lastIncludedIndex then args.lastIncludedIndex else n.lastApplied
    clusterConfig := if data.config.isZero then n.clusterConfig else data.config
    peers :=
      if data.config.isZero then n.peers else ensureConnected n.peers data.config.allPeers }

/-- The received snapshot as it is saved. -/
def installedSnapshot (data : SnapshotData) : Snapshot :=
  ⟨⟨args.lastIncludedIndex, args.lastIncludedTerm⟩, data⟩

/-- The end of `HandleInstallSnapshot`, from the decision on, if no other
handler runs in between. -/
def installApply (data : SnapshotData) : RaftNode :=
  if n.installFast args then n.truncateLogPrefix args.lastIncludedIndex args.lastIncludedTerm
  else
    ((n.installRestore args data).installDiscard args data).saveSnapshot
      (installedSnapshot args data)

/-- `HandleInstallSnapshot` for one chunk, if no other handler runs in
between. -/
def handleInstallSnapshot [Codec] (f : Faults) : RaftNode × Int :=
  match n.installAdmit args f with
  | none => (n, n.currentTerm)
  | some n₁ =>
      let n₂ := n₁.installBuffer args
      if args.done then
        match installDecode args n₂.installTake.2 with
        | none => (n₂.installTake.1, n₁.currentTerm)
        | some data => (n₂.installTake.1.installApply args data, n₁.currentTerm)
      else (n₂, n₁.currentTerm)

/-! ### Recovery -/

/-- `RecoverFromSnapshot`: state machine, snapshot boundary and configuration
come from the newest file; entries it covers leave the log. -/
def recoverFromSnapshot : RaftNode :=
  match n.snapshotStore, n.sm with
  | some files, some _ =>
      match files.latest with
      | none => n
      | some latest =>
          match files.load latest.index with
          | none => n
          | some s =>
              { n with
                sm := some (.restoreSnapshot s.data latest.index)
                snapshotIndex := latest.index
                snapshotTerm := latest.term
                clusterConfig := if s.data.config.isZero then n.clusterConfig else s.data.config
                peers :=
                  if s.data.config.isZero then n.peers
                  else ensureConnected n.peers s.data.config.allPeers
                log := n.log.filter fun e => latest.index < e.index }
  | _, _ => n

/-- A crash and the start that follows: `NewRaftNode` on what is on disk, a fresh
state machine, the snapshot store, `RecoverFromSnapshot`.  `boot` are the
configured peers. -/
def restart [Codec] (boot : Option (List Addr)) : RaftNode :=
  let n₀ := newRaftNode n.id boot n.metaStore n.logStore
  let n₁ := match n.sm with
    | none => n₀
    | some _ => n₀.setStateMachine newKVStateMachine
  let n₂ := match n.snapshotStore with
    | none => n₁
    | some files => n₁.setSnapshotStore files n.snapshotCfg
  n₂.recoverFromSnapshot

end RaftNode

end Raft
