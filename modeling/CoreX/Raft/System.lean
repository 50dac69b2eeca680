/-
CoreX/Raft/System.lean

One running node: the state `RaftNode`, where each of its goroutines stands, and
what it has exchanged with the outside.  `Node.step` runs one section, the code
between two releases of a lock together with the local computation around it;
`Act` names the section and carries its input (a request with its store faults, a
vote response, a timer).  Any other section may run between two sections of one
goroutine.
-/
import CoreX.Raft.Leader

namespace Raft

/-! ### Goroutines -/

/-- `runCandidate` after its requests are sent: the votes granted so far
(`grantMap`) and the peers whose result is still to come. -/
structure Campaign where
  args : RequestVoteArgs
  call : Nat
  cfg : ClusterConfig
  grants : List Addr
  awaiting : List Addr
  deriving DecidableEq, Repr

/-- The votes counted so far are a quorum. -/
def Campaign.won (c : Campaign) : Bool := quorumFor c.cfg fun a => a ∈ c.grants

/-- A result has come from `addr`. -/
def Campaign.count (c : Campaign) (addr : Addr) (granted : Bool) : Campaign :=
  { c with
    grants := if granted then addr :: c.grants else c.grants
    awaiting := c.awaiting.erase addr }

/-- One `sendHeartbeats`: the requests whose answer is still to come. -/
structure Round where
  term : Int
  peers : List Addr
  call : Nat
  lastIdx : Int
  awaiting : List RaftNode.PeerArgs
  deriving DecidableEq, Repr

/-- Where the goroutine of `Run` stands. -/
inductive Loop
  /-- `Run` is about to read the role. -/
  | run
  /-- `runFollower`. -/
  | follower
  /-- `runCandidate`, before its first section. -/
  | candidate
  /-- `runCandidate`, term saved, before it reads the configuration. -/
  | standing (args : RequestVoteArgs)
  /-- `runCandidate`, collecting votes. -/
  | campaign (c : Campaign)
  /-- `runLeader`, before its first section. -/
  | leader
  /-- `runLeader`, waiting for the ticker. -/
  | leading (term : Int) (peers : List Addr)
  /-- `runLeader` has found itself leading and calls `sendHeartbeats`. -/
  | sending (term : Int) (peers : List Addr)
  /-- `sendHeartbeats`, requests sent, before it reads the configuration. -/
  | sent (r : Round)
  /-- `sendHeartbeats`, collecting answers. -/
  | collecting (r : Round) (cfg : ClusterConfig)
  deriving DecidableEq, Repr

/-- The loop `Run` enters for a role. -/
def Loop.forRole : RaftRole → Loop
  | .follower => .follower
  | .candidate => .candidate
  | .leader => .leader

/-- `runCandidate` waits for the next result, or returns after the last. -/
def Campaign.resume (c : Campaign) : Loop := if c.awaiting = [] then .run else .campaign c

/-- `sendHeartbeats` waits for the next answer, or returns after the last. -/
def Round.resume (r : Round) (cfg : ClusterConfig) : Loop :=
  if r.awaiting = [] then .leading r.term r.peers else .collecting r cfg

/-- One answer of the round has come. -/
def Round.close (r : Round) (p : RaftNode.PeerArgs) : Round :=
  { r with awaiting := r.awaiting.erase p }

/-- Where a running `HandleInstallSnapshot` stands. -/
inductive InstallPhase
  | buffer
  | take
  | choose (data : SnapshotData)
  | restore (data : SnapshotData)
  | discard (data : SnapshotData)
  | save (data : SnapshotData)

/-- A running `HandleInstallSnapshot`, with the term it will answer. -/
structure Install where
  call : Call
  args : InstallSnapshotArgs
  term : Int
  phase : InstallPhase

/-- Where `maybeSnapshot` and its goroutine stand; `idle` is
`snapshotInProgress = 0`. -/
inductive SnapTask
  | idle
  | taken (sm : KVStateMachine) (capturedIndex : Int)
  | captured (s : Snapshot)
  | saved (snapMeta : SnapshotMeta)
  | truncated (capturedIndex : Int)

/-- A running `ProposeConfigChange` or `proposeStableConfig`. -/
inductive ConfigTask
  | waitJoint (newVoters : List Addr) (jointIndex : Int)
  | proposeStable (newVoters : List Addr)
  | waitStable (newVoters : List Addr) (stableIndex : Int)
  | finish (newVoters : List Addr)
  deriving DecidableEq, Repr

/-- A running `sendSnapshot`. -/
inductive Transfer
  | start (addr : Addr)
  | send (addr : Addr) (index : Int)
  deriving DecidableEq, Repr

/-! ### The running node -/

structure Node where
  addr : Addr
  /-- The peers of the configuration file. -/
  boot : Option (List Addr)
  raft : RaftNode
  loop : Loop
  installs : List Install
  snap : SnapTask
  changes : List ConfigTask
  transfers : List Transfer
  /-- The terms of the `ReadIndex` calls that have not sent their heartbeats. -/
  reads : List Int
  toApply : List LogEntry
  emitted : List LogEntry
  /-- How many emitted entries the state machine has taken. -/
  consumed : Nat
  calls : Nat
  sent : List Call
  replies : List (Call × Response)
  votes : List (Int × NodeID)

/-- The sections, with their inputs. -/
inductive Act
  | dispatch
  | reset
  | timeout
  | startElection (f : Faults)
  | openCampaign
  | electAlone
  | voteResult (addr : Addr) (res : Option (Int × Bool))
  | enterLeader
  | tick
  | build
  | readConfig
  | ackResult (addr : Addr) (res : Option AppendEntriesResult)
  | deliver (call : Call) (f : Faults)
  | installNext (i : Nat)
  | propose (data : Bytes) (f : Faults)
  | proposeConfigChange (newVoters : List Addr) (f : Faults)
  | changeNext (i : Nat) (f : Faults)
  | changeAbort (i : Nat)
  | readIndex
  | confirm (i : Nat)
  | collect
  | emit
  | apply (writeFails : Bool)
  | snapTake
  | snapCapture
  | snapSave (fails : Bool)
  | snapTruncate
  | snapCompact
  | transferStart (i : Nat)
  | transferDone (i : Nat)
  | transferFail (i : Nat)
  | restart

namespace Node

variable (s : Node)

/-- Send one request to each of the listed addresses, under one call number. -/
def send (reqs : List (Addr × Request)) : Node :=
  { s with
    calls := s.calls + 1
    sent := reqs.map (fun p => ⟨s.addr, s.calls, p.1, p.2⟩) ++ s.sent }

/-- The node with its lock-protected state replaced. -/
def withRaft (n : RaftNode) : Node := { s with raft := n }

/-- Answer a call. -/
def reply (c : Call) (r : Response) : Node := { s with replies := (c, r) :: s.replies }

/-! ### The run loop -/

/-- `Run`: look at the role and enter its loop. -/
def dispatch : Option Node :=
  match s.loop with
  | .run =>
      some { s with loop := .forRole s.raft.role }
  | _ => none

/-- A `select` takes the token of `resetCh`: the follower restarts its timer, the
candidate steps down. -/
def reset : Option Node :=
  if s.raft.resetCh then
    match s.loop with
    | .follower => some { s with raft := s.raft.takeReset }
    | .campaign c =>
        if c.won then none
        else some { s with raft := { s.raft.takeReset with role := .follower }, loop := .run }
    | _ => none
  else none

/-- The election timer: the follower becomes candidate, the candidate gives up
this election.  A campaign with no result to come ends in the same way. -/
def timeout : Option Node :=
  match s.loop with
  | .follower => some { s with raft := s.raft.becomeCandidate, loop := .run }
  | .campaign c =>
      if c.won then none else some { s with loop := .run }
  | _ => none

/-- `runCandidate`, first section.  The node's own candidacy is a vote. -/
def startElection (f : Faults) : Option Node :=
  match s.loop with
  | .candidate =>
      match s.raft.startElection f with
      | (n, none) => some { s with raft := n, loop := .run }
      | (n, some args) =>
          some { s with
            raft := n
            loop := .standing args
            votes := (args.term, args.candidateID) :: s.votes }
  | _ => none

/-- `runCandidate`: read the configuration and ask every peer for its vote. -/
def openCampaign : Option Node :=
  match s.loop with
  | .standing args =>
      some { s.send (s.raft.allClients.map fun a => (a, .vote args)) with
        loop := .campaign ⟨args, s.calls, s.raft.clusterConfig, [], s.raft.allClients⟩ }
  | _ => none

/-- `runCandidate`: the own vote is a quorum. -/
def electAlone : Option Node :=
  match s.loop with
  | .campaign c =>
      if c.won then some { s with raft := s.raft.becomeLeader c.args.term, loop := .run }
      else none
  | _ => none

/-- `runCandidate`: the election goes on after a result, is won, or ends because
no result is left. -/
def countVote (c : Campaign) (addr : Addr) (granted : Bool) : Node :=
  let c' := c.count addr granted
  if c'.won then { s with raft := s.raft.becomeLeader c.args.term, loop := .run }
  else { s with loop := c'.resume }

/-- `runCandidate`: the result of one peer is read from `resultCh`; `none` is a
failed call, which counts as no vote. -/
def voteResult (addr : Addr) (res : Option (Int × Bool)) : Option Node :=
  match s.loop with
  | .campaign c =>
      if c.won || !c.awaiting.contains addr then none
      else
        match res with
        | none => some (s.countVote c addr false)
        | some (term, granted) =>
            if c.args.term < term then
              some { s with raft := s.raft.candidateStepDown term, loop := .run }
            else some (s.countVote c addr granted)
  | _ => none

/-- `runLeader`, first section; a joint configuration starts the second phase of
its change. -/
def enterLeader : Option Node :=
  match s.loop with
  | .leader =>
      let n := s.raft.initLeader
      some { s with
        raft := n
        loop := .leading n.currentTerm n.allClients
        changes :=
          if n.clusterConfig.isJoint && !n.clusterConfig.newVoters.isEmpty then
            s.changes ++ [.proposeStable n.clusterConfig.newVoters]
          else s.changes }
  | _ => none

/-- `runLeader`, the ticker: stop if deposed, else call `sendHeartbeats`. -/
def tick : Option Node :=
  match s.loop with
  | .leading term peers =>
      some { s with loop :=
        if s.raft.role ≠ .leader ∨ s.raft.currentTerm ≠ term then .run
        else .sending term peers }
  | _ => none

/-- `sendHeartbeats`, first section, and the requests that follow.  Peers that
are behind the snapshot get a `sendSnapshot`.  Without peers, the section of
`runLeader` that advances the commit index. -/
def build : Option Node :=
  match s.loop with
  | .sending term [] => some { s with raft := s.raft.soloCommit term, loop := .leading term [] }
  | .sending term (p :: ps) =>
      let sends := s.raft.heartbeats (p :: ps) term
      some { s.send (sends.map fun x => (x.addr, .append x.args)) with
        loop := .sent ⟨term, p :: ps, s.calls, s.raft.lastEntry.1, sends⟩
        transfers := s.transfers ++
          ((p :: ps).filter fun a => s.raft.needsSnapshot a).map .start }
  | _ => none

/-- `sendHeartbeats` reads the configuration. -/
def readConfig : Option Node :=
  match s.loop with
  | .sent r =>
      some { s with loop := r.resume s.raft.clusterConfig }
  | _ => none

/-- `sendHeartbeats`: the answer of `addr`; `none` is a failed call.  Neither the
role nor the term is looked at again. -/
def ackResult (addr : Addr) (res : Option AppendEntriesResult) : Option Node :=
  match s.loop with
  | .collecting r cfg =>
      (r.awaiting.find? fun p => p.addr == addr).map fun p =>
        match res with
        | none => { s with loop := (r.close p).resume cfg }
        | some res =>
            if r.term < res.term then
              { s with raft := s.raft.leaderStepDown res.term, loop := .leading r.term r.peers }
            else if res.success then
              { s with
                raft := s.raft.handleAck r.term r.lastIdx cfg addr p.lastSentIdx
                loop := (r.close p).resume cfg }
            else
              { s with
                raft := s.raft.handleNack addr res.conflictIndex res.conflictTerm
                loop := (r.close p).resume cfg }
  | _ => none

/-! ### Requests -/

/-- A request arrives. -/
def deliver [Codec] (c : Call) (f : Faults) : Option Node :=
  if c.dst = s.addr then
    match c.req with
    | .vote args =>
        let r := s.raft.handleRequestVote args f
        some { s.reply c (.vote r.2.1 r.2.2) with
          raft := r.1
          votes := if r.2.2 then (args.term, args.candidateID) :: s.votes else s.votes }
    | .append args =>
        let r := s.raft.handleAppendEntries args f
        some { s.reply c (.append r.2) with raft := r.1 }
    | .install args =>
        match s.raft.installAdmit args f with
        | none => some (s.reply c (.install s.raft.currentTerm))
        | some n =>
            some { s with
              raft := n
              installs := s.installs ++ [⟨c, args, n.currentTerm, .buffer⟩] }
  else none

/-- The `i`-th running `HandleInstallSnapshot` goes to the given phase. -/
def setPhase (i : Nat) (t : Install) (phase : InstallPhase) : Node :=
  { s with installs := s.installs.set i { t with phase := phase } }

/-- The `i`-th running `HandleInstallSnapshot` returns. -/
def endInstall (i : Nat) (t : Install) : Node :=
  { s.reply t.call (.install t.term) with installs := s.installs.eraseIdx i }

/-- The next section of the `i`-th running `HandleInstallSnapshot`.  Without a
state machine there is nothing to restore and the lock is not released. -/
def installNext [Codec] (i : Nat) : Option Node :=
  (s.installs[i]?).map fun t =>
    match t.phase with
    | .buffer =>
        let s' := s.withRaft (s.raft.installBuffer t.args)
        if t.args.done then s'.setPhase i t .take else s'.endInstall i t
    | .take =>
        let s' := s.withRaft s.raft.installTake.1
        match RaftNode.installDecode t.args s.raft.installTake.2 with
        | none => s'.endInstall i t
        | some data => s'.setPhase i t (.choose data)
    | .choose data =>
        if s.raft.installFast t.args then
          (s.withRaft (s.raft.truncateLogPrefix t.args.lastIncludedIndex
            t.args.lastIncludedTerm)).endInstall i t
        else if s.raft.sm.isSome then s.setPhase i t (.restore data)
        else (s.withRaft (s.raft.installDiscard t.args data)).setPhase i t (.save data)
    | .restore data =>
        (s.withRaft (s.raft.installRestore t.args data)).setPhase i t (.discard data)
    | .discard data =>
        (s.withRaft (s.raft.installDiscard t.args data)).setPhase i t (.save data)
    | .save data =>
        (s.withRaft (s.raft.saveSnapshot (RaftNode.installedSnapshot t.args data))).endInstall i t

/-! ### Clients -/

def propose [Codec] (data : Bytes) (f : Faults) : Node :=
  { s with raft := (s.raft.propose data f).1 }

def proposeConfigChange [Codec] (newVoters : List Addr) (f : Faults) : Node :=
  let r := s.raft.proposeConfigChange newVoters f
  { s with
    raft := r.1
    changes := if r.2.2.2 then s.changes ++ [.waitJoint newVoters r.2.1] else s.changes }

/-- The next section of the `i`-th running membership change. -/
def changeNext [Codec] (i : Nat) (f : Faults) : Option Node :=
  match s.changes[i]? with
  | none => none
  | some (.waitJoint newVoters jointIndex) =>
      if jointIndex ≤ s.raft.commitIndex then
        some { s with changes := s.changes.set i (.proposeStable newVoters) }
      else none
  | some (.proposeStable newVoters) =>
      let r := s.raft.proposeStableConfig newVoters f
      some { s with
        raft := r.1
        changes :=
          if r.2.2.2 then s.changes.set i (.waitStable newVoters r.2.1)
          else s.changes.eraseIdx i }
  | some (.waitStable newVoters stableIndex) =>
      if stableIndex ≤ s.raft.commitIndex then
        some { s with changes := s.changes.set i (.finish newVoters) }
      else none
  | some (.finish newVoters) =>
      some { s with
        raft := s.raft.stepDownIfRemoved newVoters
        changes := s.changes.eraseIdx i }

/-- `ReadIndex`: only a leader goes on to `confirmLeadership`. -/
def readIndex : Option Node :=
  if s.raft.role = .leader then some { s with reads := s.raft.currentTerm :: s.reads } else none

/-- `confirmLeadership` sends its heartbeats. -/
def confirm (i : Nat) : Option Node :=
  (s.reads[i]?).map fun term =>
    { s.send (s.raft.allClients.map fun a => (a, .append (s.raft.confirmArgs term))) with
      reads := s.reads.eraseIdx i }

/-! ### Applying and snapshots -/

/-- `runApplyLoop`, under the lock. -/
def collect : Option Node :=
  if s.toApply = [] then
    some { s with raft := s.raft.collectApply.1, toApply := s.raft.collectApply.2 }
  else none

/-- `runApplyLoop` puts one entry on `applyCh`, whose buffer holds 256. -/
def emit : Option Node :=
  match s.toApply with
  | [] => none
  | e :: rest =>
      if s.emitted.length < s.consumed + 256 then
        some { s with toApply := rest, emitted := s.emitted ++ [e] }
      else none

/-- The state machine takes an entry from `applyCh` and applies it. -/
def apply [Codec] (writeFails : Bool) : Option Node :=
  match s.emitted[s.consumed]? with
  | none => none
  | some e =>
      some { s with
        raft := { s.raft with sm := s.raft.sm.map fun sm => sm.apply e writeFails }
        consumed := s.consumed + 1 }

/-- `maybeSnapshot`: `TakeSnapshot`. -/
def snapTake : Option Node :=
  match s.snap with
  | .idle => s.raft.snapshotTake.map fun p => { s with snap := .taken p.1 p.2 }
  | _ => none

/-- `maybeSnapshot`, under the lock. -/
def snapCapture : Option Node :=
  match s.snap with
  | .taken sm capturedIndex =>
      some { s with snap :=
        match s.raft.snapshotCapture sm capturedIndex with
        | none => .idle
        | some snapshot => .captured snapshot }
  | _ => none

/-- The snapshot goroutine saves the snapshot. -/
def snapSave (fails : Bool) : Option Node :=
  match s.snap with
  | .captured snapshot =>
      some (if fails then { s with snap := .idle }
        else { s with raft := s.raft.saveSnapshot snapshot, snap := .saved snapshot.snapMeta })
  | _ => none

/-- The snapshot goroutine truncates the log in memory. -/
def snapTruncate : Option Node :=
  match s.snap with
  | .saved m =>
      some { s with raft := s.raft.truncateLogPrefix m.index m.term, snap := .truncated m.index }
  | _ => none

/-- The snapshot goroutine compacts the log on disk. -/
def snapCompact : Option Node :=
  match s.snap with
  | .truncated capturedIndex =>
      some { s with raft := s.raft.compactLog capturedIndex, snap := .idle }
  | _ => none

/-- `sendSnapshot` reads the newest snapshot and sends it. -/
def transferStart [Codec] (i : Nat) : Option Node :=
  match s.transfers[i]? with
  | some (.start addr) =>
      match s.raft.snapshotToSend with
      | none => some { s with transfers := s.transfers.eraseIdx i }
      | some snapshot =>
          some { s.send ((s.raft.snapshotRequests snapshot).map fun a => (addr, .install a)) with
            transfers := s.transfers.set i (.send addr snapshot.snapMeta.index) }
  | _ => none

/-- `sendSnapshot` has been answered. -/
def transferDone (i : Nat) : Option Node :=
  match s.transfers[i]? with
  | some (.send addr index) =>
      some { s with
        raft := s.raft.snapshotSent addr index
        transfers := s.transfers.eraseIdx i }
  | _ => none

/-! ### Crashes -/

/-- The node crashes and is started again: the goroutines are gone, the disk and
the histories remain. -/
def restart [Codec] : Node :=
  { s with
    raft := s.raft.restart s.boot
    loop := .run
    installs := []
    snap := .idle
    changes := []
    transfers := []
    reads := []
    toApply := []
    emitted := []
    consumed := 0 }

/-- A node as it is first started, with or without each of its stores. -/
def fresh [Codec] (addr : Addr) (id : NodeID) (boot : Option (List Addr))
    (metaStore logStore : Bool)
    (sm : Bool) (snapshots : Option SnapshotConfig) : Node :=
  let n₀ := RaftNode.newRaftNode id boot (if metaStore then some ⟨0, ""⟩ else none)
    (if logStore then some [] else none)
  let n₁ := if sm then n₀.setStateMachine newKVStateMachine else n₀
  let n₂ := match snapshots with
    | none => n₁
    | some cfg => n₁.setSnapshotStore [] cfg
  { addr := addr
    boot := boot
    raft := n₂
    loop := .run
    installs := []
    snap := .idle
    changes := []
    transfers := []
    reads := []
    toApply := []
    emitted := []
    consumed := 0
    calls := 0
    sent := []
    replies := []
    votes := [] }

/-- **One section of the running node.**  `none` if it cannot run now. -/
def step [Codec] (s : Node) : Act → Option Node
  | .dispatch => s.dispatch
  | .reset => s.reset
  | .timeout => s.timeout
  | .startElection f => s.startElection f
  | .openCampaign => s.openCampaign
  | .electAlone => s.electAlone
  | .voteResult addr res => s.voteResult addr res
  | .enterLeader => s.enterLeader
  | .tick => s.tick
  | .build => s.build
  | .readConfig => s.readConfig
  | .ackResult addr res => s.ackResult addr res
  | .deliver c f => s.deliver c f
  | .installNext i => s.installNext i
  | .propose data f => some (s.propose data f)
  | .proposeConfigChange newVoters f => some (s.proposeConfigChange newVoters f)
  | .changeNext i f => s.changeNext i f
  | .changeAbort i => some { s with changes := s.changes.eraseIdx i }
  | .readIndex => s.readIndex
  | .confirm i => s.confirm i
  | .collect => s.collect
  | .emit => s.emit
  | .apply writeFails => s.apply writeFails
  | .snapTake => s.snapTake
  | .snapCapture => s.snapCapture
  | .snapSave fails => s.snapSave fails
  | .snapTruncate => s.snapTruncate
  | .snapCompact => s.snapCompact
  | .transferStart i => s.transferStart i
  | .transferDone i => s.transferDone i
  | .transferFail i => some { s with transfers := s.transfers.eraseIdx i }
  | .restart => some s.restart

/-- The largest `int64`. -/
def maxInt64 : Int := 2 ^ 63 - 1

/-- The section computes terms and indices that an `int64` can hold, and so what the code
computes, where they wrap.  The members of a cluster count from zero, one election or one
proposal at a time, and tell each other only what they have reached: nobody gets to `2 ^ 63`.
A node taken by itself can be told any number. -/
def fitsInt64 (s : Node) : Act → Bool
  | .startElection _ => decide (s.raft.currentTerm < maxInt64)
  | .propose _ _ | .proposeConfigChange _ _ | .changeNext _ _ =>
      decide (s.raft.lastEntry.1 < maxInt64)
  | .snapCapture =>
      match s.snap with
      | .taken _ capturedIndex => decide (|capturedIndex - s.raft.snapshotIndex| ≤ maxInt64)
      | _ => true
  | _ => true

end Node

end Raft
