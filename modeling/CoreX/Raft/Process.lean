/-
CoreX/Raft/Process.lean

The process that `main` starts on a node: the Raft node, the two state machines
behind the fan-out of `applyCh`, the file of the key-value store, and the HTTP
handlers that propose a command and wait for its index.

`Process.act` runs one atomic section.  A crash keeps a prefix of the key-value
file and the node's disk; then come `RecoverFromSnapshot`, `LoadAll`,
`RecoverFromStore` and the replay of the gap with `ApplyDirect`.

The last fields are histories that no section reads: what was seen committed,
what was applied, which snapshots were restored, which writes were answered with
204.
-/
import CoreX.Raft.Machine
import CoreX.Raft.Mvcc
import CoreX.Raft.Cluster

namespace Raft

/-! ### Startup -/

/-- The index a checkpoint carries. -/
def KvRecord.checkpointIndex : KvRecord → Option Int
  | .checkpoint raftIndex => some raftIndex
  | _ => none

/-- `RecoverKV`: the last checkpoint of the file. -/
def recoverKV (kv : List KvRecord) : Int := (kv.filterMap KvRecord.checkpointIndex).getLast?.getD 0

section

variable [Codec]

/-- `RecoverFromStore`: the entries up to the checkpoint go into the map once
more, whatever it holds, and `lastApplied` becomes the checkpoint. -/
def KVStateMachine.recoverFromStore (sm : KVStateMachine) (bitcaskLastApplied : Int)
    (entries : List LogEntry) : KVStateMachine :=
  ⟨Replay.run kvOp sm.data (entries.takeWhile fun e => e.index ≤ bitcaskLastApplied),
    bitcaskLastApplied⟩

/-- The state machine and its file during startup, with the entries that have been
applied. -/
structure Recovery where
  sm : KVStateMachine
  kv : List KvRecord
  applied : List LogEntry

/-- `ApplyDirect`; the result of the store's call is given for each entry. -/
def Recovery.applyDirect (results : LogEntry → StoreResult) (x : Recovery) (e : LogEntry) :
    Recovery :=
  if e.index ≤ x.sm.lastApplied then x
  else
    { sm := x.sm.apply e (writeFails e (results e))
      kv := x.kv ++ kvWritten e (results e)
      applied :=
        if wellFormed e && !writeFails e (results e) then x.applied ++ [e] else x.applied }

/-- The entries `RecoverFromStore` puts into the map. -/
def settled (kv : List KvRecord) (entries : List LogEntry) : List LogEntry :=
  entries.takeWhile fun e => e.index ≤ recoverKV kv

/-- The entries `main` replays after it. -/
def gap (kv : List KvRecord) (entries : List LogEntry) : List LogEntry :=
  entries.filter fun e => recoverKV kv < e.index

/-- After `RecoverFromStore`. -/
def Recovery.begin (sm : KVStateMachine) (kv : List KvRecord) (entries : List LogEntry) :
    Recovery :=
  ⟨sm.recoverFromStore (recoverKV kv) entries, kv,
    (settled kv entries).filter fun e => (kvOp e).isSome⟩

/-- `main`, from the recovered snapshot on; `none` is `os.Exit(1)`. -/
def startup (sm : KVStateMachine) (snapshotLastApplied : Int) (entries : List LogEntry)
    (kv : List KvRecord) (results : LogEntry → StoreResult) : Option Recovery :=
  let bitcaskLastApplied := recoverKV kv
  let raftLastApplied := max ((entries.getLast?.map LogEntry.index).getD 0) snapshotLastApplied
  if raftLastApplied < bitcaskLastApplied then none
  else if bitcaskLastApplied < raftLastApplied then
    some ((gap kv entries).foldl (Recovery.applyDirect results) (.begin sm kv entries))
  else some (.begin sm kv entries)

end

/-! ### The process -/

/-- The state machine a handler waits on: `POST /raft/kv` and `POST /ingest` wait on
the first, `PUT /mvcc/kv` on the second. -/
inductive Backend
  | kv
  | mvcc
  deriving DecidableEq, Repr

/-- Where a handler stands after `Propose`. -/
inductive WaitStage
  /-- Before `WaitForIndex`. -/
  | proposed
  /-- `lastApplied` was below the index. -/
  | checked
  /-- And there was no conflict (`MVCCStateMachine` only). -/
  | cleared
  /-- Its channel is registered. -/
  | waiting
  /-- `WaitForIndex` has returned `nil`. -/
  | returned
  deriving DecidableEq, Repr

/-- A write in progress: the entry that `Propose` appended, of which the handler
knows the index only. -/
structure Write where
  backend : Backend
  entry : LogEntry
  stage : WaitStage
  deriving DecidableEq, Repr

structure Process where
  node : Node
  /-- The file of the key-value store. -/
  kv : List KvRecord
  /-- `KVStateMachine.apply` between the update of the map and that of
  `lastApplied`. -/
  storing : Option LogEntry
  /-- The entry that the fan-out has put on `kvApplyCh` and not yet on
  `mvccApplyCh`. -/
  fan : Option LogEntry
  kvCh : List LogEntry
  mvccCh : List LogEntry
  mvcc : MVCCStateMachine
  writes : List Write
  committed : List LogEntry
  applied : List LogEntry
  mvccApplied : List LogEntry
  restored : List SnapshotData
  answered : List Write

inductive ProcessAct
  | node (act : Act)
  | fanKv
  | fanMvcc
  | kvWrite (r : StoreResult)
  | kvStore
  | mvccApply
  | request (backend : Backend) (data : Bytes) (f : Faults)
  | handlerNext (j : Nat)
  | handlerTimeout (j : Nat)
  | crash (keep : Nat) (results : LogEntry → StoreResult)

def ProcessAct.isCrash : ProcessAct → Bool
  | .crash _ _ => true
  | _ => false

namespace Process

variable (p : Process)

/-- `lastApplied` of the key-value state machine. -/
def kvApplied : Int := (p.node.raft.sm.map KVStateMachine.lastApplied).getD 0

/-- `lastApplied` of the state machine a handler waits on. -/
def appliedIndex : Backend → Int
  | .kv => p.kvApplied
  | .mvcc => p.mvcc.lastApplied

def mapSM (f : KVStateMachine → KVStateMachine) : Process :=
  { p with node := p.node.withRaft { p.node.raft with sm := p.node.raft.sm.map f } }

/-- `notifyWaiters` and `notifyAllWaitersUpTo`: the registered handlers of these
indices return. -/
def wake (backend : Backend) (woken : Int → Bool) : Process :=
  { p with writes := p.writes.map fun w =>
      if w.stage = .waiting ∧ w.backend = backend ∧ woken w.entry.index then
        { w with stage := .returned }
      else w }

/-! ### The node and its channels -/

/-- The snapshot a section is about to restore. -/
def restoring : Act → Option (InstallSnapshotArgs × SnapshotData)
  | .installNext i =>
      match p.node.installs[i]? with
      | some ⟨_, args, _, .restore data⟩ => some (args, data)
      | _ => none
  | _ => none

/-- A section of the node.  `RestoreSnapshot` wakes the handlers it covers. -/
def nodeAct [Codec] (act : Act) : Option Process :=
  match act with
  | .apply _ => none
  | .restart => none
  | act =>
      (p.node.step act).map fun s =>
        match p.restoring act with
        | none => { p with node := s }
        | some (args, data) =>
            { p with node := s, restored := p.restored ++ [data] }.wake .kv
              fun i => i ≤ args.lastIncludedIndex

/-- The fan-out takes an entry from `applyCh` and puts it on `kvApplyCh`. -/
def fanKv : Option Process :=
  match p.fan, p.node.emitted[p.node.consumed]? with
  | none, some e =>
      if p.kvCh.length < 256 then
        some { p with
          node := { p.node with consumed := p.node.consumed + 1 }
          fan := some e
          kvCh := p.kvCh ++ [e] }
      else none
  | _, _ => none

/-- And on `mvccApplyCh`. -/
def fanMvcc : Option Process :=
  match p.fan with
  | some e =>
      if p.mvccCh.length < 256 then some { p with fan := none, mvccCh := p.mvccCh ++ [e] }
      else none
  | none => none

/-! ### The state machines -/

/-- `KVStateMachine.apply`, up to the update of the map.  A malformed entry wakes
its waiters; a failed write does nothing more. -/
def kvWrite [Codec] (r : StoreResult) : Option Process :=
  match p.storing, p.kvCh with
  | none, e :: rest =>
      let p' := { p with kvCh := rest, kv := p.kv ++ kvWritten e r }
      if !wellFormed e then some (p'.wake .kv fun i => i = e.index)
      else if writeFails e r then some p'
      else
        some { p'.mapSM fun sm => { sm with data := Replay.act kvOp sm.data e } with
          storing := some e
          applied := p.applied ++ [e] }
  | _, _ => none

/-- `KVStateMachine.apply`, the rest: `lastApplied` and `notifyWaiters`. -/
def kvStore : Option Process :=
  match p.storing with
  | some e =>
      some ({ p.mapSM fun sm => { sm with lastApplied := e.index } with storing := none }.wake .kv
        fun i => i = e.index)
  | none => none

/-- `MVCCStateMachine.apply`. -/
def mvccApply [Codec] : Option Process :=
  match p.mvccCh with
  | e :: rest =>
      some ({ p with
        mvccCh := rest
        mvcc := p.mvcc.apply e
        mvccApplied := if p.mvcc.accepts e then p.mvccApplied ++ [e] else p.mvccApplied }.wake .mvcc
          fun i => i = e.index)
  | [] => none

/-! ### The handlers -/

/-- What a handler may propose: the JSON of a command with an operation and, where
it checks this, a key. -/
def proposable [Codec] (backend : Backend) (data : Bytes) : Bool :=
  match Codec.unmarshalCommand data, backend with
  | none, _ => false
  | some cmd, .kv =>
      (decide (cmd.op = "set") || decide (cmd.op = "del")) && decide (cmd.key ≠ "") &&
        decide (cmd.expectedVersion = 0)
  | some cmd, .mvcc =>
      decide (cmd.op = if 0 < cmd.expectedVersion then "cas" else "set") && decide (cmd.key ≠ "")

/-- A handler calls `Propose`; on a node that does not lead it gives up. -/
def request [Codec] (backend : Backend) (data : Bytes) (f : Faults) : Option Process :=
  if proposable backend data then
    let r := p.node.raft.propose data f
    let p' := { p with node := p.node.propose data f }
    if r.2.2.2 then
      some { p' with
        writes := p.writes ++ [⟨backend, ⟨r.2.1, r.2.2.1, entryTypeCommand, data⟩, .proposed⟩] }
    else some p'
  else none

/-- The `j`-th handler has come to the given stage. -/
def setStage (j : Nat) (w : Write) (stage : WaitStage) : Process :=
  { p with writes := p.writes.set j { w with stage := stage } }

/-- The `j`-th handler answers 204. -/
def answer (j : Nat) (w : Write) : Process :=
  { p with writes := p.writes.eraseIdx j, answered := p.answered ++ [w] }

/-- The next section of the `j`-th handler: the two checks of `WaitForIndex`, the
registration, and the answer; that of `PUT /mvcc/kv` depends on `IsCASConflict`. -/
def handlerNext (j : Nat) : Option Process :=
  match p.writes[j]? with
  | none => none
  | some w =>
      match w.stage, w.backend with
      | .proposed, _ =>
          some (p.setStage j w
            (if w.entry.index ≤ p.appliedIndex w.backend then .returned else .checked))
      | .checked, .kv => some (p.setStage j w .waiting)
      | .checked, .mvcc =>
          some (p.setStage j w
            (if (p.mvcc.conflictResults w.entry.index).isSome then .returned else .cleared))
      | .cleared, _ => some (p.setStage j w .waiting)
      | .waiting, _ => none
      | .returned, .kv => some (p.answer j w)
      | .returned, .mvcc =>
          let r := p.mvcc.isCASConflict w.entry.index
          match r.2 with
          | some _ => some { p with mvcc := r.1, writes := p.writes.eraseIdx j }
          | none => some ({ p with mvcc := r.1 }.answer j w)

/-- The context of the `j`-th handler is done: it answers 504. -/
def handlerTimeout (j : Nat) : Option Process :=
  match p.writes[j]? with
  | some ⟨_, _, .waiting⟩ => some { p with writes := p.writes.eraseIdx j }
  | _ => none

/-! ### Crashes -/

/-- `LoadAll` of the node's log file. -/
def logEntries : List LogEntry := (p.node.raft.logStore.map loadAll).getD []

/-- What startup makes of the disk: the first `keep` records of the key-value file
are left. -/
def recovery [Codec] (keep : Nat) (results : LogEntry → StoreResult) : Option Recovery :=
  startup (p.node.restart.raft.sm.getD newKVStateMachine) p.node.restart.raft.snapshotIndex
    p.logEntries (p.kv.take keep) results

/-- The process crashes and is started again. -/
def crash [Codec] (keep : Nat) (results : LogEntry → StoreResult) : Option Process :=
  (p.recovery keep results).map fun x =>
    { p with
      node := p.node.restart.withRaft { p.node.restart.raft with sm := some x.sm }
      kv := x.kv
      storing := none
      fan := none
      kvCh := []
      mvccCh := []
      mvcc := .new p.mvcc.retention
      writes := []
      applied := p.applied ++ x.applied }

/-! ### The step -/

/-- The entries that are committed at the node now. -/
def noteCommitted : Process :=
  { p with committed := p.committed ++ p.node.raft.log.filter fun e =>
      e.index ≤ p.node.raft.commitIndex ∧ e ∉ p.committed }

def act [Codec] : ProcessAct → Option Process
  | .node act => p.nodeAct act
  | .fanKv => p.fanKv
  | .fanMvcc => p.fanMvcc
  | .kvWrite r => p.kvWrite r
  | .kvStore => p.kvStore
  | .mvccApply => p.mvccApply
  | .request backend data f => p.request backend data f
  | .handlerNext j => p.handlerNext j
  | .handlerTimeout j => p.handlerTimeout j
  | .crash keep results => p.crash keep results

/-- **One section of the process**, with what it shows to be committed. -/
def step [Codec] (p : Process) (a : ProcessAct) : Option Process := (p.act a).map noteCommitted

/-- The process on a node that was never started before. -/
def start (node : Node) : Process :=
  { node := node
    kv := []
    storing := none
    fan := none
    kvCh := []
    mvccCh := []
    mvcc := .new 10
    writes := []
    committed := []
    applied := []
    mvccApplied := []
    restored := []
    answered := [] }

/-- The same with all the stores that `main` opens. -/
def fresh [Codec] (addr : Addr) (id : NodeID) (boot : Option (List Addr)) (cfg : SnapshotConfig) :
    Process :=
  start (Node.fresh addr id boot true true true (some cfg))

/-! ### What the longer sections do -/

section

variable {p} {p' : Process}

theorem nodeAct_cases [Codec] {act : Act} (h : p.nodeAct act = some p') :
    ∃ s, p.node.step act = some s ∧ (∀ fails, act ≠ .apply fails) ∧ act ≠ .restart ∧
      (p.restoring act = none ∧ p' = { p with node := s } ∨
        ∃ args data, p.restoring act = some (args, data) ∧
          p' = { p with node := s, restored := p.restored ++ [data] }.wake .kv
            fun i => i ≤ args.lastIncludedIndex) := by
  unfold nodeAct at h
  split at h
  · cases h
  · cases h
  · next happly hrestart =>
    obtain ⟨s, hs, rfl⟩ := Option.map_eq_some_iff.mp h
    refine ⟨s, hs, fun fails => happly fails, hrestart, ?_⟩
    rcases hr : p.restoring act with - | ⟨args, data⟩
    · exact .inl ⟨rfl, rfl⟩
    · exact .inr ⟨args, data, rfl, rfl⟩

theorem restoring_of_phase {i : Nat} {t : Install} {data : SnapshotData}
    (ht : p.node.installs[i]? = some t) (hp : t.phase = .restore data) :
    p.restoring (.installNext i) = some (t.args, data) := by
  obtain ⟨call, args, term, phase⟩ := t
  obtain rfl : phase = .restore data := hp
  rw [restoring, ht]

theorem fanKv_some (h : p.fanKv = some p') : ∃ e, p.fan = none ∧
    p.node.emitted[p.node.consumed]? = some e ∧
    p' = { p with
      node := { p.node with consumed := p.node.consumed + 1 }
      fan := some e
      kvCh := p.kvCh ++ [e] } := by
  unfold fanKv at h
  split at h
  · next hf he =>
    split at h
    · cases h
      exact ⟨_, hf, he, rfl⟩
    · cases h
  · cases h

theorem fanMvcc_some (h : p.fanMvcc = some p') : ∃ e, p.fan = some e ∧
    p' = { p with fan := none, mvccCh := p.mvccCh ++ [e] } := by
  unfold fanMvcc at h
  split at h
  · next e hf =>
    split at h
    · cases h
      exact ⟨e, hf, rfl⟩
    · cases h
  · cases h

theorem kvWrite_cases [Codec] {r : StoreResult} (h : p.kvWrite r = some p') :
    ∃ e rest, p.storing = none ∧ p.kvCh = e :: rest ∧
      (wellFormed e = false ∧ p' = ({ p with
          kvCh := rest, kv := p.kv ++ kvWritten e r }.wake .kv fun i => i = e.index) ∨
        writeFails e r = true ∧ p' = { p with kvCh := rest, kv := p.kv ++ kvWritten e r } ∨
        wellFormed e = true ∧ writeFails e r = false ∧
          p' = { { p with kvCh := rest, kv := p.kv ++ kvWritten e r }.mapSM fun sm =>
              { sm with data := Replay.act kvOp sm.data e } with
            storing := some e
            applied := p.applied ++ [e] }) := by
  unfold kvWrite at h
  split at h
  · next e rest hst hch =>
    refine ⟨e, rest, hst, hch, ?_⟩
    split at h
    · next hwf =>
      cases h
      exact .inl ⟨by simpa using hwf, rfl⟩
    · next hwf =>
      split at h
      · next hfail =>
        cases h
        exact .inr (.inl ⟨hfail, rfl⟩)
      · next hfail =>
        cases h
        exact .inr (.inr ⟨by simpa using hwf, by simpa using hfail, rfl⟩)
  · cases h

theorem kvStore_some (h : p.kvStore = some p') : ∃ e, p.storing = some e ∧
    p' = ({ p.mapSM fun sm => { sm with lastApplied := e.index } with storing := none }.wake .kv
      fun i => i = e.index) := by
  unfold kvStore at h
  split at h
  · next e hst =>
    cases h
    exact ⟨e, hst, rfl⟩
  · cases h

theorem mvccApply_some [Codec] (h : p.mvccApply = some p') : ∃ e rest, p.mvccCh = e :: rest ∧
    p' = ({ p with
      mvccCh := rest
      mvcc := p.mvcc.apply e
      mvccApplied := if p.mvcc.accepts e then p.mvccApplied ++ [e] else p.mvccApplied }.wake .mvcc
        fun i => i = e.index) := by
  unfold mvccApply at h
  split at h
  · next e rest hch =>
    cases h
    exact ⟨e, rest, hch, rfl⟩
  · cases h

theorem request_cases [Codec] {backend : Backend} {data : Bytes} {f : Faults}
    (h : p.request backend data f = some p') :
    proposable backend data = true ∧
      ((p.node.raft.propose data f).2.2.2 = false ∧ p' = { p with node := p.node.propose data f } ∨
        (p.node.raft.propose data f).2.2.2 = true ∧
        p' = { p with
          node := p.node.propose data f
          writes := p.writes ++ [⟨backend, ⟨(p.node.raft.propose data f).2.1,
            (p.node.raft.propose data f).2.2.1, entryTypeCommand, data⟩, .proposed⟩] }) := by
  unfold request at h
  split at h
  · next hdata =>
    refine ⟨hdata, ?_⟩
    dsimp only at h
    split at h
    · next hlead =>
      cases h
      exact .inr ⟨hlead, rfl⟩
    · next hlead =>
      cases h
      exact .inl ⟨by simpa using hlead, rfl⟩
  · cases h

theorem handlerNext_frame {j : Nat} (h : p.handlerNext j = some p') :
    p' = { p with mvcc := p'.mvcc, writes := p'.writes, answered := p'.answered } := by
  unfold handlerNext at h
  split at h
  · cases h
  · split at h
    case h_7 =>
      dsimp only at h
      split at h <;> cases h <;> rfl
    all_goals cases h; try rfl

theorem handlerTimeout_some {j : Nat} (h : p.handlerTimeout j = some p') :
    p' = { p with writes := p.writes.eraseIdx j } := by
  unfold handlerTimeout at h
  split at h
  · cases h
    rfl
  · cases h

theorem committed_step [Codec] {a : ProcessAct} (h : p.step a = some p') :
    p'.committed = p.committed ++ p'.node.raft.log.filter fun e =>
      e.index ≤ p'.node.raft.commitIndex ∧ e ∉ p.committed := by
  obtain ⟨q, hq, rfl⟩ := Option.map_eq_some_iff.mp h
  have hsame : q.committed = p.committed := by
    cases a with
    | node act =>
      obtain ⟨s, _, _, _, hp⟩ := nodeAct_cases hq
      rcases hp with ⟨_, rfl⟩ | ⟨_, _, _, rfl⟩ <;> rfl
    | fanKv =>
      obtain ⟨e, _, _, rfl⟩ := fanKv_some hq
      rfl
    | fanMvcc =>
      obtain ⟨e, _, rfl⟩ := fanMvcc_some hq
      rfl
    | kvWrite r =>
      obtain ⟨e, rest, _, _, hp⟩ := kvWrite_cases hq
      rcases hp with ⟨_, rfl⟩ | ⟨_, rfl⟩ | ⟨_, _, rfl⟩ <;> rfl
    | kvStore =>
      obtain ⟨e, _, rfl⟩ := kvStore_some hq
      rfl
    | mvccApply =>
      obtain ⟨e, rest, _, rfl⟩ := mvccApply_some hq
      rfl
    | request backend data f =>
      obtain ⟨_, ⟨_, rfl⟩ | ⟨_, rfl⟩⟩ := request_cases hq <;> rfl
    | handlerNext j =>
      rw [handlerNext_frame hq]
    | handlerTimeout j =>
      rw [handlerTimeout_some hq]
    | crash keep results =>
      obtain ⟨x, _, rfl⟩ := Option.map_eq_some_iff.mp hq
      rfl
  rw [← hsame]
  rfl

end

end Process

end Raft
