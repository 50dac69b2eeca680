/-
CoreX/Raft/Node.lean

The state of one node and the handlers that run under its lock: construction,
log access, configuration entries, `HandleAppendEntries`, `HandleRequestVote`
and `proposeEntry`.  Every handler is a function of the state, its arguments and
the store operations that fail during the call (`Faults`).

The lease of a leader is left out: no function here reads it.
-/
import CoreX.Raft.Types

namespace Raft

inductive RaftRole
  | follower
  | candidate
  | leader
  deriving DecidableEq, Repr

/-- `RaftNode`.  A store that is not configured is `none`; otherwise the field
holds what is on disk.  `nextIndex` and `matchIndex` are `none` until the node
has entered `runLeader` with peers.  `resetCh` is its buffer of one token. -/
structure RaftNode where
  id : NodeID
  peers : Option (List Addr)
  currentTerm : Int
  votedFor : NodeID
  role : RaftRole
  leaderID : NodeID
  log : List LogEntry
  commitIndex : Int
  lastApplied : Int
  nextIndex : Option (Addr → Option Int)
  matchIndex : Option (Addr → Option Int)
  metaStore : Option RaftMeta
  logStore : Option (List LogRecord)
  resetCh : Bool
  sm : Option KVStateMachine
  snapshotIndex : Int
  snapshotTerm : Int
  snapshotStore : Option SnapshotFiles
  snapshotCfg : SnapshotConfig
  snapBuf : Bytes
  clusterConfig : ClusterConfig

namespace RaftNode

variable (n : RaftNode)

/-! ### Reading the log -/

/-- `lastEntry`: index and term of the last entry, or of the snapshot. -/
def lastEntry : Int × Int :=
  match n.log.getLast? with
  | none => (n.snapshotIndex, n.snapshotTerm)
  | some e => (e.index, e.term)

/-- `entryAt`: the entry of that index, searched from the end. -/
def entryAt (index : Int) : Option LogEntry :=
  if index ≤ 0 || n.log.isEmpty then none
  else n.log.reverse.find? fun e => e.index == index

/-- `termAt`: the term at that index, the snapshot boundary included. -/
def termAt (index : Int) : Option Int :=
  if index ≤ 0 then none
  else
    match n.entryAt index with
    | some e => some e.term
    | none => if index = n.snapshotIndex then some n.snapshotTerm else none

/-- `candidateLogUpToDate`. -/
def candidateLogUpToDate (candidateLastLogIndex candidateLastLogTerm : Int) : Bool :=
  if candidateLastLogTerm ≠ n.lastEntry.2 then decide (n.lastEntry.2 < candidateLastLogTerm)
  else decide (n.lastEntry.1 ≤ candidateLastLogIndex)

/-! ### Configuration entries -/

/-- `EnsureConnected`: dial the addresses that have no client yet. -/
def ensureConnected (peers : Option (List Addr)) (addrs : List Addr) : Option (List Addr) :=
  peers.map fun clients =>
    addrs.foldl (fun clients addr => if addr ∈ clients then clients else clients ++ [addr]) clients

theorem mem_ensureConnected {clients addrs : List Addr} {v : Addr} :
    v ∈ addrs.foldl (fun clients addr => if addr ∈ clients then clients else clients ++ [addr])
      clients ↔ v ∈ clients ∨ v ∈ addrs := by
  induction addrs generalizing clients with
  | nil => simp
  | cons addr rest ih =>
    rw [List.foldl_cons, ih, List.mem_cons]
    split
    · next hmem => grind
    · next hmem => grind

/-- The configuration `cfg` becomes active: the addresses `connect` are dialled
and, on a node that has led, get replication pointers if they have none. -/
def activate (cfg : ClusterConfig) (connect : List Addr) : RaftNode :=
  { n with
    clusterConfig := cfg
    peers := ensureConnected n.peers connect
    nextIndex := n.nextIndex.map fun next addr =>
      if addr ∈ connect ∧ (next addr).isNone then some (n.lastEntry.1 + 1) else next addr
    matchIndex :=
      match n.nextIndex with
      | none => n.matchIndex
      | some next => n.matchIndex.map fun mtch addr =>
          if addr ∈ connect ∧ (next addr).isNone then some 0 else mtch addr }

/-- `applyConfigEntry`.  A payload that does not parse, or whose phase is
unknown, changes nothing. -/
def applyConfigEntry [Codec] (entry : LogEntry) : RaftNode :=
  match Codec.unmarshalConfig entry.data with
  | none => n
  | some payload =>
      if payload.phase = "joint" then
        n.activate ⟨.joint, payload.voters, payload.newVoters⟩ payload.newVoters
      else if payload.phase = "stable" then
        n.activate ⟨.stable, payload.voters, []⟩ payload.voters
      else n

/-! ### Construction -/

/-- `NewRaftNode`: the persistent state is read back and the configuration
entries of the log are replayed. -/
def newRaftNode [Codec] (id : NodeID) (peers : Option (List Addr)) (metaStore : Option RaftMeta)
    (logStore : Option (List LogRecord)) : RaftNode :=
  let entries := (logStore.map loadAll).getD []
  let n : RaftNode :=
    { id := id
      peers := peers
      currentTerm := (metaStore.map RaftMeta.term).getD 0
      votedFor := (metaStore.map RaftMeta.votedFor).getD ""
      role := .follower
      leaderID := ""
      log := entries
      commitIndex := 0
      lastApplied := 0
      nextIndex := none
      matchIndex := none
      metaStore := metaStore
      logStore := logStore
      resetCh := false
      sm := none
      snapshotIndex := 0
      snapshotTerm := 0
      snapshotStore := none
      snapshotCfg := ⟨0, 0⟩
      snapBuf := []
      clusterConfig := ⟨.stable, peers.getD [], []⟩ }
  (entries.filter fun e => e.type = entryTypeConfig).foldl (fun n e => n.applyConfigEntry e) n

/-- `SetStateMachine`. -/
def setStateMachine (sm : KVStateMachine) : RaftNode := { n with sm := some sm }

/-- `SetSnapshotStore`. -/
def setSnapshotStore (files : SnapshotFiles) (cfg : SnapshotConfig) : RaftNode :=
  { n with snapshotStore := some files, snapshotCfg := cfg }

/-! ### Persisting term and vote -/

/-- `n.meta.Save(m)`, where the failure is one only if there is a store. -/
def saveFails (fault : Bool) : Bool := n.metaStore.isSome && fault

/-- What is on disk after `Save(m)`. -/
def saveMeta (fault : Bool) (m : RaftMeta) : RaftNode :=
  if fault then n else { n with metaStore := n.metaStore.map fun _ => m }

/-- The common answer to a request of a higher term: adopt it, forget the vote,
save (a failing save is only logged). -/
def observeTerm (term : Int) (fault : Bool) : RaftNode :=
  { n with currentTerm := term, votedFor := "" }.saveMeta fault ⟨term, ""⟩

/-! ### AppendEntries -/

variable (args : AppendEntriesArgs)

/-- The part of `HandleAppendEntries` that every request of a current term
reaches: term, role, leader, election timer. -/
def acceptLeader (f : Faults) : RaftNode :=
  { (if n.currentTerm < args.term then n.observeTerm args.term f.saveTerm else n) with
    role := .follower
    leaderID := args.leaderID
    resetCh := true }

/-- The first index of the run of `conflictTerm` that ends at `conflictIdx`; the
first argument bounds the number of steps back. -/
def conflictStart (conflictTerm : Int) : Nat → Int → Int
  | 0, conflictIdx => conflictIdx
  | k + 1, conflictIdx =>
      if 1 < conflictIdx ∧ n.termAt (conflictIdx - 1) = some conflictTerm then
        conflictStart conflictTerm k (conflictIdx - 1)
      else conflictIdx

/-- The consistency check: `none` if it passes, else the conflict index and
term of the rejection. -/
def checkPrev : Option (Int × Int) :=
  if 0 < args.prevLogIndex then
    match n.termAt args.prevLogIndex with
    | none => some (n.lastEntry.1 + 1, 0)
    | some prevTerm =>
        if prevTerm ≠ args.prevLogTerm then
          some (n.conflictStart prevTerm args.prevLogIndex.toNat args.prevLogIndex, prevTerm)
        else none
  else none

/-- The conflict branch: mark the truncation on disk, cut the log. -/
def cutSuffix (index : Int) : RaftNode :=
  { n with
    log := n.log.takeWhile fun e => e.index < index
    logStore := n.logStore.map fun wal => wal ++ [.truncate index] }

/-- Append one entry to disk and memory; configuration entries take effect at
once. -/
def appendEntry [Codec] (e : LogEntry) : RaftNode :=
  let n' := { n with
    log := n.log ++ [e]
    logStore := n.logStore.map fun wal => wal ++ [.entry e] }
  if e.type = entryTypeConfig then n'.applyConfigEntry e else n'

/-- The loop over the batch, with the flag `truncated` and the position in the
batch; `false` if a store operation failed. -/
def appendLoop [Codec] (f : Faults) : RaftNode → Bool → Nat → List PbLogEntry → RaftNode × Bool
  | n, _, _, [] => (n, true)
  | n, truncated, i, e :: rest =>
      match (if truncated then none else n.entryAt e.index) with
      | some existing =>
          if existing.term = e.term then
            -- already there: skip
            appendLoop f n false (i + 1) rest
          else if n.logStore.isSome && f.truncate then (n, false)
          else if n.logStore.isSome && f.append == some i then (n.cutSuffix e.index, false)
          else appendLoop f ((n.cutSuffix e.index).appendEntry e.toEntry) true (i + 1) rest
      | none =>
          if n.logStore.isSome && f.append == some i then (n, false)
          else appendLoop f (n.appendEntry e.toEntry) truncated (i + 1) rest

/-- The commit rule of a follower. -/
def followCommit (leaderCommit : Int) : RaftNode :=
  if n.commitIndex < leaderCommit then
    { n with commitIndex :=
        if leaderCommit < n.lastEntry.1 then leaderCommit else n.lastEntry.1 }
  else n

/-- `HandleAppendEntries`. -/
def handleAppendEntries [Codec] (f : Faults) :
    RaftNode × AppendEntriesResult :=
  if args.term < n.currentTerm then (n, ⟨n.currentTerm, false, 0, 0⟩)
  else
    let n₁ := n.acceptLeader args f
    match n₁.checkPrev args with
    | some (conflictIndex, conflictTerm) =>
        (n₁, ⟨n₁.currentTerm, false, conflictIndex, conflictTerm⟩)
    | none =>
        match appendLoop f n₁ false 0 args.entries with
        | (n₂, false) => (n₂, ⟨n₂.currentTerm, false, 0, 0⟩)
        | (n₂, true) => (n₂.followCommit args.leaderCommit, ⟨n₂.currentTerm, true, 0, 0⟩)

/-! ### RequestVote -/

/-- Adopt the term of a vote request if it is higher. -/
def observeCandidate (args : RequestVoteArgs) (f : Faults) : RaftNode :=
  if n.currentTerm < args.term then
    { n.observeTerm args.term f.saveTerm with role := .follower }
  else n

/-- `HandleRequestVote`. -/
def handleRequestVote (args : RequestVoteArgs) (f : Faults) : RaftNode × Int × Bool :=
  if args.term < n.currentTerm then (n, n.currentTerm, false)
  else
    let n₁ := n.observeCandidate args f
    if !n₁.candidateLogUpToDate args.lastLogIndex args.lastLogTerm then
      (n₁, n₁.currentTerm, false)
    else if n₁.votedFor = "" ∨ n₁.votedFor = args.candidateID then
      if n₁.saveFails f.saveVote then (n₁, n₁.currentTerm, false)
      else
        ({ n₁.saveMeta f.saveVote ⟨n₁.currentTerm, args.candidateID⟩ with
            votedFor := args.candidateID
            resetCh := true }, n₁.currentTerm, true)
    else (n₁, n₁.currentTerm, false)

/-! ### Proposals -/

/-- The entry as `proposeEntry` appends it. -/
def entryOf (type : EntryType) (data : Bytes) : LogEntry :=
  ⟨n.lastEntry.1 + 1, n.currentTerm, type, data⟩

/-- `proposeEntry`: only on a leader; index and term are the node's own. -/
def proposeEntry [Codec] (type : EntryType) (data : Bytes) (f : Faults) :
    RaftNode × Int × Int × Bool :=
  if n.role ≠ .leader then (n, 0, 0, false)
  else if n.logStore.isSome && f.append == some 0 then (n, 0, 0, false)
  else
    let entry : LogEntry := ⟨n.lastEntry.1 + 1, n.currentTerm, type, data⟩
    (n.appendEntry entry, entry.index, n.currentTerm, true)

/-- `Propose`. -/
def propose [Codec] (data : Bytes) (f : Faults) : RaftNode × Int × Int × Bool :=
  n.proposeEntry entryTypeCommand data f

/-- The first section of `ProposeConfigChange`: the joint entry, refused on a
node that does not lead or is already in a joint configuration. -/
def proposeConfigChange [Codec] (newVoters : List Addr) (f : Faults) :
    RaftNode × Int × Int × Bool :=
  if n.role ≠ .leader || n.clusterConfig.isJoint then (n, 0, 0, false)
  else
    n.proposeEntry entryTypeConfig
      (Codec.marshalConfig ⟨"joint", n.clusterConfig.voters, newVoters⟩) f

/-- The second phase, also used by `proposeStableConfig`: the stable entry. -/
def proposeStableConfig [Codec] (newVoters : List Addr) (f : Faults) :
    RaftNode × Int × Int × Bool :=
  n.proposeEntry entryTypeConfig (Codec.marshalConfig ⟨"stable", newVoters, []⟩) f

/-- The step-down of a leader that the new configuration does not list. -/
def stepDownIfRemoved (newVoters : List Addr) : RaftNode :=
  if n.id ∈ newVoters then n else { n with role := .follower }

/-! ### What the log operations leave alone -/

/-- `n'` differs from `n` in the log, the commit index and what a configuration
entry sets, and in nothing else. -/
def LogOnly (n n' : RaftNode) : Prop :=
  ∃ log wal commit cfg peers next mtch,
    n' = { n with
      log := log
      logStore := wal
      commitIndex := commit
      clusterConfig := cfg
      peers := peers
      nextIndex := next
      matchIndex := mtch }

variable {n} {n' n'' : RaftNode}

theorem LogOnly.refl (n : RaftNode) : LogOnly n n := ⟨_, _, _, _, _, _, _, rfl⟩

theorem LogOnly.trans (h : LogOnly n n') (h' : LogOnly n' n'') : LogOnly n n'' := by
  obtain ⟨_, _, _, _, _, _, _, rfl⟩ := h
  obtain ⟨_, _, _, _, _, _, _, rfl⟩ := h'
  exact ⟨_, _, _, _, _, _, _, rfl⟩

theorem LogOnly.role (h : LogOnly n n') : n'.role = n.role := by
  obtain ⟨_, _, _, _, _, _, _, rfl⟩ := h
  rfl

theorem LogOnly.currentTerm (h : LogOnly n n') : n'.currentTerm = n.currentTerm := by
  obtain ⟨_, _, _, _, _, _, _, rfl⟩ := h
  rfl

theorem LogOnly.snapshotIndex (h : LogOnly n n') : n'.snapshotIndex = n.snapshotIndex := by
  obtain ⟨_, _, _, _, _, _, _, rfl⟩ := h
  rfl

theorem LogOnly.snapshotStore (h : LogOnly n n') : n'.snapshotStore = n.snapshotStore := by
  obtain ⟨_, _, _, _, _, _, _, rfl⟩ := h
  rfl

theorem logOnly_applyConfigEntry [Codec] (e : LogEntry) : LogOnly n (n.applyConfigEntry e) := by
  unfold applyConfigEntry
  split
  · exact LogOnly.refl n
  · split
    · exact ⟨_, _, _, _, _, _, _, rfl⟩
    · split
      · exact ⟨_, _, _, _, _, _, _, rfl⟩
      · exact LogOnly.refl n

theorem logOnly_appendEntry [Codec] (e : LogEntry) : LogOnly n (n.appendEntry e) := by
  have hbase : LogOnly n { n with
      log := n.log ++ [e]
      logStore := n.logStore.map fun wal => wal ++ [.entry e] } := ⟨_, _, _, _, _, _, _, rfl⟩
  unfold appendEntry
  split
  · exact hbase.trans (logOnly_applyConfigEntry e)
  · exact hbase

theorem logOnly_cutSuffix (index : Int) : LogOnly n (n.cutSuffix index) :=
  ⟨_, _, _, _, _, _, _, rfl⟩

theorem followCommit_eq (n : RaftNode) (leaderCommit : Int) :
    ∃ c, n.followCommit leaderCommit = { n with commitIndex := c } := by
  unfold followCommit
  split
  · exact ⟨_, rfl⟩
  · exact ⟨n.commitIndex, rfl⟩

theorem logOnly_followCommit (leaderCommit : Int) : LogOnly n (n.followCommit leaderCommit) := by
  obtain ⟨c, hc⟩ := followCommit_eq n leaderCommit
  exact ⟨_, _, _, _, _, _, _, hc⟩

theorem appendLoop_rule [Codec] (f : Faults) {I : RaftNode → Bool → List PbLogEntry → Prop}
    {R : RaftNode → Prop} (hstop : ∀ n t es, I n t es → R n)
    (hskip : ∀ n e rest x, I n false (e :: rest) → n.entryAt e.index = some x →
      x.term = e.term → I n false rest)
    (hcut : ∀ n e rest x, I n false (e :: rest) → n.entryAt e.index = some x →
      x.term ≠ e.term → R (n.cutSuffix e.index) ∧
        I ((n.cutSuffix e.index).appendEntry e.toEntry) true rest)
    (hnew : ∀ n t e rest, I n t (e :: rest) → (t = false → n.entryAt e.index = none) →
      I (n.appendEntry e.toEntry) t rest)
    {t : Bool} {i : Nat} {es : List PbLogEntry} (h : I n t es) :
    R (appendLoop f n t i es).1 ∧
      ((appendLoop f n t i es).2 = true → ∃ t', I (appendLoop f n t i es).1 t' []) := by
  induction es generalizing n t i with
  | nil => exact ⟨hstop n t [] h, fun _ => ⟨t, h⟩⟩
  | cons e rest ih =>
    unfold appendLoop
    split
    · next x hx =>
      -- the entry is looked up only as long as nothing was cut
      obtain ⟨rfl, hx⟩ : t = false ∧ n.entryAt e.index = some x := by
        cases t <;> simp_all
      split
      · next ht => exact ih (hskip n e rest x h hx ht)
      · next ht =>
        obtain ⟨hR, hI⟩ := hcut n e rest x h hx ht
        split
        · exact ⟨hstop n _ _ h, fun hc => by cases hc⟩
        · split
          · exact ⟨hR, fun hc => by cases hc⟩
          · exact ih hI
    · next hx =>
      have hnone : t = false → n.entryAt e.index = none := by
        simpa using hx
      split
      · exact ⟨hstop n _ _ h, fun hc => by cases hc⟩
      · exact ih (hnew n t e rest h hnone)

theorem appendLoop_keeps [Codec] (f : Faults) {P : RaftNode → Prop} {es : List PbLogEntry}
    (hcut : ∀ m i, P m → P (m.cutSuffix i))
    (happend : ∀ m, ∀ e ∈ es, P m → P (m.appendEntry e.toEntry)) {t : Bool} {i : Nat} (h : P n) :
    P (appendLoop f n t i es).1 := by
  refine (appendLoop_rule f (I := fun m _ rest => P m ∧ rest ⊆ es) (R := P) (fun _ _ _ h => h.1)
    (fun _ _ _ _ h _ _ => ⟨h.1, List.subset_of_cons_subset h.2⟩) ?_ ?_
    ⟨h, List.Subset.refl es⟩).1
  · intro m e rest x hI _ _
    have hm := hcut m e.index hI.1
    exact ⟨hm, happend _ e (hI.2 List.mem_cons_self) hm, List.subset_of_cons_subset hI.2⟩
  · intro m t e rest hI _
    exact ⟨happend m e (hI.2 List.mem_cons_self) hI.1, List.subset_of_cons_subset hI.2⟩

theorem logOnly_appendLoop [Codec] (f : Faults) (n : RaftNode) (truncated : Bool) (i : Nat)
    (es : List PbLogEntry) : LogOnly n (appendLoop f n truncated i es).1 :=
  appendLoop_keeps f (fun _ i h => h.trans (logOnly_cutSuffix i))
    (fun _ _ _ h => h.trans (logOnly_appendEntry _)) (LogOnly.refl n)

theorem handleAppendEntries_outcome [Codec] (n : RaftNode) (args : AppendEntriesArgs)
    (f : Faults) :
    (args.term < n.currentTerm ∧
      n.handleAppendEntries args f = (n, ⟨n.currentTerm, false, 0, 0⟩)) ∨
    n.currentTerm ≤ args.term ∧
      ((∃ conflictIndex conflictTerm,
        (n.acceptLeader args f).checkPrev args = some (conflictIndex, conflictTerm) ∧
        n.handleAppendEntries args f = (n.acceptLeader args f,
          ⟨(n.acceptLeader args f).currentTerm, false, conflictIndex, conflictTerm⟩)) ∨
      (n.acceptLeader args f).checkPrev args = none ∧
        (∃ n₂, appendLoop f (n.acceptLeader args f) false 0 args.entries = (n₂, false) ∧
            n.handleAppendEntries args f = (n₂, ⟨n₂.currentTerm, false, 0, 0⟩) ∨
          appendLoop f (n.acceptLeader args f) false 0 args.entries = (n₂, true) ∧
            n.handleAppendEntries args f =
              (n₂.followCommit args.leaderCommit, ⟨n₂.currentTerm, true, 0, 0⟩))) := by
  unfold handleAppendEntries
  split
  · next h => exact .inl ⟨h, rfl⟩
  · next h =>
    refine .inr ⟨Int.not_lt.mp h, ?_⟩
    dsimp only
    split
    · next c t hc => exact .inl ⟨c, t, hc, rfl⟩
    · next hc =>
      refine .inr ⟨hc, ?_⟩
      split
      · next n₂ heq => exact ⟨n₂, .inl ⟨heq, rfl⟩⟩
      · next n₂ heq => exact ⟨n₂, .inr ⟨heq, rfl⟩⟩

theorem handleAppendEntries_cases [Codec] (n : RaftNode) (args : AppendEntriesArgs) (f : Faults) :
    (args.term < n.currentTerm ∧
      n.handleAppendEntries args f = (n, ⟨n.currentTerm, false, 0, 0⟩)) ∨
    (n.currentTerm ≤ args.term ∧
      LogOnly (n.acceptLeader args f) (n.handleAppendEntries args f).1 ∧
      (n.handleAppendEntries args f).2.term = (n.acceptLeader args f).currentTerm) := by
  have hloop := logOnly_appendLoop f (n.acceptLeader args f) false 0 args.entries
  rcases handleAppendEntries_outcome n args f with
    hstale | ⟨hle, ⟨c, t, _, heq⟩ | ⟨_, n₂, ⟨hstop, heq⟩ | ⟨hdone, heq⟩⟩⟩
  · exact .inl hstale
  · rw [heq]
    exact .inr ⟨hle, LogOnly.refl _, rfl⟩
  · rw [heq]
    rw [hstop] at hloop
    refine .inr ⟨hle, hloop, ?_⟩
    obtain ⟨_, _, _, _, _, _, _, rfl⟩ := hloop
    rfl
  · rw [heq]
    rw [hdone] at hloop
    refine .inr ⟨hle, hloop.trans (logOnly_followCommit _), ?_⟩
    obtain ⟨_, _, _, _, _, _, _, rfl⟩ := hloop
    rfl

theorem handleAppendEntries_rule [Codec] {P : RaftNode → Prop} {args : AppendEntriesArgs}
    {f : Faults} (h : P n) (hacc : P (n.acceptLeader args f))
    (hloop : P (appendLoop f (n.acceptLeader args f) false 0 args.entries).1)
    (hcommit : ∀ m c, P m → P { m with commitIndex := c }) :
    P (n.handleAppendEntries args f).1 := by
  rcases handleAppendEntries_outcome n args f with
    ⟨_, heq⟩ | ⟨_, ⟨c, t, _, heq⟩ | ⟨_, n₂, ⟨hstop, heq⟩ | ⟨hdone, heq⟩⟩⟩
  · rw [heq]
    exact h
  · rw [heq]
    exact hacc
  · rw [heq]
    rwa [hstop] at hloop
  · rw [heq]
    rw [hdone] at hloop
    obtain ⟨c, hc⟩ := followCommit_eq n₂ args.leaderCommit
    rw [hc]
    exact hcommit _ _ hloop

theorem proposeEntry_outcome [Codec] (n : RaftNode) (type : EntryType) (data : Bytes)
    (f : Faults) : n.proposeEntry type data f = (n, 0, 0, false) ∨
      n.role = .leader ∧ n.proposeEntry type data f =
        (n.appendEntry (n.entryOf type data), (n.entryOf type data).index, n.currentTerm,
          true) := by
  unfold proposeEntry
  split
  · exact .inl rfl
  · next hlead =>
    split
    · exact .inl rfl
    · exact .inr ⟨not_not.mp hlead, rfl⟩

theorem logOnly_proposeEntry [Codec] (n : RaftNode) (type : EntryType) (data : Bytes)
    (f : Faults) : LogOnly n (n.proposeEntry type data f).1 := by
  rcases n.proposeEntry_outcome type data f with heq | ⟨-, heq⟩
  · rw [heq]
    exact LogOnly.refl n
  · rw [heq]
    exact logOnly_appendEntry _

theorem logOnly_proposeConfigChange [Codec] (n : RaftNode) (newVoters : List Addr)
    (f : Faults) : LogOnly n (n.proposeConfigChange newVoters f).1 := by
  unfold proposeConfigChange
  split
  · exact LogOnly.refl n
  · exact logOnly_proposeEntry _ _ _ _

end RaftNode

end Raft
