/-
CoreX/Raft/Static.lean

A cluster whose membership does not change, without snapshots and without
crashes.  `Act.plain` lists the sections that run in such a cluster; under them
every node keeps its identity, its peers and its configuration, and no
configuration entry ever enters a log or a message (`StaticNode`).
-/
import CoreX.Lib.Quorum
import CoreX.Raft.Ballot
import CoreX.Raft.Cluster

namespace Raft

/-- The sections of a cluster with a static membership, without snapshots and
without crashes. -/
def Act.plain : Act → Bool
  | .deliver c _ =>
      match c.req with
      | .install _ => false
      | _ => true
  | .installNext _ | .proposeConfigChange .. | .changeNext .. | .changeAbort _ | .snapTake
  | .snapCapture | .snapSave _ | .snapTruncate | .snapCompact | .transferStart _
  | .transferDone _ | .transferFail _ | .restart => false
  | _ => true

/-! ### What the sections leave alone -/

namespace RaftNode

variable {n n' n'' : RaftNode}

/-- `n'` has the identity, the membership and the snapshot of `n`. -/
structure SameSetup (n n' : RaftNode) : Prop where
  id : n'.id = n.id
  peers : n'.peers = n.peers
  config : n'.clusterConfig = n.clusterConfig
  snapshotIndex : n'.snapshotIndex = n.snapshotIndex
  snapshotTerm : n'.snapshotTerm = n.snapshotTerm

theorem SameSetup.refl (n : RaftNode) : SameSetup n n := ⟨rfl, rfl, rfl, rfl, rfl⟩

theorem SameSetup.trans (h : SameSetup n n') (h' : SameSetup n' n'') : SameSetup n n'' :=
  ⟨h'.id.trans h.id, h'.peers.trans h.peers, h'.config.trans h.config,
    h'.snapshotIndex.trans h.snapshotIndex, h'.snapshotTerm.trans h.snapshotTerm⟩

/-- `n'` differs from `n` only in what elections change. -/
def ElectionOnly (n n' : RaftNode) : Prop :=
  ∃ term vote stored role leader reset, n' = { n with
    currentTerm := term
    votedFor := vote
    metaStore := stored
    role := role
    leaderID := leader
    resetCh := reset }

theorem ElectionOnly.refl (n : RaftNode) : ElectionOnly n n := ⟨_, _, _, _, _, _, rfl⟩

theorem ElectionOnly.trans (h : ElectionOnly n n') (h' : ElectionOnly n' n'') :
    ElectionOnly n n'' := by
  obtain ⟨_, _, _, _, _, _, rfl⟩ := h
  obtain ⟨_, _, _, _, _, _, rfl⟩ := h'
  exact ⟨_, _, _, _, _, _, rfl⟩

theorem ElectionOnly.setup (h : ElectionOnly n n') : SameSetup n n' := by
  obtain ⟨_, _, _, _, _, _, rfl⟩ := h
  exact ⟨rfl, rfl, rfl, rfl, rfl⟩

theorem ElectionOnly.log (h : ElectionOnly n n') : n'.log = n.log := by
  obtain ⟨_, _, _, _, _, _, rfl⟩ := h
  rfl

theorem electionOnly_saveMeta (n : RaftNode) (fault : Bool) (m : RaftMeta) :
    ElectionOnly n (n.saveMeta fault m) := by
  unfold saveMeta
  split
  · exact ElectionOnly.refl n
  · exact ⟨_, _, _, _, _, _, rfl⟩

theorem electionOnly_observeTerm (n : RaftNode) (term : Int) (fault : Bool) :
    ElectionOnly n (n.observeTerm term fault) :=
  ElectionOnly.trans ⟨_, _, _, _, _, _, rfl⟩ (electionOnly_saveMeta _ _ _)

theorem electionOnly_acceptLeader (n : RaftNode) (args : AppendEntriesArgs) (f : Faults) :
    ElectionOnly n (n.acceptLeader args f) := by
  have hobs : ElectionOnly n
      (if n.currentTerm < args.term then n.observeTerm args.term f.saveTerm else n) := by
    split
    · exact electionOnly_observeTerm _ _ _
    · exact ElectionOnly.refl n
  exact hobs.trans ⟨_, _, _, _, _, _, rfl⟩

theorem conflictStart_congr {m : RaftNode} (h : ∀ i, m.termAt i = n.termAt i) (t : Int) (k : Nat)
    (i : Int) : m.conflictStart t k i = n.conflictStart t k i := by
  induction k generalizing i with
  | zero => rfl
  | succ k ih => rw [conflictStart, conflictStart, h, ih]

theorem checkPrev_acceptLeader (n : RaftNode) (args : AppendEntriesArgs) (f : Faults) :
    (n.acceptLeader args f).checkPrev args = n.checkPrev args := by
  obtain ⟨_, _, _, _, _, _, heq⟩ := electionOnly_acceptLeader n args f
  have hstart := fun t k i => conflictStart_congr (n := n) (m := n.acceptLeader args f)
    (fun j => by rw [heq]; rfl) t k i
  unfold checkPrev
  simp only [hstart]
  rw [heq]
  rfl

theorem electionOnly_observeCandidate (n : RaftNode) (args : RequestVoteArgs) (f : Faults) :
    ElectionOnly n (n.observeCandidate args f) := by
  unfold observeCandidate
  split
  · exact (electionOnly_observeTerm _ _ _).trans ⟨_, _, _, _, _, _, rfl⟩
  · exact ElectionOnly.refl n

theorem electionOnly_handleRequestVote (n : RaftNode) (args : RequestVoteArgs) (f : Faults) :
    ElectionOnly n (n.handleRequestVote args f).1 := by
  have hobs := electionOnly_observeCandidate n args f
  unfold handleRequestVote
  split
  · exact ElectionOnly.refl n
  · dsimp only
    split
    · exact hobs
    · split
      · split
        · exact hobs
        · exact (hobs.trans (electionOnly_saveMeta _ _ _)).trans ⟨_, _, _, _, _, _, rfl⟩
      · exact hobs

theorem electionOnly_startElection (n : RaftNode) (f : Faults) :
    ElectionOnly n (n.startElection f).1 := by
  unfold startElection
  split
  · exact ⟨_, _, _, _, _, _, rfl⟩
  · exact ElectionOnly.trans ⟨_, _, _, _, _, _, rfl⟩ (electionOnly_saveMeta _ _ _)

theorem electionOnly_becomeLeader (n : RaftNode) (term : Int) :
    ElectionOnly n (n.becomeLeader term) := by
  unfold becomeLeader
  split
  · exact ⟨_, _, _, _, _, _, rfl⟩
  · exact ElectionOnly.refl n

theorem electionOnly_leaderStepDown (n : RaftNode) (term : Int) :
    ElectionOnly n (n.leaderStepDown term) := by
  unfold leaderStepDown
  split
  · exact ⟨_, _, _, _, _, _, rfl⟩
  · exact ⟨_, _, _, _, _, _, rfl⟩

/-- `n'` differs from `n` only in the replication pointers and the commit index
of a leader. -/
def PointersOnly (n n' : RaftNode) : Prop :=
  ∃ leader next mtch commit, n' = { n with
    leaderID := leader
    nextIndex := next
    matchIndex := mtch
    commitIndex := commit }

theorem PointersOnly.setup (h : PointersOnly n n') : SameSetup n n' := by
  obtain ⟨_, _, _, _, rfl⟩ := h
  exact ⟨rfl, rfl, rfl, rfl, rfl⟩

theorem PointersOnly.role (h : PointersOnly n n') : n'.role = n.role := by
  obtain ⟨_, _, _, _, rfl⟩ := h
  rfl

theorem PointersOnly.currentTerm (h : PointersOnly n n') : n'.currentTerm = n.currentTerm := by
  obtain ⟨_, _, _, _, rfl⟩ := h
  rfl

theorem PointersOnly.log (h : PointersOnly n n') : n'.log = n.log := by
  obtain ⟨_, _, _, _, rfl⟩ := h
  rfl

theorem pointersOnly_soloCommit (n : RaftNode) (term : Int) :
    PointersOnly n (n.soloCommit term) := by
  unfold soloCommit
  split
  · exact ⟨_, _, _, _, rfl⟩
  · exact ⟨_, _, _, _, rfl⟩

theorem pointersOnly_handleAck (n : RaftNode) (term lastIdx : Int) (cfg : ClusterConfig)
    (addr : Addr) (lastSentIndex : Int) :
    PointersOnly n (n.handleAck term lastIdx cfg addr lastSentIndex) := by
  unfold handleAck
  split
  · exact ⟨_, _, _, _, rfl⟩
  · exact ⟨_, _, _, _, rfl⟩

/-! ### Batches without configuration entries -/

/-- `n'` differs from `n` in the log and the commit index only. -/
def LogChange (n n' : RaftNode) : Prop :=
  ∃ log wal commit, n' = { n with log := log, logStore := wal, commitIndex := commit }

theorem LogChange.refl (n : RaftNode) : LogChange n n := ⟨_, _, _, rfl⟩

theorem LogChange.trans (h : LogChange n n') (h' : LogChange n' n'') : LogChange n n'' := by
  obtain ⟨_, _, _, rfl⟩ := h
  obtain ⟨_, _, _, rfl⟩ := h'
  exact ⟨_, _, _, rfl⟩

theorem LogChange.setup (h : LogChange n n') : SameSetup n n' := by
  obtain ⟨_, _, _, rfl⟩ := h
  exact ⟨rfl, rfl, rfl, rfl, rfl⟩

theorem appendEntry_plain [Codec] {e : LogEntry} (he : e.type ≠ entryTypeConfig) :
    n.appendEntry e = { n with
      log := n.log ++ [e]
      logStore := n.logStore.map fun wal => wal ++ [.entry e] } := by
  rw [appendEntry, if_neg he]

theorem appendLoop_plain [Codec] (f : Faults) (n : RaftNode) {es : List PbLogEntry}
    (hes : ∀ e ∈ es, e.toEntry.type ≠ entryTypeConfig) :
    LogChange n (appendLoop f n false 0 es).1 ∧
      ∀ x ∈ (appendLoop f n false 0 es).1.log, x ∈ n.log ∨ ∃ e ∈ es, x = e.toEntry := by
  refine appendLoop_keeps f (P := fun m => LogChange n m ∧
    ∀ x ∈ m.log, x ∈ n.log ∨ ∃ e ∈ es, x = e.toEntry) ?_ ?_ ⟨LogChange.refl n, fun x hx => .inl hx⟩
  · intro m i ⟨hc, hmem⟩
    exact ⟨hc.trans ⟨_, _, _, rfl⟩, fun x hx => hmem x ((List.takeWhile_sublist _).subset hx)⟩
  · intro m e he ⟨hc, hmem⟩
    rw [appendEntry_plain (hes e he)]
    refine ⟨hc.trans ⟨_, _, _, rfl⟩, fun x hx => ?_⟩
    rcases List.mem_append.mp hx with hx | hx
    · exact hmem x hx
    · exact .inr ⟨e, he, List.mem_singleton.mp hx⟩

theorem logChange_followCommit (leaderCommit : Int) :
    LogChange n (n.followCommit leaderCommit) := by
  obtain ⟨c, hc⟩ := followCommit_eq n leaderCommit
  exact ⟨_, _, _, hc⟩

theorem followCommit_log (leaderCommit : Int) : (n.followCommit leaderCommit).log = n.log := by
  obtain ⟨c, hc⟩ := followCommit_eq n leaderCommit
  rw [hc]

theorem handleAppendEntries_plain [Codec] (n : RaftNode) {args : AppendEntriesArgs} (f : Faults)
    (hes : ∀ e ∈ args.entries, e.toEntry.type ≠ entryTypeConfig) :
    ((n.handleAppendEntries args f).1 = n ∨
      LogChange (n.acceptLeader args f) (n.handleAppendEntries args f).1) ∧
      ∀ x ∈ (n.handleAppendEntries args f).1.log,
        x ∈ n.log ∨ ∃ e ∈ args.entries, x = e.toEntry := by
  have hacc := (electionOnly_acceptLeader n args f).log
  obtain ⟨hloop, hmem⟩ := appendLoop_plain f (n.acceptLeader args f) hes
  rw [hacc] at hmem
  rcases handleAppendEntries_outcome n args f with
    ⟨_, heq⟩ | ⟨_, ⟨_, _, _, heq⟩ | ⟨_, n₂, ⟨hstop, heq⟩ | ⟨hdone, heq⟩⟩⟩
  · rw [heq]
    exact ⟨.inl rfl, fun x hx => .inl hx⟩
  · rw [heq]
    exact ⟨.inr (LogChange.refl _), fun x hx => .inl (hacc ▸ hx)⟩
  · rw [heq]
    rw [hstop] at hloop hmem
    exact ⟨.inr hloop, hmem⟩
  · rw [heq]
    rw [hdone] at hloop hmem
    refine ⟨.inr (hloop.trans (logChange_followCommit _)), ?_⟩
    rw [followCommit_log]
    exact hmem

theorem propose_plain [Codec] (n : RaftNode) (data : Bytes) (f : Faults) :
    (n.propose data f).1 = n ∨ (n.role = .leader ∧ (n.propose data f).1 = { n with
      log := n.log ++ [⟨n.lastEntry.1 + 1, n.currentTerm, entryTypeCommand, data⟩]
      logStore := n.logStore.map fun wal =>
        wal ++ [.entry ⟨n.lastEntry.1 + 1, n.currentTerm, entryTypeCommand, data⟩] }) := by
  unfold propose
  rcases n.proposeEntry_outcome entryTypeCommand data f with heq | ⟨hlead, heq⟩
  · exact .inl (by rw [heq])
  · refine .inr ⟨hlead, ?_⟩
    have hcmd : entryTypeCommand ≠ entryTypeConfig := by decide
    rw [heq]
    exact appendEntry_plain (e := n.entryOf entryTypeCommand data) hcmd

end RaftNode

/-! ### Static nodes -/

/-- The configuration of member `a` as long as the membership does not change. -/
def Cluster.config (C : Cluster) (a : Addr) : ClusterConfig := ⟨.stable, C.peersOf a, []⟩

/-- No entry of the batch is a configuration entry. -/
def AppendEntriesArgs.plain (args : AppendEntriesArgs) : Prop :=
  ∀ e ∈ args.entries, e.toEntry.type ≠ entryTypeConfig

/-- The requests that `a` sends: to its peers, under its own name. -/
structure StaticCall (C : Cluster) (a : Addr) (c : Call) : Prop where
  member : a ∈ C.members
  src : c.src = a
  dst : c.dst ∈ C.peersOf a
  vote : ∀ args, c.req = .vote args → args.candidateID = C.idOf a
  append : ∀ args, c.req = .append args → args.plain

/-- The round of heartbeats of `a`. -/
structure StaticRound (C : Cluster) (a : Addr) (r : Round) : Prop where
  peers : r.peers = C.peersOf a
  addr : ∀ p ∈ r.awaiting, p.addr ∈ C.peersOf a

/-- What the goroutine of `Run` has read belongs to the one configuration. -/
def Loop.Static (C : Cluster) (a : Addr) : Loop → Prop
  | .standing args => args.candidateID = C.idOf a
  | .campaign c => c.args.candidateID = C.idOf a ∧ c.cfg = C.config a ∧
      c.grants ⊆ C.peersOf a ∧ c.awaiting ⊆ C.peersOf a
  | .leading _ peers | .sending _ peers => peers = C.peersOf a
  | .sent r => StaticRound C a r
  | .collecting r cfg => StaticRound C a r ∧ cfg = C.config a
  | _ => True

/-- Node `a` of a cluster with a static membership. -/
structure StaticNode (C : Cluster) (a : Addr) (s : Node) : Prop where
  addr : s.addr = a
  id : s.raft.id = C.idOf a
  peers : s.raft.peers = some (C.peersOf a)
  config : s.raft.clusterConfig = C.config a
  snapshotIndex : s.raft.snapshotIndex = 0
  snapshotTerm : s.raft.snapshotTerm = 0
  log : ∀ e ∈ s.raft.log, e.type ≠ entryTypeConfig
  loop : s.loop.Static C a
  sent : ∀ c ∈ s.sent, StaticCall C a c

namespace StaticNode

variable {C : Cluster} {a : Addr} {s : Node}

theorem allClients (h : StaticNode C a s) : s.raft.allClients = C.peersOf a := by
  rw [RaftNode.allClients, h.peers]
  rfl

theorem keep (h : StaticNode C a s) {s' : Node} (haddr : s'.addr = s.addr)
    (hsetup : RaftNode.SameSetup s.raft s'.raft)
    (hlog : ∀ e ∈ s'.raft.log, e ∈ s.raft.log ∨ e.type ≠ entryTypeConfig)
    (hloop : s'.loop.Static C a) (hsent : ∀ c ∈ s'.sent, StaticCall C a c) :
    StaticNode C a s' where
  addr := haddr.trans h.addr
  id := hsetup.id.trans h.id
  peers := hsetup.peers.trans h.peers
  config := hsetup.config.trans h.config
  snapshotIndex := hsetup.snapshotIndex.trans h.snapshotIndex
  snapshotTerm := hsetup.snapshotTerm.trans h.snapshotTerm
  log e he := (hlog e he).elim (h.log e) fun hne => hne
  loop := hloop
  sent := hsent

end StaticNode

/-! ### Static sections -/

theorem Loop.static_forRole (C : Cluster) (a : Addr) (role : RaftRole) :
    (Loop.forRole role).Static C a := by
  cases role <;> exact trivial

variable {C : Cluster} {a : Addr}

theorem Campaign.static_resume {c : Campaign} (h : (Loop.campaign c).Static C a) :
    c.resume.Static C a := by
  unfold Campaign.resume
  split
  · exact trivial
  · exact h

theorem Round.static_resume {r : Round} {cfg : ClusterConfig}
    (h : (Loop.collecting r cfg).Static C a) : (r.resume cfg).Static C a := by
  unfold Round.resume
  split
  · exact h.1.peers
  · exact h

theorem StaticRound.close {r : Round} (h : StaticRound C a r) (p : RaftNode.PeerArgs) :
    StaticRound C a (r.close p) where
  peers := h.peers
  addr q hq := h.addr q (List.mem_of_mem_erase hq)

namespace StaticNode

variable {C : Cluster} {a : Addr} {s : Node}

theorem heartbeats_plain (h : StaticNode C a s) {peers : List Addr} {term : Int}
    {p : RaftNode.PeerArgs} (hp : p ∈ s.raft.heartbeats peers term) :
    p.addr ∈ peers ∧ p.args.plain := by
  obtain ⟨addr, haddr, rfl⟩ := List.mem_map.mp hp
  refine ⟨(List.mem_filter.mp haddr).1, fun e he => ?_⟩
  obtain ⟨x, hx, rfl⟩ := List.mem_map.mp he
  rw [LogEntry.toEntry_toPb]
  exact h.log x (List.mem_filter.mp hx).1

end StaticNode

theorem StaticNode.section [Codec] {s s' : Node} {act : Act} (h : StaticNode C a s)
    (ha : a ∈ C.members) (hs : Node.Section s act s') (hplain : act.plain)
    (hbatch : ∀ c f args, act = .deliver c f → c.req = .append args → args.plain) :
    StaticNode C a s' := by
  have hloop := h.loop
  have hsame := hs.addr
  have hcalls : ∀ c ∈ s'.sent, StaticCall C a c := by
    rintro ⟨src, id, dst, req⟩ hc
    rcases hs.sends hc with hc | ⟨⟨hsrc, _⟩, hsends⟩
    · exact h.sent _ hc
    have hown := hsrc.trans h.addr
    cases hsends with
    | vote args b hl hb =>
      rw [hl] at hloop
      exact ⟨ha, hown, h.allClients ▸ hb, by rintro _ ⟨⟩; exact hloop, by rintro _ ⟨⟩⟩
    | batch term peers p hl hp =>
      have hsent := h.heartbeats_plain hp
      rw [hl] at hloop
      obtain rfl : peers = C.peersOf a := hloop
      exact ⟨ha, hown, hsent.1, by rintro _ ⟨⟩, by rintro _ ⟨⟩; exact hsent.2⟩
    | confirm i term b hi hb =>
      exact ⟨ha, hown, h.allClients ▸ hb, by rintro _ ⟨⟩, by rintro _ ⟨⟩ e he; cases he⟩
    | install => cases hplain
  have hlog : ∀ e ∈ s.raft.log, e ∈ s.raft.log ∨ e.type ≠ entryTypeConfig := fun e he => .inl he
  -- the sections that only touch elections, and those of a leader
  have helection : RaftNode.ElectionOnly s.raft s'.raft → s'.loop.Static C a →
      StaticNode C a s' := by
    intro hn hl
    exact h.keep hsame hn.setup (hn.log ▸ hlog) hl hcalls
  have hpointers : RaftNode.PointersOnly s.raft s'.raft → s'.loop.Static C a →
      StaticNode C a s' := by
    intro hn hl
    exact h.keep hsame hn.setup (hn.log ▸ hlog) hl hcalls
  cases hs with
  | dispatch => exact helection (.refl _) (Loop.static_forRole C a _)
  | resetFollower => exact helection ⟨_, _, _, _, _, _, rfl⟩ hloop
  | resetCampaign | timeoutFollower | voteStepDown =>
    exact helection ⟨_, _, _, _, _, _, rfl⟩ trivial
  | timeoutCampaign | tickStop => exact helection (.refl _) trivial
  | electionAborted f => exact helection (RaftNode.electionOnly_startElection _ f) trivial
  | electionStarted f args hl hf hargs =>
    refine helection (RaftNode.electionOnly_startElection _ f) ?_
    rw [RaftNode.startElection, if_neg (by simp [hf])] at hargs
    cases hargs
    exact h.id
  | openCampaign args hl =>
    rw [hl] at hloop
    refine h.keep rfl (.refl _) hlog ⟨hloop, h.config, by simp, ?_⟩ hcalls
    rw [h.allClients]
    exact List.Subset.refl _
  | electAlone | voteWon => exact helection (RaftNode.electionOnly_becomeLeader _ _) trivial
  | voteCounted c addr res granted hl haddr hg hw =>
    rw [hl] at hloop
    obtain ⟨hid, hcfg, hgrants, hawait⟩ := hloop
    refine helection (.refl _) (Campaign.static_resume ⟨hid, hcfg, ?_, ?_⟩)
    · unfold Campaign.count
      split
      · exact List.cons_subset.mpr ⟨hawait haddr, hgrants⟩
      · exact hgrants
    · exact fun x hx => hawait (List.mem_of_mem_erase hx)
  | enterLeader => exact hpointers ⟨_, _, _, _, rfl⟩ h.allClients
  | tickSend term peers hl =>
    rw [hl] at hloop
    exact helection (.refl _) hloop
  | buildSolo term hl =>
    rw [hl] at hloop
    exact hpointers (RaftNode.pointersOnly_soloCommit _ _) hloop
  | build term peers hl hp =>
    rw [hl] at hloop
    obtain rfl : peers = C.peersOf a := hloop
    exact h.keep rfl (.refl _) hlog ⟨rfl, fun p hp => (h.heartbeats_plain hp).1⟩ hcalls
  | readConfig r hl =>
    rw [hl] at hloop
    exact helection (.refl _) (Round.static_resume ⟨hloop, h.config⟩)
  | ackError r cfg p addr hl =>
    rw [hl] at hloop
    exact helection (.refl _) (Round.static_resume ⟨hloop.1.close p, hloop.2⟩)
  | ackStepDown r cfg p addr res hl =>
    rw [hl] at hloop
    exact helection (RaftNode.electionOnly_leaderStepDown _ _) hloop.1.peers
  | ackSuccess r cfg p addr res hl =>
    rw [hl] at hloop
    exact hpointers (RaftNode.pointersOnly_handleAck _ _ _ _ _ _)
      (Round.static_resume ⟨hloop.1.close p, hloop.2⟩)
  | ackRefused r cfg p addr res hl =>
    rw [hl] at hloop
    exact hpointers ⟨_, _, _, _, rfl⟩ (Round.static_resume ⟨hloop.1.close p, hloop.2⟩)
  | deliverVote c args f =>
    exact helection (RaftNode.electionOnly_handleRequestVote _ _ _) hloop
  | deliverAppend c args f hd hreq =>
    have hes := hbatch c f args rfl hreq
    obtain ⟨hraft, hmem⟩ := RaftNode.handleAppendEntries_plain s.raft f hes
    refine h.keep rfl ?_ ?_ hloop hcalls
    · rcases hraft with heq | hchange
      · rw [heq]
        exact .refl _
      · exact (RaftNode.electionOnly_acceptLeader _ _ _).setup.trans hchange.setup
    · intro e he
      refine (hmem e he).imp_right ?_
      rintro ⟨x, hx, rfl⟩
      exact hes x hx
  | propose data f =>
    rcases RaftNode.propose_plain s.raft data f with heq | ⟨_, heq⟩
    · exact helection (by rw [heq]; exact .refl _) hloop
    · refine h.keep rfl ?_ ?_ hloop hcalls
      · rw [heq]
        exact ⟨rfl, rfl, rfl, rfl, rfl⟩
      · rw [heq]
        intro e he
        refine (List.mem_append.mp he).imp_right fun hnew => ?_
        rw [List.mem_singleton.mp hnew]
        exact (by decide : entryTypeCommand ≠ entryTypeConfig)
  | readIndex | confirm | emit => exact h.keep rfl (.refl _) hlog hloop hcalls
  | collect =>
    unfold RaftNode.collectApply
    split <;> exact h.keep rfl ⟨rfl, rfl, rfl, rfl, rfl⟩ hlog hloop hcalls
  | apply => exact h.keep rfl ⟨rfl, rfl, rfl, rfl, rfl⟩ hlog hloop hcalls
  | installStale c args f hd hreq | installAdmit c args f n hd hreq =>
    simp [Act.plain, hreq] at hplain
  | _ => cases hplain

/-! ### Static clusters -/

/-- Every node of the cluster is static. -/
def Static (C : Cluster) (w : World) : Prop := ∀ a, StaticNode C a (w a)

theorem StaticNode.fresh [Codec] (C : Cluster) (a : Addr) :
    StaticNode C a (World.init C a) := by
  constructor <;> simp only [World.init, World.start, Node.raft_fresh]
  · rfl
  · rfl
  · simp
  · exact trivial
  · simp [Node.fresh]

theorem static_init [Codec] (C : Cluster) : Static C (World.init C) := fun a => StaticNode.fresh C a

theorem World.step_some [Codec] {w w' : World} {act : Act} (h : World.step C w (a, act) = some w') :
    ∃ s', a ∈ C.members ∧ w.available a act = true ∧ (w a).step act = some s' ∧
      w' = Function.update w a s' := by
  unfold World.step at h
  split at h
  · next hen =>
    obtain ⟨s', hs, rfl⟩ := Option.map_eq_some_iff.mp h
    exact ⟨s', hen.1, hen.2, hs, rfl⟩
  · cases h

theorem World.step_cases [Codec] {w w' : World} {act : Act} (h : World.step C w (a, act) = some w')
    :
    a ∈ C.members ∧ w.available a act = true ∧ ∃ s', Node.Section (w a) act s' ∧
      w' = Function.update w a s' := by
  obtain ⟨s', hmem, havail, hs, heq⟩ := World.step_some h
  exact ⟨hmem, havail, s', Node.step_section hs, heq⟩

theorem Static.step [Codec] {w w' : World} {act : Act} (h : Static C w)
    (hstep : World.step C w (a, act) = some w') (hplain : act.plain) :
    Static C w' := by
  obtain ⟨ha, havail, s', hs, rfl⟩ := World.step_cases hstep
  intro b
  rcases eq_or_ne b a with rfl | hne
  · rw [Function.update_self]
    refine (h b).section ha hs hplain ?_
    rintro c f args rfl hreq
    -- the batch was sent by a static node
    have hsent : c ∈ (w c.src).sent := by simpa [World.available] using havail
    exact ((h c.src).sent c hsent).append args hreq
  · rw [Function.update_of_ne hne]
    exact h b

/-! ### Quorums -/

namespace Cluster

variable {C : Cluster} {a : Addr}

/-- The majorities of the members. -/
def quorums (C : Cluster) : Quorums Addr := Quorums.majority C.members.toFinset

theorem mem_peersOf (ha : a ∈ C.members) {b : Addr} :
    b ∈ C.peersOf a ↔ b ≠ a ∧ b ∈ C.members := by
  rw [(C.peers_perm a ha).mem_iff, C.nodup.mem_erase_iff]

/-- More than half of the members are in `l`. -/
def majority (C : Cluster) (l : List Addr) : Bool :=
  decide (C.members.length < 2 * (C.members.filter fun b => b ∈ l).length)

theorem isQuorum_of_majority {l : List Addr} (h : C.majority l = true) :
    C.quorums.isQuorum (C.members.filter fun b => b ∈ l).toFinset := by
  refine ⟨fun b hb => ?_, ?_⟩
  · exact List.mem_toFinset.mpr (List.mem_filter.mp (List.mem_toFinset.mp hb)).1
  · rw [List.toFinset_card_of_nodup (C.nodup.filter _), List.toFinset_card_of_nodup C.nodup]
    exact of_decide_eq_true h

theorem majority_of_quorumFor (ha : a ∈ C.members) {ackFn : Addr → Bool}
    (h : quorumFor (C.config a) ackFn = true) {l : List Addr} (hself : a ∈ l)
    (hl : ∀ b ∈ C.peersOf a, ackFn b = true → b ∈ l) : C.majority l = true := by
  have hlen : (C.peersOf a).length + 1 = C.members.length := by
    rw [(C.peers_perm a ha).length_eq, List.length_erase_of_mem ha]
    have := List.length_pos_of_mem ha
    omega
  have hcount : (C.members.erase a).countP ackFn ≤ (C.members.erase a).countP fun b => b ∈ l := by
    refine List.countP_mono_left fun b hb hack => ?_
    exact decide_eq_true (hl b ((C.peers_perm a ha).mem_iff.mpr hb) hack)
  have hmem : (C.members.filter fun b => b ∈ l).length
      = (C.members.erase a).countP (fun b => b ∈ l) + 1 := by
    rw [← List.countP_eq_length_filter, ((List.perm_cons_erase ha).countP_eq _),
      List.countP_cons_of_pos]
    simpa using hself
  have hq : ((C.peersOf a).length + 1) / 2 + 1 ≤ 1 + (C.peersOf a).countP ackFn :=
    of_decide_eq_true h
  rw [(C.peers_perm a ha).countP_eq] at hq
  exact decide_eq_true (by omega)

end Cluster

end Raft
