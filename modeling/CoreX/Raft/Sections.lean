/-
CoreX/Raft/Sections.lean

What one section of a running node can do, as a relation with one constructor
per outcome: the guard that let the section run and the state it leaves
(`Node.Section`).  `Node.step_section` says that `Node.step` does nothing else,
so a property of all sections is proved by cases on `Section` and never by
unfolding `step` again.
-/
import CoreX.Raft.System

namespace Raft

namespace Node

/-- The outcomes of the sections from state `s`. -/
inductive Section [Codec] (s : Node) : Act → Node → Prop
  | dispatch (h : s.loop = .run) :
      Section s .dispatch { s with loop := .forRole s.raft.role }
  | resetFollower (ht : s.raft.resetCh = true) (h : s.loop = .follower) :
      Section s .reset { s with raft := s.raft.takeReset }
  | resetCampaign (c : Campaign) (ht : s.raft.resetCh = true) (h : s.loop = .campaign c)
      (hw : c.won = false) :
      Section s .reset
        { s with raft := { s.raft.takeReset with role := .follower }, loop := .run }
  | timeoutFollower (h : s.loop = .follower) :
      Section s .timeout { s with raft := s.raft.becomeCandidate, loop := .run }
  | timeoutCampaign (c : Campaign) (h : s.loop = .campaign c) (hw : c.won = false) :
      Section s .timeout { s with loop := .run }
  | electionAborted (f : Faults) (h : s.loop = .candidate)
      (hf : s.raft.saveFails f.saveVote = true) :
      Section s (.startElection f) { s with raft := (s.raft.startElection f).1, loop := .run }
  | electionStarted (f : Faults) (args : RequestVoteArgs) (h : s.loop = .candidate)
      (hf : s.raft.saveFails f.saveVote = false) (hargs : (s.raft.startElection f).2 = some args) :
      Section s (.startElection f) { s with
        raft := (s.raft.startElection f).1
        loop := .standing args
        votes := (args.term, args.candidateID) :: s.votes }
  | openCampaign (args : RequestVoteArgs) (h : s.loop = .standing args) :
      Section s .openCampaign { s.send (s.raft.allClients.map fun a => (a, .vote args)) with
        loop := .campaign ⟨args, s.calls, s.raft.clusterConfig, [], s.raft.allClients⟩ }
  | electAlone (c : Campaign) (h : s.loop = .campaign c) (hw : c.won = true) :
      Section s .electAlone { s with raft := s.raft.becomeLeader c.args.term, loop := .run }
  | voteStepDown (c : Campaign) (addr : Addr) (term : Int) (granted : Bool)
      (h : s.loop = .campaign c) (ha : addr ∈ c.awaiting) (ht : c.args.term < term) :
      Section s (.voteResult addr (some (term, granted)))
        { s with raft := s.raft.candidateStepDown term, loop := .run }
  | voteWon (c : Campaign) (addr : Addr) (res : Option (Int × Bool)) (granted : Bool)
      (h : s.loop = .campaign c) (ha : addr ∈ c.awaiting)
      (hg : granted = true → ∃ term, res = some (term, true) ∧ term ≤ c.args.term)
      (hw : (c.count addr granted).won = true) :
      Section s (.voteResult addr res)
        { s with raft := s.raft.becomeLeader c.args.term, loop := .run }
  | voteCounted (c : Campaign) (addr : Addr) (res : Option (Int × Bool)) (granted : Bool)
      (h : s.loop = .campaign c) (ha : addr ∈ c.awaiting)
      (hg : granted = true → ∃ term, res = some (term, true) ∧ term ≤ c.args.term)
      (hw : (c.count addr granted).won = false) :
      Section s (.voteResult addr res) { s with loop := (c.count addr granted).resume }
  | enterLeader (h : s.loop = .leader) :
      Section s .enterLeader { s with
        raft := s.raft.initLeader
        loop := .leading s.raft.currentTerm s.raft.allClients
        changes :=
          if s.raft.clusterConfig.isJoint && !s.raft.clusterConfig.newVoters.isEmpty then
            s.changes ++ [.proposeStable s.raft.clusterConfig.newVoters]
          else s.changes }
  | tickStop (term : Int) (peers : List Addr) (h : s.loop = .leading term peers)
      (hr : s.raft.role ≠ .leader ∨ s.raft.currentTerm ≠ term) :
      Section s .tick { s with loop := .run }
  | tickSend (term : Int) (peers : List Addr) (h : s.loop = .leading term peers)
      (hr : s.raft.role = .leader) (ht : s.raft.currentTerm = term) :
      Section s .tick { s with loop := .sending term peers }
  | buildSolo (term : Int) (h : s.loop = .sending term []) :
      Section s .build { s with raft := s.raft.soloCommit term, loop := .leading term [] }
  | build (term : Int) (peers : List Addr) (h : s.loop = .sending term peers) (hp : peers ≠ []) :
      Section s .build
        { s.send ((s.raft.heartbeats peers term).map fun x => (x.addr, .append x.args)) with
          loop := .sent ⟨term, peers, s.calls, s.raft.lastEntry.1, s.raft.heartbeats peers term⟩
          transfers := s.transfers ++ (peers.filter fun a => s.raft.needsSnapshot a).map .start }
  | readConfig (r : Round) (h : s.loop = .sent r) :
      Section s .readConfig { s with loop := r.resume s.raft.clusterConfig }
  | ackError (r : Round) (cfg : ClusterConfig) (p : RaftNode.PeerArgs) (addr : Addr)
      (h : s.loop = .collecting r cfg) (hp : (r.awaiting.find? fun p => p.addr == addr) = some p) :
      Section s (.ackResult addr none) { s with loop := (r.close p).resume cfg }
  | ackStepDown (r : Round) (cfg : ClusterConfig) (p : RaftNode.PeerArgs) (addr : Addr)
      (res : AppendEntriesResult) (h : s.loop = .collecting r cfg)
      (hp : (r.awaiting.find? fun p => p.addr == addr) = some p) (ht : r.term < res.term) :
      Section s (.ackResult addr (some res))
        { s with raft := s.raft.leaderStepDown res.term, loop := .leading r.term r.peers }
  | ackSuccess (r : Round) (cfg : ClusterConfig) (p : RaftNode.PeerArgs) (addr : Addr)
      (res : AppendEntriesResult) (h : s.loop = .collecting r cfg)
      (hp : (r.awaiting.find? fun p => p.addr == addr) = some p) (ht : res.term ≤ r.term)
      (hs : res.success = true) :
      Section s (.ackResult addr (some res)) { s with
        raft := s.raft.handleAck r.term r.lastIdx cfg addr p.lastSentIdx
        loop := (r.close p).resume cfg }
  | ackRefused (r : Round) (cfg : ClusterConfig) (p : RaftNode.PeerArgs) (addr : Addr)
      (res : AppendEntriesResult) (h : s.loop = .collecting r cfg)
      (hp : (r.awaiting.find? fun p => p.addr == addr) = some p) (ht : res.term ≤ r.term)
      (hs : res.success = false) :
      Section s (.ackResult addr (some res)) { s with
        raft := s.raft.handleNack addr res.conflictIndex res.conflictTerm
        loop := (r.close p).resume cfg }
  | deliverVote (c : Call) (args : RequestVoteArgs) (f : Faults) (hd : c.dst = s.addr)
      (hreq : c.req = .vote args) :
      Section s (.deliver c f)
        { s.reply c (.vote (s.raft.handleRequestVote args f).2.1
            (s.raft.handleRequestVote args f).2.2) with
          raft := (s.raft.handleRequestVote args f).1
          votes :=
            if (s.raft.handleRequestVote args f).2.2 then
              (args.term, args.candidateID) :: s.votes
            else s.votes }
  | deliverAppend (c : Call) (args : AppendEntriesArgs) (f : Faults) (hd : c.dst = s.addr)
      (hreq : c.req = .append args) :
      Section s (.deliver c f)
        { s.reply c (.append (s.raft.handleAppendEntries args f).2) with
          raft := (s.raft.handleAppendEntries args f).1 }
  | installStale (c : Call) (args : InstallSnapshotArgs) (f : Faults) (hd : c.dst = s.addr)
      (hreq : c.req = .install args) (hn : s.raft.installAdmit args f = none) :
      Section s (.deliver c f) (s.reply c (.install s.raft.currentTerm))
  | installAdmit (c : Call) (args : InstallSnapshotArgs) (f : Faults) (n : RaftNode)
      (hd : c.dst = s.addr) (hreq : c.req = .install args)
      (hn : s.raft.installAdmit args f = some n) :
      Section s (.deliver c f) { s with
        raft := n
        installs := s.installs ++ [⟨c, args, n.currentTerm, .buffer⟩] }
  | installBuffer (i : Nat) (t : Install) (h : s.installs[i]? = some t) (hp : t.phase = .buffer)
      (hd : t.args.done = false) :
      Section s (.installNext i) ((s.withRaft (s.raft.installBuffer t.args)).endInstall i t)
  | installLast (i : Nat) (t : Install) (h : s.installs[i]? = some t) (hp : t.phase = .buffer)
      (hd : t.args.done = true) :
      Section s (.installNext i) ((s.withRaft (s.raft.installBuffer t.args)).setPhase i t .take)
  | installBad (i : Nat) (t : Install) (h : s.installs[i]? = some t) (hp : t.phase = .take)
      (hd : RaftNode.installDecode t.args s.raft.snapBuf = none) :
      Section s (.installNext i) ((s.withRaft s.raft.installTake.1).endInstall i t)
  | installTaken (i : Nat) (t : Install) (data : SnapshotData) (h : s.installs[i]? = some t)
      (hp : t.phase = .take) (hd : RaftNode.installDecode t.args s.raft.snapBuf = some data) :
      Section s (.installNext i) ((s.withRaft s.raft.installTake.1).setPhase i t (.choose data))
  | installFast (i : Nat) (t : Install) (data : SnapshotData) (h : s.installs[i]? = some t)
      (hp : t.phase = .choose data) (hf : s.raft.installFast t.args = true) :
      Section s (.installNext i) ((s.withRaft (s.raft.truncateLogPrefix
        t.args.lastIncludedIndex t.args.lastIncludedTerm)).endInstall i t)
  | installFull (i : Nat) (t : Install) (data : SnapshotData) (h : s.installs[i]? = some t)
      (hp : t.phase = .choose data) (hf : s.raft.installFast t.args = false)
      (hsm : s.raft.sm.isSome = true) :
      Section s (.installNext i) (s.setPhase i t (.restore data))
  | installRestore (i : Nat) (t : Install) (data : SnapshotData) (h : s.installs[i]? = some t)
      (hp : t.phase = .restore data) :
      Section s (.installNext i)
        ((s.withRaft (s.raft.installRestore t.args data)).setPhase i t (.discard data))
  | installDiscard (i : Nat) (t : Install) (data : SnapshotData) (h : s.installs[i]? = some t)
      (hp : t.phase = .discard data ∨
        t.phase = .choose data ∧ s.raft.installFast t.args = false ∧ s.raft.sm = none) :
      Section s (.installNext i)
        ((s.withRaft (s.raft.installDiscard t.args data)).setPhase i t (.save data))
  | installSave (i : Nat) (t : Install) (data : SnapshotData) (h : s.installs[i]? = some t)
      (hp : t.phase = .save data) :
      Section s (.installNext i) ((s.withRaft
        (s.raft.saveSnapshot (RaftNode.installedSnapshot t.args data))).endInstall i t)
  | propose (data : Bytes) (f : Faults) :
      Section s (.propose data f) { s with raft := (s.raft.propose data f).1 }
  | proposeConfigChange (newVoters : List Addr) (f : Faults) :
      Section s (.proposeConfigChange newVoters f) { s with
        raft := (s.raft.proposeConfigChange newVoters f).1
        changes :=
          if (s.raft.proposeConfigChange newVoters f).2.2.2 then
            s.changes ++ [.waitJoint newVoters (s.raft.proposeConfigChange newVoters f).2.1]
          else s.changes }
  | changeWaited (i : Nat) (f : Faults) (t : ConfigTask) :
      Section s (.changeNext i f) { s with changes := s.changes.set i t }
  | changeStable (i : Nat) (f : Faults) (newVoters : List Addr) (changes : List ConfigTask) :
      Section s (.changeNext i f) { s with
        raft := (s.raft.proposeStableConfig newVoters f).1
        changes := changes }
  | changeFinish (i : Nat) (f : Faults) (newVoters : List Addr) :
      Section s (.changeNext i f) { s with
        raft := s.raft.stepDownIfRemoved newVoters
        changes := s.changes.eraseIdx i }
  | changeAbort (i : Nat) :
      Section s (.changeAbort i) { s with changes := s.changes.eraseIdx i }
  | readIndex (h : s.raft.role = .leader) :
      Section s .readIndex { s with reads := s.raft.currentTerm :: s.reads }
  | confirm (i : Nat) (term : Int) (h : s.reads[i]? = some term) :
      Section s (.confirm i)
        { s.send (s.raft.allClients.map fun a => (a, .append (s.raft.confirmArgs term))) with
          reads := s.reads.eraseIdx i }
  | collect (h : s.toApply = []) :
      Section s .collect
        { s with raft := s.raft.collectApply.1, toApply := s.raft.collectApply.2 }
  | emit (e : LogEntry) (rest : List LogEntry) (h : s.toApply = e :: rest) :
      Section s .emit { s with toApply := rest, emitted := s.emitted ++ [e] }
  | apply (e : LogEntry) (writeFails : Bool) (h : s.emitted[s.consumed]? = some e) :
      Section s (.apply writeFails) { s with
        raft := { s.raft with sm := s.raft.sm.map fun sm => sm.apply e writeFails }
        consumed := s.consumed + 1 }
  | snapTake (sm : KVStateMachine) (capturedIndex : Int) (h : s.snap = .idle)
      (ht : s.raft.snapshotTake = some (sm, capturedIndex)) :
      Section s .snapTake { s with snap := .taken sm capturedIndex }
  | snapSkip (sm : KVStateMachine) (capturedIndex : Int) (h : s.snap = .taken sm capturedIndex)
      (hc : s.raft.snapshotCapture sm capturedIndex = none) :
      Section s .snapCapture { s with snap := .idle }
  | snapCapture (sm : KVStateMachine) (capturedIndex : Int) (snapshot : Snapshot)
      (h : s.snap = .taken sm capturedIndex)
      (hc : s.raft.snapshotCapture sm capturedIndex = some snapshot) :
      Section s .snapCapture { s with snap := .captured snapshot }
  | snapFail (snapshot : Snapshot) (h : s.snap = .captured snapshot) :
      Section s (.snapSave true) { s with snap := .idle }
  | snapSave (snapshot : Snapshot) (h : s.snap = .captured snapshot) :
      Section s (.snapSave false)
        { s with raft := s.raft.saveSnapshot snapshot, snap := .saved snapshot.snapMeta }
  | snapTruncate (m : SnapshotMeta) (h : s.snap = .saved m) :
      Section s .snapTruncate
        { s with raft := s.raft.truncateLogPrefix m.index m.term, snap := .truncated m.index }
  | snapCompact (capturedIndex : Int) (h : s.snap = .truncated capturedIndex) :
      Section s .snapCompact { s with raft := s.raft.compactLog capturedIndex, snap := .idle }
  | transferNone (i : Nat) (addr : Addr) (h : s.transfers[i]? = some (.start addr)) :
      Section s (.transferStart i) { s with transfers := s.transfers.eraseIdx i }
  | transferStart (i : Nat) (addr : Addr) (snapshot : Snapshot)
      (h : s.transfers[i]? = some (.start addr)) (hs : s.raft.snapshotToSend = some snapshot) :
      Section s (.transferStart i)
        { s.send ((s.raft.snapshotRequests snapshot).map fun a => (addr, .install a)) with
          transfers := s.transfers.set i (.send addr snapshot.snapMeta.index) }
  | transferDone (i : Nat) (addr : Addr) (index : Int)
      (h : s.transfers[i]? = some (.send addr index)) :
      Section s (.transferDone i) { s with
        raft := s.raft.snapshotSent addr index
        transfers := s.transfers.eraseIdx i }
  | transferFail (i : Nat) :
      Section s (.transferFail i) { s with transfers := s.transfers.eraseIdx i }
  | restart : Section s .restart s.restart

/-- The requests that a section sends: those of an election, of a round of
heartbeats, of the confirmation of a read, and of a snapshot. -/
inductive Sends [Codec] (s : Node) : Act → Addr → Request → Prop
  | vote (args : RequestVoteArgs) (b : Addr) (hl : s.loop = .standing args)
      (hb : b ∈ s.raft.allClients) : Sends s .openCampaign b (.vote args)
  | batch (term : Int) (peers : List Addr) (p : RaftNode.PeerArgs)
      (hl : s.loop = .sending term peers) (hp : p ∈ s.raft.heartbeats peers term) :
      Sends s .build p.addr (.append p.args)
  | confirm (i : Nat) (term : Int) (b : Addr) (hi : s.reads[i]? = some term)
      (hb : b ∈ s.raft.allClients) : Sends s (.confirm i) b (.append (s.raft.confirmArgs term))
  | install (i : Nat) (b : Addr) (snapshot : Snapshot) (args : InstallSnapshotArgs)
      (hi : s.transfers[i]? = some (.start b)) (hs : s.raft.snapshotToSend = some snapshot)
      (hargs : args ∈ s.raft.snapshotRequests snapshot) :
      Sends s (.transferStart i) b (.install args)

variable [Codec] {s s' : Node}

/-! ### The longer sections -/

theorem section_startElection {f : Faults} (h : s.startElection f = some s') :
    Section s (.startElection f) s' := by
  unfold startElection at h
  split at h
  · next hl =>
    by_cases hf : s.raft.saveFails f.saveVote
    · have hnone : (s.raft.startElection f).2 = none := by simp [RaftNode.startElection, hf]
      split at h
      · next heq =>
        cases h
        have := Section.electionAborted f hl hf
        rwa [heq] at this
      · next heq => simp [heq] at hnone
    · split at h
      · next heq => simp [RaftNode.startElection, hf] at heq
      · next n args heq =>
        cases h
        have := Section.electionStarted f args hl (by simpa using hf) (by rw [heq])
        rwa [heq] at this
  · cases h

theorem section_voteResult {addr : Addr} {res : Option (Int × Bool)}
    (h : s.voteResult addr res = some s') : Section s (.voteResult addr res) s' := by
  unfold voteResult at h
  split at h
  · next c hl =>
    split at h
    · cases h
    · next hopen =>
      have ha : addr ∈ c.awaiting := by simp at hopen; exact hopen.2
      have key : ∀ granted, (granted = true → ∃ term, res = some (term, true) ∧
          term ≤ c.args.term) → Section s (.voteResult addr res)
            (s.countVote c addr granted) := by
        intro granted hg
        unfold countVote
        dsimp only
        split
        · next hw => exact .voteWon c addr res granted hl ha hg hw
        · next hw => exact .voteCounted c addr res granted hl ha hg (by simpa using hw)
      split at h
      · cases h
        exact key false (by simp)
      · next term granted =>
        split at h
        · next ht =>
          cases h
          exact .voteStepDown c addr term granted hl ha ht
        · next ht =>
          cases h
          exact key granted fun hg => ⟨term, by rw [hg], Int.not_lt.mp ht⟩
  · cases h

theorem section_ackResult {addr : Addr} {res : Option AppendEntriesResult}
    (h : s.ackResult addr res = some s') : Section s (.ackResult addr res) s' := by
  unfold ackResult at h
  split at h
  · next r cfg hl =>
    rw [Option.map_eq_some_iff] at h
    obtain ⟨p, hp, rfl⟩ := h
    rcases res with - | res
    · exact .ackError r cfg p addr hl hp
    · dsimp only
      split
      · next ht => exact .ackStepDown r cfg p addr res hl hp ht
      · next ht =>
        split
        · next hs => exact .ackSuccess r cfg p addr res hl hp (Int.not_lt.mp ht) hs
        · next hs =>
          exact .ackRefused r cfg p addr res hl hp (Int.not_lt.mp ht) (by simpa using hs)
  · cases h

theorem section_build (h : s.build = some s') : Section s .build s' := by
  unfold build at h
  split at h
  · next term hl =>
    cases h
    exact .buildSolo term hl
  · next term p ps hl =>
    cases h
    exact .build term (p :: ps) hl (by simp)
  · cases h

theorem section_deliver {c : Call} {f : Faults} (h : s.deliver c f = some s') :
    Section s (.deliver c f) s' := by
  unfold deliver at h
  split at h
  · next hd =>
    split at h
    · next args hreq =>
      cases h
      exact .deliverVote c args f hd hreq
    · next args hreq =>
      cases h
      exact .deliverAppend c args f hd hreq
    · next args hreq =>
      split at h
      · next hn =>
        cases h
        exact .installStale c args f hd hreq hn
      · next n hn =>
        cases h
        exact .installAdmit c args f n hd hreq hn
  · cases h

theorem section_installNext {i : Nat} (h : s.installNext i = some s') :
    Section s (.installNext i) s' := by
  simp only [installNext, Option.map_eq_some_iff] at h
  obtain ⟨t, ht, rfl⟩ := h
  rcases hp : t.phase with - | - | data | data | data | data
  · dsimp only
    split
    · next hd => exact .installLast i t ht hp hd
    · next hd => exact .installBuffer i t ht hp (by simpa using hd)
  · dsimp only
    split
    · next hd => exact .installBad i t ht hp hd
    · next data hd => exact .installTaken i t data ht hp hd
  · dsimp only
    split
    · next hf => exact .installFast i t data ht hp hf
    · next hf =>
      split
      · next hsm => exact .installFull i t data ht hp (by simpa using hf) hsm
      · next hsm =>
        exact .installDiscard i t data ht (.inr ⟨hp, by simpa using hf, by simpa using hsm⟩)
  · exact .installRestore i t data ht hp
  · exact .installDiscard i t data ht (.inl hp)
  · exact .installSave i t data ht hp

theorem section_changeNext {i : Nat} {f : Faults} (h : s.changeNext i f = some s') :
    Section s (.changeNext i f) s' := by
  unfold changeNext at h
  split at h
  · cases h
  · split at h
    · cases h
      exact .changeWaited i f _
    · cases h
  · cases h
    exact .changeStable i f _ _
  · split at h
    · cases h
      exact .changeWaited i f _
    · cases h
  · cases h
    exact .changeFinish i f _

theorem step_section {act : Act} (h : s.step act = some s') : Section s act s' := by
  cases act with
  | startElection f => exact section_startElection h
  | voteResult addr res => exact section_voteResult h
  | ackResult addr res => exact section_ackResult h
  | build => exact section_build h
  | deliver c f => exact section_deliver h
  | installNext i => exact section_installNext h
  | changeNext i f => exact section_changeNext h
  | propose data f => cases h; exact .propose data f
  | proposeConfigChange newVoters f => cases h; exact .proposeConfigChange newVoters f
  | changeAbort i => cases h; exact .changeAbort i
  | transferFail i => cases h; exact .transferFail i
  | restart => cases h; exact .restart
  | dispatch =>
    simp only [step, dispatch] at h
    split at h
    · next hl => cases h; exact .dispatch hl
    · cases h
  | reset =>
    simp only [step, reset] at h
    split at h
    · next ht =>
      split at h
      · next hl => cases h; exact .resetFollower ht hl
      · next c hl =>
        split at h
        · cases h
        · next hw => cases h; exact .resetCampaign c ht hl (by simpa using hw)
      · cases h
    · cases h
  | timeout =>
    simp only [step, timeout] at h
    split at h
    · next hl => cases h; exact .timeoutFollower hl
    · next c hl =>
      split at h
      · cases h
      · next hw => cases h; exact .timeoutCampaign c hl (by simpa using hw)
    · cases h
  | openCampaign =>
    simp only [step, openCampaign] at h
    split at h
    · next args hl => cases h; exact .openCampaign args hl
    · cases h
  | electAlone =>
    simp only [step, electAlone] at h
    split at h
    · next c hl =>
      split at h
      · next hw => cases h; exact .electAlone c hl hw
      · cases h
    · cases h
  | enterLeader =>
    simp only [step, enterLeader] at h
    split at h
    · next hl => cases h; exact .enterLeader hl
    · cases h
  | tick =>
    simp only [step, tick] at h
    split at h
    · next term peers hl =>
      cases h
      split
      · next hr => exact .tickStop term peers hl hr
      · next hr =>
        rw [not_or, not_not, not_not] at hr
        exact .tickSend term peers hl hr.1 hr.2
    · cases h
  | readConfig =>
    simp only [step, readConfig] at h
    split at h
    · next r hl => cases h; exact .readConfig r hl
    · cases h
  | readIndex =>
    simp only [step, readIndex] at h
    split at h
    · next hr => cases h; exact .readIndex hr
    · cases h
  | confirm i =>
    simp only [step, confirm, Option.map_eq_some_iff] at h
    obtain ⟨term, hterm, rfl⟩ := h
    exact .confirm i term hterm
  | collect =>
    simp only [step, collect] at h
    split at h
    · next hc => cases h; exact .collect hc
    · cases h
  | emit =>
    simp only [step, emit] at h
    split at h
    · cases h
    · next e rest he =>
      split at h
      · cases h; exact .emit e rest he
      · cases h
  | apply writeFails =>
    simp only [step, apply] at h
    split at h
    · cases h
    · next e he => cases h; exact .apply e writeFails he
  | snapTake =>
    simp only [step, snapTake] at h
    split at h
    · next hs =>
      rw [Option.map_eq_some_iff] at h
      obtain ⟨⟨sm, k⟩, hk, rfl⟩ := h
      exact .snapTake sm k hs hk
    · cases h
  | snapCapture =>
    simp only [step, snapCapture] at h
    split at h
    · next sm k hs =>
      cases h
      split
      · next hc => exact .snapSkip sm k hs hc
      · next snapshot hc => exact .snapCapture sm k snapshot hs hc
    · cases h
  | snapSave fails =>
    simp only [step, snapSave] at h
    split at h
    · next snapshot hs =>
      cases h
      cases fails
      · exact .snapSave snapshot hs
      · exact .snapFail snapshot hs
    · cases h
  | snapTruncate =>
    simp only [step, snapTruncate] at h
    split at h
    · next m hs => cases h; exact .snapTruncate m hs
    · cases h
  | snapCompact =>
    simp only [step, snapCompact] at h
    split at h
    · next k hs => cases h; exact .snapCompact k hs
    · cases h
  | transferStart i =>
    simp only [step, transferStart] at h
    split at h
    · next addr ht =>
      split at h
      · cases h; exact .transferNone i addr ht
      · next snapshot hs => cases h; exact .transferStart i addr snapshot ht hs
    · cases h
  | transferDone i =>
    simp only [step, transferDone] at h
    split at h
    · next addr index ht => cases h; exact .transferDone i addr index ht
    · cases h

/-! ### What a section sends -/

theorem Section.sends {act : Act} {c : Call} (h : Section s act s') (hc : c ∈ s'.sent) :
    c ∈ s.sent ∨ (c.src = s.addr ∧ c.id = s.calls ∧ s.calls < s'.calls) ∧
      Sends s act c.dst c.req := by
  have hsend : ∀ reqs : List (Addr × Request), c ∈ (s.send reqs).sent →
      (∀ q ∈ reqs, Sends s act q.1 q.2) →
      c ∈ s.sent ∨ (c.src = s.addr ∧ c.id = s.calls ∧ s.calls < (s.send reqs).calls) ∧
        Sends s act c.dst c.req := by
    intro reqs hc hreqs
    rcases List.mem_append.mp hc with hc | hc
    · obtain ⟨q, hq, rfl⟩ := List.mem_map.mp hc
      exact .inr ⟨⟨rfl, rfl, Nat.lt_succ_self _⟩, hreqs q hq⟩
    · exact .inl hc
  cases h with
  | openCampaign args hl =>
    refine hsend _ hc (List.forall_mem_map.mpr fun b hb => ?_)
    exact .vote args b hl hb
  | build term peers hl =>
    refine hsend _ hc (List.forall_mem_map.mpr fun p hp => ?_)
    exact .batch term peers p hl hp
  | confirm i term hi =>
    refine hsend _ hc (List.forall_mem_map.mpr fun b hb => ?_)
    exact .confirm i term b hi hb
  | transferStart i b snapshot hi hs =>
    refine hsend _ hc (List.forall_mem_map.mpr fun args hargs => ?_)
    exact .install i b snapshot args hi hs hargs
  | _ => exact .inl hc

theorem Section.sent_subset {act : Act} (h : Section s act s') : s.sent ⊆ s'.sent := by
  cases h with
  | openCampaign | build | confirm | transferStart => exact List.subset_append_right _ _
  | _ => exact List.Subset.refl _

theorem Section.addr {act : Act} (h : Section s act s') : s'.addr = s.addr := by
  cases h <;> rfl

end Node

end Raft
