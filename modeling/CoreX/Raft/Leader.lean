/-
CoreX/Raft/Leader.lean

The sections of the run loop: `runFollower`, `runCandidate`, `runLeader`,
`sendHeartbeats`, `confirmLeadership`, `maybeAdvanceCommitIndex` and
`runApplyLoop`.  The loop works on values it read in an earlier section (its
term, its configuration, the requests it sent), so these are arguments here.
-/
import CoreX.Raft.Snapshot

namespace Raft

namespace RaftNode

variable (n : RaftNode)

/-! ### Elections -/

/-- `runFollower`, election timeout. -/
def becomeCandidate : RaftNode := { n with role := .candidate }

/-- `runFollower` and `runCandidate` take the token from `resetCh`. -/
def takeReset : RaftNode := { n with resetCh := false }

/-- `runCandidate`, first section: next term, own vote, saved; if the save fails
the term is taken back and the vote is cleared. -/
def startElection (f : Faults) : RaftNode × Option RequestVoteArgs :=
  let term := n.currentTerm + 1
  if n.saveFails f.saveVote then
    ({ n with votedFor := "", role := .follower }, none)
  else
    ({ n with currentTerm := term, votedFor := n.id, role := .candidate }.saveMeta
        f.saveVote ⟨term, n.id⟩,
      some ⟨term, n.id, n.lastEntry.1, n.lastEntry.2⟩)

variable (term : Int) (addr : Addr)

/-- `runCandidate`, a vote response of a higher term. -/
def candidateStepDown : RaftNode :=
  { n with currentTerm := term, votedFor := "", role := .follower }

/-- `runCandidate`, a quorum has granted its votes in `term`. -/
def becomeLeader : RaftNode :=
  if n.currentTerm = term then { n with role := .leader } else n

/-! ### Leading -/

/-- The addresses `PeerClients.All` returns. -/
def allClients : List Addr := n.peers.getD []

/-- `runLeader`, first section: fresh replication pointers for every peer. -/
def initLeader : RaftNode :=
  { n with
    nextIndex :=
      match n.peers with
      | none => n.nextIndex
      | some clients =>
          some fun addr => if addr ∈ clients then some (n.lastEntry.1 + 1) else none
    matchIndex :=
      match n.peers with
      | none => n.matchIndex
      | some clients => some fun addr => if addr ∈ clients then some 0 else none
    leaderID := n.id }

/-- `n.nextIndex[addr]`: a missing key reads as `0`. -/
def nextOf : Int := (n.nextIndex.bind fun m => m addr).getD 0

/-- `n.matchIndex[addr]`. -/
def matchOf : Int := (n.matchIndex.bind fun m => m addr).getD 0

def setNext (i : Int) : RaftNode :=
  { n with nextIndex := n.nextIndex.map fun m => Function.update m addr (some i) }

def setMatch (i : Int) : RaftNode :=
  { n with matchIndex := n.matchIndex.map fun m => Function.update m addr (some i) }

/-- One AppendEntries that `sendHeartbeats` sends. -/
structure PeerArgs where
  addr : Addr
  args : AppendEntriesArgs
  lastSentIdx : Int
  deriving DecidableEq, Repr

/-- Whether the peer gets a snapshot instead of entries. -/
def needsSnapshot : Bool :=
  n.snapshotStore.isSome && decide (n.nextOf addr ≤ n.snapshotIndex)

/-- The AppendEntries of term `term` for one peer. -/
def peerArgs (addr : Addr) : PeerArgs :=
  let ni := n.nextOf addr
  let prevIdx := ni - 1
  let sent := n.log.filter fun e => ni ≤ e.index
  { addr := addr
    args :=
      { term := term
        leaderID := n.id
        prevLogIndex := prevIdx
        prevLogTerm := if 0 < prevIdx then (n.termAt prevIdx).getD 0 else 0
        entries := sent.map LogEntry.toPb
        leaderCommit := n.commitIndex }
    lastSentIdx := (sent.getLast?.map LogEntry.index).getD 0 }

/-- `sendHeartbeats`, first section: the requests for the peers that get
entries. -/
def heartbeats (peers : List Addr) (term : Int) : List PeerArgs :=
  (peers.filter fun addr => !n.needsSnapshot addr).map (n.peerArgs term)

/-- Whether `maybeAdvanceCommitIndex` stops at `N`. -/
def canCommit (currentTerm : Int) (cfg : ClusterConfig) (N : Int) : Bool :=
  match n.entryAt N with
  | none => false
  | some e => e.term == currentTerm && quorumFor cfg fun addr => decide (N ≤ n.matchOf addr)

/-- The loop of `maybeAdvanceCommitIndex` over the `k` indices above the commit
index, from the highest down. -/
def advanceFrom (currentTerm : Int) (cfg : ClusterConfig) : Nat → Int
  | 0 => n.commitIndex
  | k + 1 =>
      if n.canCommit currentTerm cfg (n.commitIndex + (k + 1)) then n.commitIndex + (k + 1)
      else advanceFrom currentTerm cfg k

/-- `maybeAdvanceCommitIndex`. -/
def maybeAdvanceCommitIndex (currentTerm lastIdx : Int) (cfg : ClusterConfig) : RaftNode :=
  { n with commitIndex := n.advanceFrom currentTerm cfg (lastIdx - n.commitIndex).toNat }

/-- `sendHeartbeats`, a response of a higher term. -/
def leaderStepDown (respTerm : Int) : RaftNode :=
  { (if n.currentTerm < respTerm then { n with currentTerm := respTerm, votedFor := "" }
      else n) with
    role := .follower }

/-- `sendHeartbeats`, a successful response. -/
def handleAck (lastIdx : Int) (cfg : ClusterConfig) (addr : Addr) (lastSentIndex : Int) :
    RaftNode :=
  let n₁ := if n.matchOf addr < lastSentIndex then n.setMatch addr lastSentIndex else n
  (n₁.setNext addr (n₁.matchOf addr + 1)).maybeAdvanceCommitIndex term lastIdx cfg

/-- `sendHeartbeats`, a refused batch (Fast Backup). -/
def handleNack (conflictIndex conflictTerm : Int) : RaftNode :=
  let next :=
    if conflictTerm = 0 ∨ conflictIndex = 0 then
      if 0 < conflictIndex then conflictIndex else 1
    else
      match n.log.reverse.find? fun e => e.term == conflictTerm with
      | some e => e.index + 1
      | none => conflictIndex
  n.setNext addr (if next < 1 then 1 else next)

/-- `sendSnapshot`, after the transfer: the peer has at least the snapshot. -/
def snapshotSent (index : Int) : RaftNode :=
  let n₁ := if n.nextOf addr < index + 1 then n.setNext addr (index + 1) else n
  if n₁.matchOf addr < index then n₁.setMatch addr index else n₁

/-- `runLeader` without peers: the commit index follows the log. -/
def soloCommit : RaftNode :=
  if n.role = .leader ∧ n.currentTerm = term then
    n.maybeAdvanceCommitIndex term n.lastEntry.1 n.clusterConfig
  else n

/-- The heartbeat of `confirmLeadership`: no entries, the end of the log as
consistency check. -/
def confirmArgs : AppendEntriesArgs :=
  { term := term
    leaderID := n.id
    prevLogIndex := n.lastEntry.1
    prevLogTerm := n.lastEntry.2
    entries := []
    leaderCommit := n.commitIndex }

/-! ### Applying -/

/-- `runApplyLoop`, the section under the lock: the entries to deliver.  The loop
runs over the indices from `lastApplied + 1` to `commitIndex`. -/
def collectApply : RaftNode × List LogEntry :=
  if n.commitIndex ≤ n.lastApplied then (n, [])
  else
    ({ n with lastApplied := n.commitIndex },
      (List.range (n.commitIndex - n.lastApplied).toNat).filterMap fun k : Nat =>
        n.entryAt (n.lastApplied + 1 + k))

/-! ### What the commit rule guarantees -/

variable {n}

theorem advanceFrom_cases (n : RaftNode) (term : Int) (cfg : ClusterConfig) (k : Nat) :
    n.advanceFrom term cfg k = n.commitIndex ∨
      n.commitIndex < n.advanceFrom term cfg k ∧
        n.canCommit term cfg (n.advanceFrom term cfg k) = true := by
  induction k with
  | zero => exact .inl rfl
  | succ k ih =>
    unfold advanceFrom
    split
    · next hc => exact .inr ⟨by omega, hc⟩
    · exact ih

theorem canCommit_iff {term : Int} {cfg : ClusterConfig} {N : Int} :
    n.canCommit term cfg N = true ↔ ∃ e, n.entryAt N = some e ∧ e.term = term ∧
      quorumFor cfg (fun addr => decide (N ≤ n.matchOf addr)) = true := by
  unfold canCommit
  split
  · next h => simp [h]
  · next e h => simp [h]

/-- What a section of the leader may do to the commit index: nothing, or move it
to an entry of term `term` that a quorum of match indices has reached. -/
def Advances (n n' : RaftNode) (term : Int) (cfg : ClusterConfig) : Prop :=
  n'.commitIndex = n.commitIndex ∨
    n.commitIndex < n'.commitIndex ∧ ∃ e, n.entryAt n'.commitIndex = some e ∧ e.term = term ∧
      quorumFor cfg (fun addr => decide (n'.commitIndex ≤ n'.matchOf addr)) = true

theorem advances_maybeAdvance (n : RaftNode) (term lastIdx : Int) (cfg : ClusterConfig) :
    Advances n (n.maybeAdvanceCommitIndex term lastIdx cfg) term cfg := by
  rcases n.advanceFrom_cases term cfg (lastIdx - n.commitIndex).toNat with h | ⟨hlt, hc⟩
  · exact .inl h
  · exact .inr ⟨hlt, canCommit_iff.mp hc⟩

theorem advances_soloCommit (n : RaftNode) (term : Int) :
    Advances n (n.soloCommit term) term n.clusterConfig := by
  unfold soloCommit
  split
  · exact advances_maybeAdvance n term _ _
  · exact .inl rfl

theorem matchOf_soloCommit (n : RaftNode) (term : Int) (b : Addr) :
    (n.soloCommit term).matchOf b = n.matchOf b := by
  unfold soloCommit
  split <;> rfl

theorem matchOf_setMatch (n : RaftNode) (addr b : Addr) (i : Int) :
    (n.setMatch addr i).matchOf b = n.matchOf b ∨ b = addr ∧ (n.setMatch addr i).matchOf b = i := by
  rcases hm : n.matchIndex with - | m
  · exact .inl (by simp [matchOf, setMatch, hm])
  · rcases eq_or_ne b addr with rfl | hne
    · exact .inr ⟨rfl, by simp [matchOf, setMatch, hm]⟩
    · exact .inl (by simp [matchOf, setMatch, hm, Function.update_of_ne hne])

theorem matchOf_handleAck (n : RaftNode) (term lastIdx : Int) (cfg : ClusterConfig)
    (addr : Addr) (i : Int) (b : Addr) :
    (n.handleAck term lastIdx cfg addr i).matchOf b = n.matchOf b ∨
      b = addr ∧ (n.handleAck term lastIdx cfg addr i).matchOf b = i := by
  unfold handleAck
  split
  · exact matchOf_setMatch n addr b i
  · exact .inl rfl

theorem matchOf_snapshotSent (n : RaftNode) (addr : Addr) (i : Int) (b : Addr) :
    (n.snapshotSent addr i).matchOf b = n.matchOf b ∨
      b = addr ∧ n.matchOf b < i ∧ (n.snapshotSent addr i).matchOf b = i := by
  have hnext : ∀ c, (if n.nextOf addr < i + 1 then n.setNext addr (i + 1) else n).matchOf c
      = n.matchOf c := by
    intro c
    split <;> rfl
  unfold snapshotSent
  dsimp only
  rw [hnext]
  split
  · next hlt =>
    rcases matchOf_setMatch (if n.nextOf addr < i + 1 then n.setNext addr (i + 1) else n) addr b i
      with heq | ⟨rfl, heq⟩
    · exact .inl (heq.trans (hnext b))
    · exact .inr ⟨rfl, hlt, heq⟩
  · exact .inl (hnext b)

theorem matchOf_initLeader {n : RaftNode} (h : n.peers.isSome = true) (b : Addr) :
    n.initLeader.matchOf b = 0 := by
  obtain ⟨clients, hc⟩ := Option.isSome_iff_exists.mp h
  simp only [matchOf, initLeader, hc, Option.bind_some]
  split <;> rfl

theorem advances_handleAck (n : RaftNode) (term lastIdx : Int) (cfg : ClusterConfig)
    (addr : Addr) (i : Int) :
    Advances n (n.handleAck term lastIdx cfg addr i) term cfg := by
  unfold handleAck
  split
  · exact advances_maybeAdvance _ term lastIdx cfg
  · exact advances_maybeAdvance _ term lastIdx cfg

end RaftNode

end Raft
