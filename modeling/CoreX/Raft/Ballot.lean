/-
CoreX/Raft/Ballot.lean

Terms and votes of one node.  Of the whole state only four fields take part
(`Ballot`): the id, `currentTerm`, `votedFor` and what the `MetaStore` holds.
The handlers act on them in five ways: they adopt a higher term (`observed`),
give a vote (`granted`), start an election or fail to (`stood`, `aborted`), step
down on a response (`lowered`); a restart reads the store back (`reloaded`).
`Section.ballotChange` says which section does which, and that all others leave
the ballot alone.
-/
import CoreX.Raft.Sections

namespace Raft

/-! ### Ballots -/

/-- The fields that elections depend on. -/
structure Ballot where
  id : NodeID
  currentTerm : Int
  votedFor : NodeID
  metaStore : Option RaftMeta
  deriving DecidableEq

def RaftNode.ballot (n : RaftNode) : Ballot := ⟨n.id, n.currentTerm, n.votedFor, n.metaStore⟩

namespace Ballot

variable (b : Ballot)

/-- A request of term `t` has been seen. -/
def observed (t : Int) (fault : Bool) : Ballot :=
  if b.currentTerm < t then
    ⟨b.id, t, "", if fault then b.metaStore else b.metaStore.map fun _ => ⟨t, ""⟩⟩
  else b

/-- The vote goes to `c`. -/
def granted (c : NodeID) : Ballot :=
  ⟨b.id, b.currentTerm, c, b.metaStore.map fun _ => ⟨b.currentTerm, c⟩⟩

/-- The node stands for election. -/
def stood : Ballot :=
  ⟨b.id, b.currentTerm + 1, b.id, b.metaStore.map fun _ => ⟨b.currentTerm + 1, b.id⟩⟩

/-- The node could not save its candidacy. -/
def aborted : Ballot := { b with votedFor := "" }

/-- A response has made the node step down to term `t`. -/
def lowered (t : Int) : Ballot := { b with currentTerm := t, votedFor := "" }

/-- The node has been built anew from its store. -/
def reloaded : Ballot :=
  ⟨b.id, (b.metaStore.map RaftMeta.term).getD 0, (b.metaStore.map RaftMeta.votedFor).getD "",
    b.metaStore⟩

end Ballot

/-! ### The handlers on ballots -/

namespace RaftNode

variable {n n' : RaftNode}

theorem LogOnly.ballot (h : LogOnly n n') : n'.ballot = n.ballot := by
  obtain ⟨_, _, _, _, _, _, _, rfl⟩ := h
  rfl

theorem ballot_saveMeta (n : RaftNode) (fault : Bool) (m : RaftMeta) :
    (n.saveMeta fault m).ballot = { n.ballot with
      metaStore := if fault then n.metaStore else n.metaStore.map fun _ => m } := by
  unfold saveMeta
  split <;> rfl

theorem ballot_observe (n : RaftNode) (t : Int) (fault : Bool) :
    (if n.currentTerm < t then n.observeTerm t fault else n).ballot =
      n.ballot.observed t fault := by
  unfold Ballot.observed
  by_cases h : n.currentTerm < t
  · rw [if_pos h, if_pos (show n.ballot.currentTerm < t from h), observeTerm, ballot_saveMeta]
    rfl
  · rw [if_neg h, if_neg (show ¬ n.ballot.currentTerm < t from h)]

theorem ballot_acceptLeader (n : RaftNode) (args : AppendEntriesArgs) (f : Faults) :
    (n.acceptLeader args f).ballot = n.ballot.observed args.term f.saveTerm := by
  rw [← ballot_observe]
  rfl

theorem ballot_observeCandidate (n : RaftNode) (args : RequestVoteArgs) (f : Faults) :
    (n.observeCandidate args f).ballot = n.ballot.observed args.term f.saveTerm := by
  rw [← ballot_observe, observeCandidate]
  split <;> rfl

theorem ballot_installAdmit {args : InstallSnapshotArgs} {f : Faults}
    (h : n.installAdmit args f = some n') :
    n.currentTerm ≤ args.term ∧ n'.ballot = n.ballot.observed args.term f.saveTerm := by
  unfold installAdmit at h
  split at h
  · cases h
  · next hlt =>
    refine ⟨Int.not_lt.mp hlt, ?_⟩
    rw [← ballot_observe]
    cases h
    rfl

theorem observed_currentTerm {b : Ballot} {t : Int} {fault : Bool} (h : b.currentTerm ≤ t) :
    (b.observed t fault).currentTerm = t := by
  unfold Ballot.observed
  split
  · rfl
  · omega

theorem ballot_handleAppendEntries [Codec] (n : RaftNode) (args : AppendEntriesArgs) (f : Faults) :
    (args.term < n.currentTerm ∧ (n.handleAppendEntries args f).1 = n ∧
      (n.handleAppendEntries args f).2.term = n.currentTerm) ∨
    (n.currentTerm ≤ args.term ∧
      (n.handleAppendEntries args f).1.ballot = n.ballot.observed args.term f.saveTerm ∧
      (n.handleAppendEntries args f).2.term = args.term) := by
  rcases handleAppendEntries_cases n args f with ⟨hlt, heq⟩ | ⟨hle, honly, hterm⟩
  · exact .inl ⟨hlt, by rw [heq], by rw [heq]⟩
  · have hb := ballot_acceptLeader n args f
    refine .inr ⟨hle, honly.ballot.trans hb, hterm.trans ?_⟩
    have hcur : (n.acceptLeader args f).currentTerm = (n.acceptLeader args f).ballot.currentTerm :=
      rfl
    rw [hcur, hb]
    exact observed_currentTerm hle

theorem ballot_handleRequestVote (n : RaftNode) (args : RequestVoteArgs) (f : Faults) :
    (args.term < n.currentTerm ∧ n.handleRequestVote args f = (n, n.currentTerm, false)) ∨
    (n.currentTerm ≤ args.term ∧
      (n.handleRequestVote args f).1.ballot = n.ballot.observed args.term f.saveTerm ∧
      (n.handleRequestVote args f).2 = (args.term, false)) ∨
    (n.currentTerm ≤ args.term ∧
      ((n.ballot.observed args.term f.saveTerm).votedFor = "" ∨
        (n.ballot.observed args.term f.saveTerm).votedFor = args.candidateID) ∧
      (n.handleRequestVote args f).1.ballot =
        (n.ballot.observed args.term f.saveTerm).granted args.candidateID ∧
      (n.handleRequestVote args f).2 = (args.term, true)) := by
  have hb := ballot_observeCandidate n args f
  unfold handleRequestVote
  split
  · next hlt => exact .inl ⟨hlt, rfl⟩
  · next hlt =>
    have hle : n.currentTerm ≤ args.term := Int.not_lt.mp hlt
    have hterm : (n.observeCandidate args f).currentTerm = args.term := by
      have : (n.observeCandidate args f).ballot.currentTerm = args.term := by
        rw [hb]
        exact observed_currentTerm hle
      exact this
    dsimp only
    split
    · exact .inr (.inl ⟨hle, hb, by rw [hterm]⟩)
    · split
      · next hvote =>
        split
        · exact .inr (.inl ⟨hle, hb, by rw [hterm]⟩)
        · next hsave =>
          refine .inr (.inr ⟨hle, by rw [← hb]; exact hvote, ?_, by rw [hterm]⟩)
          rw [← hb]
          -- the save did not fail: there is no fault, or no store
          rcases hm : (n.observeCandidate args f).metaStore with - | m
          · rcases f.saveVote <;> simp [ballot, saveMeta, Ballot.granted, hm]
          · have hfault : f.saveVote = false := by simpa [saveFails, hm] using hsave
            simp [ballot, saveMeta, Ballot.granted, hm, hfault]
      · exact .inr (.inl ⟨hle, hb, by rw [hterm]⟩)

theorem handleRequestVote_term (n : RaftNode) (args : RequestVoteArgs) (f : Faults) :
    (n.handleRequestVote args f).2.1 = (n.handleRequestVote args f).1.currentTerm := by
  have hcur : (n.handleRequestVote args f).1.currentTerm
      = (n.handleRequestVote args f).1.ballot.currentTerm := rfl
  rcases ballot_handleRequestVote n args f with ⟨_, heq⟩ | ⟨hle, hb, heq⟩ | ⟨hle, _, hb, heq⟩
  · rw [heq]
  · rw [hcur, hb, heq, observed_currentTerm hle]
  · rw [hcur, hb, heq]
    exact (observed_currentTerm hle).symm

theorem handleAppendEntries_term [Codec] (n : RaftNode) (args : AppendEntriesArgs) (f : Faults) :
    (n.handleAppendEntries args f).2.term = (n.handleAppendEntries args f).1.currentTerm := by
  have hcur : (n.handleAppendEntries args f).1.currentTerm
      = (n.handleAppendEntries args f).1.ballot.currentTerm := rfl
  rcases ballot_handleAppendEntries n args f with ⟨_, heq, ht⟩ | ⟨hle, hb, ht⟩
  · rw [ht, heq]
  · rw [ht, hcur, hb, observed_currentTerm hle]

theorem ballot_startElection (n : RaftNode) (f : Faults) :
    (n.metaStore.isSome ∧ f.saveVote = true ∧ (n.startElection f).1.ballot = n.ballot.aborted ∧
      (n.startElection f).2 = none) ∨
    ((n.startElection f).1.ballot = n.ballot.stood ∧
      (n.startElection f).2 = some ⟨n.currentTerm + 1, n.id, n.lastEntry.1, n.lastEntry.2⟩) := by
  unfold startElection
  by_cases hsave : n.saveFails f.saveVote
  · rw [if_pos hsave]
    have h : n.metaStore.isSome = true ∧ f.saveVote = true := by simpa [saveFails] using hsave
    exact .inl ⟨h.1, h.2, rfl, rfl⟩
  · rw [if_neg hsave]
    rw [ballot_saveMeta]
    rcases hm : n.metaStore with - | m
    · simp [ballot, Ballot.stood, hm]
    · have hfault : f.saveVote = false := by simpa [saveFails, hm] using hsave
      simp [ballot, Ballot.stood, hm, hfault]

theorem ballot_newRaftNode [Codec] (id : NodeID) (peers : Option (List Addr))
    (metaStore : Option RaftMeta) (logStore : Option (List LogRecord)) :
    (newRaftNode id peers metaStore logStore).ballot =
      ⟨id, (metaStore.map RaftMeta.term).getD 0, (metaStore.map RaftMeta.votedFor).getD "",
        metaStore⟩ := by
  have hfold : ∀ (es : List LogEntry) (n : RaftNode),
      (es.foldl (fun n e => n.applyConfigEntry e) n).ballot = n.ballot := by
    intro es
    induction es with
    | nil => exact fun n => rfl
    | cons e es ih => exact fun n => (ih _).trans (logOnly_applyConfigEntry e).ballot
  unfold newRaftNode
  rw [hfold]
  rfl

theorem ballot_recoverFromSnapshot (n : RaftNode) : n.recoverFromSnapshot.ballot = n.ballot := by
  unfold recoverFromSnapshot
  split
  · split
    · rfl
    · split <;> rfl
  · rfl

theorem ballot_becomeLeader (n : RaftNode) (term : Int) :
    (n.becomeLeader term).ballot = n.ballot := by
  unfold becomeLeader
  split <;> rfl

theorem ballot_soloCommit (n : RaftNode) (term : Int) : (n.soloCommit term).ballot = n.ballot := by
  unfold soloCommit
  split <;> rfl

theorem ballot_handleAck (n : RaftNode) (term lastIdx : Int) (cfg : ClusterConfig) (addr : Addr)
    (lastSentIndex : Int) :
    (n.handleAck term lastIdx cfg addr lastSentIndex).ballot = n.ballot := by
  unfold handleAck
  split <;> rfl

theorem ballot_snapshotSent (n : RaftNode) (addr : Addr) (index : Int) :
    (n.snapshotSent addr index).ballot = n.ballot := by
  unfold snapshotSent
  dsimp only
  split <;> split <;> rfl

theorem ballot_stepDownIfRemoved (n : RaftNode) (newVoters : List Addr) :
    (n.stepDownIfRemoved newVoters).ballot = n.ballot := by
  unfold stepDownIfRemoved
  split <;> rfl

theorem ballot_collectApply (n : RaftNode) : n.collectApply.1.ballot = n.ballot := by
  unfold collectApply
  split <;> rfl

theorem ballot_restart [Codec] (n : RaftNode) (boot : Option (List Addr)) :
    (n.restart boot).ballot = n.ballot.reloaded := by
  unfold restart
  rw [ballot_recoverFromSnapshot]
  have hnew := ballot_newRaftNode n.id boot n.metaStore n.logStore
  rcases n.sm with - | _ <;> rcases n.snapshotStore with - | _ <;> exact hnew

end RaftNode

/-! ### The sections on ballots -/

/-- A vote, as recorded: term and candidate. -/
abbrev VoteRecord := Int × NodeID

namespace Node

/-- What a section may do to the ballot and to the record of votes. -/
inductive BallotChange (s : Node) : Act → Ballot → List VoteRecord → Prop
  | keep (act : Act) : BallotChange s act s.raft.ballot s.votes
  | aborted (f : Faults) (hf : s.raft.saveFails f.saveVote = true) :
      BallotChange s (.startElection f) s.raft.ballot.aborted s.votes
  | stood (f : Faults) :
      BallotChange s (.startElection f) s.raft.ballot.stood
        ((s.raft.currentTerm + 1, s.raft.id) :: s.votes)
  | voteLowered (c : Campaign) (addr : Addr) (term : Int) (granted : Bool)
      (h : s.loop = .campaign c) (ht : c.args.term < term) :
      BallotChange s (.voteResult addr (some (term, granted))) (s.raft.ballot.lowered term) s.votes
  | ackLowered (r : Round) (cfg : ClusterConfig) (addr : Addr) (res : AppendEntriesResult)
      (h : s.loop = .collecting r cfg) (hr : r.term < res.term)
      (ht : s.raft.currentTerm < res.term) :
      BallotChange s (.ackResult addr (some res)) (s.raft.ballot.lowered res.term) s.votes
  | observed (c : Call) (f : Faults) (hle : s.raft.currentTerm ≤ c.req.term) :
      BallotChange s (.deliver c f) (s.raft.ballot.observed c.req.term f.saveTerm) s.votes
  | granted (c : Call) (args : RequestVoteArgs) (f : Faults) (hreq : c.req = .vote args)
      (hle : s.raft.currentTerm ≤ args.term)
      (hv : (s.raft.ballot.observed args.term f.saveTerm).votedFor = "" ∨
        (s.raft.ballot.observed args.term f.saveTerm).votedFor = args.candidateID) :
      BallotChange s (.deliver c f)
        ((s.raft.ballot.observed args.term f.saveTerm).granted args.candidateID)
        ((args.term, args.candidateID) :: s.votes)
  | reloaded : BallotChange s .restart s.raft.ballot.reloaded s.votes

variable {s s' : Node} {act : Act} {votes : List VoteRecord}

theorem BallotChange.congr {b b' : Ballot} (h : BallotChange s act b votes) (hb : b' = b) :
    BallotChange s act b' votes := hb ▸ h

theorem BallotChange.id {b : Ballot} (h : BallotChange s act b votes) :
    b.id = s.raft.id := by
  -- a term that is observed, stored or not, leaves the id
  have hobs : ∀ t fault, (s.raft.ballot.observed t fault).id = s.raft.id := by
    intro t fault
    unfold Ballot.observed
    split <;> rfl
  cases h with
  | observed | granted => exact hobs _ _
  | _ => rfl

theorem ballotChange_deliverVote {c : Call} {args : RequestVoteArgs} (f : Faults)
    (hreq : c.req = .vote args) :
    BallotChange s (.deliver c f) (s.raft.handleRequestVote args f).1.ballot
      (if (s.raft.handleRequestVote args f).2.2 then (args.term, args.candidateID) :: s.votes
        else s.votes) := by
  have hterm : c.req.term = args.term := by rw [hreq, Request.term]
  rcases RaftNode.ballot_handleRequestVote s.raft args f with
    ⟨_, heq⟩ | ⟨hle, hb, heq⟩ | ⟨hle, hv, hb, heq⟩
  · rw [heq]
    exact .keep _
  · rw [hb, heq, ← hterm]
    exact .observed c f (hterm ▸ hle)
  · rw [hb, heq]
    exact .granted c args f hreq hle hv

theorem ballotChange_deliverAppend [Codec] {c : Call} {args : AppendEntriesArgs} (f : Faults)
    (hreq : c.req = .append args) :
    BallotChange s (.deliver c f) (s.raft.handleAppendEntries args f).1.ballot s.votes := by
  have hterm : c.req.term = args.term := by rw [hreq, Request.term]
  rcases RaftNode.ballot_handleAppendEntries s.raft args f with ⟨_, heq, _⟩ | ⟨hle, hb, _⟩
  · rw [heq]
    exact .keep _
  · rw [hb, ← hterm]
    exact .observed c f (hterm ▸ hle)

theorem Section.ballotChange [Codec] (h : Section s act s') :
    BallotChange s act s'.raft.ballot s'.votes := by
  cases h with
  | electionAborted f hl hf =>
    rcases RaftNode.ballot_startElection s.raft f with ⟨_, _, hb, _⟩ | ⟨_, hsome⟩
    · exact (BallotChange.aborted f hf).congr hb
    · simp [RaftNode.startElection, hf] at hsome
  | electionStarted f args hl hf hargs =>
    rcases RaftNode.ballot_startElection s.raft f with ⟨_, _, _, hnone⟩ | ⟨hb, hsome⟩
    · simp [hnone] at hargs
    · obtain rfl : _ = args := Option.some.inj (hsome.symm.trans hargs)
      exact (BallotChange.stood f).congr hb
  | voteStepDown c addr term granted hl _ ht => exact .voteLowered c addr term granted hl ht
  | ackStepDown r cfg p addr res hl _ hr =>
    by_cases ht : s.raft.currentTerm < res.term
    · have hb : (s.raft.leaderStepDown res.term).ballot = s.raft.ballot.lowered res.term := by
        simp [RaftNode.leaderStepDown, ht, RaftNode.ballot, Ballot.lowered]
      exact (BallotChange.ackLowered r cfg addr res hl hr ht).congr hb
    · exact (BallotChange.keep _).congr
        (by simp [RaftNode.leaderStepDown, ht, RaftNode.ballot])
  | deliverVote c args f _ hreq => exact ballotChange_deliverVote f hreq
  | deliverAppend c args f _ hreq => exact ballotChange_deliverAppend f hreq
  | installAdmit c args f n _ hreq hn =>
    have hterm : c.req.term = args.term := by rw [hreq, Request.term]
    obtain ⟨hle, hb⟩ := RaftNode.ballot_installAdmit hn
    rw [← hterm] at hle hb
    exact (BallotChange.observed c f hle).congr hb
  | restart => exact BallotChange.reloaded.congr (RaftNode.ballot_restart s.raft s.boot)
  | propose | changeStable =>
    exact (BallotChange.keep _).congr (RaftNode.logOnly_proposeEntry _ _ _ _).ballot
  | proposeConfigChange =>
    exact (BallotChange.keep _).congr (RaftNode.logOnly_proposeConfigChange _ _ _).ballot
  | electAlone | voteWon => exact (BallotChange.keep _).congr (RaftNode.ballot_becomeLeader _ _)
  | buildSolo => exact (BallotChange.keep _).congr (RaftNode.ballot_soloCommit _ _)
  | ackSuccess => exact (BallotChange.keep _).congr (RaftNode.ballot_handleAck _ _ _ _ _ _)
  | transferDone => exact (BallotChange.keep _).congr (RaftNode.ballot_snapshotSent _ _ _)
  | changeFinish => exact (BallotChange.keep _).congr (RaftNode.ballot_stepDownIfRemoved _ _)
  | collect => exact (BallotChange.keep _).congr (RaftNode.ballot_collectApply _)
  | _ => exact .keep _

theorem BallotChange.isSome {b : Ballot} (h : BallotChange s act b votes) :
    b.metaStore.isSome = s.raft.metaStore.isSome := by
  have hobs : ∀ t fault, (s.raft.ballot.observed t fault).metaStore.isSome
      = s.raft.metaStore.isSome := by
    intro t fault
    unfold Ballot.observed
    split
    · cases fault <;> simp [RaftNode.ballot]
    · rfl
  cases h with
  | keep | aborted | voteLowered | ackLowered | reloaded => rfl
  | stood => simp [Ballot.stood, RaftNode.ballot]
  | observed => exact hobs _ _
  | granted => simpa [Ballot.granted] using hobs _ _

theorem BallotChange.votes_subset {b : Ballot} (h : BallotChange s act b votes) :
    s.votes ⊆ votes := by
  cases h with
  | keep | aborted | voteLowered | ackLowered | observed | reloaded => exact List.Subset.refl _
  | stood | granted => exact List.subset_cons_self _ _

theorem raft_fresh [Codec] (addr : Addr) (id : NodeID) (boot : Option (List Addr))
    (metaStore logStore sm : Bool) (snapshots : Option SnapshotConfig) :
    (fresh addr id boot metaStore logStore sm snapshots).raft =
      { id := id
        peers := boot
        currentTerm := 0
        votedFor := ""
        role := .follower
        leaderID := ""
        log := []
        commitIndex := 0
        lastApplied := 0
        nextIndex := none
        matchIndex := none
        metaStore := if metaStore then some ⟨0, ""⟩ else none
        logStore := if logStore then some [] else none
        resetCh := false
        sm := if sm then some newKVStateMachine else none
        snapshotIndex := 0
        snapshotTerm := 0
        snapshotStore := snapshots.map fun _ => []
        snapshotCfg := snapshots.getD ⟨0, 0⟩
        snapBuf := []
        clusterConfig := ⟨.stable, boot.getD [], []⟩ } := by
  cases metaStore <;> cases logStore <;> cases sm <;> cases snapshots <;> rfl

theorem ballot_fresh [Codec] (addr : Addr) (id : NodeID) (boot : Option (List Addr))
    (metaStore logStore sm : Bool) (snapshots : Option SnapshotConfig) :
    (fresh addr id boot metaStore logStore sm snapshots).raft.ballot =
      ⟨id, 0, "", if metaStore then some ⟨0, ""⟩ else none⟩ := by
  rw [raft_fresh]
  rfl

end Node

end Raft
