/-
CoreX/Raft/Votes.lean

What a node promises in elections and in its answers, over whole runs of one
node with failing saves and restarts:
-/
import CoreX.Lib.Run
import CoreX.Raft.Ballot

namespace Raft

open StepSystem

/-! ### One vote per term -/

/-- No two votes of one term go to different candidates. -/
def OneVotePerTerm (votes : List VoteRecord) : Prop :=
  ∀ v ∈ votes, ∀ v' ∈ votes, v.1 = v'.1 → v.2 = v'.2

instance (votes : List VoteRecord) : Decidable (OneVotePerTerm votes) :=
  inferInstanceAs (Decidable (∀ v ∈ votes, ∀ v' ∈ votes, v.1 = v'.1 → v.2 = v'.2))

/-- The votes given so far agree with the ballot in memory and on disk. -/
structure VoteInv (b : Ballot) (votes : List VoteRecord) : Prop where
  id_ne : b.id ≠ ""
  named : ∀ v ∈ votes, v.2 ≠ ""
  unique : OneVotePerTerm votes
  held : ∀ v ∈ votes, v.1 < b.currentTerm ∨ v.1 = b.currentTerm ∧ b.votedFor = v.2
  stored : ∀ m, b.metaStore = some m →
    ∀ v ∈ votes, v.1 < m.term ∨ v.1 = m.term ∧ m.votedFor = v.2

namespace VoteInv

variable {b : Ballot} {votes : List VoteRecord}

theorem older (h : VoteInv b votes) (hv : b.votedFor = "") :
    ∀ v ∈ votes, v.1 < b.currentTerm := by
  intro v hvm
  rcases h.held v hvm with hlt | ⟨_, heq⟩
  · exact hlt
  · exact absurd (heq.symm.trans hv) (h.named v hvm)

theorem observed (h : VoteInv b votes) (t : Int) (fault : Bool) :
    VoteInv (b.observed t fault) votes := by
  unfold Ballot.observed
  split
  · next hlt =>
    have hold : ∀ v ∈ votes, v.1 < t := by
      intro v hv
      rcases h.held v hv with hv | ⟨hv, _⟩ <;> omega
    refine ⟨h.id_ne, h.named, h.unique, fun v hv => .inl (hold v hv), ?_⟩
    intro m hm v hv
    cases fault with
    | true => exact h.stored m hm v hv
    | false =>
      have hm' : ∃ m₀, b.metaStore = some m₀ ∧ ⟨t, ""⟩ = m := by simpa using hm
      obtain ⟨_, _, rfl⟩ := hm'
      exact .inl (hold v hv)
  · exact h

theorem granted (h : VoteInv b votes) {c : NodeID} (hc : c ≠ "")
    (hv : b.votedFor = "" ∨ b.votedFor = c) :
    VoteInv (b.granted c) ((b.currentTerm, c) :: votes) := by
  have hagree : ∀ v ∈ votes, v.1 < b.currentTerm ∨ v.1 = b.currentTerm ∧ c = v.2 := by
    intro v hvm
    rcases hv with hv | hv
    · exact .inl (h.older hv v hvm)
    · exact hv ▸ h.held v hvm
  refine ⟨h.id_ne, ?_, ?_, ?_, ?_⟩
  · rintro v (_ | ⟨_, hvm⟩)
    · exact hc
    · exact h.named v hvm
  · rintro v (_ | ⟨_, hvm⟩) v' (_ | ⟨_, hvm'⟩) heq
    · rfl
    · rcases hagree v' hvm' with hlt | ⟨_, hceq⟩
      · exact absurd heq.symm (ne_of_lt hlt)
      · exact hceq
    · rcases hagree v hvm with hlt | ⟨_, hceq⟩
      · exact absurd heq (ne_of_lt hlt)
      · exact hceq.symm
    · exact h.unique v hvm v' hvm' heq
  · rintro v (_ | ⟨_, hvm⟩)
    · exact .inr ⟨rfl, rfl⟩
    · exact hagree v hvm
  · intro m hm
    have hm' : ∃ m₀, b.metaStore = some m₀ ∧ ⟨b.currentTerm, c⟩ = m := by
      simpa [Ballot.granted] using hm
    obtain ⟨_, _, rfl⟩ := hm'
    rintro v (_ | ⟨_, hvm⟩)
    · exact .inr ⟨rfl, rfl⟩
    · exact hagree v hvm

theorem lowered (h : VoteInv b votes) {t : Int}
    (ht : b.currentTerm < t ∨ b.currentTerm = t ∧ b.votedFor = "") :
    VoteInv (b.lowered t) votes := by
  refine ⟨h.id_ne, h.named, h.unique, fun v hv => .inl ?_, h.stored⟩
  show v.1 < t
  rcases ht with hlt | ⟨rfl, hvote⟩
  · rcases h.held v hv with hv | ⟨hv, _⟩ <;> omega
  · exact h.older hvote v hv

theorem stood (h : VoteInv b votes) : VoteInv b.stood ((b.currentTerm + 1, b.id) :: votes) := by
  have hup : VoteInv (b.lowered (b.currentTerm + 1)) votes := h.lowered (.inl (by omega))
  exact hup.granted h.id_ne (.inl rfl)

theorem aborted (h : VoteInv b votes) (hv : b.votedFor = "") : VoteInv b.aborted votes := by
  have : b.aborted = b := by
    unfold Ballot.aborted
    rw [← hv]
  rw [this]
  exact h

theorem reloaded (h : VoteInv b votes) (hm : b.metaStore.isSome) : VoteInv b.reloaded votes := by
  obtain ⟨m, hm⟩ := Option.isSome_iff_exists.mp hm
  refine ⟨h.id_ne, h.named, h.unique, ?_, h.stored⟩
  have hheld := h.stored m hm
  simpa [Ballot.reloaded, hm] using hheld

end VoteInv

/-- A step-down on a vote response does not leave a term in which the node has
voted, nor go back to an older one. -/
def stepDownKeepsVote (s : Node) : Act → Bool
  | .voteResult _ (some (term, _)) =>
      match s.loop with
      | .campaign c => decide (c.args.term < term →
          s.raft.currentTerm < term ∨ s.raft.currentTerm = term ∧ s.raft.votedFor = "")
      | _ => true
  | _ => true

/-- The sections after which votes may be trusted: a failed election start finds
no vote of its term, a step-down keeps the vote, and requests name a candidate. -/
def voteOk (s : Node) : Act → Bool
  | .startElection f => decide (s.raft.saveFails f.saveVote = true → s.raft.votedFor = "")
  | .deliver c _ =>
      match c.req with
      | .vote args => decide (args.candidateID ≠ "")
      | _ => true
  | act => stepDownKeepsVote s act

variable {s : Node}

theorem VoteInv.section [Codec] {s' : Node} {act : Act} (h : VoteInv s.raft.ballot s.votes)
    (hs : Node.Section s act s') (hok : voteOk s act)
    (hrestart : act = .restart → s.raft.metaStore.isSome) :
    VoteInv s'.raft.ballot s'.votes := by
  have hc := hs.ballotChange
  generalize s'.raft.ballot = b at hc ⊢
  generalize s'.votes = votes at hc ⊢
  cases hc with
  | keep => exact h
  | aborted f hf =>
    simp only [voteOk, decide_eq_true_eq] at hok
    exact h.aborted (hok hf)
  | stood f => exact h.stood
  | voteLowered c addr term granted hl ht =>
    simp only [voteOk, stepDownKeepsVote, hl, decide_eq_true_eq] at hok
    exact h.lowered (hok ht)
  | ackLowered r cfg addr res hl hr ht => exact h.lowered (.inl ht)
  | observed c f hle => exact h.observed _ _
  | granted c args f hreq hle hv =>
    simp only [voteOk, hreq, decide_eq_true_eq] at hok
    have hg := (h.observed args.term f.saveTerm).granted hok hv
    rwa [RaftNode.observed_currentTerm hle] at hg
  | reloaded => exact h.reloaded (hrestart rfl)

theorem voteInv_fresh [Codec] (addr : Addr) {id : NodeID} (hid : id ≠ "")
    (boot : Option (List Addr)) (metaStore logStore sm : Bool)
    (snapshots : Option SnapshotConfig) :
    VoteInv (Node.fresh addr id boot metaStore logStore sm snapshots).raft.ballot
      (Node.fresh addr id boot metaStore logStore sm snapshots).votes := by
  rw [Node.ballot_fresh]
  exact ⟨hid, by simp [Node.fresh], by simp [OneVotePerTerm, Node.fresh], by simp [Node.fresh],
    by simp [Node.fresh]⟩

/-- **A node votes once in a term**, whatever saves fail and however often it is
restarted, as long as its failed election starts erase no vote and its terms do not
overflow. -/
theorem one_vote_per_term [Codec] {addr : Addr} {id : NodeID} {boot : Option (List Addr)}
    {logStore sm : Bool} {snapshots : Option SnapshotConfig} {s : Node} (hid : id ≠ "")
    (hrun : Runs Node.step (fun s act => voteOk s act ∧ s.fitsInt64 act)
      (Node.fresh addr id boot true logStore sm snapshots) s) :
    OneVotePerTerm s.votes := by
  have hinv := hrun.invariant (P := fun s => VoteInv s.raft.ballot s.votes ∧
      s.raft.metaStore.isSome = true) ?_
        ⟨voteInv_fresh addr hid boot true logStore sm snapshots, ?_⟩
  · exact hinv.1.unique
  · intro s act s' ⟨hv, hm⟩ hstep hok
    have hs := Node.step_section hstep
    exact ⟨hv.section hs hok.1 fun _ => hm, hs.ballotChange.isSome.trans hm⟩
  · have hm : (Node.fresh addr id boot true logStore sm snapshots).raft.ballot.metaStore.isSome
        = true := by
      rw [Node.ballot_fresh]
      rfl
    exact hm

/-! ### A vote that is erased -/

section

local instance : Codec := Codec.silent

/-- A node with a meta store, as it is first started. -/
def votingNode : Node := Node.fresh "n" "n" (some ["x", "y"]) true false false none

/-- The vote request of `c` in `term`, from a candidate with an empty log. -/
def askVote (c : NodeID) (term : Int) : Act :=
  .deliver ⟨c, 0, "n", .vote ⟨term, c, 0, 0⟩⟩ Faults.none

/-- The node votes for `x`, times out, fails to save its own candidacy (which
clears `votedFor` in the old term), and is asked by `y`. -/
def erasedVoteRun : List Act :=
  [.dispatch, askVote "x" 1, .timeout, .dispatch,
    .startElection { Faults.none with saveVote := true }, askVote "y" 1]

/-- **The erased vote is given a second time.** -/
theorem failed_candidacy_erases_vote :
    ∃ s, exec Node.step (fun s act => s.fitsInt64 act) votingNode erasedVoteRun = some s ∧
      (1, "x") ∈ s.votes ∧ (1, "y") ∈ s.votes ∧ ¬ OneVotePerTerm s.votes := by
  exact exists_of_any (by decide +kernel)

/-- The node votes for `x`, crashes, is started again and asked by `y`, which it
refuses; then it stands itself, in the next term. -/
def restartedVoterRun : List Act :=
  [.dispatch, askVote "x" 1, .restart, .dispatch, askVote "y" 1, .timeout, .dispatch,
    .startElection Faults.none]

theorem one_vote_per_term_restarted :
    ∃ s, Runs Node.step (fun s act => voteOk s act ∧ s.fitsInt64 act) votingNode s ∧
      s.votes = [(2, "n"), (1, "x")] ∧ OneVotePerTerm s.votes :=
  Runs.exists_and_of_exec restartedVoterRun (by decide +kernel) fun _ hrun _ =>
    one_vote_per_term (by decide) hrun

end

/-! ### Terms on disk -/

/-- The saves of the section succeed. -/
def savesSucceed : Act → Bool
  | .startElection f => !f.saveVote
  | .deliver _ f => !f.saveTerm && !f.saveVote
  | _ => true

/-- A step-down on a response does not move the node past its own term, which is
the stored one: another handler has seen that term before. -/
def stepDownStored (s : Node) : Act → Bool
  | .voteResult _ (some (term, _)) =>
      match s.loop with
      | .campaign c => decide (c.args.term < term → s.raft.currentTerm = term)
      | _ => true
  | .ackResult _ (some res) =>
      match s.loop with
      | .collecting r _ => decide (r.term < res.term → res.term ≤ s.raft.currentTerm)
      | _ => true
  | _ => true

/-- The term on disk. -/
def Node.storedTerm (s : Node) : Int := (s.raft.metaStore.map RaftMeta.term).getD 0

/-- An answer that honours the request: a granted vote, or an AppendEntries that
is not turned down as stale. -/
def honoured : Call × Response → Bool
  | (_, .vote _ granted) => granted
  | (c, .append res) => decide (res.term ≤ c.req.term)
  | (_, .install _) => false

/-- The term on disk is the current one, it covers all answers, and no request is
honoured below an earlier answer (the answers are listed latest first). -/
structure TermInv (s : Node) : Prop where
  stored : ∃ m, s.raft.metaStore = some m ∧ m.term = s.raft.currentTerm
  answered : ∀ p ∈ s.replies, p.2.term ≤ s.raft.currentTerm
  pending : ∀ t ∈ s.installs, t.term ≤ s.raft.currentTerm
  ordered : s.replies.Pairwise fun later earlier =>
    honoured later → earlier.2.term ≤ later.1.req.term

theorem TermInv.storedTerm_eq (h : TermInv s) : s.storedTerm = s.raft.currentTerm := by
  obtain ⟨m, hm, ht⟩ := h.stored
  simp [Node.storedTerm, hm, ht]

theorem Node.BallotChange.termStored {act : Act} {b : Ballot} {votes : List VoteRecord}
    (h : Node.BallotChange s act b votes)
    (hs : ∃ m, s.raft.metaStore = some m ∧ m.term = s.raft.currentTerm) (hsave : savesSucceed act)
    (hdown : stepDownStored s act) :
    s.raft.currentTerm ≤ b.currentTerm ∧ ∃ m, b.metaStore = some m ∧ m.term = b.currentTerm := by
  obtain ⟨m, hm, ht⟩ := hs
  have hobs : ∀ t, s.raft.currentTerm ≤ (s.raft.ballot.observed t false).currentTerm ∧
      ∃ m, (s.raft.ballot.observed t false).metaStore = some m ∧
        m.term = (s.raft.ballot.observed t false).currentTerm := by
    intro t
    unfold Ballot.observed
    split
    · next hlt => exact ⟨hlt.le, ⟨t, ""⟩, by simp [RaftNode.ballot, hm], rfl⟩
    · exact ⟨le_rfl, m, hm, ht⟩
  cases h with
  | keep | aborted => exact ⟨le_rfl, m, hm, ht⟩
  | stood f =>
    exact ⟨by simp [Ballot.stood, RaftNode.ballot], _,
      by simp [Ballot.stood, RaftNode.ballot, hm]; rfl, rfl⟩
  | voteLowered c addr term granted hl hlt =>
    simp only [stepDownStored, hl, decide_eq_true_eq] at hdown
    have heq := hdown hlt
    exact ⟨heq.le, m, hm, ht.trans heq⟩
  | ackLowered r cfg addr res hl hr hlt =>
    simp only [stepDownStored, hl, decide_eq_true_eq] at hdown
    exact absurd (hdown hr) (not_le.mpr hlt)
  | observed c f hle =>
    simp only [savesSucceed, Bool.and_eq_true, Bool.not_eq_true'] at hsave
    rw [hsave.1]
    exact hobs _
  | granted c args f hreq hle hv =>
    simp only [savesSucceed, Bool.and_eq_true, Bool.not_eq_true'] at hsave
    rw [hsave.1]
    obtain ⟨hmono, m', hm', _⟩ := hobs args.term
    exact ⟨hmono, _, by simp only [Ballot.granted, hm', Option.map_some]; rfl, rfl⟩
  | reloaded =>
    have hterm : s.raft.ballot.reloaded.currentTerm = s.raft.currentTerm := by
      simp [Ballot.reloaded, RaftNode.ballot, hm, ht]
    exact ⟨hterm.ge, m, hm, ht.trans hterm.symm⟩

theorem TermInv.silent {s' : Node} (h : TermInv s) (hb : s.raft.currentTerm ≤ s'.raft.currentTerm ∧
      ∃ m, s'.raft.metaStore = some m ∧ m.term = s'.raft.currentTerm) (hr : s'.replies = s.replies)
    (hi : ∀ t ∈ s'.installs, t.term ≤ s'.raft.currentTerm) :
    TermInv s' where
  stored := hb.2
  answered p hp := (h.answered p (hr ▸ hp)).trans hb.1
  pending := hi
  ordered := hr ▸ h.ordered

theorem TermInv.answers {s' : Node} (h : TermInv s) {c : Call} {r : Response}
    (hb : s.raft.currentTerm ≤ s'.raft.currentTerm ∧
      ∃ m, s'.raft.metaStore = some m ∧ m.term = s'.raft.currentTerm)
    (hr : s'.replies = (c, r) :: s.replies) (hi : ∀ t ∈ s'.installs, t.term ≤ s'.raft.currentTerm)
    (hrt : r.term ≤ s'.raft.currentTerm) (hh : honoured (c, r) → s.raft.currentTerm ≤ c.req.term) :
    TermInv s' where
  stored := hb.2
  answered := by
    rw [hr]
    rintro p (_ | ⟨_, hp⟩)
    · exact hrt
    · exact (h.answered p hp).trans hb.1
  pending := hi
  ordered := by
    rw [hr, List.pairwise_cons]
    exact ⟨fun p hp hon => (h.answered p hp).trans (hh hon), h.ordered⟩

theorem TermInv.section [Codec] {s' : Node} {act : Act} (h : TermInv s) (hs : Node.Section s act s')
    (hsave : savesSucceed act) (hdown : stepDownStored s act) :
    TermInv s' := by
  have hb := hs.ballotChange.termStored h.stored hsave hdown
  have hpend : ∀ t ∈ s.installs, t.term ≤ s'.raft.currentTerm := fun t ht =>
    (h.pending t ht).trans hb.1
  have hset : ∀ (i : Nat) (t : Install) (phase : InstallPhase), s.installs[i]? = some t →
      ∀ u ∈ s.installs.set i { t with phase := phase }, u.term ≤ s'.raft.currentTerm := by
    intro i t phase hi u hu
    rcases List.mem_or_eq_of_mem_set hu with hu | rfl
    · exact hpend u hu
    · exact hpend t (List.mem_of_getElem? hi)
  have herase : ∀ i, ∀ u ∈ s.installs.eraseIdx i, u.term ≤ s'.raft.currentTerm :=
    fun i u hu => hpend u (List.mem_of_mem_eraseIdx hu)
  cases hs with
  | deliverVote c args f _ hreq =>
    refine h.answers hb rfl hpend (RaftNode.handleRequestVote_term s.raft args f).le ?_
    intro hgranted
    rw [hreq]
    rcases RaftNode.ballot_handleRequestVote s.raft args f with
      ⟨_, heq⟩ | ⟨hle, _⟩ | ⟨hle, _⟩
    · simp [honoured, heq] at hgranted
    · exact hle
    · exact hle
  | deliverAppend c args f _ hreq =>
    refine h.answers hb rfl hpend (RaftNode.handleAppendEntries_term s.raft args f).le ?_
    intro haccepted
    simp only [honoured, hreq, decide_eq_true_eq] at haccepted ⊢
    rcases RaftNode.ballot_handleAppendEntries s.raft args f with ⟨_, _, ht⟩ | ⟨hle, _⟩
    · exact ht ▸ haccepted
    · exact hle
  | installStale c args f _ hreq hn => exact h.answers hb rfl hpend le_rfl (fun hh => by cases hh)
  | installAdmit c args f n _ hreq hn =>
    refine h.silent hb rfl ?_
    intro t ht
    rcases List.mem_append.mp ht with ht | ht
    · exact hpend t ht
    · rw [List.mem_singleton] at ht
      rw [ht]
  | installBuffer i t hi | installBad i t hi | installFast i t data hi | installSave i t data hi =>
    exact h.answers hb rfl (herase i) (hpend t (List.mem_of_getElem? hi)) (fun hh => by cases hh)
  | installLast i t hi | installTaken i t data hi | installFull i t data hi
    | installRestore i t data hi | installDiscard i t data hi =>
      exact h.silent hb rfl (hset i t _ hi)
  | restart => exact h.silent hb rfl (by simp [Node.restart])
  | _ => exact h.silent hb rfl hpend

theorem termInv_fresh [Codec] (addr : Addr) (id : NodeID) (boot : Option (List Addr))
    (logStore sm : Bool) (snapshots : Option SnapshotConfig) :
    TermInv (Node.fresh addr id boot true logStore sm snapshots) where
  stored := by
    have hb := Node.ballot_fresh addr id boot true logStore sm snapshots
    have hm := congrArg Ballot.metaStore hb
    have ht := congrArg Ballot.currentTerm hb
    exact ⟨⟨0, ""⟩, hm, ht.symm⟩
  answered := by simp [Node.fresh]
  pending := by simp [Node.fresh]
  ordered := by simp [Node.fresh]

/-- **Terms are on disk before they are answered.**  If saves succeed, no step-down
moves past the stored term and terms do not overflow, then every answer carries a term
that is stored; and what the node honours, before or after a restart, is never below a
term it has answered in. -/
theorem terms_durable [Codec] {addr : Addr} {id : NodeID} {boot : Option (List Addr)}
    {logStore sm : Bool} {snapshots : Option SnapshotConfig} {s : Node}
    (hrun : Runs Node.step
      (fun s act => savesSucceed act ∧ stepDownStored s act ∧ s.fitsInt64 act)
      (Node.fresh addr id boot true logStore sm snapshots) s) :
    (∀ p ∈ s.replies, p.2.term ≤ s.storedTerm) ∧
      s.replies.Pairwise fun later earlier =>
        honoured later → earlier.2.term ≤ later.1.req.term := by
  have hinv : TermInv s := by
    refine hrun.invariant ?_ (termInv_fresh addr id boot logStore sm snapshots)
    intro s act s' h hstep hok
    exact h.section (Node.step_section hstep) hok.1 hok.2.1
  refine ⟨?_, hinv.ordered⟩
  rw [hinv.storedTerm_eq]
  exact hinv.answered

/-! ### A term that is answered but not stored -/

section

local instance : Codec := Codec.silent

/-- An AppendEntries of `term` from a leader with an empty log. -/
def heartbeat (leader : Addr) (term : Int) : Act :=
  .deliver ⟨leader, 0, "n", .append ⟨term, leader, 0, 0, [], 0⟩⟩ Faults.none

/-- The node campaigns in term 1, steps down on a vote response of term 5, which
it does not save, answers the leader of term 5, crashes, and then accepts the
leader of term 2. -/
def unsavedTermRun : List Act :=
  [.dispatch, .timeout, .dispatch, .startElection Faults.none, .openCampaign,
    .voteResult "x" (some (5, false)), heartbeat "x" 5, .restart, heartbeat "y" 2]

/-- **A term is answered that is not on disk**, and after the restart a leader of
an older term is accepted. -/
theorem step_down_not_durable :
    ∃ s, exec Node.step (fun s act => savesSucceed act ∧ s.fitsInt64 act) votingNode
        unsavedTermRun = some s ∧
      s.replies.map (fun p => p.2.term) = [2, 5] ∧ s.storedTerm = 2 ∧
      ¬ (∀ p ∈ s.replies, p.2.term ≤ s.storedTerm) ∧
      ¬ s.replies.Pairwise fun later earlier =>
        honoured later → earlier.2.term ≤ later.1.req.term := by
  exact exists_of_any (by decide +kernel)

/-- The node stands in term 1, hears from the leader of term 3, and reads the vote
response that leader gave it, of the same term; it crashes and refuses a leader
of term 2. -/
def seenTermRun : List Act :=
  [.dispatch, .timeout, .dispatch, .startElection Faults.none, .openCampaign, heartbeat "x" 3,
    .voteResult "x" (some (3, false)), .restart, heartbeat "y" 2]

theorem terms_durable_seen :
    ∃ s, Runs Node.step
        (fun s act => savesSucceed act ∧ stepDownStored s act ∧ s.fitsInt64 act) votingNode s ∧
      s.replies.length = 2 ∧ (∀ p ∈ s.replies, p.2.term ≤ s.storedTerm) ∧
      s.replies.Pairwise fun later earlier =>
        honoured later → earlier.2.term ≤ later.1.req.term :=
  Runs.exists_and_of_exec seenTermRun (by decide +kernel) fun _ hrun _ => terms_durable hrun

end

end Raft
