/-
CoreX/Raft/Leadership.lean

How a node comes to lead a term: it stands for election in it, and wins.  Whatever
else a section does, it leaves role and term of a leader alone or ends its
leadership (`Node.Section.leads`), and whoever starts to stand for election does so
in a new term (`Node.Section.stands`).
-/
import CoreX.Raft.Delivery
import CoreX.Raft.Past

namespace Raft

/-- The term in which the goroutine of `Run` stands for election. -/
def Loop.standTerm : Loop → Option Int
  | .standing args => some args.term
  | .campaign c => some c.args.term
  | _ => none

theorem Campaign.standTerm_resume {c : Campaign} {t : Int} (h : c.resume.standTerm = some t) :
    c.args.term = t := by
  unfold Campaign.resume at h
  split at h
  · cases h
  · exact Option.some.inj h

theorem Round.standTerm_resume (r : Round) (cfg : ClusterConfig) :
    (r.resume cfg).standTerm = none := by
  unfold Round.resume
  split <;> rfl

theorem Loop.standTerm_forRole (role : RaftRole) : (Loop.forRole role).standTerm = none := by
  cases role <;> rfl

/-! ### What the handlers do to roles and terms -/

namespace RaftNode

variable {n : RaftNode} {f : Faults} {args : AppendEntriesArgs}

theorem leader_handleRequestVote {args : RequestVoteArgs}
    (h : (n.handleRequestVote args f).1.role = .leader) :
    n.role = .leader ∧ (n.handleRequestVote args f).1.currentTerm = n.currentTerm := by
  have hobs : (n.observeCandidate args f).role = .leader →
      n.role = .leader ∧ (n.observeCandidate args f).currentTerm = n.currentTerm := by
    unfold observeCandidate
    split
    · exact fun h => by cases h
    · exact fun h => ⟨h, rfl⟩
  have hsave : ∀ (m : RaftNode) fault r, (m.saveMeta fault r).role = m.role ∧
      (m.saveMeta fault r).currentTerm = m.currentTerm := by
    intro m fault r
    unfold saveMeta
    split <;> exact ⟨rfl, rfl⟩
  unfold handleRequestVote at h ⊢
  split at h
  · next hlt => rw [if_pos hlt]; exact ⟨h, rfl⟩
  · next hlt =>
    rw [if_neg hlt]
    dsimp only at h ⊢
    split at h
    · next hup => rw [if_pos hup]; exact hobs h
    · next hup =>
      rw [if_neg hup]
      split at h
      · next hv =>
        rw [if_pos hv]
        split at h
        · next hsf => rw [if_pos hsf]; exact hobs h
        · next hsf =>
          rw [if_neg hsf]
          have h' := (hsave _ _ _).1.symm.trans h
          exact ⟨(hobs h').1, ((hsave _ _ _).2).trans (hobs h').2⟩
      · next hv => rw [if_neg hv]; exact hobs h

theorem role_startElection (n : RaftNode) (f : Faults) :
    (n.startElection f).1.role ≠ .leader := by
  unfold startElection saveMeta
  dsimp only
  split
  · exact fun h => by cases h
  · split <;> exact fun h => by cases h

theorem currentTerm_acceptLeader (h : n.currentTerm ≤ args.term) :
    (n.acceptLeader args f).currentTerm = args.term := by
  unfold acceptLeader
  split
  · unfold observeTerm saveMeta
    split <;> rfl
  · next hge => exact le_antisymm h (not_lt.mp hge)

theorem currentTerm_handleAppendEntries [Codec] (h : n.currentTerm ≤ args.term) :
    (n.handleAppendEntries args f).1.currentTerm = args.term := by
  rcases handleAppendEntries_cases n args f with ⟨hlt, _⟩ | ⟨_, honly, _⟩
  · omega
  · exact honly.currentTerm.trans (currentTerm_acceptLeader h)

theorem role_handleAppendEntries [Codec] (h : n.currentTerm ≤ args.term) :
    (n.handleAppendEntries args f).1.role = .follower := by
  rcases handleAppendEntries_cases n args f with ⟨hlt, _⟩ | ⟨_, honly, _⟩
  · omega
  · exact honly.role

theorem role_installAdmit {n' : RaftNode} {args : InstallSnapshotArgs}
    (h : n.installAdmit args f = some n') : n'.role = .follower := by
  unfold installAdmit at h
  split at h
  · cases h
  · cases h
    rfl

end RaftNode

/-! ### What the sections do to them -/

/-- The sections that may elect a node. -/
def Act.elects : Act → Bool
  | .electAlone | .voteResult _ _ => true
  | _ => false

namespace Node.Section

variable [Codec] {x x' : Node} {act : Act}

theorem leads (h : Section x act x') (hl : x'.raft.role = .leader) :
    x.raft.role = .leader ∧ x'.raft.currentTerm = x.raft.currentTerm ∨
      x.loop.standTerm = some x'.raft.currentTerm ∧ x'.loop = .run ∧ act.elects = true := by
  have hwon : ∀ {term : Int} {n : RaftNode}, n = x.raft.becomeLeader term → n.role = .leader →
      x.raft.role = .leader ∧ n.currentTerm = x.raft.currentTerm ∨ n.currentTerm = term := by
    rintro term n rfl hr
    unfold RaftNode.becomeLeader at hr ⊢
    split at hr
    · next hc => exact .inr (by rw [if_pos hc]; exact hc)
    · next hc => exact .inl ⟨hr, by rw [if_neg hc]⟩
  cases h with
  | resetCampaign | timeoutFollower | voteStepDown | ackStepDown => cases hl
  | electionAborted f | electionStarted f => exact absurd hl (RaftNode.role_startElection _ f)
  | electAlone c hloop | voteWon c addr res granted hloop =>
    refine (hwon rfl hl).imp id fun ht => ⟨?_, rfl, rfl⟩
    rw [hloop, ht]
    rfl
  | buildSolo term =>
    have honly := RaftNode.pointersOnly_soloCommit x.raft term
    exact .inl ⟨honly.role.symm.trans hl, honly.currentTerm⟩
  | ackSuccess r cfg p addr =>
    have honly :=
      RaftNode.pointersOnly_handleAck x.raft r.term r.lastIdx cfg addr p.lastSentIdx
    exact .inl ⟨honly.role.symm.trans hl, honly.currentTerm⟩
  | deliverVote c args f => exact .inl (RaftNode.leader_handleRequestVote hl)
  | deliverAppend c args f =>
    rcases RaftNode.handleAppendEntries_cases x.raft args f with ⟨_, heq⟩ | ⟨hle, _⟩
    · rw [heq] at hl ⊢
      exact .inl ⟨hl, rfl⟩
    · rw [RaftNode.role_handleAppendEntries hle] at hl
      cases hl
  | propose data f =>
    have honly := RaftNode.logOnly_proposeEntry x.raft entryTypeCommand data f
    exact .inl ⟨honly.role.symm.trans hl, honly.currentTerm⟩
  | collect =>
    unfold RaftNode.collectApply at hl ⊢
    split at hl
    · next hc =>
      rw [if_pos hc]
      exact .inl ⟨hl, rfl⟩
    · next hc =>
      rw [if_neg hc]
      exact .inl ⟨hl, rfl⟩
  | installAdmit c args f n hd hreq hn =>
    rw [RaftNode.role_installAdmit hn] at hl
    cases hl
  | proposeConfigChange newVoters f =>
    have honly := RaftNode.logOnly_proposeConfigChange x.raft newVoters f
    exact .inl ⟨honly.role.symm.trans hl, honly.currentTerm⟩
  | changeStable i f newVoters =>
    have honly := RaftNode.logOnly_proposeEntry x.raft entryTypeConfig
      (Codec.marshalConfig ⟨"stable", newVoters, []⟩) f
    exact .inl ⟨honly.role.symm.trans hl, honly.currentTerm⟩
  | changeFinish i f newVoters =>
    unfold RaftNode.stepDownIfRemoved at hl ⊢
    split at hl
    · next hin =>
      rw [if_pos hin]
      exact .inl ⟨hl, rfl⟩
    · cases hl
  | transferDone i addr index =>
    have hsame : (x.raft.snapshotSent addr index).role = x.raft.role ∧
        (x.raft.snapshotSent addr index).currentTerm = x.raft.currentTerm := by
      unfold RaftNode.snapshotSent
      dsimp only
      split <;> split <;> exact ⟨rfl, rfl⟩
    exact .inl ⟨hsame.1 ▸ hl, hsame.2⟩
  | restart =>
    rw [show x.restart.raft.role = .follower from (RaftNode.restart_volatile x.raft x.boot).1] at hl
    cases hl
  | _ => exact .inl ⟨hl, rfl⟩

theorem stands (h : Section x act x') {t : Int}
    (ht : x'.loop.standTerm = some t) :
    x.loop.standTerm = some t ∨ x.raft.currentTerm < t ∧ x'.raft.role ≠ .leader := by
  cases h with
  | dispatch => exact absurd ht (by rw [Loop.standTerm_forRole]; nofun)
  | electionStarted f args hl hf hargs =>
    refine .inr ⟨?_, RaftNode.role_startElection _ f⟩
    rw [RaftNode.startElection, if_neg (by simp [hf])] at hargs
    cases hargs
    cases ht
    exact Int.lt_succ _
  | openCampaign args hl =>
    rw [hl]
    exact .inl ht
  | voteCounted c addr res granted hl =>
    rw [hl]
    exact .inl (congrArg some (Campaign.standTerm_resume (c := c.count addr granted) ht))
  | readConfig | ackError | ackSuccess | ackRefused =>
    rw [Round.standTerm_resume] at ht
    cases ht
  | resetCampaign | timeoutFollower | timeoutCampaign | electionAborted | electAlone | voteStepDown
  | voteWon | enterLeader | tickStop | tickSend | buildSolo | build | ackStepDown | restart =>
    cases ht
  | _ => exact .inl ht

end Node.Section

end Raft
