/-
CoreX/Raft/Simulation.lean

A cluster simulates the abstract replicated log (`Consensus.Moves`), with compacted
logs, received snapshots and restarts.  The abstract term of a node is its own, the
abstract log is its history; what a goroutine has read, what is in flight and what has
been answered are promises about the abstract record (`LoopSim`, `CallSim`,
`ReplySim`), which only grows, so they are kept by everything the other nodes do.
-/
import CoreX.Lib.Completeness
import CoreX.Raft.Leadership

namespace Raft

open Consensus TermLog

/-- The abstract state of a cluster. -/
abbrev Abs := Consensus.State Addr LogEntry

variable (C : Cluster) {act : Act}

/-- The moves of the abstract protocol, for the majorities of `C`. -/
abbrev Cluster.Moves (strict : Prop) : Abs → Abs → Prop :=
  Consensus.Moves C.quorums LogEntry.term LogEntry.index strict

/-- The log invariant of the abstract protocol. -/
abbrev Cluster.LogInv (s : Abs) : Prop :=
  Consensus.LogInv C.quorums LogEntry.term LogEntry.index s

/-! ### Promises -/

/-- `a` stood for election with the request `args`. -/
def Stood (s : Abs) (a : Addr) (args : RequestVoteArgs) : Prop :=
  ∃ d ∈ s.stands, d.cand = a ∧ d.term = args.term ∧
    lastTerm LogEntry.term d.log = args.lastLogTerm ∧ (d.log.length : Int) = args.lastLogIndex

/-- The batch of `args`, sent by `a`, was cut from a valid log; under `strict` from
the leader log of its term, unless it is empty. -/
def Cutting (strict : Prop) (s : Abs) (args : AppendEntriesArgs) : Prop :=
  ∃ src, Valid LogEntry.term s.leaderLog src ∧ Cut src args ∧
    (strict → args.entries = [] ∨ src <+: s.leaderLog args.term)

/-- The snapshot that `args` announces ends with an entry of the leader log of its
term. -/
def Offered (s : Abs) (args : InstallSnapshotArgs) : Prop :=
  termIn (s.leaderLog args.term) args.lastIncludedIndex = some args.lastIncludedTerm

/-- What the goroutine of `Run` at `a` relies on. -/
def LoopSim (s : Abs) (a : Addr) : Loop → Prop
  | .standing args => Stood s a args ∧ s.Voted a args.term a
  | .campaign c => Stood s a c.args ∧ s.Voted a c.args.term a ∧
      ∀ g ∈ c.grants, s.Voted g c.args.term a
  | .sending term _ => s.Won a term
  | .sent r | .collecting r _ => s.Won a r.term
  | _ => True

/-- What a request sent by `a` promises. -/
def CallSim (strict : Prop) (s : Abs) (a : Addr) : Request → Prop
  | .vote args => Stood s a args
  | .append args => s.Won a args.term ∧ Cutting strict s args
  | .install args => s.Won a args.term ∧ Offered s args

/-- What an answer given by `a` promises: a granted vote was cast; an accepted
batch, under `strict`, was acknowledged. -/
def ReplySim (strict : Prop) (s : Abs) (a : Addr) (c : Call) : Response → Prop
  | .vote _ granted => granted = true → ∀ args, c.req = .vote args → s.Voted a args.term c.src
  | .append res => strict → res.success = true → ∀ args e, c.req = .append args →
      args.entries.getLast? = some e → s.Acked a args.term e.index
  | .install _ => True

/-- What node `a` relies on and what it promises. -/
structure Promises (strict : Prop) (s : Abs) (a : Addr) (x : Node) : Prop where
  leader : x.raft.role = .leader → s.Won a x.raft.currentTerm
  loop : LoopSim s a x.loop
  sent : ∀ c ∈ x.sent, CallSim strict s a c.req
  replies : ∀ p ∈ x.replies, ReplySim strict s a p.1 p.2
  reads : ∀ t ∈ x.reads, s.Won a t
  /-- The snapshots that `a` receives were offered by other nodes. -/
  installs : ∀ t ∈ x.installs, ∃ b, b ≠ a ∧ CallSim strict s b (.install t.args)

/-- Node `a`, whose snapshot covers the entries `p`, and the abstract state. -/
structure NodeSim (strict : Prop) (s : Abs) (a : Addr) (x : Node) (p : List LogEntry) : Prop
    extends Promises strict s a x where
  term : s.term a = x.raft.currentTerm
  log : s.log a = p ++ x.raft.log
  covers : x.raft.Covers p

/-- What `a` sends, it sends under its own name. -/
structure Signed (C : Cluster) (a : Addr) (x : Node) : Prop where
  addr : x.addr = a
  id : x.raft.id = C.idOf a
  standing : ∀ args, x.loop = .standing args → args.candidateID = C.idOf a
  sent : ∀ c ∈ x.sent, a ∈ C.members ∧ c.src = a ∧
    ∀ args, c.req = .vote args → args.candidateID = C.idOf a

/-- The abstract votes are among those the nodes have recorded. -/
def Recorded (w : World) (s : Abs) : Prop :=
  ∀ v ∈ s.votes, v.voter ∈ C.members ∧ v.cand ∈ C.members ∧
    (v.term, C.idOf v.cand) ∈ (w v.voter).votes

/-- **The simulation relation.** -/
structure Sim (C : Cluster) (strict : Prop) (x : World × Past) (s : Abs) : Prop where
  signed : ∀ a, Signed C a (x.1 a)
  node : ∀ a, NodeSim strict s a (x.1 a) (x.2 a)
  votes : Recorded C x.1 s
  selfAcked : s.SelfAcked

/-! ### Promises are kept -/

section

variable {strict : Prop} {s s' : Abs} {a : Addr}

theorem won_mono (hg : Grows s s') {t : Int} (h : s.Won a t) : s'.Won a t := by
  obtain ⟨x, hx, hrest⟩ := h
  exact ⟨x, hg.wins hx, hrest⟩

theorem voted_mono (hg : Grows s s') {t : Int} {c : Addr} (h : s.Voted a t c) :
    s'.Voted a t c := by
  obtain ⟨x, hx, hrest⟩ := h
  exact ⟨x, hg.votes hx, hrest⟩

theorem acked_mono (hg : Grows s s') {t n : Int} (h : s.Acked a t n) : s'.Acked a t n := by
  obtain ⟨x, hx, hrest⟩ := h
  exact ⟨x, hg.acks hx, hrest⟩

theorem stood_mono (hg : Grows s s') {args : RequestVoteArgs} (h : Stood s a args) :
    Stood s' a args := by
  obtain ⟨d, hd, hrest⟩ := h
  exact ⟨d, hg.stands hd, hrest⟩

theorem cutting_mono (hg : Grows s s') {args : AppendEntriesArgs} (h : Cutting strict s args) :
    Cutting strict s' args := by
  obtain ⟨src, hv, hc, hs⟩ := h
  exact ⟨src, hv.mono hg.logs, hc, fun h => (hs h).imp_right fun hp => hp.trans (hg.logs _)⟩

theorem loopSim_mono (hg : Grows s s') {l : Loop} (h : LoopSim s a l) : LoopSim s' a l := by
  cases l with
  | standing args => exact ⟨stood_mono hg h.1, voted_mono hg h.2⟩
  | campaign c =>
    exact ⟨stood_mono hg h.1, voted_mono hg h.2.1, fun g hgr => voted_mono hg (h.2.2 g hgr)⟩
  | sending | sent | collecting => exact won_mono hg h
  | run | follower | candidate | leader | leading => exact trivial

theorem callSim_mono (hg : Grows s s') {r : Request} (h : CallSim strict s a r) :
    CallSim strict s' a r := by
  cases r with
  | vote args => exact stood_mono hg h
  | append args => exact ⟨won_mono hg h.1, cutting_mono hg h.2⟩
  | install args => exact ⟨won_mono hg h.1, termIn_mono h.2 (hg.logs _)⟩

theorem replySim_mono (hg : Grows s s') {c : Call} {r : Response} (h : ReplySim strict s a c r) :
    ReplySim strict s' a c r := by
  cases r with
  | vote t granted => exact fun hgr args hreq => voted_mono hg (h hgr args hreq)
  | append res => exact fun hs hok args e hreq he => acked_mono hg (h hs hok args e hreq he)
  | install t => exact trivial

theorem Promises.mono {x : Node} (h : Promises strict s a x) (hg : Grows s s') :
    Promises strict s' a x where
  leader hl := won_mono hg (h.leader hl)
  loop := loopSim_mono hg h.loop
  sent c hc := callSim_mono hg (h.sent c hc)
  replies p hp := replySim_mono hg (h.replies p hp)
  reads t ht := won_mono hg (h.reads t ht)
  installs t ht := by
    obtain ⟨b, hne, hb⟩ := h.installs t ht
    exact ⟨b, hne, callSim_mono hg hb⟩

/-- Only the lock-protected state changes, or what no promise is about. -/
structure Node.SameTraffic (x x' : Node) : Prop where
  loop : x'.loop = x.loop
  sent : x'.sent = x.sent
  replies : x'.replies = x.replies
  reads : x'.reads = x.reads
  installs : x'.installs = x.installs
  votes : x'.votes = x.votes

theorem Node.SameTraffic.promises {x x' : Node} (hx : SameTraffic x x') (h : Promises strict s a x)
    (hleader : x'.raft.role = .leader → s.Won a x'.raft.currentTerm) : Promises strict s a x' where
  leader := hleader
  loop := hx.loop ▸ h.loop
  sent := hx.sent ▸ h.sent
  replies := hx.replies ▸ h.replies
  reads := hx.reads ▸ h.reads
  installs := hx.installs ▸ h.installs

theorem NodeSim.mono {x : Node} {p : List LogEntry} (h : NodeSim strict s a x p)
    (hg : Grows s s') (hterm : s'.term a = s.term a) (hlog : s'.log a = s.log a) :
    NodeSim strict s' a x p where
  toPromises := h.toPromises.mono hg
  term := hterm.trans h.term
  log := hlog.trans h.log
  covers := h.covers

end

/-! ### What the handlers do to roles and logs -/

namespace RaftNode

variable {n : RaftNode} {f : Faults} {args : AppendEntriesArgs}

theorem upToDate_of_granted {args : RequestVoteArgs} (h : (n.handleRequestVote args f).2.2 = true) :
    n.candidateLogUpToDate args.lastLogIndex args.lastLogTerm = true := by
  have hsame : (n.observeCandidate args f).candidateLogUpToDate args.lastLogIndex
      args.lastLogTerm = n.candidateLogUpToDate args.lastLogIndex args.lastLogTerm := by
    obtain ⟨_, _, _, _, _, _, heq⟩ := electionOnly_observeCandidate n args f
    rw [heq]
    rfl
  rw [← hsame]
  unfold handleRequestVote at h
  split at h
  · cases h
  · dsimp only at h
    split at h
    · cases h
    · next hup => simpa using hup

theorem Covers.upToDate {p : List LogEntry} (hc : n.Covers p) {l : List LogEntry}
    {lastLogIndex lastLogTerm : Int} (hterm : lastTerm LogEntry.term l = lastLogTerm)
    (hlen : (l.length : Int) = lastLogIndex)
    (h : n.candidateLogUpToDate lastLogIndex lastLogTerm = true) :
    UpToDate LogEntry.term l (p ++ n.log) := by
  unfold candidateLogUpToDate at h
  rw [hc.lastEntry_eq, ← hterm, ← hlen] at h
  split at h
  · exact .inl (by simpa using h)
  · next heq =>
    refine .inr ⟨(not_not.mp heq).symm, ?_⟩
    have hle := of_decide_eq_true h
    omega

end RaftNode

theorem Cut.last_index {src : List LogEntry} {args : AppendEntriesArgs} {e : PbLogEntry}
    (h : Cut src args) (hsrc : Indexed LogEntry.index 0 src)
    (he : args.entries.getLast? = some e) : e.index = src.length := by
  have hlast : (args.entries.map PbLogEntry.toEntry).getLast? = some e.toEntry := by
    rw [List.getLast?_map, he]
    rfl
  have hsuffix : src.getLast? = some e.toEntry := by
    cases h with
    | whole hp hes => rw [← hes, hlast]
    | after k x hp hx ht hes =>
      rw [hes, List.getLast?_drop] at hlast
      split at hlast
      · cases hlast
      · exact hlast
    | beyond hp ht hes => rw [hes] at he; cases he
  have := hsrc.getLast?_num hsuffix
  simpa using this

/-! ### Who signs -/

theorem Signed.section [Codec] {C : Cluster} {a : Addr} {x x' : Node} (h : Signed C a x)
    (ha : a ∈ C.members) (hs : Node.Section x act x') : Signed C a x' := by
  have haddr : x'.addr = a := hs.addr.trans h.addr
  have hid : x'.raft.id = C.idOf a := hs.ballotChange.id.trans h.id
  have hsent : ∀ c ∈ x'.sent, a ∈ C.members ∧ c.src = a ∧
      ∀ args, c.req = .vote args → args.candidateID = C.idOf a := by
    rintro ⟨src, id, dst, req⟩ hc
    rcases hs.sends hc with hc | ⟨⟨hsrc, _⟩, hsends⟩
    · exact h.sent _ hc
    refine ⟨ha, hsrc.trans h.addr, ?_⟩
    rintro args rfl
    cases hsends with
    | vote args b hl => exact h.standing args hl
  cases hs with
  | electionStarted f args hl hf hargs =>
    refine ⟨haddr, hid, fun args' heq => ?_, hsent⟩
    cases heq
    rw [RaftNode.startElection, if_neg (by simp [hf])] at hargs
    cases hargs
    exact h.id
  | dispatch =>
    refine ⟨haddr, hid, fun args heq => ?_, hsent⟩
    rcases hr : x.raft.role <;> simp [Loop.forRole, hr] at heq
  | voteCounted c addr res granted =>
    refine ⟨haddr, hid, fun args heq => ?_, hsent⟩
    simp only [Campaign.resume] at heq
    split at heq <;> cases heq
  | readConfig r | ackError r | ackSuccess r | ackRefused r =>
    refine ⟨haddr, hid, fun args heq => ?_, hsent⟩
    simp only [Round.resume] at heq
    split at heq <;> cases heq
  | resetCampaign | timeoutFollower | timeoutCampaign | electionAborted | openCampaign | electAlone
  | voteStepDown | voteWon | enterLeader | tickStop | tickSend | buildSolo | build | ackStepDown
  | restart =>
    exact ⟨haddr, hid, fun _ heq => (by cases heq), hsent⟩
  | _ => exact ⟨haddr, hid, h.standing, hsent⟩

/-! ### One section, one or no move -/

/-- Member `a` leads term `t` in the world `w`. -/
def Leads (w : World) (a : Addr) (t : Int) : Prop :=
  a ∈ C.members ∧ (w a).raft.role = .leader ∧ (w a).raft.currentTerm = t

instance (C : Cluster) (w : World) (a : Addr) (t : Int) : Decidable (Leads C w a t) :=
  inferInstanceAs (Decidable (_ ∧ _ ∧ _))

/-- The winners of `s'` are those of `s` and leaders of `w`. -/
def NewWins (w : World) (s s' : Abs) : Prop :=
  ∀ x ∈ s'.wins, x ∈ s.wins ∨ Leads C w x.node x.term

/-- The moves that lead from `s` to the world `w` elect no second leader in a
term. -/
def Admissible (strict : Prop) (w : World) (s : Abs) : Prop :=
  ∀ s', C.Moves strict s s' → Recorded C w s' → NewWins C w s s' → s'.WinsUnique

/-- The world and the pasts of `x` are reached from `s` by abstract moves. -/
def Matched (strict : Prop) (x : World × Past) (s : Abs) : Prop :=
  ∃ s', C.Moves strict s s' ∧ Sim C strict x s' ∧ NewWins C x.1 s s'

section

variable {C : Cluster} {strict : Prop} {w : World} {past : Past} {s : Abs} {a : Addr} {x' : Node}
variable {p : List LogEntry}

theorem recorded_update {s' : Abs} (h : Sim C strict (w, past) s) (hvotes : (w a).votes ⊆ x'.votes)
    (hnew : ∀ v ∈ s'.votes, v ∈ s.votes ∨ a ∈ C.members ∧
      v.voter = a ∧ v.cand ∈ C.members ∧ (v.term, C.idOf v.cand) ∈ x'.votes) :
    Recorded C (Function.update w a x') s' := by
  intro v hv
  rcases hnew v hv with hold | ⟨ha, hva, hc, hmem⟩
  · obtain ⟨hm, hc, hmem⟩ := h.votes v hold
    refine ⟨hm, hc, ?_⟩
    rcases eq_or_ne v.voter a with heq | hne
    · rw [heq, Function.update_self]
      exact hvotes (heq ▸ hmem)
    · rwa [Function.update_of_ne hne]
  · rw [hva, Function.update_self]
    exact ⟨ha, hc, hmem⟩

theorem signed_update (h : ∀ b, Signed C b (w b)) (hx' : Signed C a x') (b : Addr) :
    Signed C b (Function.update w a x' b) := by
  rcases eq_or_ne b a with rfl | hne
  · rwa [Function.update_self]
  · rw [Function.update_of_ne hne]
    exact h b

theorem Sim.assemble (h : Sim C strict (w, past) s) (hi : C.LogInv s) (hsigned : Signed C a x')
    (hadm : Admissible C strict (Function.update w a x') s) {s' : Abs}
    (hmoves : C.Moves strict s s')
    (hother : ∀ b, b ≠ a → s'.term b = s.term b ∧ s'.log b = s.log b)
    (hvotes : (w a).votes ⊆ x'.votes)
    (hnew : ∀ v ∈ s'.votes, v ∈ s.votes ∨ a ∈ C.members ∧
      v.voter = a ∧ v.cand ∈ C.members ∧ (v.term, C.idOf v.cand) ∈ x'.votes)
    (hwins : NewWins C (Function.update w a x') s s') (hself : s'.WinsUnique → s'.SelfAcked)
    (hnode : Grows s s' → NodeSim strict s' a x' p) :
    Matched C strict (Function.update w a x', Function.update past a p) s := by
  have hrec := recorded_update h hvotes hnew
  have hu := hadm s' hmoves hrec hwins
  have hg := hmoves.grows hi hu
  refine ⟨s', hmoves, ⟨signed_update h.signed hsigned, ?_, hrec, hself hu⟩, hwins⟩
  intro b
  show NodeSim strict s' b (Function.update w a x' b) (Function.update past a p b)
  rcases eq_or_ne b a with rfl | hne
  · rw [Function.update_self, Function.update_self]
    exact hnode hg
  · rw [Function.update_of_ne hne, Function.update_of_ne hne]
    exact (h.node b).mono hg (hother b hne).1 (hother b hne).2

theorem Sim.adopt (h : Sim C strict (w, past) s) (hi : C.LogInv s) (hsigned : Signed C a x')
    (hadm : Admissible C strict (Function.update w a x') s)
    (hle : (w a).raft.currentTerm ≤ x'.raft.currentTerm) (hvotes : x'.votes = (w a).votes)
    (hcov : x'.raft.Covers p) (hlog : p ++ x'.raft.log = past a ++ (w a).raft.log)
    (hx' : Promises strict s a x') :
    Matched C strict (Function.update w a x', Function.update past a p) s := by
  have hmove : C.Moves strict s (s.adopt a x'.raft.currentTerm) :=
    Relation.ReflTransGen.single (.adopt a _ ((h.node a).term ▸ hle))
  refine h.assemble hi hsigned hadm hmove ?_ (hvotes ▸ List.Subset.refl _) (fun v hv => .inl hv)
    (fun x hx => .inl hx) (fun _ => h.selfAcked.keep rfl rfl (List.Subset.refl _)) fun hg =>
      ⟨hx'.mono hg, Function.update_self .., (h.node a).log.trans hlog.symm, hcov⟩
  exact fun b hb => ⟨Function.update_of_ne hb _ _, rfl⟩

theorem Sim.stand (h : Sim C strict (w, past) s) (hi : C.LogInv s) (ha : a ∈ C.members) {f : Faults}
    {args : RequestVoteArgs} (hargs : ((w a).raft.startElection f).2 = some args)
    (hx' : x' = { w a with
      raft := ((w a).raft.startElection f).1
      loop := .standing args
      votes := (args.term, args.candidateID) :: (w a).votes })
    (hcov : x'.raft.Covers p) (hlog : p ++ x'.raft.log = past a ++ (w a).raft.log)
    (hsigned : Signed C a x') (hadm : Admissible C strict (Function.update w a x') s) :
    Matched C strict (Function.update w a x', Function.update past a p) s := by
  have hn := h.node a
  rcases RaftNode.ballot_startElection (w a).raft f with ⟨_, _, _, hnone⟩ | ⟨hb, hsome⟩
  · rw [hnone] at hargs
    cases hargs
  obtain rfl : _ = args := Option.some.inj (hsome.symm.trans hargs)
  have hterm : ((w a).raft.startElection f).1.currentTerm = (w a).raft.currentTerm + 1 :=
    congrArg Ballot.currentTerm hb
  have hmove : C.Moves strict s (s.stand a ((w a).raft.currentTerm + 1)) :=
    Relation.ReflTransGen.single (.stand a _ (by rw [hn.term]; exact Int.lt_succ _))
  subst hx'
  refine h.assemble hi hsigned hadm hmove ?_ (List.subset_cons_self _ _) ?_
    (fun x hx => .inl hx) (fun _ => h.selfAcked.keep rfl rfl (List.Subset.refl _)) ?_
  · intro b hb
    exact ⟨Function.update_of_ne hb _ _, rfl⟩
  · rintro v (_ | ⟨_, hv⟩)
    · refine .inr ⟨ha, rfl, ha, ?_⟩
      show (_, C.idOf a) ∈ (_, (w a).raft.id) :: (w a).votes
      rw [(h.signed a).id]
      exact List.mem_cons_self ..
    · exact .inl hv
  · intro hg
    refine ⟨{ hn.toPromises.mono hg with
      leader := fun hl => absurd hl (RaftNode.role_startElection _ f)
      loop := ⟨?_, ?_⟩ }, (Function.update_self ..).trans hterm.symm, hn.log.trans hlog.symm, hcov⟩
    · -- the request carries the end of the log the node stood with
      have hlast := hn.covers.lastEntry_eq
      refine ⟨_, List.mem_cons_self .., rfl, rfl, ?_, ?_⟩
      · show lastTerm LogEntry.term (s.log a) = (w a).raft.lastEntry.2
        rw [hn.log, hlast]
      · show ((s.log a).length : Int) = (w a).raft.lastEntry.1
        rw [hn.log, hlast]
    · exact ⟨_, List.mem_cons_self .., rfl, rfl, rfl⟩

theorem Sim.grant (h : Sim C strict (w, past) s) (hi : C.LogInv s) (ha : a ∈ C.members) {c : Call}
    {args : RequestVoteArgs} {f : Faults} (hsent : c ∈ (w c.src).sent) (hreq : c.req = .vote args)
    (hgranted : ((w a).raft.handleRequestVote args f).2.2 = true)
    (hx' : x' = { (w a).reply c (.vote ((w a).raft.handleRequestVote args f).2.1
        ((w a).raft.handleRequestVote args f).2.2) with
      raft := ((w a).raft.handleRequestVote args f).1
      votes := (args.term, args.candidateID) :: (w a).votes })
    (hcov : x'.raft.Covers p) (hlog : p ++ x'.raft.log = past a ++ (w a).raft.log)
    (hsigned : Signed C a x') (hadm : Admissible C strict (Function.update w a x') s) :
    Matched C strict (Function.update w a x', Function.update past a p) s := by
  have hn := h.node a
  obtain ⟨hmember, _, hid⟩ := (h.signed c.src).sent c hsent
  have hstood : Stood s c.src args := by
    have := (h.node c.src).sent c hsent
    rwa [hreq] at this
  obtain ⟨hle, hterm⟩ : (w a).raft.currentTerm ≤ args.term ∧
      ((w a).raft.handleRequestVote args f).1.currentTerm = args.term := by
    rw [← RaftNode.handleRequestVote_term]
    rcases RaftNode.ballot_handleRequestVote (w a).raft args f with
      ⟨_, heq⟩ | ⟨hle, _, heq⟩ | ⟨hle, _, _, heq⟩
    · rw [heq] at hgranted
      cases hgranted
    · exact ⟨hle, by rw [heq]⟩
    · exact ⟨hle, by rw [heq]⟩
  have hmove : C.Moves strict s (s.grant a args.term c.src) := by
    obtain ⟨d, hd, hdc, hdt, hlt, hll⟩ := hstood
    refine Relation.ReflTransGen.single (.grant a _ c.src (hn.term ▸ hle) ⟨d, hd, hdc, hdt, ?_⟩)
    rw [hn.log]
    exact hn.covers.upToDate hlt hll (RaftNode.upToDate_of_granted hgranted)
  have hvoted : (s.grant a args.term c.src).Voted a args.term c.src :=
    ⟨_, List.mem_cons_self .., rfl, rfl, rfl⟩
  subst hx'
  refine h.assemble hi hsigned hadm hmove ?_ (List.subset_cons_self _ _) ?_
    (fun x hx => .inl hx) (fun _ => h.selfAcked.keep rfl rfl (List.Subset.refl _)) ?_
  · intro b hb
    exact ⟨Function.update_of_ne hb _ _, rfl⟩
  · rintro v (_ | ⟨_, hv⟩)
    · refine .inr ⟨ha, rfl, hmember, ?_⟩
      show (_, C.idOf c.src) ∈ (_, args.candidateID) :: (w a).votes
      rw [hid args hreq]
      exact List.mem_cons_self ..
    · exact .inl hv
  · intro hg
    refine ⟨{ hn.toPromises.mono hg with leader := fun hl => ?_, replies := ?_ },
      (Function.update_self ..).trans hterm.symm, hn.log.trans hlog.symm, hcov⟩
    · obtain ⟨hrole, hsame⟩ := RaftNode.leader_handleRequestVote hl
      exact hsame ▸ won_mono hg (hn.leader hrole)
    · rintro p (_ | ⟨_, hp⟩)
      · intro _ args' hreq'
        obtain rfl : args = args' := Request.vote.inj (hreq.symm.trans hreq')
        exact hvoted
      · exact replySim_mono hg (hn.replies p hp)

theorem Sim.lead (h : Sim C strict (w, past) s) (hi : C.LogInv s) (ha : a ∈ C.members)
    {c : Campaign} (hfair : C.majority (a :: c.grants) = true) (hstood : Stood s a c.args)
    (hself : s.Voted a c.args.term a) (hgrants : ∀ g ∈ c.grants, s.Voted g c.args.term a)
    (hx' : x' = { w a with raft := (w a).raft.becomeLeader c.args.term, loop := .run })
    (hcov : x'.raft.Covers p) (hlog : p ++ x'.raft.log = past a ++ (w a).raft.log)
    (hsigned : Signed C a x') (hadm : Admissible C strict (Function.update w a x') s) :
    Matched C strict (Function.update w a x', Function.update past a p) s := by
  have hn := h.node a
  by_cases hcur : (w a).raft.currentTerm = c.args.term
  · have hraft : (w a).raft.becomeLeader c.args.term = { (w a).raft with role := .leader } := by
      rw [RaftNode.becomeLeader, if_pos hcur]
    rw [hraft] at hx'
    have hterm : s.term a = c.args.term := hn.term.trans hcur
    by_cases hdone : s.Won a c.args.term
    · -- it led this term before
      subst hx'
      exact h.adopt hi hsigned hadm le_rfl rfl hcov hlog
        { hn.toPromises with leader := fun _ => hcur ▸ hdone, loop := trivial }
    · have hA := C.isQuorum_of_majority hfair
      have hvotes : ∀ v ∈ (C.members.filter fun b => b ∈ a :: c.grants).toFinset,
          s.Voted v (s.term a) a := by
        intro v hv
        rw [hterm]
        have hmem := (List.mem_filter.mp (List.mem_toFinset.mp hv)).2
        rcases List.mem_cons.mp (of_decide_eq_true hmem) with rfl | hg
        · exact hself
        · exact hgrants v hg
      have hmove : C.Moves strict s
          (s.lead a (C.members.filter fun b => b ∈ a :: c.grants).toFinset) := by
        obtain ⟨d, hd, hdc, hdt, _⟩ := hstood
        exact moves_lead hA ⟨d, hd, hdc, hdt.trans hterm.symm⟩ hvotes (hterm ▸ hdone)
      subst hx'
      refine h.assemble hi hsigned hadm hmove (fun b _ => ⟨rfl, rfl⟩) (List.Subset.refl _)
        (fun v hv => .inl hv) ?_ (fun hu => h.selfAcked.lead hu) ?_
      · rintro x (_ | ⟨_, hx⟩)
        · refine .inr ⟨ha, ?_, ?_⟩
          · rw [Function.update_self]
          · rw [Function.update_self]
            exact hn.term.symm
        · exact .inl hx
      · intro hg
        exact ⟨{ hn.toPromises.mono hg with
          leader := fun _ => ⟨_, List.mem_cons_self .., rfl, hn.term⟩
          loop := trivial }, hn.term, hn.log.trans hlog.symm, hcov⟩
  · -- a handler has moved the node to another term
    have hraft : (w a).raft.becomeLeader c.args.term = (w a).raft := by
      rw [RaftNode.becomeLeader, if_neg hcur]
    rw [hraft] at hx'
    subst hx'
    exact h.adopt hi hsigned hadm le_rfl rfl hcov hlog { hn.toPromises with loop := trivial }

theorem Sim.extend (h : Sim C strict (w, past) s) (hi : C.LogInv s) (hus : s.WinsUnique)
    {type : EntryType} {data : Bytes} (hrole : (w a).raft.role = .leader)
    (hsame : Node.SameTraffic (w a) x')
    (hterm' : x'.raft.currentTerm = (w a).raft.currentTerm) (hcov : x'.raft.Covers p)
    (hlog : p ++ x'.raft.log = past a ++ (w a).raft.log ++ [(w a).raft.entryOf type data])
    (hsigned : Signed C a x') (hadm : Admissible C strict (Function.update w a x') s) :
    Matched C strict (Function.update w a x', Function.update past a p) s := by
  have hn := h.node a
  have hwon : s.Won a (s.term a) := hn.term ▸ hn.leader hrole
  have hnum : ((w a).raft.entryOf type data).index = (s.log a).length + 1 := by
    show (w a).raft.lastEntry.1 + 1 = _
    rw [hn.log, hn.covers.lastEntry_eq]
  have hmove : C.Moves strict s (s.extend a ((w a).raft.entryOf type data)) :=
    moves_extend hwon hn.term.symm hnum
  refine h.assemble hi hsigned hadm hmove ?_ (hsame.votes ▸ List.Subset.refl _)
    (fun v hv => .inl hv) (fun x hx => .inl hx) (fun _ => h.selfAcked.extend hus hwon) ?_
  · intro b hb
    exact ⟨rfl, Function.update_of_ne hb _ _⟩
  · intro hg
    refine ⟨(hsame.promises hn.toPromises fun hl => ?_).mono hg, hn.term.trans hterm'.symm, ?_,
      hcov⟩
    · rw [hterm']
      exact hn.leader hrole
    · show Function.update s.log a (s.log a ++ [_]) a = _
      rw [Function.update_self, hn.log, hlog]

theorem Sim.matches (h : Sim C strict (w, past) s) (hi : C.LogInv s) {src : List LogEntry}
    (hsrc : Valid LogEntry.term s.leaderLog src) :
    RaftNode.Matches (past a ++ (w a).raft.log) src := by
  intro k x y hx hy hterm
  rw [← (h.node a).log] at hx ⊢
  exact (hi.valid_log a).take_eq hsrc hx hy hterm

theorem Sim.term_pos (h : Sim C strict (w, past) s) (hi : C.LogInv s) :
    ∀ e ∈ past a ++ (w a).raft.log, 0 < e.term := by
  intro e he
  rw [← (h.node a).log] at he
  exact hi.led_pos (hi.led_of_mem (hi.valid_log a) he)

theorem Sim.accept [Codec] (h : Sim C strict (w, past) s) (hi : C.LogInv s) {c : Call}
    {args : AppendEntriesArgs} {f : Faults} (hsent : c ∈ (w c.src).sent) (hne : c.src ≠ a)
    (hreq : c.req = .append args)
    (hfit : (w a).raft.snapshotIndex = 0 ∨ (w a).raft.placeFits args = true)
    (hle : (w a).raft.currentTerm ≤ args.term)
    (hx' : x' = { (w a).reply c (.append ((w a).raft.handleAppendEntries args f).2) with
      raft := ((w a).raft.handleAppendEntries args f).1 })
    (hsigned : Signed C a x') (hadm : Admissible C strict (Function.update w a x') s) :
    Matched C strict (Function.update w a x', Function.update past a (past a)) s := by
  have hn := h.node a
  obtain ⟨hwon, src, hvalid, hcut, hown⟩ : CallSim strict s c.src (.append args) :=
    hreq ▸ (h.node c.src).sent c hsent
  have hsrc := hi.numbered_of_valid hvalid
  obtain ⟨hmerge, hcov, hsucc⟩ := hn.covers.handleAppendEntries_merge f hfit
    (h.term_pos hi) hsrc hcut (h.matches hi hvalid)
  have hempty : args.entries = [] → past a ++ ((w a).raft.handleAppendEntries args f).1.log
      = s.log a := fun hes => by
    rw [RaftNode.Covers.handleAppendEntries_log_same f (.inr (.inr hes))]
    exact hn.log.symm
  rw [← show s.log a = past a ++ (w a).raft.log from hn.log] at hmerge
  have hterm := RaftNode.currentTerm_handleAppendEntries (n := (w a).raft) (f := f) hle
  have hrole := RaftNode.role_handleAppendEntries (n := (w a).raft) (f := f) hle
  generalize hr : (w a).raft.handleAppendEntries args f = r at *
  have hled : ∃ x ∈ s.wins, x.node ≠ a ∧ x.term = args.term := by
    obtain ⟨x, hx, hxn, hxt⟩ := hwon
    exact ⟨x, hx, hxn ▸ hne, hxt⟩
  -- an empty batch is cut from the empty log
  have hmove : Step C.quorums LogEntry.term LogEntry.index strict s
      (s.accept a args.term (past a ++ r.1.log)) := by
    by_cases hes : args.entries = []
    · refine .accept a _ [] _ (hn.term ▸ hle) hled Valid.nil (fun _ => List.nil_prefix) ?_
      rw [hempty hes]
      exact Merge.same _ _
    · exact .accept a _ src _ (hn.term ▸ hle) hled hvalid (fun hs => (hown hs).resolve_left hes)
        hmerge
  have hnode : ∀ s', Grows s s' → s'.term a = args.term → s'.log a = past a ++ r.1.log →
      (strict → r.2.success = true → ∀ e, args.entries.getLast? = some e →
        s'.Acked a args.term e.index) → NodeSim strict s' a x' (past a) := by
    intro s' hg hterm' hlog' hack
    rw [hx']
    refine ⟨{ hn.toPromises.mono hg with leader := fun hl => ?_, replies := ?_ },
      hterm'.trans hterm.symm, hlog', hcov⟩
    · rw [hrole] at hl
      cases hl
    · rintro p (_ | ⟨_, hp⟩)
      · intro hs hok args' e hreq' he
        obtain rfl : args = args' := Request.append.inj (hreq.symm.trans hreq')
        exact hack hs hok e he
      · exact replySim_mono hg (hn.replies p hp)
  have hother : ∀ b, b ≠ a → (s.accept a args.term (past a ++ r.1.log)).term b = s.term b ∧
      (s.accept a args.term (past a ++ r.1.log)).log b = s.log b := fun b hb =>
    ⟨Function.update_of_ne hb _ _, Function.update_of_ne hb _ _⟩
  have hvotes : (w a).votes ⊆ x'.votes := by
    rw [hx']
    exact List.Subset.refl _
  by_cases hack : strict ∧ r.2.success = true ∧ args.entries ≠ []
  · obtain ⟨hs, hok, hes⟩ := hack
    have hprefix : src <+: s.leaderLog args.term := (hown hs).resolve_left hes
    -- the whole of `src` is in place and can be acknowledged
    have hmove' : Step C.quorums LogEntry.term LogEntry.index strict
        (s.accept a args.term (past a ++ r.1.log))
        ((s.accept a args.term (past a ++ r.1.log)).ack a src.length) := by
      have hterm' : (s.accept a args.term (past a ++ r.1.log)).term a = args.term :=
        Function.update_self ..
      have hlog' : (s.accept a args.term (past a ++ r.1.log)).log a = past a ++ r.1.log :=
        Function.update_self ..
      obtain ⟨x, hx, _, hxt⟩ := hled
      refine .ack a _ ⟨x, hx, hxt.trans hterm'.symm⟩ ?_ ?_
      · rw [hterm']
        exact hprefix.length_le
      · rw [hterm', hlog']
        show (s.leaderLog args.term).take src.length <+: _
        rw [List.prefix_iff_eq_take.mp hprefix] at hsucc
        simpa using hsucc hok
    refine h.assemble hi hsigned hadm ((Relation.ReflTransGen.single hmove).tail hmove') hother
      hvotes (fun v hv => .inl hv) (fun x hx => .inl hx)
      (fun _ => h.selfAcked.keep rfl rfl (List.subset_cons_self _ _)) ?_
    intro hg
    refine hnode _ hg (Function.update_self ..) (Function.update_self ..) fun _ _ e he => ?_
    refine ⟨_, List.mem_cons_self .., rfl, Function.update_self .., ?_⟩
    exact (hcut.last_index hsrc he).le
  · refine h.assemble hi hsigned hadm (Relation.ReflTransGen.single hmove) hother hvotes
      (fun v hv => .inl hv) (fun x hx => .inl hx)
      (fun _ => h.selfAcked.keep rfl rfl (List.Subset.refl _)) ?_
    intro hg
    refine hnode _ hg (Function.update_self ..) (Function.update_self ..) fun hs hok e he => ?_
    exact absurd ⟨hs, hok, fun hes => by rw [hes] at he; cases he⟩ hack

theorem Sim.replace (h : Sim C strict (w, past) s) (hi : C.LogInv s) {t : Install} {i : Nat}
    {data : SnapshotData} {b : Addr} (ht : (w a).installs[i]? = some t)
    (hterm : (w a).raft.currentTerm = t.args.term) (hrole : (w a).raft.role ≠ .leader)
    (hb : termIn (historyOf (w, past) b) t.args.lastIncludedIndex = some t.args.lastIncludedTerm)
    (hfit : termIn (historyOf (w, past) a) t.args.lastIncludedIndex = some t.args.lastIncludedTerm →
      ((historyOf (w, past) a).length : Int) ≤ t.args.lastIncludedIndex)
    (hp : p = (historyOf (w, past) b).take t.args.lastIncludedIndex.toNat)
    (hx' : x' = ((w a).withRaft ((w a).raft.installDiscard t.args data)).setPhase i t (.save data))
    (hsigned : Signed C a x') (hadm : Admissible C strict (Function.update w a x') s) :
    Matched C strict (Function.update w a x', Function.update past a p) s := by
  have hn := h.node a
  obtain ⟨z, hz, hwon, hoffered⟩ := hn.installs t (List.mem_of_getElem? ht)
  have hhist : ∀ d, historyOf (w, past) d = s.log d := fun d => (h.node d).log.symm
  rw [hhist] at hb hfit hp
  have htake : p = (s.leaderLog t.args.term).take t.args.lastIncludedIndex.toNat :=
    hp.trans (take_eq_of_termIn (hi.valid_log b) (hi.valid_leader _) hb hoffered)
  have hlead : p <+: s.leaderLog t.args.term := htake ▸ List.take_prefix _ _
  obtain ⟨hpos, hlen⟩ := length_of_termIn hb
  have hplen : (p.length : Int) = t.args.lastIncludedIndex := by
    rw [hp, List.length_take]
    omega
  have hmerge : Merge (s.log a) p p := by
    refine ⟨.inr List.prefix_rfl, fun q hq hc => ?_⟩
    rcases hc with hc | hc
    · exact hc
    · -- the log has the last entry of the snapshot, and nothing behind it
      have hsame : termIn (s.log a) t.args.lastIncludedIndex = some t.args.lastIncludedTerm := by
        have hin : termIn p t.args.lastIncludedIndex = some t.args.lastIncludedTerm := by
          obtain ⟨_, e, he, het⟩ := termIn_eq_some.mp hb
          refine termIn_eq_some.mpr ⟨hpos, e, ?_, het⟩
          rw [hp, List.getElem?_take_of_lt (by omega), he]
        exact termIn_mono hin (hc.trans hq)
      have hle := hfit hsame
      have hqlen := hq.length_le
      exact (hc.eq_of_length (by have := hc.length_le; omega)).symm ▸ List.prefix_rfl
  have hmove : C.Moves strict s (s.accept a t.args.term p) := by
    obtain ⟨y, hy, hyn, hyt⟩ := hwon
    exact Relation.ReflTransGen.single (.accept a _ p _ (by rw [hn.term, hterm])
      ⟨y, hy, hyn ▸ hz, hyt⟩ ((hi.valid_leader _).restrict hlead) (fun _ => hlead) hmerge)
  refine h.assemble hi hsigned hadm hmove ?_ (by rw [hx']; exact List.Subset.refl _)
    (fun v hv => .inl hv) (fun x hx => .inl hx)
    (fun _ => h.selfAcked.keep rfl rfl (List.Subset.refl _)) ?_
  · exact fun d hd => ⟨Function.update_of_ne hd _ _, Function.update_of_ne hd _ _⟩
  · intro hg
    have hcov : x'.raft.Covers p := by
      rw [hx', hp]
      exact covers_installDiscard data (hi.numbered_of_valid (hi.valid_log b)) hb
    have hlog : (s.accept a t.args.term p).log a = p ++ x'.raft.log := by
      rw [hx']
      exact (Function.update_self ..).trans (List.append_nil p).symm
    have hcur : (s.accept a t.args.term p).term a = x'.raft.currentTerm := by
      rw [hx']
      exact (Function.update_self ..).trans hterm.symm
    refine ⟨?_, hcur, hlog, hcov⟩
    rw [hx']
    refine { hn.toPromises.mono hg with leader := fun hl => absurd hl hrole, installs := ?_ }
    intro t' ht'
    rcases List.mem_or_eq_of_mem_set ht' with hold | rfl
    · exact (hn.toPromises.mono hg).installs t' hold
    · exact (hn.toPromises.mono hg).installs t (List.mem_of_getElem? ht)

end

/-! ### The tests -/

/-- `sendHeartbeats` builds its requests while the node still leads the term it
sends them in.  (The code does not look again.) -/
def buildsAsLeader (x : Node) : Act → Bool
  | .build =>
      match x.loop with
      | .sending term _ => decide (x.raft.role = .leader ∧ x.raft.currentTerm = term)
      | _ => true
  | _ => true

/-- No request comes back to the node that sent it. -/
def fromOthers (a : Addr) : Act → Bool
  | .deliver c _ => c.src != a
  | _ => true

/-- A campaign that is won has the votes of a majority of the members. -/
def Campaign.fair (a : Addr) (c : Campaign) : Bool :=
  !c.won || C.majority (a :: c.grants)

/-- Elections are won by a majority of the members, with or without the next vote. -/
def electsFairly (x : Node) (a : Addr) : Act → Bool
  | .electAlone =>
      match x.loop with
      | .campaign c => c.fair C a
      | _ => true
  | .voteResult addr _ =>
      match x.loop with
      | .campaign c => (c.count addr true).fair C a && (c.count addr false).fair C a
      | _ => true
  | _ => true

/-- A snapshot is sent by a leader, and ends with a committed entry of its history. -/
def offersOwn (x : World × Past) (a : Addr) : Act → Bool
  | .transferStart i =>
      match (x.1 a).transfers[i]?, (x.1 a).raft.snapshotToSend with
      | some (.start _), some snapshot => (x.1 a).raft.role == .leader &&
          termIn (historyOf x a) snapshot.snapMeta.index == some snapshot.snapMeta.term &&
          decide (snapshot.snapMeta.index ≤ (x.1 a).raft.commitIndex)
      | _, _ => true
  | _ => true

/-- A log is discarded in the term in which the snapshot was sent, and if the snapshot is a
part of the history then it is all of it. -/
def discardFits (x : World × Past) (a : Addr) : RecordEvent → Bool
  | .discard args _ => (x.1 a).raft.currentTerm == args.term &&
      (termIn (historyOf x a) args.lastIncludedIndex != some args.lastIncludedTerm ||
        decide (((historyOf x a).length : Int) ≤ args.lastIncludedIndex))
  | _ => true

/-- The tests that the code does not make. -/
def simTest [Codec] (x : World × Past) (e : Addr × Act) : Bool :=
  sendsCut (x.1 e.1) e.2 && fromOthers e.1 e.2 && electsFairly C (x.1 e.1) e.1 e.2 &&
    offersOwn x e.1 e.2 && followTest C x e.1 ((x.1 e.1).recordEvent e.2) &&
    discardFits x e.1 ((x.1 e.1).recordEvent e.2)

/-! ### The simulation -/

theorem loopSim_forRole (s : Abs) (a : Addr) (role : RaftRole) : LoopSim s a (.forRole role) := by
  cases role <;> exact trivial

theorem Campaign.loopSim_resume {s : Abs} {a : Addr} {c : Campaign}
    (h : LoopSim s a (.campaign c)) : LoopSim s a c.resume := by
  unfold Campaign.resume
  split
  · exact trivial
  · exact h

theorem Round.loopSim_resume {s : Abs} {a : Addr} {r : Round} (cfg : ClusterConfig)
    (h : s.Won a r.term) : LoopSim s a (r.resume cfg) := by
  unfold Round.resume
  split
  · exact trivial
  · exact h

theorem Node.Section.sameTraffic [Codec] {x x' : Node} (h : Section x act x')
    (hact : act.proposes = true) : SameTraffic x x' := by
  cases h with
  | propose | proposeConfigChange | changeWaited | changeStable | changeFinish =>
    exact ⟨rfl, rfl, rfl, rfl, rfl, rfl⟩
  | _ => cases hact

theorem Node.proposes_of_proposal [Codec] {x : Node} {e : EntryType × Bytes}
    (h : x.proposal act = some e) : act.proposes = true := by
  cases act with
  | propose | proposeConfigChange | changeNext => rfl
  | _ => cases h

theorem Node.Section.of_discard [Codec] {x x' : Node} {args : InstallSnapshotArgs}
    {data : SnapshotData} (h : Section x act x') (hev : x.recordEvent act = .discard args data) :
    ∃ i t, x.installs[i]? = some t ∧ t.args = args ∧
      x' = (x.withRaft (x.raft.installDiscard t.args data)).setPhase i t (.save data) := by
  cases h with
  | deliverAppend c f args' hd hreq => simp [recordEvent, hreq] at hev
  | deliverVote c f args' hd hreq => simp [recordEvent, hreq] at hev
  | installStale c f args' hd hreq => simp [recordEvent, hreq] at hev
  | installAdmit c f args' n hd hreq => simp [recordEvent, hreq] at hev
  | installBuffer i t hi hp | installLast i t hi hp | installBad i t hi hp
  | installTaken i t data' hi hp | installRestore i t data' hi hp | installSave i t data' hi hp =>
    simp [recordEvent, installEvent, hi, hp] at hev
  | installFast i t data' hi hp hf => simp [recordEvent, installEvent, hi, hp, hf] at hev
  | installFull i t data' hi hp hf hsm => simp [recordEvent, installEvent, hi, hp, hf, hsm] at hev
  | installDiscard i t data' hi hp =>
    have heq : RecordEvent.discard t.args data' = .discard args data := by
      rcases hp with hp | ⟨hp, hf, hsm⟩
      · simpa [recordEvent, installEvent, hi, hp] using hev
      · simpa [recordEvent, installEvent, hi, hp, hf, hsm] using hev
    cases heq
    exact ⟨i, t, hi, rfl, rfl⟩
  | snapSkip sm k hs hc => simp [recordEvent, hs, hc] at hev
  | snapCapture sm k snapshot hs hc => simp [recordEvent, hs, hc] at hev
  | snapFail snapshot hs | snapSave snapshot hs => simp [recordEvent, hs] at hev
  | snapTruncate m hs => simp [recordEvent, hs] at hev
  | _ => cases hev

section

variable {C : Cluster} {strict : Prop} {w : World} {past : Past} {s : Abs} {a : Addr}

theorem Sim.count {c : Campaign} {addr : Addr} {res : Option (Int × Bool)} {granted : Bool}
    (h : Sim C strict (w, past) s) (hl : (w a).loop = .campaign c)
    (havail : w.available a (.voteResult addr res) = true)
    (hg : granted = true → ∃ term, res = some (term, true) ∧ term ≤ c.args.term) :
    LoopSim s a (.campaign (c.count addr granted)) := by
  obtain ⟨hstood, hself, hgrants⟩ : LoopSim s a (.campaign c) := hl ▸ (h.node a).loop
  refine ⟨hstood, hself, ?_⟩
  unfold Campaign.count
  dsimp only
  split
  · next hyes =>
    obtain ⟨term, rfl, _⟩ := hg hyes
    have hreply : (⟨a, c.call, addr, .vote c.args⟩, .vote term true) ∈ (w addr).replies := by
      simpa [World.available, hl] using havail
    rintro g (_ | ⟨_, hgm⟩)
    · exact (h.node addr).replies _ hreply rfl c.args rfl
    · exact hgrants g hgm
  · exact hgrants

theorem Sim.leaderLog_eq (h : Sim C strict (w, past) s) (hi : C.LogInv s)
    (hrole : (w a).raft.role = .leader) :
    s.leaderLog (w a).raft.currentTerm = past a ++ (w a).raft.log := by
  have hn := h.node a
  obtain ⟨x, hx, hxn, hxt⟩ := hn.leader hrole
  have hlog := hi.leader_log x hx (by rw [hxn, hxt, hn.term])
  rw [hxn, hxt, hn.log] at hlog
  exact hlog.symm

theorem Sim.sends [Codec] {act : Act} {b : Addr} {req : Request} (h : Sim C strict (w, past) s)
    (hi : C.LogInv s) (hs : (w a).Sends act b req) (hcut : sendsCut (w a) act = true)
    (hown : offersOwn (w, past) a act = true) (hbuild : strict → buildsAsLeader (w a) act) :
    CallSim strict s a req := by
  have hn := h.node a
  have hloop := hn.loop
  have hvalid := hi.valid_log a
  rw [hn.log] at hvalid
  cases hs with
  | vote args b hl =>
    rw [hl] at hloop
    exact hloop.1
  | batch term peers p hl hp =>
    have hfrom := hn.covers.cut_sends hcut (.batch term peers p hl hp)
    obtain ⟨addr, _, rfl⟩ := List.mem_map.mp hp
    rw [hl] at hloop
    refine ⟨hloop, _, hvalid, hfrom, fun hstrict => .inr ?_⟩
    -- a leader in its own term sends its leader log
    obtain ⟨hrole, hterm⟩ : (w a).raft.role = .leader ∧ (w a).raft.currentTerm = term := by
      simpa [buildsAsLeader, hl] using hbuild hstrict
    rw [← h.leaderLog_eq hi hrole, hterm]
    exact List.prefix_rfl
  | confirm i term b hr =>
    exact ⟨hn.reads term (List.mem_of_getElem? hr), _, hvalid, hn.covers.cut_confirmArgs term,
      fun _ => .inl rfl⟩
  | install i b snapshot args hstart hsnap hargs =>
    obtain ⟨hterm, hindex, hlast⟩ := RaftNode.snapshotRequests_frame hargs
    simp only [offersOwn, hstart, hsnap, Bool.and_eq_true, beq_iff_eq] at hown
    obtain ⟨⟨hrole, hin⟩, _⟩ := hown
    refine ⟨hterm ▸ hn.leader hrole, ?_⟩
    unfold Offered
    rw [hterm, hindex, hlast, h.leaderLog_eq hi hrole]
    exact hin

theorem Sim.same [Codec] {act : Act} {x' : Node} {p : List LogEntry} (h : Sim C strict (w, past) s)
    (hi : C.LogInv s) (ha : a ∈ C.members) (havail : w.available a act = true)
    (hs : Node.Section (w a) act x') (hcov : x'.raft.Covers p)
    (hlog : p ++ x'.raft.log = past a ++ (w a).raft.log)
    (hev : ∀ args, (w a).recordEvent act ≠ .batch args) (hcut : sendsCut (w a) act = true)
    (hothers : fromOthers a act = true) (hfair : electsFairly C (w a) a act = true)
    (hown : offersOwn (w, past) a act = true)
    (hterm : (w a).raft.currentTerm ≤ x'.raft.currentTerm)
    (hbuild : strict → buildsAsLeader (w a) act)
    (hadm : Admissible C strict (Function.update w a x') s) :
    Matched C strict (Function.update w a x', Function.update past a p) s := by
  have hsigned := (h.signed a).section ha hs
  have hn := h.node a
  have hloop := hn.loop
  have hleader : act.elects = false → x'.raft.role = .leader → s.Won a x'.raft.currentTerm := by
    intro hno hl
    rcases hs.leads hl with ⟨hl, hsame⟩ | ⟨_, _, hyes⟩
    · exact hsame ▸ hn.leader hl
    · cases hno.symm.trans hyes
  have hsent : ∀ c ∈ x'.sent, CallSim strict s a c.req := fun c hc =>
    (hs.sends hc).elim (hn.sent c) fun hnew => h.sends hi hnew.2 hcut hown hbuild
  have hkeep : x'.votes = (w a).votes → Promises strict s a x' →
      Matched C strict (Function.update w a x', Function.update past a p) s := fun hv hpr =>
    h.adopt hi hsigned hadm hterm hv hcov hlog hpr
  cases hs with
  | dispatch => exact hkeep rfl { hn.toPromises with loop := loopSim_forRole s a _ }
  | resetFollower | emit | apply | changeWaited | changeAbort | snapTake | snapSkip | snapCapture
  | snapFail | snapSave | snapTruncate | snapCompact | transferNone | transferFail =>
    exact hkeep rfl { hn.toPromises with }
  | propose | proposeConfigChange | changeStable | changeFinish | collect | transferStart
  | transferDone =>
    exact hkeep rfl { hn.toPromises with leader := hleader rfl, sent := hsent }
  | resetCampaign | timeoutFollower | timeoutCampaign | electionAborted | enterLeader | tickStop
  | buildSolo | ackStepDown =>
    exact hkeep rfl { hn.toPromises with leader := hleader rfl, loop := trivial }
  | voteStepDown => exact hkeep rfl { hn.toPromises with leader := nofun, loop := trivial }
  | electionStarted f args hl hf hargs =>
    exact h.stand hi ha hargs rfl hcov hlog hsigned hadm
  | openCampaign args hl =>
    obtain ⟨hstood, hself⟩ : LoopSim s a (.standing args) := hl ▸ hloop
    exact hkeep rfl { hn.toPromises with loop := ⟨hstood, hself, by simp⟩, sent := hsent }
  | electAlone c hl hw =>
    obtain ⟨hstood, hself, hgrants⟩ : LoopSim s a (.campaign c) := hl ▸ hloop
    have hmaj : C.majority (a :: c.grants) = true := by
      simpa [electsFairly, hl, Campaign.fair, hw] using hfair
    exact h.lead hi ha hmaj hstood hself hgrants rfl hcov hlog hsigned hadm
  | voteWon c addr res granted hl haddr hg hw =>
    obtain ⟨hstood, hself, hgrants⟩ := h.count hl havail hg
    have hmaj : C.majority (a :: (c.count addr granted).grants) = true := by
      simp only [electsFairly, hl, Bool.and_eq_true, Campaign.fair] at hfair
      cases granted with
      | true => simpa [hw] using hfair.1
      | false => simpa [hw] using hfair.2
    exact h.lead hi ha (c := c.count addr granted) hmaj hstood hself hgrants rfl hcov hlog
      hsigned hadm
  | voteCounted c addr res granted hl haddr hg hw =>
    exact hkeep rfl { hn.toPromises with
      loop := Campaign.loopSim_resume (h.count hl havail hg) }
  | tickSend term peers hl hr ht =>
    exact hkeep rfl { hn.toPromises with loop := ht ▸ hn.leader hr }
  | build term peers hl hp =>
    have hwon : LoopSim s a (.sending term peers) := hl ▸ hloop
    exact hkeep rfl { hn.toPromises with loop := hwon, sent := hsent }
  | readConfig r hl =>
    have hwon : LoopSim s a (.sent r) := hl ▸ hloop
    exact hkeep rfl { hn.toPromises with loop := Round.loopSim_resume _ hwon }
  | ackError r cfg p addr hl | ackRefused r cfg p addr res hl | ackSuccess r cfg p addr res hl =>
    have hwon : LoopSim s a (.collecting r cfg) := hl ▸ hloop
    exact hkeep rfl { hn.toPromises with
      leader := hleader rfl, loop := Round.loopSim_resume (r := r.close p) _ hwon }
  | deliverVote c args f hd hreq =>
    have hasked : c ∈ (w c.src).sent := by simpa [World.available] using havail
    by_cases hgr : ((w a).raft.handleRequestVote args f).2.2 = true
    · exact h.grant hi ha hasked hreq hgr (by rw [if_pos hgr]) hcov hlog hsigned hadm
    · exact hkeep (if_neg hgr) { hn.toPromises with
        leader := hleader rfl
        replies := List.forall_mem_cons.mpr ⟨fun hyes => absurd hyes hgr, hn.replies⟩ }
  | deliverAppend c args f hd hreq =>
    exact absurd (by simp [Node.recordEvent, hreq]) (hev args)
  | installStale c args f hd hreq =>
    exact hkeep rfl { hn.toPromises with
      replies := List.forall_mem_cons.mpr ⟨trivial, hn.replies⟩ }
  | installAdmit c args f n hd hreq hn' =>
    have hasked : c ∈ (w c.src).sent := by simpa [World.available] using havail
    refine hkeep rfl { hn.toPromises with leader := hleader rfl, installs := ?_ }
    refine List.forall_mem_append.mpr ⟨hn.installs, List.forall_mem_singleton.mpr ?_⟩
    exact ⟨c.src, by simpa [fromOthers] using hothers, hreq ▸ (h.node c.src).sent c hasked⟩
  | installBuffer i t hi' | installBad i t hi' | installFast i t data hi'
  | installSave i t data hi' =>
    exact hkeep rfl { hn.toPromises with
      replies := List.forall_mem_cons.mpr ⟨trivial, hn.replies⟩
      installs := fun t' ht' => hn.installs t' (List.mem_of_mem_eraseIdx ht') }
  | installLast i t hi' | installTaken i t data hi' | installFull i t data hi'
  | installRestore i t data hi' | installDiscard i t data hi' =>
    refine hkeep rfl { hn.toPromises with installs := fun t' ht' => ?_ }
    rcases List.mem_or_eq_of_mem_set ht' with hold | rfl
    · exact hn.installs t' hold
    · exact hn.installs t (List.mem_of_getElem? hi')
  | readIndex hr =>
    exact hkeep rfl { hn.toPromises with
      reads := List.forall_mem_cons.mpr ⟨hn.leader hr, hn.reads⟩ }
  | confirm i term hi' =>
    exact hkeep rfl { hn.toPromises with
      sent := hsent
      reads := fun t ht => hn.reads t (List.mem_of_mem_eraseIdx ht) }
  | restart =>
    exact hkeep rfl { hn.toPromises with
      leader := hleader rfl
      loop := trivial
      reads := List.forall_mem_nil _
      installs := List.forall_mem_nil _ }

theorem Sim.step [Codec] {w' : World} {act : Act} (h : Sim C strict (w, past) s) (hi : C.LogInv s)
    (hus : s.WinsUnique) (hstep : World.step C w (a, act) = some w')
    (hok : simTest C (w, past) (a, act) = true)
    (hterm : (w a).raft.currentTerm ≤ (w' a).raft.currentTerm)
    (hbuild : strict → buildsAsLeader (w a) act) (hadm : Admissible C strict w' s) :
    Matched C strict (w', past.follow C w (a, act)) s := by
  simp only [simTest, Bool.and_eq_true] at hok
  obtain ⟨⟨⟨⟨⟨hcut, hothers⟩, hfair⟩, hown⟩, htest⟩, hfit⟩ := hok
  obtain ⟨x', ha, havail, hx', rfl⟩ := World.step_some hstep
  have hs := Node.step_section hx'
  rw [Function.update_self] at hterm
  have hsigned := (h.signed a).section ha hs
  have hn := h.node a
  rw [follow_eq_update]
  by_cases hev : ∃ args, (w a).recordEvent act = .batch args
  · -- a batch arrives
    obtain ⟨args, hev⟩ := hev
    obtain ⟨c, f, rfl, hreq⟩ := Node.deliver_of_batch hev
    have hpast : past.follow C w (a, .deliver c f) a = past a := by
      simp [Past.follow, hev, Past.next, Node.compacted]
    rw [hpast]
    rw [hev] at htest
    have hsent : c ∈ (w c.src).sent := by simpa [World.available] using havail
    have hne : c.src ≠ a := by simpa [fromOthers] using hothers
    have hplace : (w a).raft.snapshotIndex = 0 ∨ (w a).raft.placeFits args = true := by
      simpa [followTest, historyTest] using htest
    cases hs with
    | deliverAppend _ args' _ hd hreq' =>
      obtain rfl : args = args' := Request.append.inj (hreq.symm.trans hreq')
      rcases RaftNode.handleAppendEntries_cases (w a).raft args f with ⟨_, heq⟩ | ⟨hle, _⟩
      · refine h.adopt hi hsigned hadm hterm rfl ?_ ?_
          { hn.toPromises with leader := ?_, replies := ?_ }
        · rw [heq]
          exact hn.covers
        · rw [heq]
        · rw [heq]
          exact hn.leader
        · rw [heq]
          rintro p (_ | ⟨_, hp⟩)
          · exact fun _ hno => by cases hno
          · exact hn.replies p hp
      · exact h.accept hi hsent hne hreq hplace hle rfl hsigned hadm
    | deliverVote _ args' _ hd hreq' | installStale _ args' _ hd hreq'
    | installAdmit _ args' _ n hd hreq' =>
      rw [hreq] at hreq'
      cases hreq'
  have hfollow := follow_step hn.covers hx' htest
  generalize past.follow C w (a, act) a = p at hfollow ⊢
  rcases hfollow with ⟨_, hout⟩ | ⟨args, data, b, hdisc, hrole, hb, _⟩
  · rcases hout with ⟨hcov, hlog⟩ | ⟨type, data, hprop, hlead, _, hsame, hcov, hlog⟩
      | ⟨c, args, f, ⟨f', hact⟩, hreq, _⟩
    · exact h.same hi ha havail hs hcov hlog (fun args heq => hev ⟨args, heq⟩) hcut hothers hfair
        hown hterm hbuild hadm
    · exact h.extend hi hus hlead (hs.sameTraffic (Node.proposes_of_proposal hprop)) hsame hcov hlog
        hsigned hadm
    · exact absurd ⟨args, by rw [hact]; simp [Node.recordEvent, hreq]⟩ hev
  · -- a snapshot replaces the log
    obtain ⟨i, t, ht, rfl, hx⟩ := hs.of_discard hdisc
    simp only [hdisc, discardFits, Bool.and_eq_true, beq_iff_eq, Bool.or_eq_true, bne_iff_ne,
      decide_eq_true_eq] at hfit
    exact h.replace hi ht hfit.1 hrole hb (fun hsame => hfit.2.resolve_left fun hno => hno hsame)
      rfl hx hsigned hadm

end

theorem sim_init [Codec] {stores : Addr → Stores} (strict : Prop) :
    Sim C strict (World.start C stores, fun _ => []) State.init where
  signed a := by
    refine ⟨rfl, ?_, ?_, ?_⟩ <;> simp only [World.start, Node.raft_fresh]
    · simp [Node.fresh]
    · simp [Node.fresh]
  node a := by
    refine ⟨⟨?_, ?_, ?_, ?_, ?_, ?_⟩, ?_, ?_, ?_, ?_, ?_⟩ <;>
      simp only [World.start, Node.raft_fresh]
    · exact fun hl => by cases hl
    · exact trivial
    · simp [Node.fresh]
    · simp [Node.fresh]
    · simp [Node.fresh]
    · simp [Node.fresh]
    · rfl
    · rfl
    · exact Indexed.nil
    · rfl
    · rfl
  votes := by simp [Recorded, State.init]
  selfAcked := by simp [State.SelfAcked, State.init]

/-- The simulation, with what the abstract protocol guarantees. -/
structure Tracks (C : Cluster) (strict : Prop) (x : World × Past) (s : Abs) : Prop where
  sim : Sim C strict x s
  inv : C.LogInv s
  unique : s.WinsUnique

theorem tracks_init [Codec] {stores : Addr → Stores} (strict : Prop) :
    Tracks C strict (World.start C stores, fun _ => []) State.init :=
  ⟨sim_init C strict, logInv_init, by simp [State.WinsUnique, State.init]⟩

theorem Tracks.step [Codec] {C : Cluster} {strict : Prop} {w w' : World} {past : Past} {s : Abs}
    {a : Addr} (h : Tracks C strict (w, past) s) (hstep : World.step C w (a, act) = some w')
    (hok : simTest C (w, past) (a, act) = true)
    (hterm : (w a).raft.currentTerm ≤ (w' a).raft.currentTerm)
    (hbuild : strict → buildsAsLeader (w a) act) (hadm : Admissible C strict w' s) :
    ∃ s', C.Moves strict s s' ∧ Tracks C strict (w', past.follow C w (a, act)) s' ∧
      NewWins C w' s s' := by
  obtain ⟨s', hmoves, hsim, hwins⟩ := h.sim.step h.inv h.unique hstep hok hterm hbuild hadm
  have hu := hadm s' hmoves hsim.votes hwins
  exact ⟨s', hmoves, ⟨hsim, h.inv.moves hmoves hu, hu⟩, hwins⟩

section

variable {C : Cluster} {strict : Prop} {x : World × Past} {s : Abs}

theorem Tracks.history_eq (h : Tracks C strict x s) (a : Addr) : historyOf x a = s.log a :=
  (h.sim.node a).log.symm

theorem Tracks.valid (h : Tracks C strict x s) (a : Addr) :
    Valid LogEntry.term s.leaderLog (historyOf x a) := by
  rw [h.history_eq]
  exact h.inv.valid_log a

theorem Tracks.indexed (h : Tracks C strict x s) (a : Addr) :
    Indexed LogEntry.index 0 (historyOf x a) := (h.sim.node a).covers.indexed

end

/-! ### A static cluster without snapshots -/

section

variable [Codec] {C : Cluster} {w : World} {a : Addr} {act : Act}

omit [Codec] in
theorem Campaign.fair_static (ha : a ∈ C.members) {c : Campaign} (hcfg : c.cfg = C.config a) :
    c.fair C a = true := by
  by_cases hw : c.won = true
  · have hmaj : C.majority (a :: c.grants) = true := by
      have hquorum : quorumFor (C.config a) (fun b => b ∈ c.grants) = true := by rwa [← hcfg]
      exact C.majority_of_quorumFor ha hquorum (List.mem_cons_self ..)
        fun b _ hb => List.mem_cons_of_mem _ (of_decide_eq_true hb)
    simp [fair, hmaj]
  · simp [fair, hw]

omit [Codec] in
theorem Node.recordEvent_plain {s : Node} (hplain : act.plain) :
    s.recordEvent act = .other ∨ ∃ args, s.recordEvent act = .batch args := by
  cases act with
  | deliver c f =>
    cases hreq : c.req with
    | append args => exact .inr ⟨args, by simp [recordEvent, hreq]⟩
    | _ => exact .inl (by simp [recordEvent, hreq])
  | installNext | snapCapture | snapSave | snapTruncate | restart => cases hplain
  | _ => exact .inl rfl

theorem follow_plain (hplain : act.plain) :
    Past.follow C w (a, act) (fun _ => []) = fun _ => [] := by
  have hcompacted : (w a).compacted ((w a).recordEvent act) = [] := by
    rcases Node.recordEvent_plain (s := w a) hplain with hev | ⟨args, hev⟩ <;> rw [hev] <;> rfl
  have hnext : Past.follow C w (a, act) (fun _ => []) = Past.next w (a, act) fun _ => [] := by
    rcases Node.recordEvent_plain (s := w a) hplain with hev | ⟨args, hev⟩ <;>
      simp [Past.follow, hev]
  rw [hnext, Past.next]
  simp only [hcompacted, List.append_nil]
  exact Function.update_eq_self a _

theorem Node.Section.dst_eq {x x' : Node} {c : Call} {f : Faults}
    (h : Section x (.deliver c f) x') : c.dst = x.addr := by
  cases h with
  | deliverVote _ _ _ hd | deliverAppend _ _ _ hd | installStale _ _ _ hd
  | installAdmit _ _ _ _ hd => exact hd

theorem Static.simTest {w' : World} (h : Static C w) (hstep : World.step C w (a, act) = some w')
    (hplain : act.plain) : simTest C (w, fun _ => []) (a, act) = true := by
  obtain ⟨ha, havail, x', hs, rfl⟩ := World.step_cases hstep
  have hst := h a
  have hothers : fromOthers a act = true := by
    cases act with
    | deliver c f =>
      have hsent : c ∈ (w c.src).sent := by simpa [World.available] using havail
      have hcall := (h c.src).sent c hsent
      have hpeer : a ∈ C.peersOf c.src := by
        rw [← hst.addr, ← hs.dst_eq]
        exact hcall.dst
      simpa [fromOthers] using ((C.mem_peersOf hcall.member).mp hpeer).1.symm
    | _ => rfl
  have hfair : electsFairly C (w a) a act = true := by
    have hcfg : ∀ {c}, (w a).loop = .campaign c → c.cfg = C.config a := by
      intro c hl
      have hloop : (Loop.campaign c).Static C a := hl ▸ hst.loop
      exact hloop.2.1
    cases act with
    | electAlone =>
      cases hl : (w a).loop with
      | campaign c => simp [electsFairly, hl, Campaign.fair_static ha (hcfg hl)]
      | _ => simp [electsFairly, hl]
    | voteResult addr res =>
      cases hl : (w a).loop with
      | campaign c =>
        have hcount : ∀ granted, (c.count addr granted).fair C a = true := fun granted =>
          Campaign.fair_static ha
            ((show (c.count addr granted).cfg = c.cfg from rfl).trans (hcfg hl))
        simp [electsFairly, hl, hcount]
      | _ => simp [electsFairly, hl]
    | _ => rfl
  have hown : offersOwn (w, fun _ => []) a act = true := by
    cases act with
    | transferStart => cases hplain
    | _ => rfl
  have htest : followTest C (w, fun _ => []) a ((w a).recordEvent act) = true ∧
      discardFits (w, fun _ => []) a ((w a).recordEvent act) = true := by
    rcases Node.recordEvent_plain (s := w a) hplain with hev | ⟨args, hev⟩
    · rw [hev]
      exact ⟨rfl, rfl⟩
    · rw [hev]
      exact ⟨by simp [followTest, historyTest, hst.snapshotIndex], rfl⟩
  simp [Raft.simTest, sendsCut, hst.snapshotIndex, hothers, hfair, hown, htest.1, htest.2]

end

/-- A static cluster without snapshots, and the abstract state. -/
structure PlainTracks (C : Cluster) (strict : Prop) (w : World) (s : Abs) : Prop where
  static : Static C w
  tracks : Tracks C strict (w, fun _ => []) s

theorem plainTracks_init [Codec] (strict : Prop) :
    PlainTracks C strict (World.init C) State.init :=
  ⟨static_init C, tracks_init C strict⟩

theorem PlainTracks.step [Codec] {C : Cluster} {strict : Prop} {w w' : World} {s : Abs} {a : Addr}
    (h : PlainTracks C strict w s) (hstep : World.step C w (a, act) = some w') (hplain : act.plain)
    (hterm : (w a).raft.currentTerm ≤ (w' a).raft.currentTerm)
    (hbuild : strict → buildsAsLeader (w a) act) (hadm : Admissible C strict w' s) :
    ∃ s', C.Moves strict s s' ∧ PlainTracks C strict w' s' ∧ NewWins C w' s s' := by
  obtain ⟨s', hmoves, ht', hwins⟩ :=
    h.tracks.step hstep (h.static.simTest hstep hplain) hterm hbuild hadm
  rw [follow_plain hplain] at ht'
  exact ⟨s', hmoves, ⟨h.static.step hstep hplain, ht'⟩, hwins⟩

end Raft
