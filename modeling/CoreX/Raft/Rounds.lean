/-
CoreX/Raft/Rounds.lean

What a section does to the knowledge of a leader: the requests that its rounds wait for,
the match indices of its peers, the snapshots that it sends, and the commit index.  As in
`Sections`, one lemma says what can happen to each of them.
-/
import CoreX.Raft.Delivery
import CoreX.Raft.Past

namespace Raft

/-! ### The pointers of a node -/

namespace RaftNode

@[simp]
theorem isSome_ensureConnected (peers : Option (List Addr)) (addrs : List Addr) :
    (ensureConnected peers addrs).isSome = peers.isSome := by
  simp [ensureConnected]

variable (n : RaftNode)

theorem activate_pointers (cfg : ClusterConfig) (connect : List Addr) (b : Addr) :
    ((n.activate cfg connect).matchOf b = n.matchOf b ∨ (n.activate cfg connect).matchOf b = 0) ∧
      (n.activate cfg connect).peers.isSome = n.peers.isSome := by
  refine ⟨?_, isSome_ensureConnected _ _⟩
  rcases hnext : n.nextIndex with - | next
  · exact .inl (by simp only [matchOf, activate, hnext])
  · rcases hm : n.matchIndex with - | mtch
    · exact .inl (by simp only [matchOf, activate, hnext, hm, Option.map_none])
    · by_cases hnew : b ∈ connect ∧ (next b).isNone = true
      · exact .inr (by simp only [matchOf, activate, hnext, hm, Option.map_some, Option.bind_some,
          if_pos hnew, Option.getD_some])
      · exact .inl (by simp only [matchOf, activate, hnext, hm, Option.map_some, Option.bind_some,
          if_neg hnew])

theorem applyConfigEntry_pointers [Codec] (e : LogEntry) (b : Addr) :
    ((n.applyConfigEntry e).matchOf b = n.matchOf b ∨ (n.applyConfigEntry e).matchOf b = 0) ∧
      (n.applyConfigEntry e).peers.isSome = n.peers.isSome := by
  unfold applyConfigEntry
  split
  · exact ⟨.inl rfl, rfl⟩
  · split
    · exact activate_pointers _ _ _ b
    · split
      · exact activate_pointers _ _ _ b
      · exact ⟨.inl rfl, rfl⟩

theorem appendEntry_pointers [Codec] (e : LogEntry) (b : Addr) :
    ((n.appendEntry e).matchOf b = n.matchOf b ∨ (n.appendEntry e).matchOf b = 0) ∧
      (n.appendEntry e).peers.isSome = n.peers.isSome := by
  unfold appendEntry
  split
  · exact applyConfigEntry_pointers _ e b
  · exact ⟨.inl rfl, rfl⟩

theorem handleAppendEntries_pointers [Codec] (args : AppendEntriesArgs) (f : Faults) (b : Addr) :
    ((n.handleAppendEntries args f).1.matchOf b = n.matchOf b ∨
        (n.handleAppendEntries args f).1.matchOf b = 0) ∧
      (n.handleAppendEntries args f).1.peers.isSome = n.peers.isSome := by
  let I : RaftNode → Prop := fun m => (m.matchOf b = n.matchOf b ∨ m.matchOf b = 0) ∧
    m.peers.isSome = n.peers.isSome
  have happend : ∀ (m : RaftNode) e, I m → I (m.appendEntry e) := by
    intro m e ⟨hm, hp⟩
    obtain ⟨hm', hp'⟩ := appendEntry_pointers m e b
    exact ⟨hm'.elim (fun h => h ▸ hm) .inr, hp'.trans hp⟩
  have haccept : I (n.acceptLeader args f) := by
    obtain ⟨_, _, _, _, _, _, heq⟩ := electionOnly_acceptLeader n args f
    rw [heq]
    exact ⟨.inl rfl, rfl⟩
  have hloop : I (appendLoop f (n.acceptLeader args f) false 0 args.entries).1 :=
    appendLoop_keeps f (P := I) (fun _ _ h => h) (fun m _ _ h => happend m _ h) haccept
  exact handleAppendEntries_rule (P := I) ⟨.inl rfl, rfl⟩ haccept hloop fun _ _ h => h

theorem restart_peers [Codec] {boot : Option (List Addr)} (hboot : boot.isSome = true) :
    (n.restart boot).peers.isSome = true := by
  have hreplay : ∀ (es : List LogEntry) (m : RaftNode),
      (es.foldl (fun m e => m.applyConfigEntry e) m).peers.isSome = m.peers.isSome := by
    intro es
    induction es with
    | nil => exact fun _ => rfl
    | cons e es ih => exact fun m => (ih _).trans (applyConfigEntry_pointers m e "").2
  have hnew : (newRaftNode n.id boot n.metaStore n.logStore).peers.isSome = true :=
    (hreplay _ _).trans hboot
  have hrecover : ∀ m : RaftNode, m.recoverFromSnapshot.peers.isSome = m.peers.isSome := by
    intro m
    unfold recoverFromSnapshot
    split
    · split
      · rfl
      · split
        · rfl
        · dsimp only
          split
          · rfl
          · exact isSome_ensureConnected _ _
    · rfl
  unfold restart
  rw [hrecover]
  cases n.sm <;> cases n.snapshotStore <;> exact hnew

end RaftNode

/-- The term in which the goroutine of `Run` leads, or believes to lead. -/
def Loop.leadTerm : Loop → Option Int
  | .leading term _ | .sending term _ => some term
  | .sent r | .collecting r _ => some r.term
  | _ => none

theorem Round.leadTerm_resume (r : Round) (cfg : ClusterConfig) :
    (r.resume cfg).leadTerm = some r.term := by
  unfold Round.resume
  split <;> rfl

theorem Campaign.leadTerm_resume (c : Campaign) : c.resume.leadTerm = none := by
  unfold Campaign.resume
  split <;> rfl

theorem Loop.leadTerm_forRole (role : RaftRole) : (Loop.forRole role).leadTerm = none := by
  cases role <;> rfl

/-- The index of the last entry of a batch. -/
def AppendEntriesArgs.lastIndex (args : AppendEntriesArgs) : Int :=
  (args.entries.getLast?.map PbLogEntry.index).getD 0

/-- What a round waits for are answers to requests of its term. -/
def Round.Requested (r : Round) : Prop :=
  ∀ p ∈ r.awaiting, p.args.term = r.term ∧ p.lastSentIdx = p.args.lastIndex

def Loop.Requested : Loop → Prop
  | .sent r | .collecting r _ => r.Requested
  | _ => True

theorem Round.Requested.resume {r : Round} (h : r.Requested) (cfg : ClusterConfig) :
    (r.resume cfg).Requested := by
  unfold Round.resume
  split
  · exact trivial
  · exact h

theorem Round.Requested.close {r : Round} (h : r.Requested) (p : RaftNode.PeerArgs) :
    (r.close p).Requested := fun q hq => h q (List.mem_of_mem_erase hq)

theorem requested_heartbeats (n : RaftNode) (peers : List Addr) (term : Int) (call : Nat)
    (lastIdx : Int) : Round.Requested ⟨term, peers, call, lastIdx, n.heartbeats peers term⟩ := by
  intro p hp
  obtain ⟨addr, _, rfl⟩ := List.mem_map.mp hp
  refine ⟨rfl, ?_⟩
  simp only [RaftNode.peerArgs, AppendEntriesArgs.lastIndex, List.getLast?_map, Option.map_map]
  rfl

/-- A node that is configured with clients has them (`peers` is not nil). -/
def Node.Wired (x : Node) : Prop := x.boot.isSome = true ∧ x.raft.peers.isSome = true

/-- Where the new match index `m` of a peer comes from. -/
inductive Node.Recount (x : Node) (act : Act) (b : Addr) (m : Int) : Prop
  | same (h : m = x.raft.matchOf b)
  | acked (r : Round) (cfg : ClusterConfig) (p : RaftNode.PeerArgs) (res : AppendEntriesResult)
      (ha : act = .ackResult b (some res)) (hl : x.loop = .collecting r cfg)
      (hp : (r.awaiting.find? fun p => p.addr == b) = some p) (hs : res.success = true)
      (h : m = p.lastSentIdx)
  | sent (i : Nat) (index : Int) (ha : act = .transferDone i)
      (ht : x.transfers[i]? = some (.send b index)) (hlt : x.raft.matchOf b < index) (h : m = index)

/-- The sections in which a leader counts match indices. -/
def Act.counts : Act → Bool
  | .build | .ackResult _ _ => true
  | _ => false

/-- What a section does to the commit index. -/
inductive Node.Recommit [Codec] (x : Node) (act : Act) (x' : Node) : Prop
  | same (h : x'.raft.commitIndex = x.raft.commitIndex)
  | advanced (term : Int) (cfg : ClusterConfig) (hact : act.counts = true)
      (hl : x.loop = .sending term [] ∧ cfg = x.raft.clusterConfig ∨
        ∃ r, x.loop = .collecting r cfg ∧ r.term = term)
      (hl' : x'.loop.leadTerm = some term)
      (honly : RaftNode.PointersOnly x.raft x'.raft)
      (hadv : RaftNode.Advances x.raft x'.raft term cfg)
  | followed (c : Call) (args : AppendEntriesArgs) (f : Faults) (hact : act = .deliver c f)
      (hreq : c.req = .append args) (hr : x'.raft = (x.raft.handleAppendEntries args f).1)
  | installed (i : Nat) (v : Install) (data : SnapshotData) (hi : x.installs[i]? = some v)
      (hev : x.recordEvent act = .discard v.args data)
      (hr : x'.raft = x.raft.installDiscard v.args data)
  | restarted (hact : act = .restart) (h : x'.raft.commitIndex = 0)

namespace Node.Section

variable [Codec] {x x' : Node} {act : Act} {t : Int} {b : Addr}

theorem requested (h : Section x act x') (hr : x.loop.Requested) : x'.loop.Requested := by
  have hround : ∀ {r cfg}, x.loop = .collecting r cfg → r.Requested := fun hl => by rwa [hl] at hr
  cases h with
  | dispatch => cases x.raft.role <;> exact trivial
  | voteCounted c addr res granted =>
    unfold Campaign.resume
    split <;> exact trivial
  | resetCampaign | timeoutFollower | timeoutCampaign | electionAborted | electionStarted
  | openCampaign | electAlone | voteStepDown | voteWon | enterLeader | tickStop | tickSend
  | buildSolo | ackStepDown | restart => exact trivial
  | build term peers => exact requested_heartbeats _ _ _ _ _
  | readConfig r hl =>
    rw [hl] at hr
    exact Round.Requested.resume hr _
  | ackError r cfg p addr hl | ackSuccess r cfg p addr res hl | ackRefused r cfg p addr res hl =>
    exact ((hround hl).close p).resume cfg
  | _ => exact hr

theorem replied (h : Section x act x') {c : Call} {res : AppendEntriesResult}
    (hc : (c, Response.append res) ∈ x'.replies) :
    (c, Response.append res) ∈ x.replies ∨ ∃ args f, act = .deliver c f ∧ c.req = .append args ∧
      x'.raft = (x.raft.handleAppendEntries args f).1 ∧
      res = (x.raft.handleAppendEntries args f).2 := by
  cases h with
  | deliverAppend c' args f hd hreq =>
    rcases List.mem_cons.mp hc with heq | hc
    · cases heq
      exact .inr ⟨args, f, rfl, hreq, rfl, rfl⟩
    · exact .inl hc
  | deliverVote | installStale | installBuffer | installBad | installFast | installSave =>
    rcases List.mem_cons.mp hc with heq | hc
    · cases heq
    · exact .inl hc
  | _ => exact .inl hc

theorem leadTerm (h : Section x act x') (ht : x'.loop.leadTerm = some t) :
    x.loop.leadTerm = some t ∨ t = x.raft.currentTerm ∧ x'.raft = x.raft.initLeader := by
  cases h with
  | dispatch =>
    rw [Loop.leadTerm_forRole] at ht
    cases ht
  | voteCounted =>
    rw [Campaign.leadTerm_resume] at ht
    cases ht
  | resetCampaign | timeoutFollower | timeoutCampaign | electionAborted | electionStarted
  | openCampaign | electAlone | voteStepDown | voteWon | tickStop | restart => cases ht
  | enterLeader => exact .inr ⟨(Option.some.inj ht).symm, rfl⟩
  | tickSend term peers hl | buildSolo term hl | build term peers hl =>
    left
    rw [hl]
    exact ht
  | ackStepDown r cfg p addr res hl =>
    left
    rw [hl]
    exact ht
  | readConfig r hl =>
    left
    rw [Round.leadTerm_resume] at ht
    rw [hl]
    exact ht
  | ackError r cfg p addr hl | ackSuccess r cfg p addr res hl | ackRefused r cfg p addr res hl =>
    left
    rw [Round.leadTerm_resume] at ht
    rw [hl]
    exact ht
  | _ => exact .inl ht

theorem wired (h : Section x act x') (hw : x.Wired) : x'.Wired := by
  obtain ⟨hboot, hpeers⟩ := hw
  have hadded : ∀ {n : RaftNode}, n = x.raft ∨ (∃ e : LogEntry, e.index = x.raft.lastEntry.1 + 1 ∧
      n = x.raft.appendEntry e) → n.peers.isSome = true := by
    rintro n (rfl | ⟨e, _, rfl⟩)
    · exact hpeers
    · exact (RaftNode.appendEntry_pointers x.raft e "").2.trans hpeers
  cases h with
  | electionAborted f | electionStarted f =>
    obtain ⟨_, _, _, _, _, _, heq⟩ := RaftNode.electionOnly_startElection x.raft f
    exact ⟨hboot, by rw [heq]; exact hpeers⟩
  | electAlone c | voteWon c =>
    obtain ⟨_, _, _, _, _, _, heq⟩ := RaftNode.electionOnly_becomeLeader x.raft c.args.term
    exact ⟨hboot, by rw [heq]; exact hpeers⟩
  | buildSolo term =>
    exact ⟨hboot, (RaftNode.pointersOnly_soloCommit x.raft term).setup.peers ▸ hpeers⟩
  | ackStepDown r cfg p addr res =>
    obtain ⟨_, _, _, _, _, _, heq⟩ := RaftNode.electionOnly_leaderStepDown x.raft res.term
    exact ⟨hboot, by rw [heq]; exact hpeers⟩
  | ackSuccess r cfg p addr res =>
    exact ⟨hboot, (RaftNode.pointersOnly_handleAck x.raft r.term r.lastIdx cfg addr
      p.lastSentIdx).setup.peers ▸ hpeers⟩
  | deliverVote c args f =>
    obtain ⟨_, _, _, _, _, _, heq⟩ := RaftNode.electionOnly_handleRequestVote x.raft args f
    exact ⟨hboot, by rw [heq]; exact hpeers⟩
  | deliverAppend c args f =>
    exact ⟨hboot, (RaftNode.handleAppendEntries_pointers x.raft args f "").2.trans hpeers⟩
  | installAdmit c args f n hd hreq hn =>
    obtain ⟨_, _, _, _, _, _, rfl⟩ := RaftNode.electionOnly_installAdmit hn
    exact ⟨hboot, hpeers⟩
  | installDiscard i t data =>
    refine ⟨hboot, ?_⟩
    show (if data.config.isZero then x.raft.peers
      else RaftNode.ensureConnected x.raft.peers data.config.allPeers).isSome = true
    split
    · exact hpeers
    · rwa [RaftNode.isSome_ensureConnected]
  | propose data f => exact ⟨hboot, hadded (RaftNode.proposeEntry_cases x.raft _ data f)⟩
  | proposeConfigChange newVoters f =>
    exact ⟨hboot, hadded (RaftNode.proposeConfigChange_cases x.raft newVoters f)⟩
  | changeStable i f newVoters =>
    exact ⟨hboot, hadded (RaftNode.proposeEntry_cases x.raft _ _ f)⟩
  | changeFinish i f newVoters =>
    refine ⟨hboot, ?_⟩
    unfold RaftNode.stepDownIfRemoved
    split <;> exact hpeers
  | collect =>
    refine ⟨hboot, ?_⟩
    unfold RaftNode.collectApply
    split <;> exact hpeers
  | transferDone i addr index =>
    refine ⟨hboot, ?_⟩
    unfold RaftNode.snapshotSent
    dsimp only
    split <;> split <;> exact hpeers
  | restart => exact ⟨hboot, RaftNode.restart_peers x.raft hboot⟩
  | _ => exact ⟨hboot, hpeers⟩

theorem counted (h : Section x act x') (hw : x.Wired) (ht : x'.loop.leadTerm = some t)
    (hpos : 0 < x'.raft.matchOf b) :
    x.loop.leadTerm = some t ∧ Recount x act b (x'.raft.matchOf b) := by
  rcases h.leadTerm ht with hold | ⟨_, hr⟩
  · refine ⟨hold, ?_⟩
    -- a new entry may bring a configuration
    have hadded : ∀ {n : RaftNode}, n = x.raft ∨ (∃ e : LogEntry, e.index = x.raft.lastEntry.1 + 1 ∧
        n = x.raft.appendEntry e) → 0 < n.matchOf b → Recount x act b (n.matchOf b) := by
      rintro n (rfl | ⟨e, _, rfl⟩) hpos
      · exact .same rfl
      · exact .same ((RaftNode.appendEntry_pointers x.raft e b).1.resolve_right hpos.ne')
    cases h with
    | resetCampaign | timeoutFollower | electionAborted | electionStarted | electAlone
    | voteStepDown | voteWon => cases ht
    | ackStepDown r cfg p addr res =>
      obtain ⟨_, _, _, _, _, _, heq⟩ := RaftNode.electionOnly_leaderStepDown x.raft res.term
      exact .same (by rw [heq]; rfl)
    | enterLeader hloop =>
      rw [hloop] at hold
      cases hold
    | buildSolo term => exact .same (RaftNode.matchOf_soloCommit _ term b)
    | ackSuccess r cfg p addr res hloop hfind ht hs =>
      rcases RaftNode.matchOf_handleAck x.raft r.term r.lastIdx cfg addr p.lastSentIdx b with
        heq | ⟨rfl, heq⟩
      · exact .same heq
      · exact .acked r cfg p res rfl hloop hfind hs heq
    | deliverVote c args f =>
      obtain ⟨_, _, _, _, _, _, heq⟩ := RaftNode.electionOnly_handleRequestVote x.raft args f
      exact .same (by rw [heq]; rfl)
    | deliverAppend c args f =>
      exact .same ((RaftNode.handleAppendEntries_pointers x.raft args f b).1.resolve_right hpos.ne')
    | installAdmit c args f n hd hreq hn =>
      obtain ⟨_, _, _, _, _, _, rfl⟩ := RaftNode.electionOnly_installAdmit hn
      exact .same rfl
    | propose data f => exact hadded (RaftNode.proposeEntry_cases x.raft _ data f) hpos
    | proposeConfigChange newVoters f =>
      exact hadded (RaftNode.proposeConfigChange_cases x.raft newVoters f) hpos
    | changeStable i f newVoters => exact hadded (RaftNode.proposeEntry_cases x.raft _ _ f) hpos
    | changeFinish i f newVoters =>
      refine .same ?_
      unfold RaftNode.stepDownIfRemoved
      split <;> rfl
    | collect =>
      refine .same ?_
      unfold RaftNode.collectApply
      split <;> rfl
    | transferDone i addr index hi =>
      rcases RaftNode.matchOf_snapshotSent x.raft addr index b with heq | ⟨rfl, hlt, heq⟩
      · exact .same heq
      · exact .sent i index rfl hi hlt heq
    | restart => cases ht
    | _ => exact .same rfl
  · have hp := (h.wired hw).2
    rw [hr] at hp hpos
    rw [RaftNode.matchOf_initLeader (n := x.raft) hp] at hpos
    exact absurd hpos (lt_irrefl 0)

theorem sending (h : Section x act x') {index : Int} (hb : .send b index ∈ x'.transfers) :
    .send b index ∈ x.transfers ∨ ∃ i snapshot, act = .transferStart i ∧
      x.transfers[i]? = some (.start b) ∧ x.raft.snapshotToSend = some snapshot ∧
      index = snapshot.snapMeta.index := by
  cases h with
  | build term peers =>
    rcases List.mem_append.mp hb with hb | hb
    · exact .inl hb
    · obtain ⟨_, _, heq⟩ := List.mem_map.mp hb
      cases heq
  | transferStart i addr snapshot hi hsnap =>
    rcases List.mem_or_eq_of_mem_set hb with hb | heq
    · exact .inl hb
    · cases heq
      exact .inr ⟨i, snapshot, rfl, hi, hsnap, rfl⟩
  | transferNone | transferDone | transferFail => exact .inl (List.mem_of_mem_eraseIdx hb)
  | restart => cases hb
  | _ => exact .inl hb

theorem receiving (h : Section x act x') {u : Install} (hu : u ∈ x'.installs) :
    (∃ v ∈ x.installs, v.args = u.args ∧ v.call = u.call) ∨ ∃ f, act = .deliver u.call f ∧
      u.call.req = .install u.args ∧ u.args.term ≤ x'.raft.currentTerm := by
  have hset : ∀ {i : Nat} {v : Install} {phase}, x.installs[i]? = some v →
      u ∈ x.installs.set i { v with phase := phase } →
        ∃ v ∈ x.installs, v.args = u.args ∧ v.call = u.call := by
    intro i v phase hi hmem
    rcases List.mem_or_eq_of_mem_set hmem with hmem | rfl
    · exact ⟨u, hmem, rfl, rfl⟩
    · exact ⟨v, List.mem_of_getElem? hi, rfl, rfl⟩
  cases h with
  | installAdmit c args f n hd hreq hn =>
    rcases List.mem_append.mp hu with hu | hu
    · exact .inl ⟨u, hu, rfl, rfl⟩
    · obtain rfl := List.mem_singleton.mp hu
      refine .inr ⟨f, rfl, hreq, ?_⟩
      obtain ⟨hle, hb⟩ := RaftNode.ballot_installAdmit hn
      show args.term ≤ n.ballot.currentTerm
      rw [hb]
      unfold Ballot.observed
      split
      · exact le_rfl
      · next hge => exact Int.not_lt.mp hge
  | installBuffer | installBad | installFast | installSave =>
    exact .inl ⟨u, List.mem_of_mem_eraseIdx hu, rfl, rfl⟩
  | installLast i v hi | installTaken i v data hi | installFull i v data hi
  | installRestore i v data hi | installDiscard i v data hi => exact .inl (hset hi hu)
  | restart => cases hu
  | _ => exact .inl ⟨u, hu, rfl, rfl⟩

omit [Codec] in
theorem discard_event {i : Nat} {v : Install} {data : SnapshotData} (hi : x.installs[i]? = some v)
    (hp : v.phase = .discard data ∨
      v.phase = .choose data ∧ x.raft.installFast v.args = false ∧ x.raft.sm = none) :
    x.recordEvent (.installNext i) = .discard v.args data := by
  rcases hp with hp | ⟨hp, hf, hsm⟩
  · simp [recordEvent, installEvent, hi, hp]
  · simp [recordEvent, installEvent, hi, hp, hf, hsm]

theorem saving (h : Section x act x') {u : Install} (hu : u ∈ x'.installs) {data : SnapshotData}
    (hp : u.phase = .save data) :
    u ∈ x.installs ∨ ∃ data, x.recordEvent act = .discard u.args data := by
  have hset : ∀ {i : Nat} {v : Install} {phase}, phase ≠ .save data →
      u ∈ x.installs.set i { v with phase := phase } → u ∈ x.installs := by
    intro i v phase hne hmem
    rcases List.mem_or_eq_of_mem_set hmem with hmem | rfl
    · exact hmem
    · exact absurd hp hne
  cases h with
  | installAdmit c args f n =>
    rcases List.mem_append.mp hu with hu | hu
    · exact .inl hu
    · obtain rfl := List.mem_singleton.mp hu
      cases hp
  | installBuffer | installBad | installFast | installSave =>
    exact .inl (List.mem_of_mem_eraseIdx hu)
  | installLast | installTaken | installFull | installRestore => exact .inl (hset (by nofun) hu)
  | installDiscard i v data hi hv =>
    rcases List.mem_or_eq_of_mem_set hu with hu | rfl
    · exact .inl hu
    · exact .inr ⟨data, discard_event (v := v) hi hv⟩
  | restart => cases hu
  | _ => exact .inl hu

theorem answered (h : Section x act x') {c : Call} {term : Int}
    (hc : (c, Response.install term) ∈ x'.replies) :
    (c, Response.install term) ∈ x.replies ∨
      (∃ args, c.req = .install args ∧ args.term < term) ∨
      ∃ i v, act = .installNext i ∧ x.installs[i]? = some v ∧ c = v.call ∧
        (v.args.done = false ∨
          v.phase = .take ∧ RaftNode.installDecode v.args x.raft.snapBuf = none ∨
          x.recordEvent act = .fast v.args ∨ ∃ data, v.phase = .save data) := by
  cases h with
  | deliverVote | deliverAppend =>
    rcases List.mem_cons.mp hc with heq | hc
    · cases heq
    · exact .inl hc
  | installStale c' args f hd hreq hn =>
    rcases List.mem_cons.mp hc with heq | hc
    · cases heq
      refine .inr (.inl ⟨args, hreq, ?_⟩)
      unfold RaftNode.installAdmit at hn
      split at hn
      · next hlt => exact hlt
      · cases hn
    · exact .inl hc
  | installBuffer i v hi hp hd =>
    rcases List.mem_cons.mp hc with heq | hc
    · cases heq
      exact .inr (.inr ⟨i, v, rfl, hi, rfl, .inl hd⟩)
    · exact .inl hc
  | installBad i v hi hp hd =>
    rcases List.mem_cons.mp hc with heq | hc
    · cases heq
      exact .inr (.inr ⟨i, v, rfl, hi, rfl, .inr (.inl ⟨hp, hd⟩)⟩)
    · exact .inl hc
  | installFast i v data hi hp hf =>
    rcases List.mem_cons.mp hc with heq | hc
    · cases heq
      have hev : x.recordEvent (.installNext i) = .fast v.args := by
        simp [recordEvent, installEvent, hi, hp, hf]
      exact .inr (.inr ⟨i, v, rfl, hi, rfl, .inr (.inr (.inl hev))⟩)
    · exact .inl hc
  | installSave i v data hi hp =>
    rcases List.mem_cons.mp hc with heq | hc
    · cases heq
      exact .inr (.inr ⟨i, v, rfl, hi, rfl, .inr (.inr (.inr ⟨data, hp⟩))⟩)
    · exact .inl hc
  | _ => exact .inl hc

theorem recommit (h : Section x act x') : Recommit x act x' := by
  have hadded : ∀ {n : RaftNode}, n = x.raft ∨ (∃ e : LogEntry, e.index = x.raft.lastEntry.1 + 1 ∧
      n = x.raft.appendEntry e) → n.commitIndex = x.raft.commitIndex := by
    rintro n (rfl | ⟨e, _, rfl⟩)
    · rfl
    · exact RaftNode.appendEntry_commitIndex e
  cases h with
  | electionAborted f | electionStarted f =>
    obtain ⟨_, _, _, _, _, _, heq⟩ := RaftNode.electionOnly_startElection x.raft f
    exact .same (by rw [heq])
  | electAlone c | voteWon c =>
    obtain ⟨_, _, _, _, _, _, heq⟩ := RaftNode.electionOnly_becomeLeader x.raft c.args.term
    exact .same (by rw [heq])
  | buildSolo term hl =>
    exact .advanced term _ rfl (.inl ⟨hl, rfl⟩) rfl
      (RaftNode.pointersOnly_soloCommit _ term) (RaftNode.advances_soloCommit _ term)
  | ackStepDown r cfg p addr res =>
    obtain ⟨_, _, _, _, _, _, heq⟩ := RaftNode.electionOnly_leaderStepDown x.raft res.term
    exact .same (by rw [heq])
  | ackSuccess r cfg p addr res hl =>
    exact .advanced r.term cfg rfl (.inr ⟨r, hl, rfl⟩) (Round.leadTerm_resume _ _)
      (RaftNode.pointersOnly_handleAck _ _ _ _ _ _) (RaftNode.advances_handleAck _ _ _ _ _ _)
  | deliverVote c args f =>
    obtain ⟨_, _, _, _, _, _, heq⟩ := RaftNode.electionOnly_handleRequestVote x.raft args f
    exact .same (by rw [heq])
  | deliverAppend c args f hd hreq => exact .followed c args f rfl hreq rfl
  | installAdmit c args f n hd hreq hn =>
    obtain ⟨_, _, _, _, _, _, rfl⟩ := RaftNode.electionOnly_installAdmit hn
    exact .same rfl
  | installDiscard i v data hi hp => exact .installed i v data hi (discard_event hi hp) rfl
  | propose data f => exact .same (hadded (RaftNode.proposeEntry_cases x.raft _ data f))
  | proposeConfigChange newVoters f =>
    exact .same (hadded (RaftNode.proposeConfigChange_cases x.raft newVoters f))
  | changeStable i f newVoters => exact .same (hadded (RaftNode.proposeEntry_cases x.raft _ _ f))
  | changeFinish i f newVoters =>
    refine .same ?_
    unfold RaftNode.stepDownIfRemoved
    split <;> rfl
  | collect =>
    refine .same ?_
    unfold RaftNode.collectApply
    split <;> rfl
  | transferDone i addr index =>
    refine .same ?_
    unfold RaftNode.snapshotSent
    dsimp only
    split <;> split <;> rfl
  | restart => exact .restarted rfl (RaftNode.restart_volatile x.raft x.boot).2.1
  | _ => exact .same rfl

end Node.Section

end Raft
