/-
CoreX/Raft/Pointers.lean

The replication pointers of one peer while a leader's term lasts.  `PointersAt n addr
next mtch` says what `nextIndex` and `matchIndex` hold for the peer, and each section of
the leader is described by what it makes of the two numbers.

A success response moves `matchIndex` to the last index that was sent and `nextIndex`
behind it.  A request without entries has sent nothing, so `nextIndex` falls back to
what was confirmed before: the pointers reach the end of the request exactly if it
carried an entry or confirmed nothing new (`ack_pointers`).  A new leader's first
heartbeat is the other case, and the peer gets the whole log, or a snapshot, in the next
round (`empty_heartbeat_resets`).  A refusal sets `nextIndex` to what its hint says, without a
look at what the peer has confirmed.
-/
import CoreX.Raft.Record
import CoreX.Raft.Replicate

namespace Raft

open StepSystem

namespace RaftNode

variable {n : RaftNode} {addr : Addr}

/-! ### The two numbers -/

/-- The pointers of `addr` are `next` and `mtch`. -/
structure PointersAt (n : RaftNode) (addr : Addr) (next mtch : Int) : Prop where
  nextIndex : ∃ f, n.nextIndex = some f ∧ f addr = some next
  matchIndex : ∃ f, n.matchIndex = some f ∧ f addr = some mtch

/-- The hint of a refusal is above the index `i`, if there is any: so is the conflict, and so
is what follows the last entry of the conflict's term. -/
def HintAbove (n : RaftNode) (i conflictIndex conflictTerm : Int) : Prop :=
  i ≤ 0 ∨ i < conflictIndex ∧ (conflictTerm ≠ 0 →
    ∀ e ∈ n.log.reverse.find? fun e => e.term == conflictTerm, i ≤ e.index)

instance hintAboveDecidable (n : RaftNode) (i conflictIndex conflictTerm : Int) :
    Decidable (n.HintAbove i conflictIndex conflictTerm) := inferInstanceAs (Decidable (_ ∨ _))

namespace PointersAt

variable {next mtch : Int}

theorem nextOf_eq (h : n.PointersAt addr next mtch) : n.nextOf addr = next := by
  obtain ⟨f, hf, hat⟩ := h.nextIndex
  simp [nextOf, hf, hat]

theorem matchOf_eq (h : n.PointersAt addr next mtch) : n.matchOf addr = mtch := by
  obtain ⟨f, hf, hat⟩ := h.matchIndex
  simp [matchOf, hf, hat]

theorem setNext (h : n.PointersAt addr next mtch) (i : Int) :
    (n.setNext addr i).PointersAt addr i mtch := by
  obtain ⟨f, hf, _⟩ := h.nextIndex
  refine ⟨⟨Function.update f addr (some i), ?_, Function.update_self ..⟩, h.matchIndex⟩
  show n.nextIndex.map _ = _
  rw [hf]
  rfl

theorem setMatch (h : n.PointersAt addr next mtch) (i : Int) :
    (n.setMatch addr i).PointersAt addr next i := by
  obtain ⟨f, hf, _⟩ := h.matchIndex
  refine ⟨h.nextIndex, ⟨Function.update f addr (some i), ?_, Function.update_self ..⟩⟩
  show n.matchIndex.map _ = _
  rw [hf]
  rfl

theorem handleAck (h : n.PointersAt addr next mtch) (term lastIdx : Int) (cfg : ClusterConfig)
    (i : Int) :
    (n.handleAck term lastIdx cfg addr i).PointersAt addr (max mtch i + 1) (max mtch i) := by
  have hset : (if n.matchOf addr < i then n.setMatch addr i else n).PointersAt addr next
      (max mtch i) := by
    rw [h.matchOf_eq]
    split
    · next hlt =>
      rw [max_eq_right hlt.le]
      exact h.setMatch i
    · next hge =>
      rw [max_eq_left (not_lt.mp hge)]
      exact h
  have hnext := hset.setNext (max mtch i + 1)
  unfold RaftNode.handleAck
  dsimp only
  rw [hset.matchOf_eq]
  exact ⟨hnext.nextIndex, hnext.matchIndex⟩

theorem snapshotSent (h : n.PointersAt addr next mtch) (i : Int) :
    (n.snapshotSent addr i).PointersAt addr (max next (i + 1)) (max mtch i) := by
  have hset : (if n.nextOf addr < i + 1 then n.setNext addr (i + 1) else n).PointersAt addr
      (max next (i + 1)) mtch := by
    rw [h.nextOf_eq]
    split
    · next hlt =>
      rw [max_eq_right hlt.le]
      exact h.setNext (i + 1)
    · next hge =>
      rw [max_eq_left (not_lt.mp hge)]
      exact h
  unfold RaftNode.snapshotSent
  dsimp only
  rw [hset.matchOf_eq]
  split
  · next hlt =>
    rw [max_eq_right hlt.le]
    exact hset.setMatch i
  · next hge =>
    rw [max_eq_left (not_lt.mp hge)]
    exact hset

theorem activate (h : n.PointersAt addr next mtch) (cfg : ClusterConfig) (connect : List Addr) :
    (n.activate cfg connect).PointersAt addr next mtch := by
  obtain ⟨f, hf, hat⟩ := h.nextIndex
  obtain ⟨g, hg, hat'⟩ := h.matchIndex
  constructor
  · refine ⟨fun a => if a ∈ connect ∧ (f a).isNone then some (n.lastEntry.1 + 1) else f a, ?_, ?_⟩
    · show n.nextIndex.map _ = _
      rw [hf]
      rfl
    · simp [hat]
  · refine ⟨fun a => if a ∈ connect ∧ (f a).isNone then some 0 else g a, ?_, ?_⟩
    · simp only [RaftNode.activate, hf, hg, Option.map_some]
    · simp [hat, hat']

theorem handleNack (h : n.PointersAt addr next mtch) {i ci ct : Int} (hhint : n.HintAbove i ci ct) :
    ∃ next', (n.handleNack addr ci ct).PointersAt addr next' mtch ∧ i + 1 ≤ next' := by
  refine ⟨_, h.setNext _, ?_⟩
  rcases hhint with hi | ⟨hci, hct⟩
  · split <;> omega
  · by_cases hzero : ct = 0 ∨ ci = 0
    · rw [if_pos hzero]
      split <;> split <;> omega
    · rw [if_neg hzero]
      rcases hfind : n.log.reverse.find? fun e => e.term == ct with - | e
      · rw [hfind]
        dsimp only
        split <;> omega
      · have hle := hct (fun h => hzero (.inl h)) e hfind
        rw [hfind]
        dsimp only
        split <;> omega

theorem appendEntry [Codec] (h : n.PointersAt addr next mtch) (e : LogEntry) :
    (n.appendEntry e).PointersAt addr next mtch := by
  have hlog : PointersAt { n with
      log := n.log ++ [e]
      logStore := n.logStore.map fun wal => wal ++ [LogRecord.entry e] } addr next mtch :=
    ⟨h.nextIndex, h.matchIndex⟩
  unfold RaftNode.appendEntry
  split
  · unfold applyConfigEntry
    split
    · exact hlog
    · split
      · exact hlog.activate _ _
      · split
        · exact hlog.activate _ _
        · exact hlog
  · exact hlog

end PointersAt

theorem pointersAt_initLeader {clients : List Addr} (hpeers : n.peers = some clients)
    (haddr : addr ∈ clients) : n.initLeader.PointersAt addr (n.lastEntry.1 + 1) 0 := by
  constructor
  · refine ⟨fun a => if a ∈ clients then some (n.lastEntry.1 + 1) else none, ?_, if_pos haddr⟩
    simp [initLeader, hpeers]
  · refine ⟨fun a => if a ∈ clients then some 0 else none, ?_, if_pos haddr⟩
    simp [initLeader, hpeers]

theorem log_handleAck (term lastIdx : Int) (cfg : ClusterConfig) (i : Int) :
    (n.handleAck term lastIdx cfg addr i).log = n.log := by
  unfold handleAck
  split <;> rfl

theorem log_snapshotSent (i : Int) : (n.snapshotSent addr i).log = n.log := by
  unfold snapshotSent
  dsimp only
  split <;> split <;> rfl

/-! ### What a request covers -/

/-- The indices of the log ascend. -/
def Ascending (n : RaftNode) : Prop := n.log.Pairwise fun e e' => e.index < e'.index

theorem getLast_of_ascending {l : List LogEntry} {e : LogEntry} {a : Int}
    (hasc : l.Pairwise fun e e' => e.index < e'.index) (hlo : ∀ x ∈ l, a ≤ x.index)
    (he : l.getLast? = some e) : a + l.length ≤ e.index + 1 := by
  induction l generalizing a with
  | nil => cases he
  | cons x l ih =>
    obtain ⟨hx, hl⟩ := List.pairwise_cons.mp hasc
    have hax := hlo x List.mem_cons_self
    rcases hl' : l.getLast? with - | y
    · have hnil := List.getLast?_eq_none_iff.mp hl'
      subst hnil
      obtain rfl := Option.some.inj he
      simpa using hax
    · have hlast : e = y := by
        rw [List.getLast?_cons, hl'] at he
        exact (Option.some.inj he).symm
      have := ih (a := a + 1) hl (fun z hz => by have := hx z hz; omega) (hlast ▸ hl')
      rw [List.length_cons]
      omega

theorem lastSentIdx_of_entries (h : n.Ascending) (term : Int) (addr : Addr)
    (hne : 0 < (n.peerArgs term addr).args.entries.length) :
    (n.peerArgs term addr).args.prevLogIndex + (n.peerArgs term addr).args.entries.length ≤
      (n.peerArgs term addr).lastSentIdx := by
  have hlen : (n.peerArgs term addr).args.entries.length
      = (n.log.filter fun e => n.nextOf addr ≤ e.index).length := List.length_map _
  rw [hlen] at hne ⊢
  obtain ⟨e, he⟩ : ∃ e, (n.log.filter fun e => n.nextOf addr ≤ e.index).getLast? = some e :=
    ⟨_, List.getLast?_eq_some_getLast (List.ne_nil_of_length_pos hne)⟩
  have hsent : (n.peerArgs term addr).lastSentIdx = e.index := by
    show ((n.log.filter fun e => n.nextOf addr ≤ e.index).getLast?.map LogEntry.index).getD 0 = _
    rw [he]
    rfl
  have hreach := getLast_of_ascending (h.sublist List.filter_sublist)
    (a := n.nextOf addr) (fun x hx => by simpa using (List.mem_filter.mp hx).2) he
  show n.nextOf addr - 1 + _ ≤ _
  omega

theorem lastSentIdx_of_empty {term : Int} (h : (n.peerArgs term addr).args.entries.length = 0) :
    (n.peerArgs term addr).lastSentIdx = 0 := by
  have hnil : n.log.filter (fun e => n.nextOf addr ≤ e.index) = [] := by
    have : (n.peerArgs term addr).args.entries = [] := List.length_eq_zero_iff.mp h
    exact List.map_eq_nil_iff.mp this
  show ((n.log.filter fun e => n.nextOf addr ≤ e.index).getLast?.map LogEntry.index).getD 0 = 0
  rw [hnil]
  rfl

/-- The request carries an entry, or confirms no more than is known: an index that is
already confirmed, or none. -/
def Confirms (n : RaftNode) (addr : Addr) (args : AppendEntriesArgs) : Prop :=
  0 < args.entries.length ∨ args.prevLogIndex ≤ 0 ∨ args.prevLogIndex ≤ n.matchOf addr

instance confirmsDecidable (n : RaftNode) (addr : Addr) (args : AppendEntriesArgs) :
    Decidable (n.Confirms addr args) := inferInstanceAs (Decidable (_ ∨ _))

theorem ack_reaches_iff {m : RaftNode} {term next mtch : Int} (lastIdx : Int) (cfg : ClusterConfig)
    (hm : m.Ascending) (hn : n.PointersAt addr next mtch) :
    ((m.peerArgs term addr).args.prevLogIndex + (m.peerArgs term addr).args.entries.length ≤
        (n.handleAck term lastIdx cfg addr (m.peerArgs term addr).lastSentIdx).matchOf addr ∧
      (m.peerArgs term addr).args.prevLogIndex + (m.peerArgs term addr).args.entries.length + 1 ≤
        (n.handleAck term lastIdx cfg addr (m.peerArgs term addr).lastSentIdx).nextOf addr) ↔
      n.Confirms addr (m.peerArgs term addr).args := by
  have hack := hn.handleAck term lastIdx cfg (m.peerArgs term addr).lastSentIdx
  rw [hack.matchOf_eq, hack.nextOf_eq, Confirms, hn.matchOf_eq]
  rcases Nat.eq_zero_or_pos (m.peerArgs term addr).args.entries.length with hk | hk
  · rw [lastSentIdx_of_empty hk, hk]
    omega
  · have := lastSentIdx_of_entries hm term addr hk
    omega

end RaftNode

/-! ### A term of the leader -/

/-- The leader, the request to the peer that is under way, and the last index that a
processed success response covered. -/
structure Leading where
  node : RaftNode
  inFlight : Option RaftNode.PeerArgs
  acked : Int

/-- What the leader does with its log and with the peer: send a batch, process a
success or a refusal, miss a response, append, compact, and finish a snapshot transfer. -/
inductive LeadAct
  | send
  | ack (lastIdx : Int) (cfg : ClusterConfig)
  | nack (conflictIndex conflictTerm : Int)
  | lost
  | propose (type : EntryType) (data : Bytes) (f : Faults)
  | compact (index term : Int)
  | snapshotSent (index : Int)

namespace Leading

open RaftNode

variable [Codec] {term : Int} {addr : Addr} {s s' : Leading}

def step (term : Int) (addr : Addr) (s : Leading) : LeadAct → Option Leading
  | .send =>
      if s.inFlight.isSome || s.node.needsSnapshot addr then none
      else some { s with inFlight := some (s.node.peerArgs term addr) }
  | .ack lastIdx cfg =>
      s.inFlight.map fun pa =>
        { node := s.node.handleAck term lastIdx cfg addr pa.lastSentIdx
          inFlight := none
          acked := max s.acked (pa.args.prevLogIndex + pa.args.entries.length) }
  | .nack conflictIndex conflictTerm =>
      s.inFlight.map fun _ =>
        { s with
          node := s.node.handleNack addr conflictIndex conflictTerm
          inFlight := none }
  | .lost => some { s with inFlight := none }
  | .propose type data f => some { s with node := (s.node.proposeEntry type data f).1 }
  | .compact index term => some { s with node := s.node.truncateLogPrefix index term }
  | .snapshotSent index => some { s with node := s.node.snapshotSent addr index }

/-- Every success that is processed confirms something, and every refusal is about indices
above those that were confirmed. -/
def AckOk (addr : Addr) (s : Leading) : LeadAct → Prop
  | .ack _ _ => ∀ pa ∈ s.inFlight, s.node.Confirms addr pa.args
  | .nack conflictIndex conflictTerm => s.node.HintAbove s.acked conflictIndex conflictTerm
  | _ => True

instance ackOkDecidable (addr : Addr) (s : Leading) (a : LeadAct) : Decidable (AckOk addr s a) := by
  cases a <;> unfold AckOk <;> infer_instance

/-- What holds while the term lasts. -/
structure Inv (term : Int) (addr : Addr) (s : Leading) : Prop where
  ascending : s.node.Ascending
  pointers : ∃ next mtch, s.node.PointersAt addr next mtch ∧ s.acked ≤ mtch ∧ s.acked + 1 ≤ next
  sent : ∀ pa ∈ s.inFlight, ∃ m : RaftNode, m.Ascending ∧ pa = m.peerArgs term addr

omit [Codec] in
theorem ascending_concat {n : RaftNode} {e : LogEntry} (h : n.Ascending)
    (he : e.index = n.lastEntry.1 + 1) :
    (n.log ++ [e]).Pairwise fun e e' => e.index < e'.index := by
  refine List.pairwise_append.mpr ⟨h, List.pairwise_singleton _ _, fun x hx y hy => ?_⟩
  rw [List.mem_singleton.mp hy, he]
  obtain ⟨l, z, hl⟩ := List.eq_nil_or_concat n.log |>.resolve_left (List.ne_nil_of_mem hx)
  have hlast : n.lastEntry.1 = z.index := by
    simp [lastEntry, hl]
  unfold Ascending at h
  rw [hl, List.concat_eq_append] at h hx
  rcases List.mem_append.mp hx with hx | hx
  · have := (List.pairwise_append.mp h).2.2 x hx z (List.mem_singleton_self z)
    omega
  · rw [List.mem_singleton.mp hx]
    omega

theorem Inv.step {a : LeadAct} (h : Inv term addr s) (hs : s.step term addr a = some s')
    (hok : AckOk addr s a) : Inv term addr s' := by
  obtain ⟨next, mtch, hp, hm, hn⟩ := h.pointers
  cases a with
  | send =>
    simp only [Leading.step, Option.ite_none_left_eq_some, Option.some.injEq] at hs
    obtain ⟨_, rfl⟩ := hs
    refine ⟨h.ascending, h.pointers, ?_⟩
    rintro pa ⟨⟩
    exact ⟨s.node, h.ascending, rfl⟩
  | ack lastIdx cfg =>
    obtain ⟨pa, hpa, rfl⟩ := Option.map_eq_some_iff.mp hs
    obtain ⟨m, hasc, rfl⟩ := h.sent pa hpa
    have hreach := (ack_reaches_iff lastIdx cfg hasc hp).mpr (hok _ hpa)
    have hack := hp.handleAck term lastIdx cfg (m.peerArgs term addr).lastSentIdx
    rw [hack.matchOf_eq, hack.nextOf_eq] at hreach
    refine ⟨?_, ⟨_, _, hack, ?_, ?_⟩, fun pa hpa => by cases hpa⟩
    · show (s.node.handleAck term lastIdx cfg addr _).log.Pairwise _
      rw [log_handleAck]
      exact h.ascending
    · show max s.acked _ ≤ _
      omega
    · show max s.acked _ + 1 ≤ _
      omega
  | nack ci ct =>
    obtain ⟨_, _, rfl⟩ := Option.map_eq_some_iff.mp hs
    obtain ⟨next', hp', hle⟩ := hp.handleNack hok
    exact ⟨h.ascending, ⟨next', mtch, hp', hm, hle⟩, fun pa hpa => by cases hpa⟩
  | lost =>
    obtain rfl := Option.some.inj hs
    exact ⟨h.ascending, h.pointers, fun pa hpa => by cases hpa⟩
  | propose type data f =>
    obtain rfl := Option.some.inj hs
    rcases proposeEntry_cases s.node type data f with heq | ⟨e, he, heq⟩
    · rw [heq]
      exact ⟨h.ascending, h.pointers, h.sent⟩
    · rw [heq]
      refine ⟨?_, ⟨next, mtch, hp.appendEntry e, hm, hn⟩, h.sent⟩
      show (s.node.appendEntry e).log.Pairwise _
      rw [appendEntry_log]
      exact ascending_concat h.ascending he
  | compact index t =>
    obtain rfl := Option.some.inj hs
    exact ⟨h.ascending.sublist (List.dropWhile_sublist _),
      ⟨next, mtch, ⟨hp.nextIndex, hp.matchIndex⟩, hm, hn⟩, h.sent⟩
  | snapshotSent index =>
    obtain rfl := Option.some.inj hs
    refine ⟨?_, ⟨_, _, hp.snapshotSent index, by show s.acked ≤ _; omega,
      by show s.acked + 1 ≤ _; omega⟩, h.sent⟩
    show (s.node.snapshotSent addr index).log.Pairwise _
    rw [log_snapshotSent]
    exact h.ascending

/-- **Success responses and the pointers of a peer.**  A response takes the pointers to
the end of its request exactly if the request confirms something.  In a term in which
every one does, and refusals are about later indices, the pointers stay behind everything
that was confirmed: what the peer is sent next starts there, and is no snapshot unless the
leader has compacted further. -/
theorem ack_pointers :
    (∀ (m n : RaftNode) (lastIdx next mtch : Int) (cfg : ClusterConfig), m.Ascending →
      n.PointersAt addr next mtch →
      (((m.peerArgs term addr).args.prevLogIndex + (m.peerArgs term addr).args.entries.length ≤
          (n.handleAck term lastIdx cfg addr (m.peerArgs term addr).lastSentIdx).matchOf addr ∧
        (m.peerArgs term addr).args.prevLogIndex + (m.peerArgs term addr).args.entries.length + 1 ≤
          (n.handleAck term lastIdx cfg addr (m.peerArgs term addr).lastSentIdx).nextOf addr) ↔
        n.Confirms addr (m.peerArgs term addr).args)) ∧
    (∀ (m : RaftNode) (clients : List Addr) (s : Leading), m.peers = some clients →
      addr ∈ clients → m.Ascending → 0 ≤ m.lastEntry.1 →
      Runs (Leading.step term addr) (AckOk addr) ⟨m.initLeader, none, 0⟩ s →
      s.acked ≤ s.node.matchOf addr ∧ s.acked + 1 ≤ s.node.nextOf addr ∧
        s.acked ≤ (s.node.peerArgs term addr).args.prevLogIndex ∧
        (s.node.snapshotIndex ≤ s.acked → s.node.needsSnapshot addr = false)) := by
  constructor
  · intro m n lastIdx next mtch cfg hm hn
    exact ack_reaches_iff lastIdx cfg hm hn
  · intro m clients s hpeers haddr hasc hlast hrun
    have h0 : Inv term addr ⟨m.initLeader, none, 0⟩ :=
      ⟨hasc, ⟨_, _, pointersAt_initLeader hpeers haddr, le_rfl, by show (0 : Int) + 1 ≤ _; omega⟩,
        fun pa hpa => by cases hpa⟩
    obtain ⟨_, ⟨next, mtch, hp, hm, hn⟩, _⟩ :=
      hrun.invariant (fun _ _ _ hi hs hok => hi.step hs hok) h0
    have hnext := hp.nextOf_eq
    refine ⟨by rw [hp.matchOf_eq]; exact hm, by rw [hnext]; exact hn, ?_, fun hsnap => ?_⟩
    · show s.acked ≤ s.node.nextOf addr - 1
      omega
    · have hgt : ¬s.node.nextOf addr ≤ s.node.snapshotIndex := by omega
      simp [needsSnapshot, hgt]

end Leading

section

local instance pointersCodec : Codec := Codec.silent

open RaftNode

/-- A leader with three entries, two of them compacted. -/
def newLeader : RaftNode :=
  { newRaftNode "l" (some ["p"]) (some ⟨2, "l"⟩) (some [.entry ⟨3, 1, entryTypeCommand, [3]⟩]) with
    role := .leader
    snapshotIndex := 2
    snapshotTerm := 1
    snapshotStore := some [] }

/-- A batch is refused, since the peer lacks its third entry, and sent again from there; it is
confirmed, and so is the heartbeat after it. -/
theorem ack_pointers_batch :
    ∃ s, Runs (Leading.step 2 "p") (Leading.AckOk "p") ⟨newLeader.initLeader, none, 0⟩ s ∧
      (s.acked = 4 ∧ s.node.snapshotIndex ≤ s.acked) ∧
      s.acked ≤ s.node.matchOf "p" ∧ s.node.needsSnapshot "p" = false := by
  refine Runs.exists_and_of_exec
    [.propose entryTypeCommand [4] Faults.none, .send, .nack 3 0, .send,
    .ack 4 ⟨.stable, ["p"], []⟩, .send, .ack 4 ⟨.stable, ["p"], []⟩] (by decide +kernel)
    fun s hrun hend => ?_
  have hfinal := (@Leading.ack_pointers _ 2 "p").2 newLeader ["p"] s rfl
    (List.mem_singleton_self _) (List.pairwise_singleton _ _) (by decide) hrun
  exact ⟨hfinal.1, hfinal.2.2.2 hend.2⟩

/-- **A new leader's first heartbeat.**  It has no entries and covers index 3; its success
sets `nextIndex` back to 1, and the peer, which has everything, is due for a snapshot. -/
theorem empty_heartbeat_resets :
    let n := newLeader.initLeader
    let pa := n.peerArgs 2 "p"
    let n' := n.handleAck 2 3 ⟨.stable, ["p"], []⟩ "p" pa.lastSentIdx
    n.needsSnapshot "p" = false ∧ pa.args.prevLogIndex = 3 ∧ pa.args.entries = [] ∧
      n'.matchOf "p" = 0 ∧ n'.nextOf "p" = 1 ∧ n'.needsSnapshot "p" = true := by
  decide +kernel

end

end Raft
