/-
CoreX/Raft/Backup.lean

Fast Backup: how a leader finds the place where a follower's log continues its own.  A
round is one AppendEntries of `sendHeartbeats` with its answer; a refusal carries the
conflict index and term from which the leader computes the next `nextIndex`.

Where that lands depends on both functions.  The follower names an index at or below the
place that was asked for; the leader may prefer an index of its own, behind its last
entry of the conflicting term.  That this is a step back is a fact about the logs of a
run: an entry of that term at or behind the place would bring the follower's entry with
it (`TermLog.Valid.getElem?_eq`), and there would have been no conflict.
-/
import CoreX.Raft.Replicate
import CoreX.Raft.Unsnapped

namespace Raft

open StepSystem TermLog Overwrite

/-! ### The two functions -/

namespace RaftNode

variable {n : RaftNode} {addr : Addr} {args : AppendEntriesArgs}

theorem conflictStart_bounds (t : Int) (k : Nat) {i : Int} (hi : 1 ≤ i) :
    1 ≤ n.conflictStart t k i ∧ n.conflictStart t k i ≤ i := by
  induction k generalizing i with
  | zero => exact ⟨hi, le_rfl⟩
  | succ k ih =>
    unfold conflictStart
    split
    · next h =>
      obtain ⟨hlo, hhi⟩ := ih (i := i - 1) (by omega)
      exact ⟨hlo, by omega⟩
    · exact ⟨hi, le_rfl⟩

theorem checkPrev_some (hcont : n.Contiguous) (hsnap : n.snapshotIndex = 0)
    {conflictIndex conflictTerm : Int}
    (h : n.checkPrev args = some (conflictIndex, conflictTerm)) :
    1 ≤ conflictIndex ∧ conflictIndex ≤ args.prevLogIndex ∧
      (conflictTerm = 0 ∨ ∃ x, n.log[(args.prevLogIndex - 1).toNat]? = some x ∧
        x.term = conflictTerm ∧ conflictTerm ≠ args.prevLogTerm) := by
  unfold checkPrev at h
  split at h
  · next hpos =>
    have hat : n.termAt args.prevLogIndex
        = (n.log[(args.prevLogIndex - 1).toNat]?).map LogEntry.term := by
      rw [termAt_eq hcont hsnap.ge (by omega), hsnap]
      simp
    rw [hat] at h
    rcases hx : n.log[(args.prevLogIndex - 1).toNat]? with - | x
    · rw [hx] at h
      obtain ⟨rfl, rfl⟩ := Prod.mk.inj (Option.some.inj h)
      have hend := List.getElem?_eq_none_iff.mp hx
      rw [lastEntry_index hcont, hsnap]
      exact ⟨by omega, by omega, .inl rfl⟩
    · rw [hx] at h
      simp only [Option.map_some] at h
      split at h
      · next hne =>
        obtain ⟨hci, rfl⟩ := Prod.mk.inj (Option.some.inj h)
        obtain ⟨hlo, hhi⟩ := conflictStart_bounds (n := n) x.term args.prevLogIndex.toNat
          (i := args.prevLogIndex) (by omega)
        rw [hci] at hlo hhi
        exact ⟨hlo, hhi, .inr ⟨x, rfl, rfl, hne⟩⟩
      · cases h
  · cases h

theorem nextOf_setNext (h : n.nextIndex.isSome) (i : Int) : (n.setNext addr i).nextOf addr = i := by
  obtain ⟨f, hf⟩ := Option.isSome_iff_exists.mp h
  simp [nextOf, setNext, hf]

theorem nextOf_handleNack (h : n.nextIndex.isSome) (addr : Addr)
    {conflictIndex conflictTerm p : Int}
    (hlo : 1 ≤ conflictIndex) (hhi : conflictIndex ≤ p)
    (hterm : conflictTerm ≠ 0 → ∀ e ∈ n.log, e.term = conflictTerm → e.index < p) :
    1 ≤ (n.handleNack addr conflictIndex conflictTerm).nextOf addr ∧
      (n.handleNack addr conflictIndex conflictTerm).nextOf addr ≤ p := by
  unfold handleNack
  rw [nextOf_setNext h]
  by_cases hc : conflictTerm = 0 ∨ conflictIndex = 0
  · have hpos : 0 < conflictIndex := by omega
    split <;> omega
  · rw [if_neg hc]
    rcases he : n.log.reverse.find? fun e => e.term == conflictTerm with - | e
    · simp only [he]
      split <;> omega
    · have hmem : e ∈ n.log := List.mem_reverse.mp (List.mem_of_find?_eq_some he)
      have heq : e.term = conflictTerm := by simpa using List.find?_some he
      have := hterm (fun h0 => hc (.inl h0)) e hmem heq
      simp only [he]
      split <;> omega

theorem sliceOf_peerArgs (hcont : n.Contiguous) (hsnap : n.snapshotIndex = 0) (term : Int)
    (hlo : 1 ≤ n.nextOf addr) (hhi : n.nextOf addr ≤ n.log.length + 1) :
    SliceOf n.log (n.peerArgs term addr).args (n.nextOf addr - 1).toNat n.log.length where
  prevLogIndex := by
    show n.nextOf addr - 1 = _
    omega
  prevLogTerm := by
    intro x hpos hx
    rw [peerArgs_prevLogTerm hcont hsnap term (k := (n.nextOf addr - 1).toNat - 1) (by omega), hx]
    rfl
  entries := by rw [peerArgs_entries hcont hsnap, List.take_length]
  le := by omega
  length := le_rfl

end RaftNode

/-! ### Rounds -/

/-- The leader and the follower, between two rounds. -/
structure Backup where
  leader : RaftNode
  follower : RaftNode

/-- How a round ends: the peer is left to `sendSnapshot`, the answer is of a higher term,
the batch is accepted or refused. -/
inductive RoundResult
  | routed
  | deposed
  | replicated
  | refused
  deriving DecidableEq, Repr

namespace Backup

variable [Codec] {x y : Backup} {L : Int → List LogEntry} {term : Int} {addr : Addr}

/-- One round of `sendHeartbeats` in `term`, for the peer `addr`, whose node is
`follower`; no store operation fails. -/
def round (term : Int) (addr : Addr) (x : Backup) : Backup × RoundResult :=
  if x.leader.needsSnapshot addr then (x, .routed)
  else
    let sent := x.leader.peerArgs term addr
    let res := x.follower.handleAppendEntries sent.args Faults.none
    if term < res.2.term then (⟨x.leader.leaderStepDown res.2.term, res.1⟩, .deposed)
    else if res.2.success then
      (⟨x.leader.handleAck term x.leader.lastEntry.1 x.leader.clusterConfig addr sent.lastSentIdx,
        res.1⟩, .replicated)
    else (⟨x.leader.handleNack addr res.2.conflictIndex res.2.conflictTerm, res.1⟩, .refused)

/-- A refused round, and the state it leaves. -/
def Refused (term : Int) (addr : Addr) (x y : Backup) : Prop := x.round term addr = (y, .refused)

/-- Both logs are whole and cut from the logs of the terms, and `nextIndex` lies in the
leader's log or just behind it. -/
structure Searching (L : Int → List LogEntry) (addr : Addr) (x : Backup) : Prop where
  leader : x.leader.Contiguous
  leader_whole : x.leader.snapshotIndex = 0
  leader_valid : Valid LogEntry.term L x.leader.log
  follower : x.follower.Contiguous
  follower_whole : x.follower.snapshotIndex = 0
  follower_valid : Valid LogEntry.term L x.follower.log
  pointers : x.leader.nextIndex.isSome
  next_pos : 1 ≤ x.leader.nextOf addr
  next_le : x.leader.nextOf addr ≤ x.leader.log.length + 1

namespace Searching

omit [Codec] in
theorem slice (h : x.Searching L addr) (term : Int) :
    SliceOf x.leader.log (x.leader.peerArgs term addr).args (x.leader.nextOf addr - 1).toNat
      x.leader.log.length :=
  RaftNode.sliceOf_peerArgs h.leader h.leader_whole term h.next_pos h.next_le

omit [Codec] in
theorem follows (h : x.Searching L addr) : RaftNode.Follows x.leader.log x.follower :=
  ⟨h.follower, h.follower_whole, fun _ _ _ hx hy => h.follower_valid.take_eq h.leader_valid hx hy⟩

omit [Codec] in
theorem needsSnapshot_eq_false (h : x.Searching L addr) : x.leader.needsSnapshot addr = false := by
  have hnext := h.next_pos
  have hsnap := h.leader_whole
  simp only [RaftNode.needsSnapshot, Bool.and_eq_false_iff, decide_eq_false_iff_not]
  exact .inr (by omega)

omit [Codec] in
theorem index_lt (h : x.Searching L addr) {conflictIndex conflictTerm : Int}
    (hc : x.follower.checkPrev (x.leader.peerArgs term addr).args =
      some (conflictIndex, conflictTerm)) (hne : conflictTerm ≠ 0) :
    ∀ e ∈ x.leader.log, e.term = conflictTerm → e.index < x.leader.nextOf addr - 1 := by
  intro e he hterm
  have hs := h.slice term
  obtain ⟨hlo, hhi, h0 | ⟨z, hz, hzt, hdiff⟩⟩ :=
    RaftNode.checkPrev_some h.follower h.follower_whole hc
  · exact absurd h0 hne
  -- the position of the conflict, and that of the entry
  have hprev : (x.leader.peerArgs term addr).args.prevLogIndex = x.leader.nextOf addr - 1 := rfl
  have hidx : Indexed LogEntry.index 0 x.leader.log := h.leader_whole ▸ h.leader
  obtain ⟨hpos, hat⟩ := hidx.mem_iff.mp he
  by_contra hge
  have hsame := h.leader_valid.getElem?_eq h.follower_valid hz hat (hzt.trans hterm.symm)
    (by omega)
  have hposn : (x.leader.nextOf addr - 1).toNat - 1 = (x.leader.nextOf addr - 1 - 1).toNat := by
    omega
  exact hdiff (by rw [hs.prevLogTerm z (by omega) (hposn ▸ hsame), hzt])

theorem round_cases (h : x.Searching L addr) (term : Int) :
    (term < x.follower.currentTerm ∧ (x.round term addr).2 = .deposed) ∨
    x.follower.currentTerm ≤ term ∧
      ((∃ conflictIndex conflictTerm,
        x.follower.checkPrev (x.leader.peerArgs term addr).args =
          some (conflictIndex, conflictTerm) ∧
        x.round term addr = (⟨x.leader.handleNack addr conflictIndex conflictTerm,
          x.follower.acceptLeader (x.leader.peerArgs term addr).args Faults.none⟩, .refused)) ∨
      (x.follower.handleAppendEntries (x.leader.peerArgs term addr).args
          Faults.none).2.success = true ∧
        ∃ leader, x.round term addr = (⟨leader, (x.follower.handleAppendEntries
          (x.leader.peerArgs term addr).args Faults.none).1⟩, .replicated)) := by
  have hround : x.round term addr =
      if term < (x.follower.handleAppendEntries (x.leader.peerArgs term addr).args
        Faults.none).2.term then _ else if _ then _ else _ :=
    if_neg (by rw [h.needsSnapshot_eq_false]; exact Bool.false_ne_true)
  rcases RaftNode.handleAppendEntries_cases x.follower (x.leader.peerArgs term addr).args
    Faults.none with ⟨hlt, heq⟩ | ⟨hge, _, hreply⟩
  · rw [heq] at hround
    refine .inl ⟨hlt, ?_⟩
    rw [hround]
    exact congrArg Prod.snd (if_pos hlt)
  · have hnow : ¬term < (x.follower.handleAppendEntries (x.leader.peerArgs term addr).args
        Faults.none).2.term := by
      rw [hreply, RaftNode.currentTerm_acceptLeader hge]
      exact lt_irrefl term
    rw [if_neg hnow] at hround
    refine .inr ⟨hge, ?_⟩
    rcases RaftNode.handleAppendEntries_none hge with ⟨ci, ct, hc, heq⟩ | ⟨_, hok, _⟩
    · rw [heq] at hround
      exact .inl ⟨ci, ct, hc, hround.trans (if_neg Bool.false_ne_true)⟩
    · exact .inr ⟨hok, _, hround.trans (if_pos hok)⟩

theorem refused (h : x.Searching L addr) (hr : Refused term addr x y) :
    y.Searching L addr ∧ y.leader.nextOf addr < x.leader.nextOf addr ∧
      y.leader.log = x.leader.log ∧ y.follower.currentTerm = term := by
  unfold Refused at hr
  rcases h.round_cases term with ⟨_, hdep⟩ | ⟨hge, ⟨ci, ct, hc, heq⟩ | ⟨_, _, heq⟩⟩
  · rw [hr] at hdep
    cases hdep
  · rw [heq] at hr
    obtain rfl := (Prod.mk.inj hr).1
    obtain ⟨hlo, hhi, _⟩ := RaftNode.checkPrev_some h.follower h.follower_whole hc
    obtain ⟨hone, hback⟩ := RaftNode.nextOf_handleNack h.pointers addr hlo hhi
      (fun hne => h.index_lt hc hne)
    have hlt : (x.leader.handleNack addr ci ct).nextOf addr < x.leader.nextOf addr :=
      lt_of_le_of_lt hback (sub_one_lt _)
    have honly := RaftNode.electionOnly_acceptLeader x.follower
      (x.leader.peerArgs term addr).args Faults.none
    refine ⟨⟨h.leader, h.leader_whole, h.leader_valid, ?_,
      honly.setup.snapshotIndex.trans h.follower_whole, honly.log ▸ h.follower_valid, ?_, hone,
        hlt.le.trans h.next_le⟩, hlt, rfl,
      RaftNode.currentTerm_acceptLeader hge⟩
    · unfold RaftNode.Contiguous
      rw [honly.log, honly.setup.snapshotIndex]
      exact h.follower
    · show (x.leader.nextIndex.map _).isSome
      rw [Option.isSome_map]
      exact h.pointers
  · rw [heq] at hr
    cases (Prod.mk.inj hr).2

theorem replicated (h : x.Searching L addr) (hr : x.round term addr = (y, .replicated)) :
    x.leader.log <+: y.follower.log := by
  rcases h.round_cases term with ⟨_, hdep⟩ | ⟨hge, ⟨_, _, _, heq⟩ | ⟨hok, _, heq⟩⟩
  · rw [hr] at hdep
    cases hdep
  · rw [heq] at hr
    cases (Prod.mk.inj hr).2
  · rw [heq] at hr
    obtain rfl := (Prod.mk.inj hr).1
    have hidx : Indexed LogEntry.index 0 x.leader.log := h.leader_whole ▸ h.leader
    rcases h.follows.log_cases hidx hge (h.slice term) with ⟨hno, _⟩ | ⟨_, hp, hlog⟩
    · rw [hok] at hno
      cases hno
    · have hall := take_overwrite h.follows.matching le_rfl hp
      rw [List.take_length] at hall
      rw [← hall]
      rw [hlog]
      exact List.take_prefix _ _

theorem progress (h : x.Searching L addr) (hterm : x.follower.currentTerm ≤ term) :
    (∃ y, x.round term addr = (y, .replicated)) ∨ ∃ y, Refused term addr x y := by
  rcases h.round_cases term with ⟨hlt, _⟩ | ⟨_, ⟨_, _, _, heq⟩ | ⟨_, _, heq⟩⟩
  · omega
  · exact .inr ⟨_, heq⟩
  · exact .inl ⟨_, heq⟩

theorem rounds (h : x.Searching L addr) (hr : Relation.ReflTransGen (Refused term addr) x y) :
    y.Searching L addr ∧ y.leader.log = x.leader.log := by
  induction hr with
  | refl => exact ⟨h, rfl⟩
  | tail _ hstep ih =>
    obtain ⟨hnext, _, hlog, _⟩ := ih.1.refused hstep
    exact ⟨hnext, hlog.trans ih.2⟩

end Searching

end Backup

/-! ### Every run -/

section

variable [Codec]

/-- The node as a leader with the pointers `next` and `mtch`. -/
def RaftNode.withPointers (n : RaftNode) (next mtch : Addr → Option Int) : RaftNode :=
  { n with nextIndex := some next, matchIndex := some mtch }

theorem searching_of_visits {C : Cluster} {w₀ w : World} {us : List World} (h₀ : Booted w₀)
    (hrun : Visits (World.step C) (fun w e => unsnappedOk C w e) w₀ (w :: us))
    (hu : OneLeaderPerTerm C (w :: us)) (a b addr : Addr) (next mtch : Addr → Option Int) {i : Int}
    (hi : next addr = some i) (hlo : 1 ≤ i) (hhi : i ≤ (w a).raft.lastEntry.1 + 1) :
    ∃ L, Backup.Searching L addr ⟨(w a).raft.withPointers next mtch, (w b).raft⟩ := by
  obtain ⟨_, _, L, heq, _, _, h⟩ := logs_of_visits h₀ hrun hu
  cases heq
  have hsnap : ∀ c, (w c).raft.snapshotIndex = 0 := fun c => ((h.covers c).length).symm
  have hnext : ((w a).raft.withPointers next mtch).nextOf addr = i := by
    simp [RaftNode.nextOf, RaftNode.withPointers, hi]
  refine ⟨L, (h.covers a).contiguous, hsnap a, h.valid a, (h.covers b).contiguous, hsnap b,
    h.valid b, rfl, hnext.symm ▸ hlo, ?_⟩
  rw [RaftNode.lastEntry_index (h.covers a).contiguous, hsnap a, Int.zero_add] at hhi
  rw [hnext]
  exact hhi

/-- **Fast Backup terminates.**  From any place in the leader's log, every refused round
is a step back, never beyond index 1, so some round succeeds; then the leader's log is the
start of the follower's. -/
theorem fast_backup_terminates {C : Cluster} {w₀ w : World} {us : List World} (h₀ : Booted w₀)
    (hrun : Visits (World.step C) (fun w e => unsnappedOk C w e) w₀ (w :: us))
    (hu : OneLeaderPerTerm C (w :: us)) (a b addr : Addr) (next mtch : Addr → Option Int) {i : Int}
    (hi : next addr = some i) (hlo : 1 ≤ i) (hhi : i ≤ (w a).raft.lastEntry.1 + 1) (term : Int) :
    (∀ x, Relation.ReflTransGen (Backup.Refused term addr)
        ⟨(w a).raft.withPointers next mtch, (w b).raft⟩ x →
      (∀ y, Backup.Refused term addr x y →
        1 ≤ y.leader.nextOf addr ∧ y.leader.nextOf addr < x.leader.nextOf addr) ∧
      ∀ y, x.round term addr = (y, .replicated) → (w a).raft.log <+: y.follower.log) ∧
    ((w b).raft.currentTerm ≤ term → ∃ x y, Relation.ReflTransGen (Backup.Refused term addr)
        ⟨(w a).raft.withPointers next mtch, (w b).raft⟩ x ∧
      x.round term addr = (y, .replicated)) := by
  obtain ⟨L, h⟩ := searching_of_visits h₀ hrun hu a b addr next mtch hi hlo hhi
  constructor
  · intro x hx
    obtain ⟨hx, hlog⟩ := h.rounds hx
    refine ⟨fun y hy => ?_, fun y hy => ?_⟩
    · obtain ⟨hnext, hlt, _⟩ := hx.refused hy
      exact ⟨hnext.next_pos, hlt⟩
    · have hpre := hx.replicated hy
      rwa [hlog] at hpre
  · intro hterm
    have hback : ∀ x y : Backup, x.Searching L addr ∧ x.follower.currentTerm ≤ term →
        Backup.Refused term addr x y →
        (y.Searching L addr ∧ y.follower.currentTerm ≤ term) ∧
          (y.leader.nextOf addr).toNat < (x.leader.nextOf addr).toNat := by
      intro x y hx hy
      obtain ⟨hnext, hlt, _, hcur⟩ := hx.1.refused hy
      have hpos := hnext.next_pos
      exact ⟨⟨hnext, hcur.le⟩, by omega⟩
    obtain ⟨x, hx, _, y, hy⟩ := exists_done (fun x : Backup => (x.leader.nextOf addr).toNat) hback
      (fun x hx => hx.1.progress hx.2) ⟨h, hterm⟩
    exact ⟨x, y, hx, hy⟩

end

/-! ### Logs of conflicting terms -/

section

local instance backupCodec : Codec := Codec.silent

/-- After `replicatedRun` `a` appends two more entries of term 1, which nobody gets.  `b`
wins term 2 and appends two entries of its own. -/
def conflictingRun : List (Addr × Act) :=
  replicatedRun ++ [("a", .propose [121] Faults.none), ("a", .propose [122] Faults.none),
    ("c", .deliver ⟨"b", 0, "c", .vote ⟨2, "b", 1, 1⟩⟩ Faults.none),
    ("b", .voteResult "c" (some (2, true))), ("b", .dispatch), ("b", .enterLeader),
    ("b", .propose [123] Faults.none), ("b", .propose [124] Faults.none)]

/-- `b` at the end of its log, and `a`. -/
def backupOf (w : World) : Backup :=
  ⟨(w "b").raft.withPointers (fun _ => some 4) (fun _ => some 0), (w "a").raft⟩

/-- `a` has an entry of term 1 where `b` expects one of term 2, and refuses.  In the end it
has the log of `b`. -/
theorem fast_backup_terminates_conflicting :
    ∃ w us, Visits (World.step trio) (fun w e => unsnappedOk trio w e) (World.init trio) (w :: us) ∧
      OneLeaderPerTerm trio (w :: us) ∧ (w "a").raft.log.map LogEntry.term = [1, 1, 1] ∧
      (w "b").raft.log.map LogEntry.term = [1, 2, 2] ∧
      ((backupOf w).round 2 "a").2 = .refused ∧
      ∃ x y, Relation.ReflTransGen (Backup.Refused 2 "a") (backupOf w) x ∧
        x.round 2 "a" = (y, .replicated) ∧ (w "b").raft.log <+: y.follower.log := by
  have h : ∃ r : World × List World,
      trace (World.step trio) (fun w e => unsnappedOk trio w e) [] (World.init trio)
        conflictingRun = some r ∧ LedBy trio (fun t => if t = 1 then "a" else "b") (r.1 :: r.2) ∧
      (r.1 "a").raft.log.map LogEntry.term = [1, 1, 1] ∧
      (r.1 "b").raft.log.map LogEntry.term = [1, 2, 2] ∧
      ((backupOf r.1).round 2 "a").2 = .refused ∧
      4 ≤ (r.1 "b").raft.lastEntry.1 + 1 ∧ (r.1 "a").raft.currentTerm ≤ 2 :=
    exists_of_any (by decide +kernel)
  obtain ⟨⟨w, us⟩, hr, hled, ha, hb, hrefused, hlast, hterm⟩ := h
  have hrun := Visits.start.of_trace hr
  have hu := hled.oneLeaderPerTerm
  obtain ⟨hall, hend⟩ := fast_backup_terminates (booted_init trio) hrun hu "b" "a" "a"
    (fun _ => some 4) (fun _ => some 0) rfl (by decide) hlast 2
  obtain ⟨x, y, hx, hy⟩ := hend hterm
  exact ⟨w, us, hrun, hu, ha, hb, hrefused, x, y, hx, hy, (hall x hx).2 y hy⟩

end

end Raft
