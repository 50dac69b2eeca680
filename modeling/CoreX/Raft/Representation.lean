/-
CoreX/Raft/Representation.lean

The representation invariant of log and snapshot (`Rep`): the log is consecutive
from `snapshotIndex + 1` on, and the commit index does not exceed its end.  Along
a run neither `snapshotIndex` nor `commitIndex` goes back.
-/
import CoreX.Raft.Commit
import CoreX.Raft.Record

namespace Raft

open StepSystem

namespace RaftNode

variable {n n' m : RaftNode}

/-- The representation invariant of a node's log. -/
structure Rep (n : RaftNode) : Prop where
  contiguous : n.Contiguous
  nonneg : 0 ≤ n.snapshotIndex
  commit_le : n.commitIndex ≤ n.lastEntry.1

/-- Neither boundary has moved back. -/
structure NoEarlier (n n' : RaftNode) : Prop where
  snapshotIndex : n.snapshotIndex ≤ n'.snapshotIndex
  commitIndex : n.commitIndex ≤ n'.commitIndex

theorem NoEarlier.refl (n : RaftNode) : NoEarlier n n := ⟨le_rfl, le_rfl⟩

theorem NoEarlier.trans (h : NoEarlier n n') (h' : NoEarlier n' m) : NoEarlier n m :=
  ⟨h.snapshotIndex.trans h'.snapshotIndex, h.commitIndex.trans h'.commitIndex⟩

/-! ### What the operations on the log do to it -/

theorem Rep.of_eq (h : Rep n) (hlog : n'.log = n.log) (hsi : n'.snapshotIndex = n.snapshotIndex)
    (hc : n'.commitIndex = n.commitIndex) : Rep n' ∧ NoEarlier n n' := by
  have hcont : n'.Contiguous := by
    unfold Contiguous
    rw [hlog, hsi]
    exact h.contiguous
  refine ⟨⟨hcont, hsi ▸ h.nonneg, ?_⟩, hsi.ge, hc.ge⟩
  rw [hc, lastEntry_index hcont, hlog, hsi, ← lastEntry_index h.contiguous]
  exact h.commit_le

theorem Rep.sameRecord (h : Rep n) (hs : SameRecord n n') : Rep n' ∧ NoEarlier n n' := by
  rcases hs.commitIndex with hc | ⟨hlt, e, he⟩
  · exact h.of_eq hs.log hs.snapshotIndex hc
  · have hcont : n'.Contiguous := by
      unfold Contiguous
      rw [hs.log, hs.snapshotIndex]
      exact h.contiguous
    refine ⟨⟨hcont, hs.snapshotIndex ▸ h.nonneg, ?_⟩, hs.snapshotIndex.ge, hlt.le⟩
    have hle := (le_of_entryAt h.contiguous h.nonneg he).2
    rwa [lastEntry_index hcont, hs.log, hs.snapshotIndex, ← lastEntry_index h.contiguous]

theorem Rep.truncate (h : Rep n) {i t : Int} (hi : n.snapshotIndex ≤ i) :
    Rep (n.truncateLogPrefix i t) ∧ NoEarlier n (n.truncateLogPrefix i t) := by
  refine ⟨⟨truncateLogPrefix_contiguous h.contiguous hi, h.nonneg.trans hi, ?_⟩, hi, le_rfl⟩
  rw [truncateLogPrefix_lastEntry h.contiguous hi]
  exact h.commit_le.trans (le_max_right _ _)

theorem Rep.discard (h : Rep n) {args : InstallSnapshotArgs} {data : SnapshotData}
    (hsnap : n.snapshotIndex ≤ args.lastIncludedIndex)
    (hcommit : n.commitIndex ≤ args.lastIncludedIndex) :
    Rep (n.installDiscard args data) ∧ NoEarlier n (n.installDiscard args data) := by
  have hc : (n.installDiscard args data).commitIndex = args.lastIncludedIndex := by
    show (if n.commitIndex < args.lastIncludedIndex then args.lastIncludedIndex
      else n.commitIndex) = _
    split <;> omega
  refine ⟨⟨Indexed.nil, h.nonneg.trans hsnap, ?_⟩, hsnap, hc ▸ hcommit⟩
  rw [hc]
  exact le_rfl

variable [Codec]

theorem Rep.append (h : Rep n) {e : LogEntry} (he : e.index = n.lastEntry.1 + 1) :
    Rep (n.appendEntry e) ∧ NoEarlier n (n.appendEntry e) := by
  have hes : Indexed LogEntry.index n.lastEntry.1 [e] :=
    Indexed.cons_iff.mpr ⟨he, Indexed.nil⟩
  have hcont : (n.appendAll [e]).Contiguous := appendAll_contiguous h.contiguous hes
  refine ⟨⟨hcont, ?_, ?_⟩, ?_, ?_⟩
  · rw [appendEntry_snapshotIndex]
    exact h.nonneg
  · show (n.appendEntry e).commitIndex ≤ (n.appendAll [e]).lastEntry.1
    rw [appendEntry_commitIndex, appendAll_lastEntry h.contiguous hes]
    have := h.commit_le
    omega
  · rw [appendEntry_snapshotIndex]
  · rw [appendEntry_commitIndex]

/-- No entry of the batch conflicts with an entry that the node knows to be
committed; a batch that is refused cannot. -/
def keepsCommitted (n : RaftNode) (args : AppendEntriesArgs) : Bool :=
  decide (args.term < n.currentTerm) || (n.checkPrev args).isSome ||
    args.entries.all fun e => (n.entryAt e.index).all fun x =>
      x.term == e.term || decide (n.commitIndex < e.index)

omit [Codec] in
theorem of_keepsCommitted {args : AppendEntriesArgs} (h : n.keepsCommitted args = true)
    (hterm : n.currentTerm ≤ args.term) (hpass : n.checkPrev args = none) {e : PbLogEntry}
    {x : LogEntry} (he : e ∈ args.entries) (hx : n.entryAt e.index = some x)
    (ht : x.term ≠ e.term) : n.commitIndex < e.index := by
  have hstale : ¬args.term < n.currentTerm := by omega
  simp only [keepsCommitted, hstale, hpass, decide_false, Option.isSome_none, Bool.false_or,
    List.all_eq_true] at h
  have hat := h e he
  simpa [hx, ht] using hat

theorem Rep.spliced {es : List PbLogEntry} {all : Bool} (h : Rep n) (hs : Spliced n es all m)
    (hkeep : ∀ e ∈ es, ∀ x, n.entryAt e.index = some x → x.term ≠ e.term →
      n.commitIndex < e.index) : Rep m ∧ NoEarlier n m := by
  obtain ⟨hcont, hsi, hci⟩ := hs.contiguous h.contiguous h.nonneg
  refine ⟨⟨hcont, hsi ▸ h.nonneg, ?_⟩, hsi.ge, hci.ge⟩
  cases hs with
  | grown added hadd =>
    rw [appendAll_lastEntry h.contiguous hadd]
    have := h.commit_le
    omega
  | replaced e x added hx ht hadd skipped he =>
    -- the log is cut to the index before `e` and grows again from there
    obtain ⟨hlo, hhi⟩ := le_of_entryAt h.contiguous h.nonneg hx
    have hend := cutSuffix_lastEntry h.contiguous hlo hhi
    rw [← hend] at hadd
    rw [appendAll_lastEntry (cutSuffix_contiguous h.contiguous _) hadd, hend]
    have := hkeep e (he.subset (by simp)) x hx ht
    omega

omit [Codec] in
theorem Rep.follow (h : Rep n) (leaderCommit : Int) :
    Rep (n.followCommit leaderCommit) ∧ NoEarlier n (n.followCommit leaderCommit) := by
  unfold followCommit
  split
  · next hlt =>
    have hle : n.commitIndex ≤ if leaderCommit < n.lastEntry.1 then leaderCommit
        else n.lastEntry.1 := by
      have := h.commit_le
      split <;> omega
    refine ⟨⟨h.contiguous, h.nonneg, ?_⟩, le_rfl, hle⟩
    show (if leaderCommit < n.lastEntry.1 then leaderCommit else n.lastEntry.1) ≤ n.lastEntry.1
    split <;> omega
  · exact ⟨h, NoEarlier.refl n⟩

theorem Rep.handleAppendEntries (h : Rep n) {args : AppendEntriesArgs} (f : Faults)
    (hfit : n.batchFits args = true) (hkeep : n.keepsCommitted args = true) :
    Rep (n.handleAppendEntries args f).1 ∧ NoEarlier n (n.handleAppendEntries args f).1 := by
  obtain ⟨n₁, n₂, _, honly, hspl, hres, hreach⟩ :=
    handleAppendEntries_spliced f h.contiguous h.nonneg hfit
  obtain ⟨h₁, hle₁⟩ := h.sameRecord honly.sameRecord
  have h₂ : Rep n₂ ∧ NoEarlier n₁ n₂ := by
    rcases hreach with rfl | ⟨hterm, hpass⟩
    · exact ⟨h₁, NoEarlier.refl _⟩
    · refine h₁.spliced hspl ?_
      obtain ⟨_, _, _, _, _, _, rfl⟩ := honly
      exact fun e he x hx ht => of_keepsCommitted hkeep hterm hpass he hx ht
  rcases hres with hres | hres
  · rw [hres]
    exact ⟨h₂.1, hle₁.trans h₂.2⟩
  · rw [hres]
    obtain ⟨h₃, hle₃⟩ := h₂.1.follow args.leaderCommit
    exact ⟨h₃, (hle₁.trans h₂.2).trans hle₃⟩

end RaftNode

/-! ### One section -/

/-- The tests that the code does not make.  `fits` is the one for the place of a
batch. -/
def repTest (fits : RaftNode → AppendEntriesArgs → Bool) (s : Node) : RecordEvent → Bool
  | .batch args => fits s.raft args && s.raft.keepsCommitted args
  | .discard args _ =>
      decide (s.raft.snapshotIndex ≤ args.lastIncludedIndex) &&
        decide (s.raft.commitIndex ≤ args.lastIncludedIndex)
  | .truncate m => decide (s.raft.snapshotIndex ≤ m.index)
  | .restart => false
  | _ => true

theorem RaftNode.Rep.step [Codec] {s s' : Node} {ev : RecordEvent} (h : RaftNode.Rep s.raft)
    (hs : RecordStep s s' ev) (hok : repTest RaftNode.batchFits s ev = true) :
    RaftNode.Rep s'.raft ∧ RaftNode.NoEarlier s.raft s'.raft := by
  cases hs with
  | keep hr => exact h.sameRecord hr
  | extend e he hr =>
    rw [hr]
    exact h.append he
  | batch args f hr =>
    obtain ⟨hfit, hkeep⟩ := Bool.and_eq_true_iff.mp hok
    rw [hr]
    exact h.handleAppendEntries f hfit hkeep
  | fast args hf hr =>
    obtain ⟨e, _, he, _⟩ := RaftNode.installFast_iff.mp hf
    rw [hr]
    exact h.truncate (RaftNode.lt_of_entryAt h.contiguous h.nonneg he).1.le
  | discard args data hr =>
    obtain ⟨hsnap, hcommit⟩ := Bool.and_eq_true_iff.mp hok
    rw [hr]
    exact h.discard (of_decide_eq_true hsnap) (of_decide_eq_true hcommit)
  | truncate m _ hr =>
    rw [hr]
    exact h.truncate (of_decide_eq_true hok)
  | saveInstalled _ hr => rw [hr]; exact h.of_eq rfl rfl rfl
  | save _ _ hr => rw [hr]; exact h.of_eq rfl rfl rfl
  | compact _ _ hr => rw [hr]; exact h.of_eq rfl rfl rfl
  | take _ _ _ hr => rw [hr]; exact h.of_eq rfl rfl rfl
  | capture _ _ _ _ _ hr => rw [hr]; exact h.of_eq rfl rfl rfl
  | giveUp _ hr => rw [hr]; exact h.of_eq rfl rfl rfl
  | restart => cases hok

/-! ### The batches that leaders send -/

theorem RaftNode.consecutive_peerArgs {n : RaftNode} (h : n.Contiguous) {addr : Addr}
    (hnext : n.snapshotIndex < n.nextOf addr) (term : Int) :
    (n.peerArgs term addr).args.consecutive = true := by
  have hentries : (n.peerArgs term addr).args.entries.map PbLogEntry.toEntry
      = n.log.drop (n.nextOf addr - n.snapshotIndex - 1).toNat := by
    show ((n.log.filter _).map LogEntry.toPb).map PbLogEntry.toEntry = _
    rw [map_toEntry_toPb, h.filter_le]
  have hbase : n.snapshotIndex + (n.nextOf addr - n.snapshotIndex - 1).toNat
      = (n.peerArgs term addr).args.prevLogIndex := by
    show _ = n.nextOf addr - 1
    omega
  have hidx := h.drop (n.nextOf addr - n.snapshotIndex - 1).toNat
  rw [hbase, ← hentries] at hidx
  simp [AppendEntriesArgs.consecutive, hidx]

/-! ### Runs of a cluster -/

/-- The condition on the sections of a run. -/
def repOk (w : World) (e : Addr × Act) : Bool :=
  repTest RaftNode.placeFits (w e.1) ((w e.1).recordEvent e.2) && sendsAbove (w e.1) e.2

/-- All nodes keep the invariant, and all batches on the way are consecutive. -/
structure RepWorld (w : World) : Prop where
  rep : ∀ a, RaftNode.Rep (w a).raft
  sent : ∀ a, ∀ c ∈ (w a).sent, ∀ args, c.req = .append args → args.consecutive = true

theorem repWorld_init [Codec] (C : Cluster) : RepWorld (World.init C) where
  rep a := by
    show RaftNode.Rep (Node.fresh _ _ _ _ _ _ _).raft
    rw [Node.raft_fresh]
    exact ⟨Indexed.nil, le_rfl, le_rfl⟩
  sent a c hc := absurd hc List.not_mem_nil

section

variable {C : Cluster} {w w' : World}

theorem RepWorld.test (h : RepWorld w) {a : Addr} {act : Act} (havail : w.available a act = true)
    (hok : repTest RaftNode.placeFits (w a) ((w a).recordEvent act) = true) :
    repTest RaftNode.batchFits (w a) ((w a).recordEvent act) = true := by
  rcases hev : (w a).recordEvent act with - | args
  case batch =>
    -- only a request brings a batch
    obtain ⟨c, f, rfl, hreq⟩ : ∃ c f, act = .deliver c f ∧ c.req = .append args := by
      exact Node.deliver_of_batch hev
    have hsent : c ∈ (w c.src).sent := by simpa [World.available] using havail
    rw [hev] at hok
    simp only [repTest] at hok ⊢
    rw [RaftNode.batchFits, h.sent c.src c hsent args hreq, Bool.true_and]
    exact hok
  all_goals
    rw [hev] at hok
    exact hok

variable [Codec]

theorem RepWorld.step {e : Addr × Act} (h : RepWorld w) (hstep : World.step C w e = some w')
    (hok : repOk w e = true) :
    RepWorld w' ∧ ∀ a, RaftNode.NoEarlier (w a).raft (w' a).raft := by
  obtain ⟨b, act⟩ := e
  obtain ⟨_, havail, s', hs, rfl⟩ := World.step_cases hstep
  obtain ⟨hguard, habove⟩ := Bool.and_eq_true_iff.mp hok
  obtain ⟨hrep, hle⟩ := (h.rep b).step (Node.record_step hs) (h.test havail hguard)
  have hsent : ∀ c ∈ s'.sent, ∀ args, c.req = .append args → args.consecutive = true := by
    rintro ⟨src, id, dst, _⟩ hc args rfl
    rcases hs.sends hc with hc | ⟨_, hsends⟩
    · exact h.sent b _ hc args rfl
    cases hsends with
    | batch term peers p hl hp =>
      obtain ⟨addr, haddr, rfl⟩ := List.mem_map.mp hp
      obtain ⟨ha, hn⟩ := List.mem_filter.mp haddr
      rw [Bool.not_eq_true'] at hn
      -- the peer does not get a snapshot, so its next index lies above ours
      simp only [sendsAbove, hl, List.all_eq_true] at habove
      have hnext := habove addr ha
      simp only [hn, Bool.false_or, decide_eq_true_eq] at hnext
      exact RaftNode.consecutive_peerArgs (h.rep b).contiguous hnext term
    | confirm => rfl
  refine ⟨⟨fun a => ?_, fun a => ?_⟩, fun a => ?_⟩
  · rcases eq_or_ne a b with rfl | hne
    · rwa [Function.update_self]
    · rw [Function.update_of_ne hne]
      exact h.rep a
  · rcases eq_or_ne a b with rfl | hne
    · rwa [Function.update_self]
    · rw [Function.update_of_ne hne]
      exact h.sent a
  · rcases eq_or_ne a b with rfl | hne
    · rwa [Function.update_self]
    · rw [Function.update_of_ne hne]
      exact RaftNode.NoEarlier.refl _

/-- **The representation invariant.**  In every state of every run whose sections
pass the tests, the log of each node is consecutive from its snapshot on and
reaches its commit index, and no boundary is lower than in any earlier state. -/
theorem log_representation (h : Runs (World.step C) (fun w e => repOk w e) (World.init C) w)
    (h' : Runs (World.step C) (fun w e => repOk w e) w w') (a : Addr) :
    RaftNode.Rep (w' a).raft ∧ RaftNode.NoEarlier (w a).raft (w' a).raft := by
  have hkeep : ∀ w e w', RepWorld w → World.step C w e = some w' → repOk w e = true →
      RepWorld w' := fun _ _ _ hw hstep hok => (hw.step hstep hok).1
  have hw : RepWorld w := h.invariant hkeep (repWorld_init C)
  refine ⟨(h'.invariant hkeep hw).rep a, ?_⟩
  exact Runs.relates (R := fun w w' : World => RaftNode.NoEarlier (w a).raft (w' a).raft) hkeep
    (fun w => RaftNode.NoEarlier.refl _) (fun _ _ _ h₁ h₂ => h₁.trans h₂)
    (fun _ _ _ hw hstep hok => (hw.step hstep hok).2 a) h' hw

end

/-! ### A batch that arrives after its entries are compacted -/

section

local instance recordCodec : Codec := Codec.twoKeys

/-- Two members with all stores, which take a snapshot after every entry. -/
def duo : Cluster where
  members := ["a", "b"]
  nodup := by decide
  idOf a := a
  idOf_inj _ _ _ _ h := h
  idOf_ne := by decide
  peersOf a := ["a", "b"].erase a
  peers_perm _ _ := List.Perm.refl _
  storesOf _ := ⟨true, true, true, some ⟨1, 2⟩⟩

/-- `a` leads term 1, replicates an entry to `b` and commits it; `b` learns that it is
committed, applies it, takes a snapshot at index 1 and compacts its log. -/
def compactedRun : List (Addr × Act) :=
  campaign "a" ++ [requestVote "a" 0 1 "b", ("a", .voteResult "b" (some (1, true))),
    ("a", .dispatch), ("a", .enterLeader)] ++ proposeAndSend "a" (goString setA) ++
    [appendEntries "a" 1 "b" ⟨1, "a", 0, 0, [entryA.toPb], 0⟩, acked "a" 1 "b",
      ("a", .tick), ("a", .build), ("a", .readConfig),
      appendEntries "a" 2 "b" ⟨1, "a", 1, 1, [], 1⟩, acked "a" 1 "b",
      ("b", .collect), ("b", .emit), ("b", .apply false), ("b", .snapTake), ("b", .snapCapture),
      ("b", .snapSave false), ("b", .snapTruncate), ("b", .snapCompact)]

/-- **The first batch arrives once more** and is appended behind its own snapshot:
`PrevLogIndex = 0` skips the consistency check, and the compacted entry counts as
missing. -/
theorem duplicate_batch_breaks_log :
    ∃ w, exec (World.step duo) (fun _ _ => True) (World.init duo)
        (compactedRun ++ [appendEntries "a" 1 "b" ⟨1, "a", 0, 0, [entryA.toPb], 0⟩]) = some w ∧
      (w "b").raft.snapshotIndex = 1 ∧ (w "b").raft.log = [entryA] ∧
      ¬(w "b").raft.Contiguous := by
  exact exists_of_any (by decide +kernel)

/-- After the snapshot `a` replicates a second entry. -/
def resumedRun : List (Addr × Act) :=
  proposeAndSend "a" (goString setB) ++
    [appendEntries "a" 3 "b" ⟨1, "a", 1, 1, [⟨2, 1, 0, goString setB⟩], 1⟩]

theorem log_representation_resumed :
    ∃ w u, Runs (World.step duo) (fun w e => repOk w e) (World.init duo) w ∧
      Runs (World.step duo) (fun w e => repOk w e) w u ∧
      ((w "b").raft.snapshotIndex = 1 ∧ (u "b").raft.log.map LogEntry.index = [2]) ∧
      RaftNode.Rep (u "b").raft ∧ RaftNode.NoEarlier (w "b").raft (u "b").raft :=
  Runs.exists_and_of_execs compactedRun resumedRun (by decide +kernel) fun _ _ h h' _ =>
    log_representation h h' "b"

end

end Raft
