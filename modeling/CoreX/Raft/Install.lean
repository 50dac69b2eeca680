/-
CoreX/Raft/Install.lean

Installing a snapshot.  A transfer arrives as a list of chunks; received without
interruption it ends in one call of `installApply` (`receive_chunks`), which
either discards the prefix the snapshot covers or replaces the whole log
(`installApply_fast`, `installApply_full`).

`installSnapshot_keeps_progress_iff` says exactly when a transfer takes nothing
back.  The code compares the snapshot with what is left of the log and with
nothing else, so a snapshot that the node is already past resets it:
`duplicate_snapshot_loses_entry` is the run in which one transfer arrives twice.
-/
import CoreX.Raft.Batch
import CoreX.Raft.Sections

namespace Raft

open StepSystem

namespace RaftNode

variable {n m n' : RaftNode}

instance : Decidable n.Contiguous := inferInstanceAs (Decidable (Indexed _ _ _))

/-! ### Discarding a prefix -/

theorem truncateLogPrefix_log (h : n.Contiguous) (i t : Int) :
    (n.truncateLogPrefix i t).log = n.log.drop (i - n.snapshotIndex).toNat :=
  h.dropWhile_le i

theorem truncateLogPrefix_contiguous (h : n.Contiguous) {i t : Int} (hi : n.snapshotIndex ≤ i) :
    (n.truncateLogPrefix i t).Contiguous := by
  show Indexed LogEntry.index i (n.truncateLogPrefix i t).log
  have hdrop := h.drop (i - n.snapshotIndex).toNat
  have hbase : n.snapshotIndex + (i - n.snapshotIndex).toNat = i := by omega
  rw [truncateLogPrefix_log h]
  rwa [hbase] at hdrop

theorem truncateLogPrefix_lastEntry (h : n.Contiguous) {i t : Int} (hi : n.snapshotIndex ≤ i) :
    (n.truncateLogPrefix i t).lastEntry.1 = max i n.lastEntry.1 := by
  rw [lastEntry_index (truncateLogPrefix_contiguous h hi), truncateLogPrefix_log h,
    lastEntry_index h, List.length_drop]
  show i + _ = _
  omega

theorem lt_of_entryAt (h : n.Contiguous) (hb : 0 ≤ n.snapshotIndex) {i : Int} {e : LogEntry}
    (he : n.entryAt i = some e) :
    n.snapshotIndex < i ∧ n.log[(i - n.snapshotIndex - 1).toNat]? = some e := by
  rw [entryAt_eq h hb] at he
  split at he
  · next hlt => exact ⟨hlt, he⟩
  · cases he

/-! ### Both ways of installing -/

variable {args : InstallSnapshotArgs} {data : SnapshotData}

theorem installFast_iff :
    n.installFast args = true ↔ ∃ e sm, n.entryAt args.lastIncludedIndex = some e ∧
      e.term = args.lastIncludedTerm ∧ n.sm = some sm ∧
      args.lastIncludedIndex ≤ sm.lastApplied := by
  unfold installFast
  constructor
  · intro h
    split at h
    · next e sm he hsm =>
      simp only [Bool.and_eq_true, beq_iff_eq, decide_eq_true_eq] at h
      exact ⟨e, sm, he, h.1, hsm, h.2⟩
    · cases h
  · rintro ⟨e, sm, he, ht, hsm, hle⟩
    simp [he, hsm, ht, hle]

theorem installApply_fast (h : n.installFast args = true) :
    n.installApply args data =
      n.truncateLogPrefix args.lastIncludedIndex args.lastIncludedTerm := by
  rw [installApply, if_pos h]

theorem installApply_full (h : n.installFast args = false) :
    n.installApply args data = ((n.installRestore args data).installDiscard args data).saveSnapshot
      (installedSnapshot args data) := by
  rw [installApply, if_neg (by simp [h])]

/-- The index the state machine has reached; `0` without one. -/
def appliedIndex (n : RaftNode) : Int := (n.sm.map KVStateMachine.lastApplied).getD 0

/-- **No progress is lost** from `n` to `n'` by a snapshot of index `L` and term
`T`: no boundary moves back, and if the entry at `L` is the snapshot's own, all
that follows it stays. -/
@[mk_iff]
structure KeepsProgress (n n' : RaftNode) (L T : Int) : Prop where
  snapshotIndex : n.snapshotIndex ≤ n'.snapshotIndex
  commitIndex : n.commitIndex ≤ n'.commitIndex
  lastIndex : n.termAt L = some T → n.lastEntry.1 ≤ n'.lastEntry.1
  applied : n.appliedIndex ≤ n'.appliedIndex
  entries : n.termAt L = some T → ∀ e ∈ n.log, L < e.index → e ∈ n'.log

instance {L T : Int} : Decidable (KeepsProgress n n' L T) :=
  decidable_of_iff _ (keepsProgress_iff n n' L T).symm

/-- The states that a snapshot of index `L` and term `T` does not set back: its
last entry is in the log, of the same term and applied; or nothing the node has
reaches beyond the snapshot, entries that do not continue it excepted. -/
def InstallSafe (n : RaftNode) (L T : Int) : Prop :=
  (∃ e sm, n.entryAt L = some e ∧ e.term = T ∧ n.sm = some sm ∧ L ≤ sm.lastApplied) ∨
    (n.snapshotIndex ≤ L ∧ (∀ sm, n.sm = some sm → sm.lastApplied ≤ L) ∧
      (n.termAt L = some T → n.lastEntry.1 ≤ L))

theorem keepsProgress_truncate (h : n.Contiguous) (hb : 0 ≤ n.snapshotIndex) {L T : Int}
    {e : LogEntry} (he : n.entryAt L = some e) :
    KeepsProgress n (n.truncateLogPrefix L T) L T := by
  obtain ⟨hlt, _⟩ := lt_of_entryAt h hb he
  refine ⟨hlt.le, le_rfl, fun _ => ?_, le_rfl, fun _ x hx hL => ?_⟩
  · rw [truncateLogPrefix_lastEntry h hlt.le]
    exact le_max_right _ _
  · obtain ⟨_, hget⟩ := h.mem_iff.mp hx
    have hpos : (x.index - n.snapshotIndex - 1).toNat
        = (L - n.snapshotIndex).toNat + (x.index - L - 1).toNat := by omega
    rw [truncateLogPrefix_log h]
    rw [hpos, ← List.getElem?_drop] at hget
    exact List.mem_of_getElem? hget

theorem keepsProgress_full_iff (h : n.Contiguous) (hfast : n.installFast args = false) :
    KeepsProgress n (n.installApply args data) args.lastIncludedIndex args.lastIncludedTerm ↔
      n.snapshotIndex ≤ args.lastIncludedIndex ∧
      (∀ sm, n.sm = some sm → sm.lastApplied ≤ args.lastIncludedIndex) ∧
      (n.termAt args.lastIncludedIndex = some args.lastIncludedTerm →
        n.lastEntry.1 ≤ args.lastIncludedIndex) := by
  rw [installApply_full hfast]
  have happlied : ∀ sm, n.sm = some sm →
      (n.appliedIndex ≤ (((n.installRestore args data).installDiscard args data).saveSnapshot
        (installedSnapshot args data)).appliedIndex ↔ sm.lastApplied ≤ args.lastIncludedIndex) := by
    intro sm hsm
    have hnew : (((n.installRestore args data).installDiscard args data).saveSnapshot
        (installedSnapshot args data)).sm
        = some (.restoreSnapshot data args.lastIncludedIndex) := by
      show n.sm.map _ = _
      rw [hsm]
      rfl
    simp only [appliedIndex, hsm, hnew]
    exact Iff.rfl
  constructor
  · intro hk
    exact ⟨hk.snapshotIndex, fun sm hsm => (happlied sm hsm).mp hk.applied, hk.lastIndex⟩
  · rintro ⟨hsnap, hsm, hlast⟩
    refine ⟨hsnap, ?_, hlast, ?_, fun ht x hx hL => ?_⟩
    · show n.commitIndex ≤ if n.commitIndex < args.lastIncludedIndex then args.lastIncludedIndex
        else n.commitIndex
      split <;> omega
    · rcases hs : n.sm with - | sm
      · simp [appliedIndex, hs, saveSnapshot, installDiscard, installRestore]
      · exact (happlied sm hs).mpr (hsm sm hs)
    · -- an entry above `L` would put the end of the log above `L`
      have hle := hlast ht
      rw [lastEntry_index h] at hle
      obtain ⟨_, hget⟩ := h.mem_iff.mp hx
      have hlt := (List.getElem?_eq_some_iff.mp hget).1
      omega

theorem installApply_keepsProgress_iff (n : RaftNode) (args : InstallSnapshotArgs)
    (data : SnapshotData) (h : n.Contiguous) (hb : 0 ≤ n.snapshotIndex) :
    KeepsProgress n (n.installApply args data) args.lastIncludedIndex args.lastIncludedTerm ↔
      n.InstallSafe args.lastIncludedIndex args.lastIncludedTerm := by
  rcases hfast : n.installFast args with - | -
  · rw [keepsProgress_full_iff h hfast]
    refine ⟨.inr, fun hsafe => hsafe.resolve_left fun hc => ?_⟩
    rw [← installFast_iff, hfast] at hc
    cases hc
  · rw [installApply_fast hfast]
    obtain ⟨e, _, he, _⟩ := installFast_iff.mp hfast
    exact ⟨fun _ => .inl (installFast_iff.mp hfast), fun _ => keepsProgress_truncate h hb he⟩

/-! ### Receiving the chunks -/

/-- `m` differs from `n` only in what elections change and in the buffer of the
chunks. -/
def Receiving (n m : RaftNode) : Prop :=
  ∃ term vote stored role leader reset buf, m = { n with
    currentTerm := term
    votedFor := vote
    metaStore := stored
    role := role
    leaderID := leader
    resetCh := reset
    snapBuf := buf }

theorem Receiving.trans (h : Receiving n m) (h' : Receiving m n') : Receiving n n' := by
  obtain ⟨_, _, _, _, _, _, _, rfl⟩ := h
  obtain ⟨_, _, _, _, _, _, _, rfl⟩ := h'
  exact ⟨_, _, _, _, _, _, _, rfl⟩

theorem installAdmit_some (f : Faults) (h : n.currentTerm ≤ args.term) :
    ∃ m, n.installAdmit args f = some m ∧ ElectionOnly n m ∧ m.currentTerm = args.term := by
  unfold installAdmit
  rw [if_neg (by omega)]
  refine ⟨_, rfl, ?_⟩
  split
  · have hobs := electionOnly_observeTerm n args.term f.saveTerm
    refine ⟨hobs.trans ⟨_, _, _, _, _, _, rfl⟩, ?_⟩
    unfold observeTerm saveMeta
    split <;> rfl
  · refine ⟨⟨_, _, _, _, _, _, rfl⟩, ?_⟩
    show n.currentTerm = args.term
    omega

theorem electionOnly_installAdmit {f : Faults} (h : n.installAdmit args f = some m) :
    ElectionOnly n m := by
  have hle : n.currentTerm ≤ args.term := by
    by_contra hlt
    rw [installAdmit, if_pos (not_le.mp hlt)] at h
    cases h
  obtain ⟨m', hm', honly, _⟩ := installAdmit_some f hle
  obtain rfl : m' = m := Option.some.inj (hm'.symm.trans h)
  exact honly

/-- The chunks in which a sender of term `term` transfers the bytes `raw` of a
snapshot, `size` bytes at a time. -/
def transferChunks (term : Int) (leaderID : NodeID) (L T : Int) (size : Nat) (raw : Bytes) :
    List InstallSnapshotArgs :=
  snapshotChunks (fun offset data done => ⟨term, leaderID, L, T, offset, data, done⟩)
    size raw.length 0 raw

theorem snapshotChunks_cons (mk : Int → Bytes → Bool → InstallSnapshotArgs) (size k offset : Nat)
    (b : UInt8) (bs : Bytes) :
    snapshotChunks mk size (k + 1) offset (b :: bs) =
      mk offset ((b :: bs).take size) (decide ((b :: bs).length ≤ size)) ::
        snapshotChunks mk size k (offset + size) ((b :: bs).drop size) := rfl

variable [Codec]

/-- `n` receives the chunks one after the other. -/
def receive (n : RaftNode) (chunks : List InstallSnapshotArgs) (f : Faults) : RaftNode :=
  chunks.foldl (fun n args => (n.handleInstallSnapshot args f).1) n

omit [Codec] in
theorem mem_snapshotChunks {P : InstallSnapshotArgs → Prop}
    {mk : Int → Bytes → Bool → InstallSnapshotArgs} (hmk : ∀ o d b, P (mk o d b))
    {size k offset : Nat}
    {raw : Bytes} {c : InstallSnapshotArgs} (h : c ∈ snapshotChunks mk size k offset raw) :
    P c := by
  induction k generalizing offset raw with
  | zero => cases h
  | succ k ih =>
    cases raw with
    | nil => cases h
    | cons b bs =>
      rcases List.mem_cons.mp h with rfl | h
      · exact hmk _ _ _
      · exact ih h

theorem snapshotRequests_frame {s : Snapshot} (h : args ∈ n.snapshotRequests s) :
    args.term = n.currentTerm ∧
      args.lastIncludedIndex = s.snapMeta.index ∧ args.lastIncludedTerm = s.snapMeta.term :=
  mem_snapshotChunks (P := fun args => args.term = n.currentTerm ∧
    args.lastIncludedIndex = s.snapMeta.index ∧ args.lastIncludedTerm = s.snapMeta.term)
    (fun _ _ _ => ⟨rfl, rfl, rfl⟩) h

theorem handleInstallSnapshot_more (n : RaftNode) (args : InstallSnapshotArgs) (f : Faults)
    (hterm : n.currentTerm ≤ args.term) (hdone : args.done = false) :
    Receiving n (n.handleInstallSnapshot args f).1 ∧
      (n.handleInstallSnapshot args f).1.currentTerm = args.term ∧
      (n.handleInstallSnapshot args f).1.snapBuf
        = (if args.offset = 0 then [] else n.snapBuf) ++ args.data := by
  obtain ⟨m, hm, honly, hmt⟩ := installAdmit_some f hterm
  simp only [handleInstallSnapshot, hm, hdone]
  obtain ⟨_, _, _, _, _, _, rfl⟩ := honly
  exact ⟨⟨_, _, _, _, _, _, _, rfl⟩, hmt, rfl⟩

theorem handleInstallSnapshot_last (n : RaftNode) (args : InstallSnapshotArgs) (f : Faults)
    (hterm : n.currentTerm ≤ args.term) (hdone : args.done = true)
    (hdata : Codec.unmarshalSnapshotData ((if args.offset = 0 then [] else n.snapBuf) ++ args.data)
      = some (⟨args.lastIncludedIndex, args.lastIncludedTerm⟩, data)) :
    ∃ m, Receiving n m ∧ (n.handleInstallSnapshot args f).1 = m.installApply args data := by
  obtain ⟨m, hm, honly, _⟩ := installAdmit_some f hterm
  have hdecode : installDecode args (m.installBuffer args).snapBuf = some data := by
    obtain ⟨_, _, _, _, _, _, rfl⟩ := honly
    show installDecode args ((if args.offset = 0 then [] else n.snapBuf) ++ args.data) = some data
    simp [installDecode, hdata]
  refine ⟨{ m with snapBuf := [] }, ?_, ?_⟩
  · obtain ⟨_, _, _, _, _, _, rfl⟩ := honly
    exact ⟨_, _, _, _, _, _, _, rfl⟩
  · simp only [handleInstallSnapshot, hm, hdone, installTake, hdecode, if_true]
    rfl

theorem receive_from (f : Faults) {term : Int} {leaderID : NodeID} {L T : Int} {size : Nat}
    (hsize : 0 < size) {k offset : Nat} {raw : Bytes} (hk : raw.length ≤ k) (hne : raw ≠ [])
    (hterm : n.currentTerm ≤ term)
    (hdata : Codec.unmarshalSnapshotData ((if offset = 0 then [] else n.snapBuf) ++ raw)
      = some (⟨L, T⟩, data)) :
    ∃ m args, Receiving n m ∧ args.lastIncludedIndex = L ∧ args.lastIncludedTerm = T ∧
      n.receive (snapshotChunks (fun offset data done => ⟨term, leaderID, L, T, offset, data, done⟩)
        size k offset raw) f = m.installApply args data := by
  induction k generalizing n offset raw with
  | zero => exact absurd (List.length_eq_zero_iff.mp (Nat.le_zero.mp hk)) hne
  | succ k ih =>
    obtain ⟨b, bs, rfl⟩ := List.exists_cons_of_ne_nil hne
    rw [snapshotChunks_cons]
    by_cases hlast : (b :: bs).length ≤ size
    · -- one chunk holds the rest
      have hnil : (b :: bs).drop size = [] := List.drop_of_length_le hlast
      have hnone : ∀ (mk : Int → Bytes → Bool → InstallSnapshotArgs) (o : Nat),
          snapshotChunks mk size k o [] = [] := by
        intro mk o
        cases k <;> rfl
      rw [hnil, hnone, List.take_of_length_le hlast, decide_eq_true hlast]
      obtain ⟨m, hm, hres⟩ := handleInstallSnapshot_last n
        ⟨term, leaderID, L, T, offset, b :: bs, true⟩ f hterm rfl
        (by simpa using hdata)
      exact ⟨m, _, hm, rfl, rfl, hres⟩
    · rw [decide_eq_false hlast]
      obtain ⟨hrec, hmt, hbuf⟩ := handleInstallSnapshot_more n
        ⟨term, leaderID, L, T, offset, (b :: bs).take size, false⟩ f hterm rfl
      have hlen : ((b :: bs).drop size).length = (b :: bs).length - size := List.length_drop
      obtain ⟨m, args, hm, hL, hT, hres⟩ := @ih _ (offset + size) ((b :: bs).drop size)
        (by omega)
        (by rw [← List.length_pos_iff, hlen]; omega) hmt.le
        (by
          rw [if_neg (by omega), hbuf, List.append_assoc, List.take_append_drop]
          simpa using hdata)
      exact ⟨m, args, hrec.trans hm, hL, hT, hres⟩

theorem receive_chunks (f : Faults) {term : Int} (leaderID : NodeID) {L T : Int} {size : Nat}
    {raw : Bytes} (hsize : 0 < size) (hne : raw ≠ []) (hterm : n.currentTerm ≤ term)
    (hdata : Codec.unmarshalSnapshotData raw = some (⟨L, T⟩, data)) :
    ∃ m args, Receiving n m ∧ args.lastIncludedIndex = L ∧ args.lastIncludedTerm = T ∧
      n.receive (transferChunks term leaderID L T size raw) f = m.installApply args data :=
  receive_from f hsize le_rfl hne hterm (by simpa using hdata)

/-- **When a snapshot loses no progress.**  For every transfer of a valid snapshot
into a node with a contiguous log, cut into chunks of any size. -/
theorem installSnapshot_keeps_progress_iff (f : Faults) {term : Int} {leaderID : NodeID}
    {L T : Int} {size : Nat} {raw : Bytes} {data : SnapshotData} (hcont : n.Contiguous)
    (hsnap : 0 ≤ n.snapshotIndex) (hsize : 0 < size) (hne : raw ≠ [])
    (hterm : n.currentTerm ≤ term)
    (hdata : Codec.unmarshalSnapshotData raw = some (⟨L, T⟩, data)) :
    KeepsProgress n (n.receive (transferChunks term leaderID L T size raw) f) L T ↔
      n.InstallSafe L T := by
  obtain ⟨m, args, hm, rfl, rfl, hres⟩ := receive_chunks f leaderID hsize hne hterm hdata
  have hboth := installApply_keepsProgress_iff m args data
  rw [keepsProgress_iff] at hboth ⊢
  rw [hres]
  -- what the chunks changed is not part of either side
  obtain ⟨_, _, _, _, _, _, _, rfl⟩ := hm
  exact hboth hcont hsnap

end RaftNode

/-! ### The sections of one call -/

namespace Node

theorem eraseIdx_last (l : List Install) (t : Install) : (l ++ [t]).eraseIdx l.length = l := by
  rw [List.eraseIdx_append_of_length_le le_rfl]
  simp

variable [Codec]

theorem exec_installApply (s : Node) (l : List Install) (c : Call) (args : InstallSnapshotArgs)
    (term : Int) (data : SnapshotData)
    (hs : s.installs = l ++ [⟨c, args, term, .choose data⟩]) :
    ∃ k, exec Node.step (fun _ _ => True) s (List.replicate k (.installNext l.length)) =
      some { s.reply c (.install term) with
        raft := s.raft.installApply args data
        installs := l } := by
  rcases hfast : s.raft.installFast args with - | -
  · rcases hsm : s.raft.sm with - | sm
    · -- without a state machine the lock is kept until the log is discarded
      refine ⟨2, ?_⟩
      have hskip : s.raft.installRestore args data = s.raft := by
        cases hraft : s.raft
        rw [hraft] at hsm
        cases hsm
        rfl
      simp [List.replicate, exec, step, installNext, hs, hfast, hsm, hskip, eraseIdx_last, withRaft,
        setPhase, endInstall, reply, RaftNode.installApply]
    · refine ⟨4, ?_⟩
      simp [List.replicate, exec, step, installNext, hs, hfast, hsm, eraseIdx_last, withRaft,
        setPhase, endInstall, reply, RaftNode.installApply]
  · refine ⟨1, ?_⟩
    simp [exec, step, installNext, hs, hfast, eraseIdx_last, withRaft, endInstall, reply,
      RaftNode.installApply]

theorem exec_install (s : Node) (c : Call) (args : InstallSnapshotArgs) (f : Faults)
    (hd : c.dst = s.addr) (hreq : c.req = .install args) :
    ∃ k, exec Node.step (fun _ _ => True) s
        (.deliver c f :: List.replicate k (.installNext s.installs.length)) =
      some { s.reply c (.install (s.raft.handleInstallSnapshot args f).2) with
        raft := (s.raft.handleInstallSnapshot args f).1 } := by
  rcases hadm : s.raft.installAdmit args f with - | n
  · refine ⟨0, ?_⟩
    simp [exec, step, deliver, hd, hreq, hadm, RaftNode.handleInstallSnapshot, reply]
  · rcases hdone : args.done with - | -
    · refine ⟨1, ?_⟩
      simp [exec, step, deliver, installNext, hd, hreq, hadm, hdone, eraseIdx_last, withRaft,
        endInstall, reply, RaftNode.handleInstallSnapshot]
    · rcases hdec : RaftNode.installDecode args (n.installBuffer args).snapBuf with - | data
      · refine ⟨2, ?_⟩
        simp [List.replicate, exec, step, deliver, installNext, hd, hreq, hadm, hdone, hdec,
          eraseIdx_last, withRaft, setPhase, endInstall, reply, RaftNode.handleInstallSnapshot,
          RaftNode.installTake]
      · obtain ⟨k, hk⟩ := exec_installApply
          { s with
            raft := (n.installBuffer args).installTake.1
            installs := s.installs ++ [⟨c, args, n.currentTerm, .choose data⟩] }
          s.installs c args n.currentTerm data rfl
        refine ⟨2 + k, ?_⟩
        rw [List.replicate_add]
        simpa [List.replicate, exec, step, deliver, installNext, hd, hreq, hadm, hdone, hdec,
          withRaft, setPhase, reply, RaftNode.handleInstallSnapshot, RaftNode.installTake] using hk

end Node

/-! ### A transfer that arrives twice -/

/-- A codec of two commands, in which a single byte stands for the snapshot of that index,
of term `1` (the real bytes are those of `encodeSnapshot`). -/
abbrev Codec.oneByte : Codec := { Codec.twoKeys with
  unmarshalSnapshotData
    | [index] => some (⟨index.toNat, 1⟩,
        ⟨Function.update (fun _ => none) "a" (some "1"), ⟨.stable, ["a"], []⟩⟩)
    | _ => none
  marshalSnapshotData := fun m _ => [UInt8.ofNat m.index.toNat] }

section

local instance oneByteCodec : Codec := Codec.oneByte

/-- A follower `b` of the leader `a`, with all its stores. -/
def lateFollower : Node := .fresh "b" "b" (some ["a"]) true true true (some ⟨1, 1⟩)

/-- Three entries of term `1`, all committed. -/
def threeEntries : AppendEntriesArgs :=
  ⟨1, "a", 0, 0, [⟨1, 1, 0, goString setA⟩, ⟨2, 1, 0, goString setB⟩, ⟨3, 1, 0, goString setA⟩], 3⟩

/-- The follower takes the entries and applies them. -/
def applyThree : List Act :=
  [.deliver ⟨"a", 0, "b", .append threeEntries⟩ .none, .collect, .emit, .emit, .emit,
    .apply false, .apply false, .apply false]

/-- Then it installs the snapshot of index `2`: the prefix is discarded, entry `3` stays. -/
def catchUp : List Act :=
  applyThree ++ [.deliver ⟨"a", 1, "b", .install ⟨1, "a", 2, 1, 0, [2], true⟩⟩ .none,
    .installNext 0, .installNext 0, .installNext 0]

/-- The same transfer comes again.  The entry at its index is compacted away, so
the node is reset to the snapshot: entry `3`, committed and applied, is gone. -/
theorem duplicate_snapshot_loses_entry :
    (∃ data, Codec.unmarshalSnapshotData [2] = some (⟨2, 1⟩, data)) ∧
    ∃ s, exec Node.step (fun _ _ => True) lateFollower catchUp = some s ∧
      s.raft.Contiguous ∧ s.raft.snapshotIndex = 2 ∧ s.raft.snapshotTerm = 1 ∧
      s.raft.currentTerm = 1 ∧ s.raft.commitIndex = 3 ∧ s.raft.appliedIndex = 3 ∧
      ¬s.raft.KeepsProgress
        (s.raft.receive (RaftNode.transferChunks 1 "a" 2 1 1 [2]) .none) 2 1 :=
  ⟨⟨_, rfl⟩, exists_of_any (by decide +kernel)⟩

/-- The first transfer finds three applied entries.  It discards two and takes nothing
back. -/
theorem first_snapshot_keeps_progress :
    ∃ s, exec Node.step (fun _ _ => True) lateFollower applyThree = some s ∧
      s.raft.commitIndex = 3 ∧ s.raft.appliedIndex = 3 ∧ s.raft.InstallSafe 2 1 ∧
      s.raft.KeepsProgress
        (s.raft.receive (RaftNode.transferChunks 1 "a" 2 1 1 [2]) .none) 2 1 ∧
      (s.raft.receive (RaftNode.transferChunks 1 "a" 2 1 1 [2]) .none).log =
        [⟨3, 1, 0, goString setA⟩] := by
  obtain ⟨s, hs, hcont, hsnap, hterm, hcommit, happlied, hfast, hlog⟩ := exists_of_any
    (o := exec Node.step (fun _ _ => True) lateFollower applyThree)
    (P := fun s => s.raft.Contiguous ∧ 0 ≤ s.raft.snapshotIndex ∧ s.raft.currentTerm ≤ 1 ∧
      s.raft.commitIndex = 3 ∧ s.raft.appliedIndex = 3 ∧
      s.raft.installFast ⟨1, "a", 2, 1, 0, [2], true⟩ = true ∧
      (s.raft.receive (RaftNode.transferChunks 1 "a" 2 1 1 [2]) .none).log =
        [⟨3, 1, 0, goString setA⟩])
    (by decide +kernel)
  have hsafe : s.raft.InstallSafe 2 1 := .inl (RaftNode.installFast_iff.mp hfast)
  exact ⟨s, hs, hcommit, happlied, hsafe, (RaftNode.installSnapshot_keeps_progress_iff .none hcont
    hsnap (by decide) (by decide) hterm rfl).mpr hsafe, hlog⟩

end

end Raft
