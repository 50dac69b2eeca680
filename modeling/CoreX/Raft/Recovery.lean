/-
CoreX/Raft/Recovery.lean

Crash and restart.  The disk holds a log file that is only appended to and
compacted, and snapshot files; `NewRaftNode` and `RecoverFromSnapshot` read the
log back from them.  `Durable` relates disk and memory: the file replays to some
entries the snapshot covers, followed by the log (`Backed`), and the newest file
is the snapshot boundary, or the snapshot whose truncation is still to come, or
is behind an install that has not saved yet.
-/
import CoreX.Raft.Record

namespace Raft

open StepSystem

/-! ### Which snapshot is newer -/

/-- A snapshot is no newer than another one: its index is lower, or they are the
same.  Snapshots of one index and different terms are not comparable. -/
instance : PartialOrder SnapshotMeta where
  le a b := a.index < b.index ∨ a = b
  le_refl _ := .inr rfl
  le_trans a b c hab hbc := by
    rcases hab with hab | rfl
    · rcases hbc with hbc | rfl
      · exact .inl (hab.trans hbc)
      · exact .inl hab
    · exact hbc
  le_antisymm a b hab hba := by
    rcases hab with hab | rfl
    · rcases hba with hba | rfl
      · omega
      · rfl
    · rfl

theorem SnapshotMeta.le_def {a b : SnapshotMeta} : a ≤ b ↔ a.index < b.index ∨ a = b := Iff.rfl

instance (a b : SnapshotMeta) : Decidable (a ≤ b) :=
  decidable_of_iff (a.index < b.index ∨ a = b) SnapshotMeta.le_def.symm

theorem SnapshotMeta.index_le {a b : SnapshotMeta} (h : a ≤ b) : a.index ≤ b.index := by
  rcases h with h | rfl
  · exact h.le
  · exact le_rfl

/-! ### The snapshot files -/

namespace SnapshotFiles

variable {files : SnapshotFiles}

/-- Highest index first. -/
def Sorted (files : SnapshotFiles) : Prop :=
  files.Pairwise fun f g => g.snapMeta.index ≤ f.snapMeta.index

theorem Sorted.save (h : files.Sorted) (s : Snapshot) : (files.save s).Sorted := by
  have hrest : (files.filter fun f => f.snapMeta ≠ s.snapMeta).Pairwise
      fun f g => g.snapMeta.index ≤ f.snapMeta.index := h.filter _
  unfold SnapshotFiles.save
  generalize files.filter (fun f => f.snapMeta ≠ s.snapMeta) = rest at hrest
  -- what follows the place of `s` is not above it
  have hafter : ∀ g ∈ rest.dropWhile fun f => s.snapMeta.index < f.snapMeta.index,
      g.snapMeta.index ≤ s.snapMeta.index := by
    intro g hg
    rcases hd : rest.dropWhile fun f => s.snapMeta.index < f.snapMeta.index with - | ⟨f, fs⟩
    · rw [hd] at hg
      cases hg
    · have hf : ¬s.snapMeta.index < f.snapMeta.index := by
        have := List.head_dropWhile_not (fun f : Snapshot => decide (s.snapMeta.index <
          f.snapMeta.index)) (by rw [hd]; simp)
        simpa [hd] using this
      rw [hd] at hg
      have hsub : (f :: fs).Pairwise fun f g => g.snapMeta.index ≤ f.snapMeta.index :=
        hd ▸ hrest.sublist (List.dropWhile_sublist _)
      rcases List.mem_cons.mp hg with rfl | hg
      · omega
      · have := List.rel_of_pairwise_cons hsub hg
        omega
  have hbefore : ∀ f ∈ rest.takeWhile fun f => s.snapMeta.index < f.snapMeta.index,
      s.snapMeta.index < f.snapMeta.index := fun f hf => by
    simpa using List.all_eq_true.mp List.all_takeWhile f hf
  refine List.pairwise_append.mpr ⟨hrest.sublist (List.takeWhile_sublist _),
    List.pairwise_cons.mpr ⟨hafter, hrest.sublist (List.dropWhile_sublist _)⟩, ?_⟩
  intro f hf g hg
  have hlt := hbefore f hf
  rcases List.mem_cons.mp hg with rfl | hg
  · exact hlt.le
  · exact (hafter g hg).trans hlt.le

theorem mem_save {s f : Snapshot} (h : f ∈ files.save s) : f = s ∨ f ∈ files := by
  rcases List.mem_append.mp h with h | h
  · exact .inr (List.mem_of_mem_filter ((List.takeWhile_sublist _).subset h))
  · rcases List.mem_cons.mp h with h | h
    · exact .inl h
    · exact .inr (List.mem_of_mem_filter ((List.dropWhile_sublist _).subset h))

theorem head?_place (p : Snapshot → Bool) (rest : List Snapshot) (s : Snapshot) :
    (rest.takeWhile p ++ s :: rest.dropWhile p).head? =
      some (match rest with
      | [] => s
      | f :: _ => if p f then f else s) := by
  rcases rest with - | ⟨f, fs⟩
  · rfl
  · rcases hp : p f with - | - <;> simp [hp]

theorem latest_save (h : files.Sorted) (s : Snapshot) :
    (files.save s).latest = some
      (match files.latest with
      | none => s.snapMeta
      | some b => if s.snapMeta.index < b.index then b else s.snapMeta) := by
  rcases files with - | ⟨f, fs⟩
  · rfl
  · show _ = some (if s.snapMeta.index < f.snapMeta.index then f.snapMeta else s.snapMeta)
    unfold SnapshotFiles.save SnapshotFiles.latest
    rw [head?_place]
    by_cases hsame : f.snapMeta = s.snapMeta
    · -- the file is replaced, and nothing left is above it
      rw [hsame, if_neg (by omega), List.filter_cons_of_neg (by simp [hsame])]
      split
      · rfl
      · next g gs hfs =>
        have hg : g ∈ fs := List.mem_of_mem_filter (hfs ▸ List.mem_cons_self ..)
        have hle := List.rel_of_pairwise_cons h hg
        rw [hsame] at hle
        have hnot : ¬s.snapMeta.index < g.snapMeta.index := by omega
        simp [hnot]
    · rw [List.filter_cons_of_pos (by simpa using hsame)]
      by_cases hlt : s.snapMeta.index < f.snapMeta.index <;> simp [hlt]

theorem Sorted.prune (h : files.Sorted) (k : Int) : (files.prune k).Sorted :=
  List.Pairwise.sublist (List.take_sublist _ _) h

theorem latest_prune (k : Int) : (files.prune k).latest = files.latest := by
  have hk : (max k 1).toNat = ((max k 1).toNat - 1) + 1 := by omega
  unfold SnapshotFiles.prune SnapshotFiles.latest
  rw [hk]
  cases files <;> rfl

theorem load_latest {b : SnapshotMeta} (h : files.latest = some b) :
    ∃ f, files.load b.index = some f ∧ f.snapMeta = b := by
  rcases files with - | ⟨f, fs⟩
  · cases h
  · obtain rfl : f.snapMeta = b := Option.some.inj h
    exact ⟨f, by simp [SnapshotFiles.load], rfl⟩

end SnapshotFiles

/-! ### The log file backs the log -/

namespace RaftNode

variable {n n' m : RaftNode}

/-- The file of the log replays to entries that the snapshot covers, followed by
the log. -/
structure Backed (n : RaftNode) : Prop where
  contiguous : n.Contiguous
  nonneg : 0 ≤ n.snapshotIndex
  file : ∃ wal old, n.logStore = some wal ∧ loadAll wal = old ++ n.log ∧
    ∀ e ∈ old, 0 < e.index ∧ e.index ≤ n.snapshotIndex

theorem Contiguous.mem_bounds (h : n.Contiguous) {e : LogEntry} (he : e ∈ n.log) :
    n.snapshotIndex < e.index ∧ e.index ≤ n.lastEntry.1 := by
  obtain ⟨hlt, hget⟩ := h.mem_iff.mp he
  have hlen := (List.getElem?_eq_some_iff.mp hget).1
  rw [lastEntry_index h]
  omega

theorem Backed.of_eq (h : Backed n) (hlog : n'.log = n.log) (hwal : n'.logStore = n.logStore)
    (hsi : n'.snapshotIndex = n.snapshotIndex) : Backed n' := by
  refine ⟨?_, hsi ▸ h.nonneg, ?_⟩
  · unfold Contiguous
    rw [hlog, hsi]
    exact h.contiguous
  · rw [hlog, hwal, hsi]
    exact h.file

theorem Backed.positive (h : Backed n) {wal : List LogRecord} (hwal : n.logStore = some wal) :
    ∀ e ∈ loadAll wal, 0 < e.index := by
  obtain ⟨wal', old, hwal', hload, hold⟩ := h.file
  obtain rfl : wal' = wal := Option.some.inj (hwal'.symm.trans hwal)
  intro e he
  rw [hload] at he
  rcases List.mem_append.mp he with he | he
  · exact (hold e he).1
  · have := (h.contiguous.mem_bounds he).1
    have := h.nonneg
    omega

theorem Backed.cut (h : Backed n) {i : Int} (hi : n.snapshotIndex < i) :
    Backed (n.cutSuffix i) := by
  obtain ⟨wal, old, hwal, hload, hold⟩ := h.file
  refine ⟨cutSuffix_contiguous h.contiguous i, h.nonneg, wal ++ [.truncate i], old, ?_, ?_, hold⟩
  · show n.logStore.map _ = _
    rw [hwal]
    rfl
  · rw [loadAll_truncate, hload]
    refine List.takeWhile_append_of_pos fun e he => ?_
    have := (hold e he).2
    simp only [decide_eq_true_eq]
    omega

theorem Backed.truncate (h : Backed n) {i t : Int} (hi : n.snapshotIndex ≤ i) :
    Backed (n.truncateLogPrefix i t) := by
  obtain ⟨wal, old, hwal, hload, hold⟩ := h.file
  refine ⟨truncateLogPrefix_contiguous h.contiguous hi, h.nonneg.trans hi, wal,
    old ++ n.log.takeWhile fun e => e.index ≤ i, hwal, ?_, fun e he => ?_⟩
  · show loadAll wal = old ++ _ ++ n.log.dropWhile _
    rw [hload, List.append_assoc, List.takeWhile_append_dropWhile]
  · rcases List.mem_append.mp he with he | he
    · exact ⟨(hold e he).1, (hold e he).2.trans hi⟩
    · have hle : e.index ≤ i := by simpa using List.all_eq_true.mp List.all_takeWhile e he
      have := (h.contiguous.mem_bounds ((List.takeWhile_sublist _).subset he)).1
      have := h.nonneg
      exact ⟨by omega, hle⟩

theorem Backed.discard (h : Backed n) {args : InstallSnapshotArgs} {data : SnapshotData}
    (hlast : n.lastEntry.1 ≤ args.lastIncludedIndex) : Backed (n.installDiscard args data) := by
  obtain ⟨wal, old, hwal, hload, hold⟩ := h.file
  have hsnap : n.snapshotIndex ≤ n.lastEntry.1 := by
    rw [lastEntry_index h.contiguous]
    omega
  refine ⟨Indexed.nil, h.nonneg.trans (hsnap.trans hlast), wal, old ++ n.log, hwal, ?_,
    fun e he => ?_⟩
  · rw [hload]
    exact (List.append_nil _).symm
  · show 0 < e.index ∧ e.index ≤ args.lastIncludedIndex
    rcases List.mem_append.mp he with he | he
    · exact ⟨(hold e he).1, (hold e he).2.trans (hsnap.trans hlast)⟩
    · have hb := h.contiguous.mem_bounds he
      have := h.nonneg
      exact ⟨by omega, by omega⟩

theorem Backed.compact (h : Backed n) {i : Int} (hi : i ≤ n.snapshotIndex) :
    Backed (n.compactLog i) := by
  obtain ⟨wal, old, hwal, hload, hold⟩ := h.file
  refine ⟨h.contiguous, h.nonneg, compactPrefix wal i, old.filter fun e => i < e.index, ?_, ?_,
    fun e he => hold e (List.mem_of_mem_filter he)⟩
  · show n.logStore.map _ = _
    rw [hwal]
    rfl
  · have hkeep : n.log.filter (fun e => i < e.index) = n.log := by
      refine List.filter_eq_self.mpr fun e he => ?_
      have := (h.contiguous.mem_bounds he).1
      simp only [decide_eq_true_eq]
      omega
    show loadAll (compactPrefix wal i) = _ ++ n.log
    rw [compactPrefix, loadAll_map_entry, hload, List.filter_append, hkeep]

variable [Codec]

theorem Backed.append (h : Backed n) {e : LogEntry} (he : e.index = n.lastEntry.1 + 1) :
    Backed (n.appendEntry e) := by
  obtain ⟨wal, old, hwal, hload, hold⟩ := h.file
  have hes : Indexed LogEntry.index n.lastEntry.1 [e] := Indexed.cons_iff.mpr ⟨he, Indexed.nil⟩
  refine ⟨appendAll_contiguous h.contiguous hes, ?_, wal ++ [.entry e], old, ?_, ?_, ?_⟩
  · rw [appendEntry_snapshotIndex]
    exact h.nonneg
  · rw [appendEntry_logStore, hwal]
    rfl
  · rw [loadAll_entry, hload, appendEntry_log, List.append_assoc]
  · rw [appendEntry_snapshotIndex]
    exact hold

theorem Backed.appendAll {es : List LogEntry} (h : Backed n)
    (hes : Indexed LogEntry.index n.lastEntry.1 es) : Backed (n.appendAll es) := by
  induction es generalizing n with
  | nil => exact h
  | cons e es ih =>
    obtain ⟨he, htail⟩ := Indexed.cons_iff.mp hes
    have hone : Indexed LogEntry.index n.lastEntry.1 [e] :=
      Indexed.cons_iff.mpr ⟨he, Indexed.nil⟩
    have hlast : (n.appendEntry e).lastEntry.1 = n.lastEntry.1 + 1 :=
      appendAll_lastEntry h.contiguous hone
    refine ih (h.append he) ?_
    rwa [hlast]

theorem Backed.spliced {es : List PbLogEntry} {all : Bool} (h : Backed n)
    (hs : Spliced n es all m) :
    Backed m := by
  cases hs with
  | grown added hadd => exact h.appendAll hadd
  | replaced e x added hx ht hadd skipped he =>
    obtain ⟨hlo, hhi⟩ := le_of_entryAt h.contiguous h.nonneg hx
    rw [← cutSuffix_lastEntry h.contiguous hlo hhi] at hadd
    exact (h.cut hlo).appendAll hadd

theorem Backed.handleAppendEntries (h : Backed n) {args : AppendEntriesArgs} (f : Faults)
    (hfit : n.batchFits args = true) : Backed (n.handleAppendEntries args f).1 := by
  obtain ⟨n₁, n₂, _, honly, hspl, hres, _⟩ :=
    handleAppendEntries_spliced f h.contiguous h.nonneg hfit
  have h₁ : Backed n₁ := by
    have hs := honly.sameRecord
    exact h.of_eq hs.log hs.logStore hs.snapshotIndex
  have h₂ := h₁.spliced hspl
  rcases hres with hres | hres
  · rw [hres]
    exact h₂
  · obtain ⟨c, hc⟩ := n₂.followCommit_eq args.leaderCommit
    rw [hres, hc]
    exact h₂.of_eq rfl rfl rfl

end RaftNode

/-! ### Reading the record back -/

namespace RaftNode

variable {n n' n'' : RaftNode}

/-- The snapshot boundary in memory. -/
def boundary (n : RaftNode) : SnapshotMeta := ⟨n.snapshotIndex, n.snapshotTerm⟩

theorem LogOnly.boundary (h : LogOnly n n') : n'.boundary = n.boundary := by
  obtain ⟨_, _, _, _, _, _, _, rfl⟩ := h
  rfl

/-- The newest snapshot on disk; index and term `0` if there is none. -/
def stored (n : RaftNode) : SnapshotMeta :=
  (n.snapshotStore.bind SnapshotFiles.latest).getD ⟨0, 0⟩

/-- `n'` differs from `n` in what a configuration entry sets. -/
def ConfigOnly (n n' : RaftNode) : Prop :=
  ∃ cfg peers next mtch, n' = { n with
    clusterConfig := cfg
    peers := peers
    nextIndex := next
    matchIndex := mtch }

theorem ConfigOnly.trans (h : ConfigOnly n n') (h' : ConfigOnly n' n'') : ConfigOnly n n'' := by
  obtain ⟨_, _, _, _, rfl⟩ := h
  obtain ⟨_, _, _, _, rfl⟩ := h'
  exact ⟨_, _, _, _, rfl⟩

theorem configOnly_applyConfigEntry [Codec] (n : RaftNode) (e : LogEntry) :
    ConfigOnly n (n.applyConfigEntry e) := by
  unfold applyConfigEntry
  split
  · exact ⟨_, _, _, _, rfl⟩
  · split
    · exact ⟨_, _, _, _, rfl⟩
    · split <;> exact ⟨_, _, _, _, rfl⟩

theorem configOnly_replay [Codec] (es : List LogEntry) (n : RaftNode) :
    ConfigOnly n (es.foldl (fun n e => n.applyConfigEntry e) n) := by
  induction es generalizing n with
  | nil => exact ⟨_, _, _, _, rfl⟩
  | cons e es ih => exact (configOnly_applyConfigEntry n e).trans (ih _)

/-- The node before `NewRaftNode` replays the configuration entries. -/
def unreplayed (id : NodeID) (boot : Option (List Addr)) (metaStore : Option RaftMeta)
    (logStore : Option (List LogRecord)) : RaftNode :=
  { id := id
    peers := boot
    currentTerm := (metaStore.map RaftMeta.term).getD 0
    votedFor := (metaStore.map RaftMeta.votedFor).getD ""
    role := .follower
    leaderID := ""
    log := (logStore.map loadAll).getD []
    commitIndex := 0
    lastApplied := 0
    nextIndex := none
    matchIndex := none
    metaStore := metaStore
    logStore := logStore
    resetCh := false
    sm := none
    snapshotIndex := 0
    snapshotTerm := 0
    snapshotStore := none
    snapshotCfg := ⟨0, 0⟩
    snapBuf := []
    clusterConfig := ⟨.stable, boot.getD [], []⟩ }

theorem configOnly_newRaftNode [Codec] (id : NodeID) (boot : Option (List Addr))
    (metaStore : Option RaftMeta) (logStore : Option (List LogRecord)) :
    ConfigOnly (unreplayed id boot metaStore logStore)
      (newRaftNode id boot metaStore logStore) :=
  configOnly_replay _ _

theorem newRaftNode_record [Codec] (id : NodeID) (boot : Option (List Addr))
    (metaStore : Option RaftMeta) (wal : List LogRecord) :
    (newRaftNode id boot metaStore (some wal)).log = loadAll wal ∧
      (newRaftNode id boot metaStore (some wal)).logStore = some wal ∧
      (newRaftNode id boot metaStore (some wal)).snapshotIndex = 0 ∧
      (newRaftNode id boot metaStore (some wal)).snapshotTerm = 0 := by
  obtain ⟨_, _, _, _, heq⟩ := configOnly_newRaftNode id boot metaStore (some wal)
  rw [heq]
  exact ⟨rfl, rfl, rfl, rfl⟩

theorem restart_record [Codec] (boot : Option (List Addr)) {wal : List LogRecord}
    {files : SnapshotFiles} (hwal : n.logStore = some wal) (hfiles : n.snapshotStore = some files)
    (hsm : n.sm.isSome = true) (hpos : ∀ e ∈ loadAll wal, 0 < e.index) :
    (n.restart boot).log = (loadAll wal).filter (fun e => n.stored.index < e.index) ∧
      (n.restart boot).logStore = some wal ∧ (n.restart boot).boundary = n.stored ∧
      (n.restart boot).snapshotStore = some files ∧ (n.restart boot).sm.isSome = true := by
  obtain ⟨sm, hsm⟩ := Option.isSome_iff_exists.mp hsm
  obtain ⟨hlog, hstore, hsi, hst⟩ := newRaftNode_record n.id boot n.metaStore wal
  unfold restart
  rw [hwal, hfiles, hsm]
  rcases hlat : files.latest with - | b
  · -- no snapshot: the whole file is the log
    have hall : (loadAll wal).filter (fun e => n.stored.index < e.index) = loadAll wal := by
      refine List.filter_eq_self.mpr fun e he => ?_
      simpa [stored, hfiles, hlat] using hpos e he
    simp only [recoverFromSnapshot, setSnapshotStore, setStateMachine, hlat, boundary]
    refine ⟨hlog.trans hall.symm, hstore, ?_, trivial, rfl⟩
    rw [hsi, hst]
    simp [stored, hfiles, hlat]
  · obtain ⟨f, hload, _⟩ := SnapshotFiles.load_latest hlat
    have hstored : n.stored = b := by simp [stored, hfiles, hlat]
    simp only [recoverFromSnapshot, setSnapshotStore, setStateMachine, hlat, hload, boundary,
      hstored]
    exact ⟨by rw [hlog], hstore, trivial, trivial, rfl⟩

theorem handleAppendEntries_frame [Codec] (n : RaftNode) (args : AppendEntriesArgs) (f : Faults) :
    (n.handleAppendEntries args f).1.boundary = n.boundary ∧
      (n.handleAppendEntries args f).1.snapshotStore = n.snapshotStore ∧
      (n.handleAppendEntries args f).1.sm.isSome = n.sm.isSome := by
  rcases handleAppendEntries_cases n args f with ⟨_, heq⟩ | ⟨_, hlog, _⟩
  · rw [heq]
    exact ⟨rfl, rfl, rfl⟩
  · obtain ⟨_, _, _, _, _, _, hacc⟩ := electionOnly_acceptLeader n args f
    rw [hacc] at hlog
    obtain ⟨_, _, _, _, _, _, _, heq⟩ := hlog
    rw [heq]
    exact ⟨rfl, rfl, rfl⟩

theorem stored_saveSnapshot {files : SnapshotFiles} (hfiles : n.snapshotStore = some files)
    (hsorted : files.Sorted) {s : Snapshot} (hpos : 0 ≤ s.snapMeta.index) :
    (n.stored ≤ s.snapMeta → (n.saveSnapshot s).stored = s.snapMeta) ∧
      (s.snapMeta ≤ n.stored → (n.saveSnapshot s).stored = n.stored) := by
  have hnew : (n.saveSnapshot s).stored = (((files.save s).prune n.retainCount).latest).getD
      ⟨0, 0⟩ := by
    show ((n.snapshotStore.map _).bind SnapshotFiles.latest).getD _ = _
    rw [hfiles]
    rfl
  rw [hnew, SnapshotFiles.latest_prune, SnapshotFiles.latest_save hsorted]
  rcases hlat : files.latest with - | b
  · have hold : n.stored = ⟨0, 0⟩ := by simp [stored, hfiles, hlat]
    rw [hold]
    refine ⟨fun _ => rfl, fun hle => ?_⟩
    rcases hle with hlt | heq
    · have hlt' : s.snapMeta.index < 0 := hlt
      omega
    · exact heq
  · have hold : n.stored = b := by simp [stored, hfiles, hlat]
    rw [hold]
    constructor
    · intro hle
      have hnot : ¬s.snapMeta.index < b.index := by
        have := SnapshotMeta.index_le hle
        omega
      simp [hnot]
    · rintro (hlt | heq)
      · simp [hlt]
      · simp [heq]

theorem sorted_saveSnapshot {files : SnapshotFiles} (hfiles : n.snapshotStore = some files)
    (hsorted : files.Sorted) (s : Snapshot) :
    ∃ files', (n.saveSnapshot s).snapshotStore = some files' ∧ files'.Sorted := by
  refine ⟨(files.save s).prune n.retainCount, ?_, (hsorted.save s).prune _⟩
  show n.snapshotStore.map _ = _
  rw [hfiles]
  rfl

end RaftNode

/-! ### Disk and memory of a running node -/

/-- What disk and memory have to do with each other.  `disk` has three cases: the
newest file is the boundary; or it is a snapshot whose prefix is still to be
truncated; or it is behind an install that has not saved yet. -/
structure Durable (s : Node) : Prop where
  backed : RaftNode.Backed s.raft
  files : ∃ files, s.raft.snapshotStore = some files ∧ files.Sorted
  hasSM : s.raft.sm.isSome = true
  disk : s.raft.boundary = s.raft.stored ∨
    (s.snap = .saved s.raft.stored ∧ s.raft.boundary ≤ s.raft.stored) ∨
    (s.raft.stored ≤ s.raft.boundary ∧ s.raft.boundary ∈ s.pending)
  saved : ∀ m, s.snap = .saved m → m ≤ s.raft.stored
  truncated : ∀ i, s.snap = .truncated i → i ≤ s.raft.snapshotIndex
  pending : ∀ m ∈ s.pending, m ≤ s.raft.boundary

/-- A snapshot may be saved: it is older than the newest file or newer, and the
same for the boundary. -/
def RaftNode.savable (n : RaftNode) (m : SnapshotMeta) : Bool :=
  decide (0 ≤ m.index) && decide (m ≤ n.stored ∨ n.stored ≤ m) &&
    decide (m ≤ n.boundary ∨ n.boundary ≤ m)

/-- The tests that the code does not make. -/
def recoveryTest (s : Node) : RecordEvent → Bool
  | .batch args => s.raft.batchFits args
  | .fast args => decide (args.snapMeta ≤ s.raft.stored)
  | .discard args _ => decide (s.raft.boundary ≤ args.snapMeta) &&
      decide (s.raft.stored ≤ args.snapMeta) &&
      decide (s.raft.lastEntry.1 ≤ args.snapMeta.index)
  | .saveInstalled snapshot => s.raft.savable snapshot.snapMeta
  | .save snapshot => s.raft.savable snapshot.snapMeta
  | .truncate m => decide (s.raft.boundary ≤ m)
  | .restart => s.pending.isEmpty
  | .capture _ => true
  | .other => true

namespace Durable

variable {s s' : Node}

theorem same (h : Durable s) (hb : RaftNode.Backed s'.raft)
    (hbd : s'.raft.boundary = s.raft.boundary)
    (hst : s'.raft.snapshotStore = s.raft.snapshotStore)
    (hsm : s'.raft.sm.isSome = s.raft.sm.isSome)
    (hs : ∀ m, s'.snap = .saved m ↔ s.snap = .saved m)
    (ht : ∀ i, s'.snap = .truncated i → s.snap = .truncated i) (hp : s'.pending = s.pending) :
    Durable s' := by
  have hstored : s'.raft.stored = s.raft.stored := by
    unfold RaftNode.stored
    rw [hst]
  have hsi : s'.raft.snapshotIndex = s.raft.snapshotIndex := congrArg SnapshotMeta.index hbd
  refine ⟨hb, hst ▸ h.files, hsm ▸ h.hasSM, ?_, fun m hm => ?_, fun i hi => ?_, ?_⟩
  · rw [hbd, hstored, hp, hs]
    exact h.disk
  · rw [hstored]
    exact h.saved m ((hs m).mp hm)
  · rw [hsi]
    exact h.truncated i (ht i hi)
  · rw [hp, hbd]
    exact h.pending

theorem move (h : Durable s) {b : SnapshotMeta} (hb : RaftNode.Backed s'.raft)
    (hbd : s'.raft.boundary = b) (hle : s.raft.boundary ≤ b)
    (hst : s'.raft.snapshotStore = s.raft.snapshotStore)
    (hsm : s'.raft.sm.isSome = s.raft.sm.isSome)
    (hdisk : b = s.raft.stored ∨ (s'.snap = .saved s.raft.stored ∧ b ≤ s.raft.stored) ∨
      (s.raft.stored ≤ b ∧ b ∈ s'.pending))
    (hs : ∀ m, s'.snap = .saved m → s.snap = .saved m)
    (ht : ∀ i, s'.snap = .truncated i → s.snap = .truncated i ∨ i = b.index)
    (hp : ∀ m ∈ s'.pending, m = b ∨ m ∈ s.pending) : Durable s' := by
  have hstored : s'.raft.stored = s.raft.stored := by
    unfold RaftNode.stored
    rw [hst]
  have hsi : s'.raft.snapshotIndex = b.index := congrArg SnapshotMeta.index hbd
  refine ⟨hb, hst ▸ h.files, hsm ▸ h.hasSM, ?_, fun m hm => ?_, fun i hi => ?_, fun m hm => ?_⟩
  · rwa [hbd, hstored]
  · rw [hstored]
    exact h.saved m (hs m hm)
  · rw [hsi]
    rcases ht i hi with hi | rfl
    · exact (h.truncated i hi).trans (SnapshotMeta.index_le hle)
    · exact le_rfl
  · rw [hbd]
    rcases hp m hm with rfl | hm
    · exact le_rfl
    · exact (h.pending m hm).trans hle

theorem fast (h : Durable s) {args : InstallSnapshotArgs} (hf : s.raft.installFast args = true)
    (hok : args.snapMeta ≤ s.raft.stored)
    (hr : s'.raft = s.raft.truncateLogPrefix args.snapMeta.index args.snapMeta.term)
    (hs : s'.snap = s.snap) (hp : s'.pending = s.pending) : Durable s' := by
  obtain ⟨e, _, he, _⟩ := RaftNode.installFast_iff.mp hf
  have hlt : s.raft.boundary.index < args.snapMeta.index :=
    (RaftNode.lt_of_entryAt h.backed.contiguous h.backed.nonneg he).1
  refine h.move (b := args.snapMeta) (hr ▸ h.backed.truncate hlt.le) (by rw [hr]; rfl) (.inl hlt)
    (by rw [hr]; rfl) (by rw [hr]; rfl) ?_ (by simp [hs]) (by simp +contextual [hs])
    (by simp +contextual [hp])
  -- the stored snapshot is newer than the boundary, so it waits for its truncation
  have hidx := SnapshotMeta.index_le hok
  rcases h.disk with heq | ⟨hsnap, _⟩ | ⟨hle, _⟩
  · rw [heq] at hlt
    omega
  · exact .inr (.inl ⟨hs.trans hsnap, hok⟩)
  · have := SnapshotMeta.index_le hle
    omega

theorem discard (h : Durable s) {args : InstallSnapshotArgs} {data : SnapshotData}
    (hbd : s.raft.boundary ≤ args.snapMeta) (hst : s.raft.stored ≤ args.snapMeta)
    (hlast : s.raft.lastEntry.1 ≤ args.snapMeta.index)
    (hr : s'.raft = s.raft.installDiscard args data) (hs : s'.snap = s.snap)
    (hp : ∀ m, m ∈ s'.pending ↔ m = args.snapMeta ∨ m ∈ s.pending) : Durable s' := by
  refine h.move (b := args.snapMeta) (hr ▸ h.backed.discard hlast) (by rw [hr]; rfl) hbd
    (by rw [hr]; rfl) (by rw [hr]; rfl) (.inr (.inr ⟨hst, (hp _).mpr (.inl rfl)⟩)) (by simp [hs])
    (by simp +contextual [hs]) fun m hm => (hp m).mp hm

theorem truncate (h : Durable s) {m : SnapshotMeta} (hsnap : s.snap = .saved m)
    (hbd : s.raft.boundary ≤ m)
    (hr : s'.raft = s.raft.truncateLogPrefix m.index m.term) (hs : s'.snap = .truncated m.index)
    (hp : s'.pending = s.pending) : Durable s' := by
  have hm := h.saved m hsnap
  have hstored : m = s.raft.stored := by
    rcases h.disk with heq | ⟨hsaved, _⟩ | ⟨hle, _⟩
    · exact le_antisymm hm (heq ▸ hbd)
    · rw [hsnap] at hsaved
      exact SnapTask.saved.inj hsaved
    · exact le_antisymm hm (hle.trans hbd)
  exact h.move (b := m) (hr ▸ h.backed.truncate (SnapshotMeta.index_le hbd)) (by rw [hr]; rfl) hbd
    (by rw [hr]; rfl) (by rw [hr]; rfl) (.inl hstored) (by simp [hs])
    (by simp [hs, eq_comm]) (by simp +contextual [hp])

variable {snapshot : Snapshot}

theorem save (h : Durable s) (hr : s'.raft = s.raft.saveSnapshot snapshot)
    (hdisk : s.raft.boundary = s'.raft.stored ∨
      (s'.snap = .saved s'.raft.stored ∧ s.raft.boundary ≤ s'.raft.stored) ∨
      (s'.raft.stored ≤ s.raft.boundary ∧ s.raft.boundary ∈ s'.pending))
    (hs : ∀ m, s'.snap = .saved m → m ≤ s'.raft.stored)
    (ht : ∀ i, s'.snap = .truncated i → s.snap = .truncated i)
    (hp : ∀ m ∈ s'.pending, m ∈ s.pending) : Durable s' := by
  have hbd : s'.raft.boundary = s.raft.boundary := by rw [hr]; rfl
  obtain ⟨files, hfiles, hsorted⟩ := h.files
  refine ⟨hr ▸ h.backed.of_eq rfl rfl rfl, ?_, ?_, ?_, hs, fun i hi => ?_, fun m hm => ?_⟩
  · rw [hr]
    exact RaftNode.sorted_saveSnapshot hfiles hsorted snapshot
  · rw [hr]
    exact h.hasSM
  · rwa [hbd]
  · rw [hr]
    exact h.truncated i (ht i hi)
  · rw [hbd]
    exact h.pending m (hp m hm)

theorem stored_save (h : Durable s) (hok : s.raft.savable snapshot.snapMeta = true)
    (hr : s'.raft = s.raft.saveSnapshot snapshot) :
    (snapshot.snapMeta ≤ s.raft.boundary ∨ s.raft.boundary ≤ snapshot.snapMeta) ∧
      (snapshot.snapMeta ≤ s.raft.stored ∧ s'.raft.stored = s.raft.stored ∨
        s.raft.stored ≤ snapshot.snapMeta ∧ s'.raft.stored = snapshot.snapMeta) := by
  obtain ⟨files, hfiles, hsorted⟩ := h.files
  simp only [RaftNode.savable, Bool.and_eq_true, decide_eq_true_eq] at hok
  obtain ⟨⟨hpos, hst⟩, hbd⟩ := hok
  obtain ⟨hup, hkeep⟩ := RaftNode.stored_saveSnapshot (s := snapshot) hfiles hsorted hpos
  rw [hr]
  exact ⟨hbd, hst.imp (fun hle => ⟨hle, hkeep hle⟩) fun hle => ⟨hle, hup hle⟩⟩

theorem saveInstalled (h : Durable s) (hok : s.raft.savable snapshot.snapMeta = true)
    (hr : s'.raft = s.raft.saveSnapshot snapshot) (hs : s'.snap = s.snap)
    (hp : ∀ m, m ∈ s.pending ↔ m = snapshot.snapMeta ∨ m ∈ s'.pending) : Durable s' := by
  have hmine : snapshot.snapMeta ≤ s.raft.boundary := h.pending _ ((hp _).mpr (.inl rfl))
  obtain ⟨_, hst⟩ := h.stored_save hok hr
  have hmono : s.raft.stored ≤ s'.raft.stored := by
    rcases hst with ⟨_, hst⟩ | ⟨hle, hst⟩
    · exact hst.ge
    · exact hst ▸ hle
  refine h.save hr ?_ (fun m hm => (h.saved m (hs ▸ hm)).trans hmono) (by simp [hs])
    fun m hm => (hp m).mpr (.inr hm)
  rcases hst with ⟨hle, hst⟩ | ⟨hle, hst⟩
  · rw [hst, hs]
    rcases h.disk with heq | hsaved | ⟨hle', hmem⟩
    · exact .inl heq
    · exact .inr (.inl hsaved)
    · rcases (hp _).mp hmem with heq | hmem
      · exact .inl (le_antisymm (heq ▸ hle) hle')
      · exact .inr (.inr ⟨hle', hmem⟩)
  · -- the saved snapshot is now the newest, and the boundary is no older
    rw [hst, hs]
    rcases h.disk with heq | ⟨_, hle'⟩ | ⟨_, hmem⟩
    · exact .inl (le_antisymm (heq ▸ hle) hmine)
    · exact .inl (le_antisymm (hle'.trans hle) hmine)
    · rcases (hp _).mp hmem with heq | hmem
      · exact .inl heq
      · exact .inr (.inr ⟨hmine, hmem⟩)

theorem saveCaptured (h : Durable s) (hsnap : s.snap = .captured snapshot)
    (hok : s.raft.savable snapshot.snapMeta = true) (hr : s'.raft = s.raft.saveSnapshot snapshot)
    (hs : s'.snap = .saved snapshot.snapMeta) (hp : s'.pending = s.pending) : Durable s' := by
  obtain ⟨hcmp, hst⟩ := h.stored_save hok hr
  have hnew : ∀ m, s'.snap = .saved m → m ≤ s'.raft.stored := by
    intro m hm
    obtain rfl : snapshot.snapMeta = m := SnapTask.saved.inj (hs.symm.trans hm)
    rcases hst with ⟨hle, hst⟩ | ⟨_, hst⟩
    · exact hst ▸ hle
    · exact hst.ge
  refine h.save hr ?_ hnew (by simp [hs]) (by simp [hp])
  rcases hst with ⟨_, hst⟩ | ⟨hle, hst⟩
  · rw [hst, hp]
    rcases h.disk with heq | ⟨hsaved, _⟩ | hpend
    · exact .inl heq
    · simp [hsnap] at hsaved
    · exact .inr (.inr hpend)
  · rw [hst, hp]
    rcases hcmp with hcmp | hcmp
    · rcases h.disk with heq | ⟨hsaved, _⟩ | ⟨_, hmem⟩
      · exact .inl (le_antisymm (heq ▸ hle) hcmp)
      · simp [hsnap] at hsaved
      · exact .inr (.inr ⟨hcmp, hmem⟩)
    · exact .inr (.inl ⟨hs, hcmp⟩)

end Durable

/-! ### A restart -/

/-- `r` has the snapshot boundary and the log of `n`. -/
structure RaftNode.Reproduces (n r : RaftNode) : Prop where
  snapshotIndex : r.snapshotIndex = n.snapshotIndex
  snapshotTerm : r.snapshotTerm = n.snapshotTerm
  log : r.log = n.log

theorem RaftNode.Backed.filter_file {n : RaftNode} (h : n.Backed) {wal : List LogRecord}
    (hwal : n.logStore = some wal) {b : SnapshotMeta} (hb : n.snapshotIndex ≤ b.index) :
    (loadAll wal).filter (fun e => b.index < e.index) =
    (n.truncateLogPrefix b.index b.term).log := by
  obtain ⟨wal', old, hwal', hload, hold⟩ := h.file
  obtain rfl : wal' = wal := Option.some.inj (hwal'.symm.trans hwal)
  have hnone : old.filter (fun e => b.index < e.index) = [] := by
    refine List.filter_eq_nil_iff.mpr fun e he => ?_
    have := (hold e he).2
    simp only [decide_eq_true_eq]
    omega
  have hlog : n.log.filter (fun e => b.index < e.index)
      = n.log.drop (b.index - n.snapshotIndex).toNat :=
    h.contiguous.filter_lt b.index
  rw [hload, List.filter_append, hnone, List.nil_append, hlog, truncateLogPrefix_log h.contiguous]

namespace Durable

variable [Codec] {s s' : Node}

theorem restart_truncated (h : Durable s) (hp : s.pending = []) (boot : Option (List Addr)) :
    s.raft.boundary ≤ s.raft.stored ∧
      RaftNode.Reproduces (s.raft.truncateLogPrefix s.raft.stored.index s.raft.stored.term)
        (s.raft.restart boot) ∧
      (s.raft.restart boot).boundary = s.raft.stored ∧
      (s.raft.restart boot).logStore = s.raft.logStore ∧
      (s.raft.restart boot).snapshotStore = s.raft.snapshotStore ∧
      (s.raft.restart boot).sm.isSome = true := by
  obtain ⟨wal, _, hwal, _⟩ := h.backed.file
  obtain ⟨files, hfiles, _⟩ := h.files
  have hle : s.raft.boundary ≤ s.raft.stored := by
    rcases h.disk with heq | ⟨_, hle⟩ | ⟨_, hmem⟩
    · exact heq.le
    · exact hle
    · rw [hp] at hmem
      cases hmem
  obtain ⟨hlog, hstore, hbd, hfs, hsm⟩ := RaftNode.restart_record boot hwal hfiles h.hasSM
    (h.backed.positive hwal)
  refine ⟨hle, ⟨congrArg SnapshotMeta.index hbd, congrArg SnapshotMeta.term hbd, ?_⟩, hbd,
    hstore.trans hwal.symm, hfs.trans hfiles.symm, hsm⟩
  rw [hlog]
  exact h.backed.filter_file hwal (SnapshotMeta.index_le hle)

theorem restart (h : Durable s) (hp : s.pending = []) : Durable s.restart := by
  obtain ⟨hle, hrep, hbd, hwal, hfiles, hsm⟩ := h.restart_truncated hp s.boot
  have hstored : (s.raft.restart s.boot).stored = s.raft.stored := by
    unfold RaftNode.stored
    rw [hfiles]
  have hb : RaftNode.Backed (s.raft.restart s.boot) :=
    (h.backed.truncate (SnapshotMeta.index_le hle)).of_eq hrep.log hwal hrep.snapshotIndex
  exact ⟨hb, hfiles ▸ h.files, hsm, .inl (hbd.trans hstored.symm),
    fun m hm => (by cases hm), fun i hi => (by cases hi), fun m hm => (by cases hm)⟩

theorem step (h : Durable s) {ev : RecordEvent} (hs : RecordStep s s' ev)
    (hok : recoveryTest s ev = true) : Durable s' := by
  cases hs with
  | keep hr hs hp =>
    have hbd : s'.raft.boundary = s.raft.boundary := by
      unfold RaftNode.boundary
      rw [hr.snapshotIndex, hr.snapshotTerm]
    exact h.same (h.backed.of_eq hr.log hr.logStore hr.snapshotIndex) hbd hr.snapshotStore
      hr.hasSM (by simp [hs]) (by simp [hs]) hp
  | batch args f hr hs hp =>
    have hframe := RaftNode.handleAppendEntries_frame s.raft args f
    rw [← hr] at hframe
    exact h.same (hr ▸ h.backed.handleAppendEntries f hok) hframe.1 hframe.2.1 hframe.2.2
      (by simp [hs]) (by simp [hs]) hp
  | extend e he hr hs hp =>
    have honly := RaftNode.logOnly_appendEntry (n := s.raft) e
    refine h.same (hr ▸ h.backed.append he) ?_ ?_ ?_ (by simp [hs]) (by simp [hs]) hp
    · rw [hr, honly.boundary]
    · rw [hr, honly.snapshotStore]
    · obtain ⟨_, _, _, _, _, _, _, heq⟩ := honly
      rw [hr, heq]
  | fast args hf hr hs hp => exact h.fast hf (of_decide_eq_true hok) hr hs hp
  | discard args data hr hs hp =>
    simp only [recoveryTest, Bool.and_eq_true, decide_eq_true_eq] at hok
    exact h.discard hok.1.1 hok.1.2 hok.2 hr hs hp
  | saveInstalled snapshot hr hs hp => exact h.saveInstalled hok hr hs hp
  | take sm k hidle hr hs hp =>
    exact h.same (hr ▸ h.backed) (by rw [hr]) (by rw [hr]) (by rw [hr]) (by simp [hs, hidle])
      (by simp [hs]) hp
  | capture sm k snapshot htaken _ hr hs hp =>
    exact h.same (hr ▸ h.backed) (by rw [hr]) (by rw [hr]) (by rw [hr]) (by simp [hs, htaken])
      (by simp [hs]) hp
  | giveUp hnot hr hs hp =>
    exact h.same (hr ▸ h.backed) (by rw [hr]) (by rw [hr]) (by rw [hr]) (by simp [hs, hnot])
      (by simp [hs]) hp
  | save snapshot hsnap hr hs hp => exact h.saveCaptured hsnap hok hr hs hp
  | truncate m hsnap hr hs hp => exact h.truncate hsnap (of_decide_eq_true hok) hr hs hp
  | compact k hsnap hr hs hp =>
    exact h.same (hr ▸ h.backed.compact (h.truncated k hsnap)) (by rw [hr]; rfl) (by rw [hr]; rfl)
      (by rw [hr]; rfl) (by simp [hs, hsnap]) (by simp [hs]) hp
  | restart hr =>
    rw [hr]
    exact h.restart (List.isEmpty_iff.mp hok)

end Durable

section

local instance recoveryCodec : Codec := Codec.oneByte

end

end Raft
