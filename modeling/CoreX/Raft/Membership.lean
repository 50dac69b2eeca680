/-
CoreX/Raft/Membership.lean

Which configuration is in force.  `clusterConfig` is a cached fold over the log:
`activeConfig base log` is what it should be, where `base` is the configuration
in force at the snapshot.  Appending keeps the cache right, whoever appends
(`appendAll_clusterConfig`).

Nothing else in the code looks back.  A conflicting suffix is cut without undoing
its configuration entries (`truncated_config_stays`), a snapshot is saved with
the configuration of the moment, which may be younger than its index, and a
restart takes the configuration of the snapshot even if the log goes on from
there.  `configTest` excludes these cases, and `membership_follows_log` shows
that there are no others.

What was in force at an index is a fact about the past.  The `Ledger` records it
while the run goes on: the base, and the configurations of all snapshots.
-/
import CoreX.Raft.Recovery

namespace Raft

open StepSystem

/-! ### Configurations in a log -/

section

variable [Codec]

/-- The configuration that a well-formed configuration entry carries. -/
def configOf (e : LogEntry) : Option ClusterConfig :=
  if e.type = entryTypeConfig then
    match Codec.unmarshalConfig e.data with
    | none => none
    | some payload =>
        if payload.phase = "joint" then some ⟨.joint, payload.voters, payload.newVoters⟩
        else if payload.phase = "stable" then some ⟨.stable, payload.voters, []⟩
        else none
  else none

/-- The configuration after the entries of `l`, if `base` was in force before
them. -/
def activeConfig (base : ClusterConfig) (l : List LogEntry) : ClusterConfig :=
  (l.filterMap configOf).getLast?.getD base

variable {base : ClusterConfig} {l l' : List LogEntry}

@[simp] theorem activeConfig_nil : activeConfig base [] = base := rfl

theorem activeConfig_append :
    activeConfig base (l ++ l') = activeConfig (activeConfig base l) l' := by
  unfold activeConfig
  rw [List.filterMap_append, List.getLast?_append]
  rcases (l'.filterMap configOf).getLast? with - | c <;> rfl

theorem activeConfig_concat (e : LogEntry) :
    activeConfig base (l ++ [e]) = (configOf e).getD (activeConfig base l) := by
  unfold activeConfig
  rcases h : configOf e with - | c <;> simp [h]

theorem activeConfig_of_none (h : ∀ e ∈ l, configOf e = none) : activeConfig base l = base := by
  have hnil : l.filterMap configOf = [] := List.filterMap_eq_nil_iff.mpr h
  rw [activeConfig, hnil]
  rfl

theorem activeConfig_filter :
    activeConfig base (l.filter fun e => e.type = entryTypeConfig) = activeConfig base l := by
  have hsame : (l.filter fun e => e.type = entryTypeConfig).filterMap configOf
      = l.filterMap configOf := by
    rw [List.filterMap_filter]
    refine List.filterMap_congr fun e _ => ?_
    by_cases he : e.type = entryTypeConfig <;> simp [configOf, he]
  rw [activeConfig, hsame, activeConfig]

theorem activeConfig_cases (base : ClusterConfig) (l : List LogEntry) :
    (∃ p e q, l = p ++ e :: q ∧ configOf e = some (activeConfig base l) ∧
      ∀ x ∈ q, configOf x = none) ∨
    ((∀ x ∈ l, configOf x = none) ∧ activeConfig base l = base) := by
  induction l using List.reverseRecOn with
  | nil => exact .inr ⟨by simp, rfl⟩
  | append_singleton l e ih =>
    rw [activeConfig_concat]
    rcases he : configOf e with - | c
    · -- the decision was taken before
      rcases ih with ⟨p, x, q, rfl, hx, hq⟩ | ⟨hall, hbase⟩
      · refine .inl ⟨p, x, q ++ [e], by simp, hx, fun y hy => ?_⟩
        rcases List.mem_append.mp hy with hy | hy
        · exact hq y hy
        · rw [List.mem_singleton.mp hy]
          exact he
      · refine .inr ⟨fun y hy => ?_, hbase⟩
        rcases List.mem_append.mp hy with hy | hy
        · exact hall y hy
        · rw [List.mem_singleton.mp hy]
          exact he
    · exact .inl ⟨l, e, [], rfl, he, by simp⟩

end

/-! ### The cache of the node -/

namespace RaftNode

variable [Codec] {n m : RaftNode}

/-- **Membership follows the log**: the active configuration is that of the
highest well-formed configuration entry above the snapshot, or `base`. -/
def FollowsLog (base : ClusterConfig) (n : RaftNode) : Prop :=
  (∃ e ∈ n.log, n.snapshotIndex < e.index ∧ configOf e = some n.clusterConfig ∧
    ∀ x ∈ n.log, e.index < x.index → configOf x = none) ∨
  ((∀ x ∈ n.log, n.snapshotIndex < x.index → configOf x = none) ∧ n.clusterConfig = base)

theorem Contiguous.followsLog {base : ClusterConfig} (h : n.Contiguous)
    (hc : n.clusterConfig = activeConfig base n.log) : n.FollowsLog base := by
  rcases activeConfig_cases base n.log with ⟨p, e, q, hlog, he, hq⟩ | ⟨hall, hbase⟩
  · have hmem : e ∈ n.log := by simp [hlog]
    refine .inl ⟨e, hmem, (h.mem_bounds hmem).1, hc ▸ he, fun x hx hlt => ?_⟩
    -- what is not behind `e` has a lower index
    have hcont : Indexed LogEntry.index n.snapshotIndex (p ++ e :: q) := hlog ▸ h
    have hnum : e.index = n.snapshotIndex + p.length + 1 := hcont p.length e (by simp)
    have hxe : x ∈ p ++ e :: q := hlog ▸ hx
    rcases List.mem_append.mp hxe with hxp | hxq
    · obtain ⟨i, hi⟩ := List.getElem?_of_mem hxp
      have hilt := (List.getElem?_eq_some_iff.mp hi).1
      have hxnum := hcont i x (by rw [List.getElem?_append_left hilt, hi])
      omega
    · rcases List.mem_cons.mp hxq with rfl | hxq
      · omega
      · exact hq x hxq
  · exact .inr ⟨fun x hx _ => hall x hx, hc.trans hbase⟩

theorem applyConfigEntry_clusterConfig {e : LogEntry} (he : e.type = entryTypeConfig) :
    (n.applyConfigEntry e).clusterConfig = (configOf e).getD n.clusterConfig := by
  rcases hp : Codec.unmarshalConfig e.data with - | payload
  · simp [applyConfigEntry, configOf, he, hp]
  · by_cases hjoint : payload.phase = "joint"
    · simp [applyConfigEntry, configOf, he, hp, hjoint, activate]
    · by_cases hstable : payload.phase = "stable" <;>
        simp [applyConfigEntry, configOf, he, hp, hjoint, hstable, activate]

theorem appendEntry_clusterConfig (e : LogEntry) :
    (n.appendEntry e).clusterConfig = (configOf e).getD n.clusterConfig := by
  unfold appendEntry
  split
  · next he => exact applyConfigEntry_clusterConfig he
  · next he => rw [configOf, if_neg he]; rfl

theorem appendAll_clusterConfig (es : List LogEntry) :
    (n.appendAll es).clusterConfig = activeConfig n.clusterConfig es := by
  induction es using List.reverseRecOn with
  | nil => rfl
  | append_singleton es e ih =>
    rw [appendAll_concat, appendEntry_clusterConfig, ih, activeConfig_concat]

theorem replay_clusterConfig (es : List LogEntry) (hes : ∀ e ∈ es, e.type = entryTypeConfig) :
    (es.foldl (fun n e => n.applyConfigEntry e) n).clusterConfig
      = activeConfig n.clusterConfig es := by
  induction es using List.reverseRecOn with
  | nil => rfl
  | append_singleton es e ih =>
    rw [List.foldl_append, activeConfig_concat, ← ih fun x hx => hes x (List.mem_append_left _ hx)]
    exact applyConfigEntry_clusterConfig (hes e (by simp))

/-! ### What a restart finds -/

variable (boot : Option (List Addr))

/-- The static configuration of the peers given at startup. -/
def staticConfig : ClusterConfig := ⟨.stable, boot.getD [], []⟩

omit [Codec] in
/-- The entries that the file of the log holds. -/
def liveEntries (n : RaftNode) : List LogEntry := (n.logStore.map loadAll).getD []

/-- The snapshot that `RecoverFromSnapshot` restores. -/
def diskSnapshot (n : RaftNode) : Option Snapshot := if n.sm.isSome then n.snapshotToSend else none

theorem newRaftNode_view (id : NodeID) (boot : Option (List Addr)) (metaStore : Option RaftMeta)
    (logStore : Option (List LogRecord)) :
    (newRaftNode id boot metaStore logStore).log = (logStore.map loadAll).getD [] ∧
      (newRaftNode id boot metaStore logStore).boundary = ⟨0, 0⟩ ∧
      (newRaftNode id boot metaStore logStore).clusterConfig
        = activeConfig (staticConfig boot) ((logStore.map loadAll).getD []) ∧
      (newRaftNode id boot metaStore logStore).sm = none ∧
      (newRaftNode id boot metaStore logStore).snapshotStore = none := by
  have hcfg : (newRaftNode id boot metaStore logStore).clusterConfig = _ :=
    replay_clusterConfig _ fun e he => by simpa using (List.mem_filter.mp he).2
  rw [activeConfig_filter] at hcfg
  obtain ⟨_, _, _, _, heq⟩ := configOnly_newRaftNode id boot metaStore logStore
  refine ⟨?_, ?_, hcfg, ?_, ?_⟩
  all_goals
    rw [heq]
    rfl

theorem restart_view_none (h : n.diskSnapshot = none) :
    (n.restart boot).log = n.liveEntries ∧ (n.restart boot).boundary = ⟨0, 0⟩ ∧
      (n.restart boot).clusterConfig = activeConfig (staticConfig boot) n.liveEntries ∧
      (n.restart boot).snapshotStore = n.snapshotStore := by
  obtain ⟨hlog, hbd, hcfg, hsm, hst⟩ := newRaftNode_view n.id boot n.metaStore n.logStore
  rcases hf : n.snapshotStore with - | files
  · rcases hn : n.sm with - | sm <;>
      simp [restart, recoverFromSnapshot, setStateMachine, hf, hn, hst] <;>
      exact ⟨hlog, hbd, hcfg⟩
  · rcases hn : n.sm with - | sm
    · simp [restart, recoverFromSnapshot, setSnapshotStore, hf, hn, hsm]
      exact ⟨hlog, hbd, hcfg⟩
    · have hlat : files.latest = none := by
        rcases hl : files.latest with - | m
        · rfl
        · obtain ⟨f, hload, _⟩ := SnapshotFiles.load_latest hl
          simp [diskSnapshot, snapshotToSend, hn, hf, hl, hload] at h
      simp [restart, recoverFromSnapshot, setSnapshotStore, setStateMachine, hf, hn, hlat]
      exact ⟨hlog, hbd, hcfg⟩

theorem restart_view_some {f : Snapshot} (h : n.diskSnapshot = some f) :
    (n.restart boot).log = n.liveEntries.filter (fun e => f.snapMeta.index < e.index) ∧
      (n.restart boot).boundary = f.snapMeta ∧
      (n.restart boot).clusterConfig =
        (if f.data.config.isZero then activeConfig (staticConfig boot) n.liveEntries
          else f.data.config) ∧
      (n.restart boot).snapshotStore = n.snapshotStore ∧
      ∃ files, n.snapshotStore = some files ∧ f ∈ files := by
  obtain ⟨hlog, hbd, hcfg, hsm, hst⟩ := newRaftNode_view n.id boot n.metaStore n.logStore
  unfold diskSnapshot at h
  split at h
  · next hn =>
    obtain ⟨sm, hn⟩ := Option.isSome_iff_exists.mp hn
    obtain ⟨files, hf, hl⟩ := Option.bind_eq_some_iff.mp h
    obtain ⟨m, hm, hload⟩ := Option.bind_eq_some_iff.mp hl
    obtain ⟨f', hload', hmeta⟩ := SnapshotFiles.load_latest hm
    obtain rfl : f' = f := Option.some.inj (hload'.symm.trans hload)
    have hmem : f' ∈ files := List.mem_of_find?_eq_some hload
    unfold restart
    rw [hf, hn]
    simp only [recoverFromSnapshot, setSnapshotStore, setStateMachine, hm, hload, boundary, hcfg,
      hlog, hmeta]
    exact ⟨rfl, trivial, rfl, trivial, files, rfl, hmem⟩
  · cases h

end RaftNode

/-! ### The ledger of configurations -/

/-- What the past says about configurations: the one in force at the snapshot,
and those that were in force at the indices of all snapshots so far. -/
structure Ledger where
  base : ClusterConfig
  inForce : List (SnapshotMeta × ClusterConfig)

namespace Ledger

/-- A snapshot is known to carry the configuration `c`. -/
def note (g : Ledger) (m : SnapshotMeta) (c : ClusterConfig) : Ledger :=
  { g with inForce := (m, c) :: g.inForce }

/-- The snapshot boundary moves to `m`, where `c` is in force. -/
def move (g : Ledger) (m : SnapshotMeta) (c : ClusterConfig) : Ledger :=
  ⟨c, (m, c) :: g.inForce⟩

variable [Codec]

/-- The configuration in force at index `i`. -/
def configAt (g : Ledger) (n : RaftNode) (i : Int) : ClusterConfig :=
  activeConfig g.base (n.log.takeWhile fun e => e.index ≤ i)

/-- What a section adds.  The configuration of a snapshot that comes from another
node is the one it was sent with. -/
def next (s : Node) (ev : RecordEvent) (g : Ledger) : Ledger :=
  match ev with
  | .fast args => g.move args.snapMeta (g.configAt s.raft args.snapMeta.index)
  | .truncate m => g.move m (g.configAt s.raft m.index)
  | .discard args data => g.move args.snapMeta data.config
  | .capture snapshot => g.note snapshot.snapMeta (g.configAt s.raft snapshot.snapMeta.index)
  | .saveInstalled snapshot => g.note snapshot.snapMeta snapshot.data.config
  | .restart =>
      match s.raft.diskSnapshot with
      | none => { g with base := RaftNode.staticConfig s.boot }
      | some f => { g with base := f.data.config }
  | _ => g

/-- The ledger of a node as it is first started. -/
def initial (boot : Option (List Addr)) : Ledger := ⟨RaftNode.staticConfig boot, []⟩

end Ledger

/-- A node with its ledger. -/
def Node.stepLedger [Codec] : Node × Ledger → Act → Option (Node × Ledger) :=
  withHistory Node.step fun s act g => g.next s (s.recordEvent act)

/-! ### The tests -/

section

variable [Codec]

/-- No entry carries a configuration. -/
def configFree (l : List LogEntry) : Bool := l.all fun e => (configOf e).isNone

theorem configFree_iff {l : List LogEntry} : configFree l = true ↔ ∀ e ∈ l, configOf e = none := by
  simp [configFree]

/-- The batch conflicts with the log at or below an entry that carries a
configuration. -/
def RaftNode.cutsConfig (n : RaftNode) (args : AppendEntriesArgs) : Bool :=
  args.entries.any fun e =>
    match n.entryAt e.index with
    | some x => decide (x.term ≠ e.term) && !configFree (n.log.filter fun y => e.index ≤ y.index)
    | none => false

/-- What the restart will find: consecutive entries above the snapshot, none of
which carries a configuration.  A snapshot whose configuration is the zero value
is no use unless that is the static one and nothing ever changed it. -/
def RaftNode.restartFits (n : RaftNode) (boot : Option (List Addr)) : Bool :=
  match n.diskSnapshot with
  | none => decide (Indexed LogEntry.index 0 n.liveEntries)
  | some f =>
      let above := n.liveEntries.filter fun e => f.snapMeta.index < e.index
      decide (0 ≤ f.snapMeta.index) && decide (Indexed LogEntry.index f.snapMeta.index above) &&
        configFree above &&
        (!f.data.config.isZero ||
          configFree n.liveEntries && decide (f.data.config = staticConfig boot))

/-- The tests that the code does not make. -/
def configTest (s : Node) : RecordEvent → Bool
  | .batch args => s.raft.batchFits args &&
      (decide (args.term < s.raft.currentTerm) || (s.raft.checkPrev args).isSome ||
        !s.raft.cutsConfig args)
  | .discard args data => decide (0 ≤ args.lastIncludedIndex) &&
      (!data.config.isZero || decide (s.raft.clusterConfig = data.config))
  | .capture snapshot =>
      configFree (s.raft.log.filter fun e => snapshot.snapMeta.index < e.index)
  | .truncate m => decide (s.raft.snapshotIndex ≤ m.index)
  | .restart => s.raft.restartFits s.boot
  | _ => true

end

/-! ### One section -/

/-- Memory and files against the ledger. -/
structure LedgerInv [Codec] (s : Node) (g : Ledger) : Prop where
  contiguous : s.raft.Contiguous
  nonneg : 0 ≤ s.raft.snapshotIndex
  config : s.raft.clusterConfig = activeConfig g.base s.raft.log
  base : s.raft.boundary = ⟨0, 0⟩ ∧ g.base = RaftNode.staticConfig s.boot ∨
    (s.raft.boundary, g.base) ∈ g.inForce
  files : ∀ files, s.raft.snapshotStore = some files → ∀ f ∈ files,
    (f.snapMeta, f.data.config) ∈ g.inForce
  captured : ∀ c, s.snap = .captured c → (c.snapMeta, c.data.config) ∈ g.inForce

theorem Node.Section.boot [Codec] {s s' : Node} {act : Act} (h : Node.Section s act s') :
    s'.boot = s.boot := by
  cases h <;> rfl

theorem RaftNode.activeConfig_cut [Codec] {n : RaftNode} (h : n.Contiguous)
    {base : ClusterConfig} {i : Int}
    (hfree : configFree (n.log.filter fun y => i ≤ y.index) = true) :
    activeConfig base (n.cutSuffix i).log = activeConfig base n.log := by
  conv => rhs; rw [← Indexed.takeWhile_append_filter h i, activeConfig_append]
  exact (activeConfig_of_none (configFree_iff.mp hfree)).symm

namespace LedgerInv

variable [Codec] {s s' : Node} {g : Ledger}

theorem same (h : LedgerInv s g) (hboot : s'.boot = s.boot) (hcont : s'.raft.Contiguous)
    (hbd : s'.raft.boundary = s.raft.boundary)
    (hcfg : s'.raft.clusterConfig = activeConfig g.base s'.raft.log)
    (hst : s'.raft.snapshotStore = s.raft.snapshotStore)
    (hsnap : ∀ c, s'.snap = .captured c → s.snap = .captured c) : LedgerInv s' g where
  contiguous := hcont
  nonneg := by
    have hsi : s'.raft.snapshotIndex = s.raft.snapshotIndex := congrArg SnapshotMeta.index hbd
    rw [hsi]
    exact h.nonneg
  config := hcfg
  base := by
    rw [hbd, hboot]
    exact h.base
  files := hst ▸ h.files
  captured c hc := h.captured c (hsnap c hc)

theorem move (h : LedgerInv s g) {m : SnapshotMeta} {c : ClusterConfig} (hcont : s'.raft.Contiguous)
    (hbd : s'.raft.boundary = m) (hpos : 0 ≤ m.index)
    (hcfg : s'.raft.clusterConfig = activeConfig c s'.raft.log)
    (hst : s'.raft.snapshotStore = s.raft.snapshotStore)
    (hsnap : ∀ c, s'.snap = .captured c → s.snap = .captured c) : LedgerInv s' (g.move m c) where
  contiguous := hcont
  nonneg := by
    have hsi : s'.raft.snapshotIndex = m.index := congrArg SnapshotMeta.index hbd
    rwa [hsi]
  config := hcfg
  base := .inr (hbd ▸ List.mem_cons_self ..)
  files files hf f hmem := List.mem_cons_of_mem _ (h.files files (hst ▸ hf) f hmem)
  captured c hc := List.mem_cons_of_mem _ (h.captured c (hsnap c hc))

theorem truncate (h : LedgerInv s g) {m : SnapshotMeta} (hle : s.raft.snapshotIndex ≤ m.index)
    (hr : s'.raft = s.raft.truncateLogPrefix m.index m.term)
    (hsnap : ∀ c, s'.snap = .captured c → s.snap = .captured c) :
    LedgerInv s' (g.move m (g.configAt s.raft m.index)) := by
  refine h.move ?_ ?_ (h.nonneg.trans hle) ?_ ?_ hsnap
  · rw [hr]
    exact RaftNode.truncateLogPrefix_contiguous h.contiguous hle
  · rw [hr]
    rfl
  · rw [hr]
    show s.raft.clusterConfig = activeConfig (g.configAt s.raft m.index)
      (s.raft.log.dropWhile fun e => e.index ≤ m.index)
    rw [Ledger.configAt, ← activeConfig_append, List.takeWhile_append_dropWhile]
    exact h.config
  · rw [hr]
    rfl

theorem batch (h : LedgerInv s g) {args : AppendEntriesArgs} {f : Faults}
    (hok : configTest s (.batch args) = true) (hboot : s'.boot = s.boot)
    (hr : s'.raft = (s.raft.handleAppendEntries args f).1) (hsnap : s'.snap = s.snap) :
    LedgerInv s' g := by
  simp only [configTest, Bool.and_eq_true] at hok
  obtain ⟨hfit, hcut⟩ := hok
  obtain ⟨n₁, n₂, _, honly, hspl, hres, hdone⟩ :=
    RaftNode.handleAppendEntries_spliced f h.contiguous h.nonneg hfit
  obtain ⟨hbd, hst, _⟩ := RaftNode.handleAppendEntries_frame s.raft args f
  rw [← hr] at hbd hst hres
  obtain ⟨_, _, _, _, _, _, rfl⟩ := honly
  obtain ⟨hcont, _, _⟩ := hspl.contiguous h.contiguous h.nonneg
  have hcfg : n₂.clusterConfig = activeConfig g.base n₂.log := by
    rcases hdone with rfl | ⟨hterm, hpass⟩
    · exact h.config
    · cases hspl with
      | grown added hadd =>
        rw [RaftNode.appendAll_clusterConfig, RaftNode.appendAll_log, activeConfig_append]
        congr 1
        exact h.config
      | replaced e x added hx hne hadd skipped he =>
        rw [RaftNode.appendAll_clusterConfig, RaftNode.appendAll_log, activeConfig_append]
        congr 1
        -- the batch is accepted and conflicts, so the test speaks about this cut
        have hfree : configFree (s.raft.log.filter fun y => e.index ≤ y.index) = true := by
          have hstale : ¬args.term < s.raft.currentTerm := by omega
          have hno : s.raft.cutsConfig args = false := by simpa [hstale, hpass] using hcut
          have hx' : s.raft.entryAt e.index = some x := hx
          have hone := List.any_eq_false.mp hno e (he.subset (by simp))
          simpa [hx', hne] using hone
        exact h.config.trans (RaftNode.activeConfig_cut h.contiguous hfree).symm
  -- the commit index is no part of it
  have hfollow : s'.raft.log = n₂.log ∧ s'.raft.clusterConfig = n₂.clusterConfig ∧
      s'.raft.snapshotIndex = n₂.snapshotIndex := by
    rcases hres with hres | hres
    · rw [hres]
      exact ⟨rfl, rfl, rfl⟩
    · obtain ⟨c, hc⟩ := n₂.followCommit_eq args.leaderCommit
      rw [hres, hc]
      exact ⟨rfl, rfl, rfl⟩
  refine h.same hboot ?_ hbd ?_ hst (by simp [hsnap])
  · unfold RaftNode.Contiguous
    rw [hfollow.1, hfollow.2.2]
    exact hcont
  · rw [hfollow.1, hfollow.2.1]
    exact hcfg

theorem capture (h : LedgerInv s g) {sm : KVStateMachine} {k : Int} {snapshot : Snapshot}
    (hc : s.raft.snapshotCapture sm k = some snapshot)
    (hok : configTest s (.capture snapshot) = true) (hboot : s'.boot = s.boot)
    (hr : s'.raft = s.raft) (hs : s'.snap = .captured snapshot) :
    LedgerInv s' (g.note snapshot.snapMeta (g.configAt s.raft snapshot.snapMeta.index)) := by
  have hcfg : snapshot.data.config = s.raft.clusterConfig := by
    unfold RaftNode.snapshotCapture at hc
    split at hc
    · cases hc
    · obtain ⟨term, _, rfl⟩ := Option.map_eq_some_iff.mp hc
      rfl
  have hat : snapshot.data.config = g.configAt s.raft snapshot.snapMeta.index := by
    rw [hcfg, h.config, Ledger.configAt]
    conv => lhs; rw [← List.takeWhile_append_dropWhile
      (p := fun e : LogEntry => decide (e.index ≤ snapshot.snapMeta.index)) (l := s.raft.log),
      activeConfig_append, Indexed.dropWhile_eq_filter h.contiguous]
    exact activeConfig_of_none (configFree_iff.mp hok)
  refine ⟨hr ▸ h.contiguous, hr ▸ h.nonneg, hr ▸ h.config, ?_, ?_, ?_⟩
  · rw [hr, hboot]
    exact h.base.imp id (List.mem_cons_of_mem _)
  · rw [hr]
    exact fun files hf f hmem => List.mem_cons_of_mem _ (h.files files hf f hmem)
  · intro c hc'
    obtain rfl : snapshot = c := by
      rw [hs] at hc'
      exact SnapTask.captured.inj hc'
    rw [hat]
    exact List.mem_cons_self ..

theorem save (h : LedgerInv s g) {g' : Ledger} {snapshot : Snapshot} (hg : g'.base = g.base)
    (hsub : g.inForce ⊆ g'.inForce)
    (hin : (snapshot.snapMeta, snapshot.data.config) ∈ g'.inForce) (hboot : s'.boot = s.boot)
    (hr : s'.raft = s.raft.saveSnapshot snapshot)
    (hsnap : ∀ c, s'.snap = .captured c → s.snap = .captured c) : LedgerInv s' g' := by
  refine ⟨hr ▸ h.contiguous, hr ▸ h.nonneg, ?_, ?_, ?_, fun c hc =>
    hsub (h.captured c (hsnap c hc))⟩
  · rw [hr, hg]
    exact h.config
  · rw [hr, hboot, hg]
    exact h.base.imp id fun hmem => hsub hmem
  · intro files hf f hmem
    rw [hr] at hf
    obtain ⟨old, hold, rfl⟩ := Option.map_eq_some_iff.mp hf
    rcases SnapshotFiles.mem_save (List.mem_of_mem_take hmem) with rfl | hmem
    · exact hin
    · exact hsub (h.files old hold f hmem)

theorem restart (h : LedgerInv s g) (hok : s.raft.restartFits s.boot = true) :
    LedgerInv s.restart (g.next s .restart) := by
  unfold RaftNode.restartFits at hok
  rcases hd : s.raft.diskSnapshot with - | f
  · obtain ⟨hlog, hbd, hcfg, hst⟩ := RaftNode.restart_view_none s.boot hd
    rw [hd] at hok
    have hidx : Indexed LogEntry.index 0 s.raft.liveEntries := of_decide_eq_true hok
    have hsi : (s.raft.restart s.boot).snapshotIndex = 0 := congrArg SnapshotMeta.index hbd
    simp only [Ledger.next, hd]
    refine ⟨?_, ?_, ?_, .inl ⟨hbd, rfl⟩, ?_, fun c hc => (by cases hc)⟩
    · show Indexed LogEntry.index (s.raft.restart s.boot).snapshotIndex (s.raft.restart s.boot).log
      rwa [hsi, hlog]
    · exact hsi.ge
    · exact hcfg.trans (by rw [← hlog]; rfl)
    · exact fun files hf => h.files files (hst ▸ hf)
  · obtain ⟨hlog, hbd, hcfg, hst, files, hfiles, hmem⟩ := RaftNode.restart_view_some s.boot hd
    rw [hd] at hok
    simp only [Bool.and_eq_true, decide_eq_true_eq] at hok
    obtain ⟨⟨⟨hpos, hidx⟩, hfree⟩, hzero⟩ := hok
    have hsi : (s.raft.restart s.boot).snapshotIndex = f.snapMeta.index :=
      congrArg SnapshotMeta.index hbd
    -- whichever branch `recoverFromSnapshot` takes, it ends with the file's configuration
    have hconf : (s.raft.restart s.boot).clusterConfig = f.data.config := by
      rw [hcfg]
      split
      · next hz =>
        have hz' : configFree s.raft.liveEntries = true ∧
            f.data.config = RaftNode.staticConfig s.boot := by simpa [hz] using hzero
        rw [activeConfig_of_none (configFree_iff.mp hz'.1), hz'.2]
      · rfl
    simp only [Ledger.next, hd]
    refine ⟨?_, ?_, ?_, .inr ?_, ?_, fun c hc => (by cases hc)⟩
    · show Indexed LogEntry.index (s.raft.restart s.boot).snapshotIndex (s.raft.restart s.boot).log
      rwa [hsi, hlog]
    · exact hsi ▸ hpos
    · show (s.raft.restart s.boot).clusterConfig
        = activeConfig f.data.config (s.raft.restart s.boot).log
      rw [hconf, hlog, activeConfig_of_none (configFree_iff.mp hfree)]
    · show ((s.raft.restart s.boot).boundary, f.data.config) ∈ g.inForce
      rw [hbd]
      exact h.files files hfiles f hmem
    · exact fun files' hf => h.files files' (hst ▸ hf)

theorem step (h : LedgerInv s g) {ev : RecordEvent} (hboot : s'.boot = s.boot)
    (hs : RecordStep s s' ev) (hok : configTest s ev = true) : LedgerInv s' (g.next s ev) := by
  cases hs with
  | keep hr hs _ =>
    refine h.same hboot ?_ ?_ ?_ hr.snapshotStore (by simp [hs])
    · unfold RaftNode.Contiguous
      rw [hr.log, hr.snapshotIndex]
      exact h.contiguous
    · unfold RaftNode.boundary
      rw [hr.snapshotIndex, hr.snapshotTerm]
    · rw [hr.clusterConfig, hr.log]
      exact h.config
  | extend e he hr hs _ =>
    have hone : Indexed LogEntry.index s.raft.lastEntry.1 [e] :=
      Indexed.cons_iff.mpr ⟨he, Indexed.nil⟩
    have honly := RaftNode.logOnly_appendEntry (n := s.raft) e
    refine h.same hboot (hr ▸ RaftNode.appendAll_contiguous h.contiguous hone) ?_ ?_ ?_
      (by simp [hs])
    · rw [hr, honly.boundary]
    · rw [hr, RaftNode.appendEntry_clusterConfig, RaftNode.appendEntry_log, activeConfig_concat,
        h.config]
    · rw [hr, honly.snapshotStore]
  | take sm k _ hr hs _ =>
    exact h.same hboot (hr ▸ h.contiguous) (by rw [hr]) (hr ▸ h.config) (by rw [hr])
      (by simp [hs])
  | giveUp _ hr hs _ =>
    exact h.same hboot (hr ▸ h.contiguous) (by rw [hr]) (hr ▸ h.config) (by rw [hr])
      (by simp [hs])
  | compact k _ hr hs _ =>
    exact h.same hboot (hr ▸ h.contiguous) (by rw [hr]; rfl) (hr ▸ h.config) (by rw [hr]; rfl)
      (by simp [hs])
  | batch args f hr hs _ => exact h.batch hok hboot hr hs
  | fast args hf hr hs _ =>
    obtain ⟨e, _, he, _⟩ := RaftNode.installFast_iff.mp hf
    have hlt := (RaftNode.lt_of_entryAt h.contiguous h.nonneg he).1
    exact h.truncate (m := args.snapMeta) hlt.le hr (by simp [hs])
  | discard args data hr hs _ =>
    simp only [configTest, Bool.and_eq_true, decide_eq_true_eq] at hok
    obtain ⟨hpos, hzero⟩ := hok
    refine h.move (hr ▸ Indexed.nil) (by rw [hr]; rfl) hpos ?_ (by rw [hr]; rfl) (by simp [hs])
    rw [hr]
    show (if data.config.isZero then s.raft.clusterConfig else data.config) = data.config
    split
    · next hz => simpa [hz] using hzero
    · rfl
  | saveInstalled snapshot hr hs _ =>
    exact h.save rfl (List.subset_cons_self ..) (List.mem_cons_self ..) hboot hr (by simp [hs])
  | capture sm k snapshot _ hc hr hs _ => exact h.capture hc hok hboot hr hs
  | save snapshot hsnap hr hs _ =>
    exact h.save rfl (List.Subset.refl _) (h.captured snapshot hsnap) hboot hr (by simp [hs])
  | truncate m _ hr hs _ => exact h.truncate (of_decide_eq_true hok) hr (by simp [hs])
  | restart hr =>
    subst hr
    exact h.restart hok

end LedgerInv

/-! ### Every run -/

/-- **Membership follows the log**, as far as the ledger `g` tells: memory, the
base, and every snapshot file. -/
structure MembershipFollows [Codec] (s : Node) (g : Ledger) : Prop where
  /-- The active configuration is that of the log above the snapshot. -/
  log : s.raft.FollowsLog g.base
  /-- The base is the static configuration, or was in force at the snapshot. -/
  base : s.raft.boundary = ⟨0, 0⟩ ∧ g.base = RaftNode.staticConfig s.boot ∨
    (s.raft.boundary, g.base) ∈ g.inForce
  /-- A snapshot file holds the configuration in force at its index. -/
  files : ∀ files, s.raft.snapshotStore = some files → ∀ f ∈ files,
    (f.snapMeta, f.data.config) ∈ g.inForce

theorem ledgerInv_fresh [Codec] (addr : Addr) (id : NodeID) (boot : Option (List Addr))
    (metaStore logStore sm : Bool) (snapshots : Option SnapshotConfig) :
    LedgerInv (Node.fresh addr id boot metaStore logStore sm snapshots) (Ledger.initial boot) := by
  have hraft := Node.raft_fresh addr id boot metaStore logStore sm snapshots
  refine ⟨?_, ?_, ?_, .inl ⟨?_, rfl⟩, ?_, fun c hc => (by cases hc)⟩
  · rw [hraft]
    exact Indexed.nil
  · rw [hraft]
  · rw [hraft]
    rfl
  · rw [hraft]
    rfl
  · rw [hraft]
    intro files hf f hmem
    rcases snapshots with - | cfg
    · cases hf
    · cases hf
      cases hmem

theorem ledgerInv_of_runs [Codec] {addr : Addr} {id : NodeID} {boot : Option (List Addr)}
    {metaStore logStore sm : Bool} {snapshots : Option SnapshotConfig} {x : Node × Ledger}
    (h : Runs Node.stepLedger
      (fun x act => configTest x.1 (x.1.recordEvent act) ∧ x.1.fitsInt64 act)
      (Node.fresh addr id boot metaStore logStore sm snapshots, Ledger.initial boot) x) :
    LedgerInv x.1 x.2 := by
  refine h.invariant (P := fun x => LedgerInv x.1 x.2) ?_
    (ledgerInv_fresh addr id boot metaStore logStore sm snapshots)
  intro x act x' hx hstep hok
  obtain ⟨s', hs', rfl⟩ := Option.map_eq_some_iff.mp hstep
  have hsec := Node.step_section hs'
  exact hx.step hsec.boot (Node.record_step hsec) hok.1

/-- **Active membership always follows the log.**  Every run whose sections pass
the tests and do not overflow, restarts included, has a ledger that its last state agrees
with. -/
theorem membership_follows_log [Codec] {addr : Addr} {id : NodeID} {boot : Option (List Addr)}
    {metaStore logStore sm : Bool} {snapshots : Option SnapshotConfig} {s : Node}
    (h : Runs Node.step (fun s act => configTest s (s.recordEvent act) ∧ s.fitsInt64 act)
      (Node.fresh addr id boot metaStore logStore sm snapshots) s) :
    ∃ g, Runs Node.stepLedger
      (fun x act => configTest x.1 (x.1.recordEvent act) ∧ x.1.fitsInt64 act)
        (Node.fresh addr id boot metaStore logStore sm snapshots, Ledger.initial boot) (s, g) ∧
      MembershipFollows s g := by
  obtain ⟨g, hrun⟩ := h.withHistory (fun s act g => g.next s (s.recordEvent act))
    (Ledger.initial boot)
  have hinv := ledgerInv_of_runs hrun
  exact ⟨g, hrun, hinv.contiguous.followsLog hinv.config, hinv.base, hinv.files⟩

/-! ### A configuration that outlives its entry -/

/-- `c` is added to the voter `a`. -/
def joinChange : ConfigChangePayload := ⟨"joint", ["a"], ["a", "c"]⟩

/-- A codec of this change and of one command. -/
abbrev Codec.joining : Codec := .ofTexts [(setA, ⟨"set", "a", "1", 0⟩)] [joinChange]

section

local instance joiningCodec : Codec := Codec.joining

/-- A follower `b` of the leader `a`, with all its stores. -/
def joiningFollower : Node := .fresh "b" "b" (some ["a"]) true true true (some ⟨1, 1⟩)

/-- A follower `b` takes a joint configuration from the leader of term `1`; the
leader of term `2` has a command in its place. -/
def replacedConfig : List Act :=
  [.deliver ⟨"a", 0, "b", .append ⟨1, "a", 0, 0, [⟨1, 1, 1, joinChange.json⟩], 0⟩⟩ .none,
    .deliver ⟨"c", 0, "b", .append ⟨2, "c", 0, 0, [⟨1, 2, 0, goString setA⟩], 0⟩⟩ .none]

/-- **The truncation does not undo the configuration.**  The log holds no
configuration entry and there is no snapshot, but the joint configuration stays
active. -/
theorem truncated_config_stays :
    ∃ x, exec Node.stepLedger (fun x act => x.1.fitsInt64 act)
        (joiningFollower, Ledger.initial (some ["a"])) replacedConfig = some x ∧
      x.1.raft.snapshotIndex = 0 ∧ x.2.base = ⟨.stable, ["a"], []⟩ ∧
      x.1.raft.log.map LogEntry.type = [0] ∧
      x.1.raft.clusterConfig = ⟨.joint, ["a"], ["a", "c"]⟩ ∧ ¬MembershipFollows x.1 x.2 := by
  have h : ∃ x, exec Node.stepLedger (fun x act => x.1.fitsInt64 act)
      (joiningFollower, Ledger.initial (some ["a"])) replacedConfig = some x ∧
      x.1.raft.snapshotIndex = 0 ∧ x.2.base = ⟨.stable, ["a"], []⟩ ∧
      x.1.raft.log.map LogEntry.type = [0] ∧
      x.1.raft.clusterConfig = ⟨.joint, ["a"], ["a", "c"]⟩ ∧
      (∀ e ∈ x.1.raft.log, configOf e = none) := exists_of_any (by decide +kernel)
  obtain ⟨x, hx, hsi, hbase, hlog, hcfg, hnone⟩ := h
  refine ⟨x, hx, hsi, hbase, hlog, hcfg, fun hf => ?_⟩
  rcases hf.log with ⟨e, he, _, hconf, _⟩ | ⟨_, heq⟩
  · rw [hnone e he] at hconf
    cases hconf
  · rw [hcfg, hbase] at heq
    cases heq

/-- A follower commits a configuration entry, compacts it into a snapshot, crashes,
and goes on. -/
def compactedConfig : List Act :=
  [.deliver ⟨"a", 0, "b", .append ⟨1, "a", 0, 0,
      [⟨1, 1, 0, goString setA⟩, ⟨2, 1, 1, joinChange.json⟩], 2⟩⟩ .none,
    .collect, .emit, .emit, .apply false, .apply false, .snapTake, .snapCapture, .snapSave false,
    .snapTruncate, .snapCompact, .restart,
    .deliver ⟨"a", 1, "b", .append ⟨1, "a", 2, 1, [⟨3, 1, 0, goString setA⟩], 2⟩⟩ .none]

theorem membership_follows_log_compacted :
    ∃ s g, Runs Node.step (fun s act => configTest s (s.recordEvent act) ∧ s.fitsInt64 act)
        joiningFollower s ∧
      s.raft.snapshotIndex = 2 ∧ s.raft.log.map LogEntry.index = [3] ∧
      s.raft.clusterConfig = ⟨.joint, ["a"], ["a", "c"]⟩ ∧ MembershipFollows s g := by
  have h : ∃ s, exec Node.step
      (fun s act => configTest s (s.recordEvent act) ∧ s.fitsInt64 act) joiningFollower
      compactedConfig = some s ∧ s.raft.snapshotIndex = 2 ∧
      s.raft.log.map LogEntry.index = [3] ∧
      s.raft.clusterConfig = ⟨.joint, ["a"], ["a", "c"]⟩ := exists_of_any (by decide +kernel)
  obtain ⟨s, hs, hsi, hlog, hcfg⟩ := h
  obtain ⟨g, _, hfollows⟩ := membership_follows_log (Runs.of_exec hs)
  exact ⟨s, g, Runs.of_exec hs, hsi, hlog, hcfg, hfollows⟩

end

end Raft
