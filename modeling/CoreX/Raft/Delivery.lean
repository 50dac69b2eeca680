/-
CoreX/Raft/Delivery.lean

What a section of the node does to its state machine, to the entries on their way
there, and to the snapshots it holds.  Most sections touch none of them;
`MachineStep` lists the others and `Node.machine_step` says that there are no more.

A snapshot is held from the moment it is taken, or restored by an install, to the
moment its file is pruned.  Only the index and the map matter here.
-/
import CoreX.Raft.Recovery

namespace Raft

/-! ### Queue and snapshots of a node -/

/-- An index and the map that belongs to it. -/
abbrev KvImage := Int × (String → Option String)

/-- The map `maybeSnapshot` has taken and not yet saved. -/
def SnapTask.held : SnapTask → List KvImage
  | .taken sm capturedIndex => [(capturedIndex, sm.data)]
  | .captured s => [(s.snapMeta.index, s.data.kv)]
  | _ => []

/-- The map of an install that has restored it. -/
def Install.held (t : Install) : List KvImage :=
  match t.phase with
  | .discard data => [(t.args.lastIncludedIndex, data.kv)]
  | .save data => [(t.args.lastIncludedIndex, data.kv)]
  | _ => []

namespace Node

variable (s : Node)

/-- The entries between `runApplyLoop` and the reader of `applyCh`. -/
def queue : List LogEntry := s.emitted.drop s.consumed ++ s.toApply

/-- The snapshot files. -/
def files : SnapshotFiles := s.raft.snapshotStore.getD []

def held : List KvImage :=
  s.snap.held ++ (s.installs.flatMap Install.held ++
    s.files.map fun f => (f.snapMeta.index, f.data.kv))

end Node

/-! ### Sections that leave the state machine alone -/

namespace RaftNode

variable {n n' n'' : RaftNode}

/-- `n'` has the state machine of `n`, its `lastApplied` and its snapshot files. -/
structure SameMachine (n n' : RaftNode) : Prop where
  sm : n'.sm = n.sm
  lastApplied : n'.lastApplied = n.lastApplied
  snapshotStore : n'.snapshotStore = n.snapshotStore

theorem SameMachine.refl (n : RaftNode) : SameMachine n n := ⟨rfl, rfl, rfl⟩

theorem SameMachine.trans (h : SameMachine n n') (h' : SameMachine n' n'') : SameMachine n n'' :=
  ⟨h'.sm.trans h.sm, h'.lastApplied.trans h.lastApplied, h'.snapshotStore.trans h.snapshotStore⟩

theorem ElectionOnly.sameMachine (h : ElectionOnly n n') : SameMachine n n' := by
  obtain ⟨_, _, _, _, _, _, rfl⟩ := h
  exact ⟨rfl, rfl, rfl⟩

theorem LogOnly.sameMachine (h : LogOnly n n') : SameMachine n n' := by
  obtain ⟨_, _, _, _, _, _, _, rfl⟩ := h
  exact ⟨rfl, rfl, rfl⟩

theorem PointersOnly.sameMachine (h : PointersOnly n n') : SameMachine n n' := by
  obtain ⟨_, _, _, _, rfl⟩ := h
  exact ⟨rfl, rfl, rfl⟩

theorem sameMachine_handleAppendEntries [Codec] (n : RaftNode) (args : AppendEntriesArgs)
    (f : Faults) : SameMachine n (n.handleAppendEntries args f).1 := by
  rcases handleAppendEntries_cases n args f with ⟨_, heq⟩ | ⟨_, hlog, _⟩
  · rw [heq]
    exact SameMachine.refl n
  · exact (electionOnly_acceptLeader n args f).sameMachine.trans hlog.sameMachine

theorem sameMachine_snapshotSent (n : RaftNode) (addr : Addr) (index : Int) :
    SameMachine n (n.snapshotSent addr index) := by
  unfold snapshotSent
  dsimp only
  split <;> split <;> exact ⟨rfl, rfl, rfl⟩

theorem sameMachine_stepDownIfRemoved (n : RaftNode) (newVoters : List Addr) :
    SameMachine n (n.stepDownIfRemoved newVoters) := by
  unfold stepDownIfRemoved
  split
  · exact SameMachine.refl n
  · exact ⟨rfl, rfl, rfl⟩

theorem snapshotTake_some {sm : KVStateMachine} {k : Int} (h : n.snapshotTake = some (sm, k)) :
    n.sm = some sm ∧ k = sm.lastApplied := by
  unfold snapshotTake at h
  split at h
  · cases h
  · rcases hsm : n.sm with - | sm'
    · simp [hsm] at h
    · simp only [hsm] at h
      split at h
      · cases h
      · cases h
        exact ⟨rfl, rfl⟩

theorem snapshotCapture_some {sm : KVStateMachine} {k : Int} {snapshot : Snapshot}
    (h : n.snapshotCapture sm k = some snapshot) :
    (snapshot.snapMeta.index, snapshot.data.kv) = (k, sm.data) := by
  unfold snapshotCapture at h
  split at h
  · cases h
  · obtain ⟨term, _, rfl⟩ := Option.map_eq_some_iff.mp h
    rfl

theorem mem_of_entryAt {i : Int} {e : LogEntry} (h : n.entryAt i = some e) :
    e ∈ n.log ∧ e.index = i := by
  unfold entryAt at h
  split at h
  · cases h
  · exact ⟨List.mem_reverse.mp (List.mem_of_find?_eq_some h),
      by simpa using List.find?_some h⟩

theorem mem_collectApply {e : LogEntry} (h : e ∈ n.collectApply.2) :
    e ∈ n.log ∧ e.index ≤ n.commitIndex := by
  unfold collectApply at h
  split at h
  · cases h
  · obtain ⟨k, hk, he⟩ := List.mem_filterMap.mp h
    obtain ⟨hmem, hidx⟩ := mem_of_entryAt he
    have := List.mem_range.mp hk
    exact ⟨hmem, by omega⟩

theorem restart_volatile [Codec] (n : RaftNode) (boot : Option (List Addr)) :
    (n.restart boot).role = .follower ∧ (n.restart boot).commitIndex = 0 ∧
      (n.restart boot).lastApplied = 0 := by
  obtain ⟨_, _, _, _, heq⟩ := configOnly_newRaftNode n.id boot n.metaStore n.logStore
  have hrecover : ∀ n' : RaftNode, n'.recoverFromSnapshot.role = n'.role ∧
      n'.recoverFromSnapshot.commitIndex = n'.commitIndex ∧
      n'.recoverFromSnapshot.lastApplied = n'.lastApplied := by
    intro n'
    unfold recoverFromSnapshot
    split
    · split
      · exact ⟨rfl, rfl, rfl⟩
      · split <;> exact ⟨rfl, rfl, rfl⟩
    · exact ⟨rfl, rfl, rfl⟩
  unfold restart
  dsimp only
  obtain ⟨hrole, hcommit, hlast⟩ := hrecover _
  rw [hrole, hcommit, hlast]
  cases n.sm <;> cases n.snapshotStore <;> rw [heq] <;> exact ⟨rfl, rfl, rfl⟩

theorem restart_sm [Codec] (boot : Option (List Addr)) (hsm : n.sm.isSome = true) :
    (n.restart boot).snapshotStore = n.snapshotStore ∧
    (n.restart boot).snapshotIndex = n.stored.index ∧
    ((n.restart boot).sm = some newKVStateMachine ∧ n.stored.index = 0 ∨
      ∃ f ∈ n.snapshotStore.getD [],
        (n.restart boot).sm = some ⟨f.data.kv, f.snapMeta.index⟩ ∧
          n.stored.index = f.snapMeta.index) := by
  obtain ⟨sm, hsm⟩ := Option.isSome_iff_exists.mp hsm
  obtain ⟨_, _, _, _, hnew⟩ := configOnly_newRaftNode n.id boot n.metaStore n.logStore
  unfold restart stored
  rw [hsm, hnew]
  rcases hst : n.snapshotStore with - | files
  · exact ⟨rfl, rfl, .inl ⟨rfl, rfl⟩⟩
  · rcases files with - | ⟨f, fs⟩
    · exact ⟨rfl, rfl, .inl ⟨rfl, rfl⟩⟩
    · have hload : SnapshotFiles.load (f :: fs) f.snapMeta.index = some f := by
        simp [SnapshotFiles.load]
      simp only [recoverFromSnapshot, setSnapshotStore, setStateMachine, SnapshotFiles.latest,
        List.head?_cons, Option.map_some, hload]
      exact ⟨trivial, rfl, .inr ⟨f, List.mem_cons_self, rfl, rfl⟩⟩

end RaftNode

/-! ### The steps -/

/-- What a section can do to the state machine, its queue and the snapshots. -/
inductive MachineStep [Codec] (s s' : Node) (act : Act) : Prop
  | keep (hsm : s'.raft.sm = s.raft.sm) (hq : s'.queue = s.queue)
      (hla : s'.raft.lastApplied = s.raft.lastApplied ∨
        s.raft.lastApplied ≤ s'.raft.lastApplied ∧ s'.raft.log = [])
      (hh : ∀ x ∈ s'.held, x ∈ s.held)
  | collect (hact : act = .collect) (h : s.toApply = [])
      (hs : s' = { s with raft := s.raft.collectApply.1, toApply := s.raft.collectApply.2 })
  | take (sm : KVStateMachine) (hact : act = .snapTake) (hsm : s.raft.sm = some sm)
      (hr : s'.raft = s.raft) (hq : s'.queue = s.queue)
      (hh : ∀ x ∈ s'.held, x = (sm.lastApplied, sm.data) ∨ x ∈ s.held)
  | restore (i : Nat) (t : Install) (data : SnapshotData) (hact : act = .installNext i)
      (ht : s.installs[i]? = some t) (hp : t.phase = .restore data)
      (hr : s'.raft = s.raft.installRestore t.args data) (hq : s'.queue = s.queue)
      (hh : ∀ x ∈ s'.held, x = (t.args.lastIncludedIndex, data.kv) ∨ x ∈ s.held)

namespace Node

variable {s s' : Node} {i : Nat} {t : Install} {x : KvImage}

theorem mem_held : x ∈ s.held ↔ x ∈ s.snap.held ∨ (∃ t ∈ s.installs, x ∈ t.held) ∨
    ∃ f ∈ s.files, x = (f.snapMeta.index, f.data.kv) := by
  simp only [held, List.mem_append, List.mem_flatMap, List.mem_map, eq_comm (a := x)]

theorem queue_of_next {e : LogEntry} (h : s.emitted[s.consumed]? = some e) :
    s.queue = e :: (s.emitted.drop (s.consumed + 1) ++ s.toApply) := by
  obtain ⟨hlt, hget⟩ := List.getElem?_eq_some_iff.mp h
  rw [queue, List.drop_eq_getElem_cons hlt, hget]
  rfl

theorem held_rule {P : KvImage → Prop} (hsnap : ∀ x ∈ s.snap.held, P x)
    (hin : ∀ t ∈ s.installs, ∀ x ∈ t.held, P x)
    (hfiles : ∀ f ∈ s.files, P (f.snapMeta.index, f.data.kv)) : ∀ x ∈ s.held, P x := by
  intro x hx
  rcases mem_held.mp hx with hx | ⟨t, ht, hx⟩ | ⟨f, hf, rfl⟩
  · exact hsnap x hx
  · exact hin t ht x hx
  · exact hfiles f hf

theorem held_of_snap (h : x ∈ s.snap.held) : x ∈ s.held := mem_held.mpr (.inl h)

theorem held_of_install (ht : t ∈ s.installs) (h : x ∈ t.held) : x ∈ s.held :=
  mem_held.mpr (.inr (.inl ⟨t, ht, h⟩))

theorem held_of_file {f : Snapshot} (h : f ∈ s.files) : (f.snapMeta.index, f.data.kv) ∈ s.held :=
  mem_held.mpr (.inr (.inr ⟨f, h, rfl⟩))

theorem mem_files_saveSnapshot {snapshot f : Snapshot} (hr : s'.raft = s.raft.saveSnapshot snapshot)
    (h : f ∈ s'.files) : f = snapshot ∨ f ∈ s.files := by
  have hfiles : s'.files = (s.raft.snapshotStore.map fun files =>
      (files.save snapshot).prune s.raft.retainCount).getD [] := by
    rw [Node.files, hr]
    rfl
  rw [hfiles] at h
  rcases hst : s.raft.snapshotStore with - | files
  · rw [hst] at h
    cases h
  · rw [hst] at h
    rw [Node.files, hst]
    exact SnapshotFiles.mem_save (List.mem_of_mem_take h)

variable [Codec] {act : Act}

theorem machineStep_of_same (hm : RaftNode.SameMachine s.raft s'.raft) (hq : s'.queue = s.queue)
    (hsnap : ∀ x ∈ s'.snap.held, x ∈ s.held) (hin : ∀ t ∈ s'.installs, ∀ x ∈ t.held, x ∈ s.held) :
    MachineStep s s' act := by
  refine .keep hm.sm hq (.inl hm.lastApplied) (held_rule hsnap hin fun f hf => held_of_file ?_)
  rw [Node.files, ← hm.snapshotStore]
  exact hf

theorem machineStep_frame (hm : RaftNode.SameMachine s.raft s'.raft)
    (he : s'.emitted = s.emitted) (hc : s'.consumed = s.consumed) (ht : s'.toApply = s.toApply)
    (hsnap : s'.snap = s.snap) (hin : s'.installs = s.installs) : MachineStep s s' act := by
  refine machineStep_of_same hm ?_ (fun x hx => held_of_snap (hsnap ▸ hx))
    fun t ht x hx => held_of_install (hin ▸ ht) hx
  rw [queue, queue, he, hc, ht]

theorem machineStep_setPhase {n : RaftNode} {phase : InstallPhase} (h : s.installs[i]? = some t)
    (hm : RaftNode.SameMachine s.raft n)
    (hheld : ∀ x ∈ Install.held { t with phase := phase }, x ∈ t.held) :
    MachineStep s ((s.withRaft n).setPhase i t phase) act := by
  refine machineStep_of_same hm rfl (fun x hx => held_of_snap hx) fun t' ht' x hx => ?_
  rcases List.mem_or_eq_of_mem_set ht' with ht' | rfl
  · exact held_of_install ht' hx
  · exact held_of_install (List.mem_of_getElem? h) (hheld x hx)

theorem machineStep_endInstall {n : RaftNode} (hm : RaftNode.SameMachine s.raft n) :
    MachineStep s ((s.withRaft n).endInstall i t) act :=
  machineStep_of_same hm rfl (fun _ hx => held_of_snap hx)
    fun _ ht _ hx => held_of_install (List.mem_of_mem_eraseIdx ht) hx

theorem machine_step_install (h : Section s (.installNext i) s') (hsm : s.raft.sm.isSome = true) :
    MachineStep s s' (.installNext i) := by
  cases h with
  | installBuffer _ t h hp hd => exact machineStep_endInstall ⟨rfl, rfl, rfl⟩
  | installLast _ t h hp hd =>
    exact machineStep_setPhase h ⟨rfl, rfl, rfl⟩ fun x hx => absurd hx List.not_mem_nil
  | installBad _ t h hp hd => exact machineStep_endInstall ⟨rfl, rfl, rfl⟩
  | installTaken _ t data h hp hd =>
    exact machineStep_setPhase h ⟨rfl, rfl, rfl⟩ fun x hx => absurd hx List.not_mem_nil
  | installFast _ t data h hp hf => exact machineStep_endInstall ⟨rfl, rfl, rfl⟩
  | installFull _ t data h hp hf _ =>
    exact machineStep_setPhase (n := s.raft) h (RaftNode.SameMachine.refl _)
      fun x hx => absurd hx List.not_mem_nil
  | installRestore _ t data h hp =>
    refine .restore i t data rfl h hp rfl rfl (held_rule ?_ ?_ ?_)
    · exact fun x hx => .inr (held_of_snap hx)
    · intro t' ht' x hx
      rcases List.mem_or_eq_of_mem_set ht' with ht' | rfl
      · exact .inr (held_of_install ht' hx)
      · exact .inl (List.mem_singleton.mp hx)
    · exact fun f hf => .inr (held_of_file hf)
  | installDiscard _ t data h hp =>
    -- with a state machine, the data are those that were restored
    have hphase : t.phase = .discard data := by
      rcases hp with hp | ⟨_, _, hnone⟩
      · exact hp
      · rw [hnone] at hsm
        cases hsm
    refine .keep rfl rfl (.inr ⟨?_, rfl⟩) (held_rule ?_ ?_ ?_)
    · show s.raft.lastApplied ≤ if s.raft.lastApplied < t.args.lastIncludedIndex then
        t.args.lastIncludedIndex else s.raft.lastApplied
      split <;> omega
    · exact fun x hx => held_of_snap hx
    · intro t' ht' x hx
      rcases List.mem_or_eq_of_mem_set ht' with ht' | rfl
      · exact held_of_install ht' hx
      · refine held_of_install (List.mem_of_getElem? h) ?_
        rw [Install.held, hphase]
        exact hx
    · exact fun f hf => held_of_file hf
  | installSave _ t data h hp =>
    refine .keep rfl rfl (.inl rfl) (held_rule ?_ ?_ ?_)
    · exact fun x hx => held_of_snap hx
    · exact fun t' ht' x hx => held_of_install (List.mem_of_mem_eraseIdx ht') hx
    · intro f hf
      rcases mem_files_saveSnapshot (s := s) rfl hf with rfl | hf
      · refine held_of_install (List.mem_of_getElem? h) ?_
        rw [Install.held, hp]
        exact List.mem_singleton_self _
      · exact held_of_file hf

theorem consumed_le (h : Section s act s') (hc : s.consumed ≤ s.emitted.length) :
    s'.consumed ≤ s'.emitted.length := by
  cases h with
  | emit e rest he =>
    show s.consumed ≤ (s.emitted ++ [e]).length
    rw [List.length_append]
    omega
  | apply e fails he => exact (List.getElem?_eq_some_iff.mp he).1
  | restart => exact le_rfl
  | _ => exact hc

theorem sameMachine_section (h : Section s act s') (hinstall : ∀ i, act ≠ .installNext i)
    (hcollect : act ≠ .collect) (happly : ∀ fails, act ≠ .apply fails)
    (hsave : ∀ fails, act ≠ .snapSave fails) (hrestart : act ≠ .restart) :
    RaftNode.SameMachine s.raft s'.raft := by
  cases act with
  | installNext i => exact absurd rfl (hinstall i)
  | collect => exact absurd rfl hcollect
  | apply fails => exact absurd rfl (happly fails)
  | snapSave fails => exact absurd rfl (hsave fails)
  | restart => exact absurd rfl hrestart
  | deliver c f =>
    cases h with
    | deliverVote _ args _ _ hreq =>
      exact (RaftNode.electionOnly_handleRequestVote _ args f).sameMachine
    | deliverAppend _ args _ _ hreq => exact RaftNode.sameMachine_handleAppendEntries _ args f
    | installStale => exact RaftNode.SameMachine.refl _
    | installAdmit _ args _ n _ hreq hn =>
      exact (RaftNode.electionOnly_installAdmit hn).sameMachine
  | startElection f =>
    cases h with
    | electionAborted => exact (RaftNode.electionOnly_startElection _ f).sameMachine
    | electionStarted => exact (RaftNode.electionOnly_startElection _ f).sameMachine
  | electAlone =>
    cases h
    exact (RaftNode.electionOnly_becomeLeader _ _).sameMachine
  | voteResult addr res =>
    cases h with
    | voteStepDown => exact ⟨rfl, rfl, rfl⟩
    | voteWon => exact (RaftNode.electionOnly_becomeLeader _ _).sameMachine
    | voteCounted => exact RaftNode.SameMachine.refl _
  | build =>
    cases h with
    | buildSolo term _ => exact (RaftNode.pointersOnly_soloCommit _ term).sameMachine
    | build => exact RaftNode.SameMachine.refl _
  | ackResult addr res =>
    cases h with
    | ackError => exact RaftNode.SameMachine.refl _
    | ackStepDown => exact (RaftNode.electionOnly_leaderStepDown _ _).sameMachine
    | ackSuccess r cfg p => exact (RaftNode.pointersOnly_handleAck _ _ _ cfg _ _).sameMachine
    | ackRefused => exact ⟨rfl, rfl, rfl⟩
  | propose data f =>
    cases h
    exact (RaftNode.logOnly_proposeEntry _ _ data f).sameMachine
  | proposeConfigChange newVoters f =>
    cases h
    exact (RaftNode.logOnly_proposeConfigChange _ newVoters f).sameMachine
  | changeNext i f =>
    cases h with
    | changeWaited => exact RaftNode.SameMachine.refl _
    | changeStable => exact (RaftNode.logOnly_proposeEntry _ _ _ f).sameMachine
    | changeFinish => exact RaftNode.sameMachine_stepDownIfRemoved _ _
  | transferDone i =>
    cases h
    exact RaftNode.sameMachine_snapshotSent _ _ _
  | _ => cases h; all_goals exact ⟨rfl, rfl, rfl⟩

theorem lastApplied_section (h : Section s act s') (hcollect : act ≠ .collect)
    (hrestart : act ≠ .restart)
    (hinstall : ∀ i t data, act = .installNext i → s.installs[i]? = some t →
      (t.phase = .discard data ∨ s.raft.sm = none) →
      t.args.lastIncludedIndex ≤ s.raft.lastApplied) :
    s'.raft.lastApplied = s.raft.lastApplied := by
  cases act with
  | collect => exact absurd rfl hcollect
  | restart => exact absurd rfl hrestart
  | apply fails => cases h; rfl
  | snapSave fails => cases h <;> rfl
  | installNext i =>
    cases h with
    | installDiscard _ t data h hp =>
      have hle := hinstall i t data rfl h (hp.imp_right fun hp => hp.2.2)
      show (if s.raft.lastApplied < t.args.lastIncludedIndex then
        t.args.lastIncludedIndex else s.raft.lastApplied) = _
      exact if_neg (by omega)
    | _ => rfl
  | _ =>
    refine (sameMachine_section h ?_ hcollect ?_ ?_ hrestart).lastApplied <;>
      · intro x hx
        cases hx

theorem collect_section (h : Section s .collect s') : s.toApply = [] ∧
    s' = { s with raft := s.raft.collectApply.1, toApply := s.raft.collectApply.2 } := by
  cases h with
  | collect hempty => exact ⟨hempty, rfl⟩

theorem machine_step (h : Section s act s') (hsm : s.raft.sm.isSome = true)
    (hc : s.consumed ≤ s.emitted.length) (happly : ∀ fails, act ≠ .apply fails)
    (hrestart : act ≠ .restart) : MachineStep s s' act := by
  have hsame := sameMachine_section h
  cases act with
  | installNext i => exact machine_step_install h hsm
  | apply fails => exact absurd rfl (happly fails)
  | restart => exact absurd rfl hrestart
  | collect =>
    obtain ⟨hempty, hs⟩ := collect_section h
    exact .collect rfl hempty hs
  | emit =>
    cases h with
    | emit e rest he =>
      -- the entry moves from one end of the queue to the other
      refine machineStep_of_same (RaftNode.SameMachine.refl _) ?_
        (fun x hx => held_of_snap hx) fun t ht x hx => held_of_install ht hx
      show (s.emitted ++ [e]).drop s.consumed ++ rest = s.emitted.drop s.consumed ++ s.toApply
      rw [he, List.drop_append_of_le_length hc, List.append_assoc]
      rfl
  | deliver c f =>
    have hm := hsame (by simp) (by simp) (by simp) (by simp) (by simp)
    cases h with
    | installAdmit _ args _ n _ hreq hn =>
      refine machineStep_of_same hm rfl (fun x hx => held_of_snap hx) ?_
      intro t ht x hx
      rcases List.mem_append.mp ht with ht | ht
      · exact held_of_install ht hx
      · rw [List.mem_singleton.mp ht] at hx
        exact absurd hx List.not_mem_nil
    | _ => exact machineStep_frame hm rfl rfl rfl rfl rfl
  | snapTake =>
    cases h with
    | snapTake sm k hidle htake =>
      obtain ⟨hsm', rfl⟩ := RaftNode.snapshotTake_some htake
      refine .take sm rfl hsm' rfl rfl (held_rule ?_ ?_ ?_)
      · exact fun x hx => .inl (List.mem_singleton.mp hx)
      · exact fun t ht x hx => .inr (held_of_install ht hx)
      · exact fun f hf => .inr (held_of_file hf)
  | snapCapture =>
    cases h with
    | snapSkip sm k hs hcap =>
      exact machineStep_of_same (RaftNode.SameMachine.refl _) rfl
        (fun x hx => absurd hx List.not_mem_nil) fun t ht x hx => held_of_install ht hx
    | snapCapture sm k snapshot hs hcap =>
      refine machineStep_of_same (RaftNode.SameMachine.refl _) rfl ?_
        fun t ht x hx => held_of_install ht hx
      intro x hx
      apply held_of_snap
      rw [hs, List.mem_singleton.mp hx, RaftNode.snapshotCapture_some hcap]
      exact List.mem_singleton_self _
  | snapSave fails =>
    cases h with
    | snapFail snapshot hs =>
      exact machineStep_of_same (RaftNode.SameMachine.refl _) rfl
        (fun x hx => absurd hx List.not_mem_nil) fun t ht x hx => held_of_install ht hx
    | snapSave snapshot hs =>
      refine .keep rfl rfl (.inl rfl) (held_rule ?_ ?_ ?_)
      · exact fun x hx => absurd hx List.not_mem_nil
      · exact fun t ht x hx => held_of_install ht hx
      · intro f hf
        rcases mem_files_saveSnapshot (s := s) rfl hf with rfl | hf
        · apply held_of_snap
          rw [hs]
          exact List.mem_singleton_self _
        · exact held_of_file hf
  | snapTruncate =>
    cases h with
    | snapTruncate m hs =>
      exact machineStep_of_same ⟨rfl, rfl, rfl⟩ rfl (fun x hx => absurd hx List.not_mem_nil)
        fun t ht x hx => held_of_install ht hx
  | snapCompact =>
    cases h with
    | snapCompact k hs =>
      exact machineStep_of_same ⟨rfl, rfl, rfl⟩ rfl (fun x hx => absurd hx List.not_mem_nil)
        fun t ht x hx => held_of_install ht hx
  | _ =>
    have hm := hsame (by simp) (by simp) (by simp) (by simp) (by simp)
    cases h
    all_goals exact machineStep_frame hm rfl rfl rfl rfl rfl

end Node

end Raft
