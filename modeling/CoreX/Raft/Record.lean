/-
CoreX/Raft/Record.lean

What a section does to a node's record of the past: the log in memory and on
disk, the snapshot boundary, the snapshot files and the configuration.  Most
sections leave it alone; `RecordStep` lists the others, and `Node.record_step`
says that there are no more.

The results about the record hold along runs whose sections pass some tests.
`Node.recordEvent` says which change a section is about to make, and a test is a
function of the state and of this event.
-/
import CoreX.Raft.Splice

namespace Raft

/-- Index and term the sender announces. -/
def InstallSnapshotArgs.snapMeta (args : InstallSnapshotArgs) : SnapshotMeta :=
  ⟨args.lastIncludedIndex, args.lastIncludedTerm⟩

/-! ### Sections that leave the record alone -/

namespace RaftNode

variable {n n' : RaftNode}

/-- `n'` has the record of `n`; its commit index is the same or names a later
entry of the log. -/
structure SameRecord (n n' : RaftNode) : Prop where
  log : n'.log = n.log
  logStore : n'.logStore = n.logStore
  snapshotIndex : n'.snapshotIndex = n.snapshotIndex
  snapshotTerm : n'.snapshotTerm = n.snapshotTerm
  snapshotStore : n'.snapshotStore = n.snapshotStore
  clusterConfig : n'.clusterConfig = n.clusterConfig
  hasSM : n'.sm.isSome = n.sm.isSome
  commitIndex : n'.commitIndex = n.commitIndex ∨
    n.commitIndex < n'.commitIndex ∧ ∃ e, n.entryAt n'.commitIndex = some e

theorem SameRecord.refl (n : RaftNode) : SameRecord n n :=
  ⟨rfl, rfl, rfl, rfl, rfl, rfl, rfl, .inl rfl⟩

theorem ElectionOnly.sameRecord (h : ElectionOnly n n') : SameRecord n n' := by
  obtain ⟨_, _, _, _, _, _, rfl⟩ := h
  exact ⟨rfl, rfl, rfl, rfl, rfl, rfl, rfl, .inl rfl⟩

theorem PointersOnly.sameRecord {term : Int} {cfg : ClusterConfig} (h : PointersOnly n n')
    (ha : Advances n n' term cfg) : SameRecord n n' := by
  have hcommit : n'.commitIndex = n.commitIndex ∨
      n.commitIndex < n'.commitIndex ∧ ∃ e, n.entryAt n'.commitIndex = some e := by
    rcases ha with hc | ⟨hlt, e, he, _⟩
    · exact .inl hc
    · exact .inr ⟨hlt, e, he⟩
  obtain ⟨_, _, _, _, rfl⟩ := h
  exact ⟨rfl, rfl, rfl, rfl, rfl, rfl, rfl, hcommit⟩

theorem sameRecord_snapshotSent (n : RaftNode) (addr : Addr) (index : Int) :
    SameRecord n (n.snapshotSent addr index) := by
  unfold snapshotSent
  dsimp only
  split <;> split <;> exact ⟨rfl, rfl, rfl, rfl, rfl, rfl, rfl, .inl rfl⟩

theorem sameRecord_stepDownIfRemoved (n : RaftNode) (newVoters : List Addr) :
    SameRecord n (n.stepDownIfRemoved newVoters) := by
  unfold stepDownIfRemoved
  split
  · exact SameRecord.refl n
  · exact ⟨rfl, rfl, rfl, rfl, rfl, rfl, rfl, .inl rfl⟩

theorem sameRecord_collectApply (n : RaftNode) : SameRecord n n.collectApply.1 := by
  unfold collectApply
  split
  · exact SameRecord.refl n
  · exact ⟨rfl, rfl, rfl, rfl, rfl, rfl, rfl, .inl rfl⟩

theorem proposeEntry_cases [Codec] (n : RaftNode) (type : EntryType) (data : Bytes) (f : Faults) :
    (n.proposeEntry type data f).1 = n ∨ ∃ e : LogEntry, e.index = n.lastEntry.1 + 1 ∧
      (n.proposeEntry type data f).1 = n.appendEntry e := by
  rcases n.proposeEntry_outcome type data f with heq | ⟨-, heq⟩
  · exact .inl (by rw [heq])
  · exact .inr ⟨n.entryOf type data, rfl, by rw [heq]⟩

theorem proposeConfigChange_cases [Codec] (n : RaftNode) (newVoters : List Addr) (f : Faults) :
    (n.proposeConfigChange newVoters f).1 = n ∨ ∃ e : LogEntry, e.index = n.lastEntry.1 + 1 ∧
      (n.proposeConfigChange newVoters f).1 = n.appendEntry e := by
  unfold proposeConfigChange
  split
  · exact .inl rfl
  · exact proposeEntry_cases _ _ _ _

end RaftNode

/-! ### Installs that are about to save -/

/-- The snapshot of an install that has discarded the log and not yet saved. -/
def Install.unsaved (t : Install) : Option SnapshotMeta :=
  match t.phase with
  | .save _ => some t.args.snapMeta
  | _ => none

/-- The snapshots that are in force in memory or were, and are not on disk yet. -/
def Node.pending (s : Node) : List SnapshotMeta := s.installs.filterMap Install.unsaved

section

variable {α β : Type*} {f : α → Option β} {l : List α} {i : Nat} {t t' : α} {v : β}

theorem filterMap_split (h : l[i]? = some t) :
    l.filterMap f = (l.take i).filterMap f ++ ((f t).toList ++ (l.drop (i + 1)).filterMap f) := by
  have hsplit : l = l.take i ++ t :: l.drop (i + 1) := by
    obtain ⟨hi, rfl⟩ := List.getElem?_eq_some_iff.mp h
    rw [List.getElem_cons_drop, List.take_append_drop]
  conv => lhs; rw [hsplit]
  rw [List.filterMap_append, List.filterMap_cons]
  rcases f t with - | v <;> rfl

theorem filterMap_set (h : l[i]? = some t) :
    (l.set i t').filterMap f
      = (l.take i).filterMap f ++ ((f t').toList ++ (l.drop (i + 1)).filterMap f) := by
  have hi := (List.getElem?_eq_some_iff.mp h).1
  rw [List.set_eq_take_append_cons_drop, if_pos hi, List.filterMap_append, List.filterMap_cons]
  rcases f t' with - | v <;> rfl

theorem filterMap_eraseIdx :
    (l.eraseIdx i).filterMap f = (l.take i).filterMap f ++ (l.drop (i + 1)).filterMap f := by
  rw [List.eraseIdx_eq_take_drop_succ, List.filterMap_append]

end

/-! ### Which section changes the record -/

/-- The changes to the record that depend on more than the node's own request. -/
inductive RecordEvent
  /-- Any other section. -/
  | other
  /-- A batch of AppendEntries arrives. -/
  | batch (args : AppendEntriesArgs)
  /-- An install discards the prefix its snapshot covers. -/
  | fast (args : InstallSnapshotArgs)
  /-- An install discards the log. -/
  | discard (args : InstallSnapshotArgs) (data : SnapshotData)
  /-- An install saves the snapshot it has received. -/
  | saveInstalled (snapshot : Snapshot)
  /-- `maybeSnapshot` captures a snapshot. -/
  | capture (snapshot : Snapshot)
  /-- The snapshot goroutine saves it. -/
  | save (snapshot : Snapshot)
  /-- The snapshot goroutine truncates the log in memory. -/
  | truncate (m : SnapshotMeta)
  /-- The node crashes and starts again. -/
  | restart

namespace Node

/-- The event of the next section of a running install. -/
def installEvent (s : Node) (t : Install) : RecordEvent :=
  match t.phase with
  | .choose data =>
      if s.raft.installFast t.args then .fast t.args
      else if s.raft.sm.isSome then .other
      else .discard t.args data
  | .discard data => .discard t.args data
  | .save data => .saveInstalled (RaftNode.installedSnapshot t.args data)
  | _ => .other

/-- The event of a section. -/
def recordEvent (s : Node) : Act → RecordEvent
  | .deliver c _ =>
      match c.req with
      | .append args => .batch args
      | _ => .other
  | .installNext i =>
      match s.installs[i]? with
      | some t => s.installEvent t
      | none => .other
  | .snapCapture =>
      match s.snap with
      | .taken sm capturedIndex =>
          match s.raft.snapshotCapture sm capturedIndex with
          | some snapshot => .capture snapshot
          | none => .other
      | _ => .other
  | .snapSave fails =>
      match s.snap with
      | .captured snapshot => if fails then .other else .save snapshot
      | _ => .other
  | .snapTruncate =>
      match s.snap with
      | .saved m => .truncate m
      | _ => .other
  | .restart => .restart
  | _ => .other

theorem deliver_of_batch {s : Node} {act : Act} {args : AppendEntriesArgs}
    (h : s.recordEvent act = .batch args) : ∃ c f, act = .deliver c f ∧ c.req = .append args := by
  cases act with
  | deliver c f =>
    refine ⟨c, f, rfl, ?_⟩
    rcases hreq : c.req with args' | args' | args'
    · simp [recordEvent, hreq] at h
    · simp only [recordEvent, hreq, RecordEvent.batch.injEq] at h
      rw [h]
    · simp [recordEvent, hreq] at h
  | installNext i =>
    simp only [recordEvent, installEvent] at h
    grind
  | snapCapture =>
    simp only [recordEvent] at h
    grind
  | snapSave fails =>
    simp only [recordEvent] at h
    grind
  | snapTruncate =>
    simp only [recordEvent] at h
    grind
  | _ => cases h

end Node

/-! ### What a section does to the record -/

/-- The outcomes of a section with the given event, as far as the record, the
snapshot goroutine and the unsaved installs are concerned. -/
inductive RecordStep [Codec] (s s' : Node) : RecordEvent → Prop
  | keep (hr : RaftNode.SameRecord s.raft s'.raft) (hs : s'.snap = s.snap)
      (hp : s'.pending = s.pending) : RecordStep s s' .other
  | extend (e : LogEntry) (he : e.index = s.raft.lastEntry.1 + 1)
      (hr : s'.raft = s.raft.appendEntry e) (hs : s'.snap = s.snap) (hp : s'.pending = s.pending) :
      RecordStep s s' .other
  | take (sm : KVStateMachine) (capturedIndex : Int) (h : s.snap = .idle) (hr : s'.raft = s.raft)
      (hs : s'.snap = .taken sm capturedIndex) (hp : s'.pending = s.pending) :
      RecordStep s s' .other
  | giveUp (h : ∀ m, s.snap ≠ .saved m) (hr : s'.raft = s.raft) (hs : s'.snap = .idle)
      (hp : s'.pending = s.pending) : RecordStep s s' .other
  | compact (capturedIndex : Int) (h : s.snap = .truncated capturedIndex)
      (hr : s'.raft = s.raft.compactLog capturedIndex) (hs : s'.snap = .idle)
      (hp : s'.pending = s.pending) : RecordStep s s' .other
  | batch (args : AppendEntriesArgs) (f : Faults)
      (hr : s'.raft = (s.raft.handleAppendEntries args f).1) (hs : s'.snap = s.snap)
      (hp : s'.pending = s.pending) : RecordStep s s' (.batch args)
  | fast (args : InstallSnapshotArgs) (hf : s.raft.installFast args = true)
      (hr : s'.raft = s.raft.truncateLogPrefix args.snapMeta.index args.snapMeta.term)
      (hs : s'.snap = s.snap) (hp : s'.pending = s.pending) : RecordStep s s' (.fast args)
  | discard (args : InstallSnapshotArgs) (data : SnapshotData)
      (hr : s'.raft = s.raft.installDiscard args data) (hs : s'.snap = s.snap)
      (hp : ∀ m, m ∈ s'.pending ↔ m = args.snapMeta ∨ m ∈ s.pending) :
      RecordStep s s' (.discard args data)
  | saveInstalled (snapshot : Snapshot) (hr : s'.raft = s.raft.saveSnapshot snapshot)
      (hs : s'.snap = s.snap)
      (hp : ∀ m, m ∈ s.pending ↔ m = snapshot.snapMeta ∨ m ∈ s'.pending) :
      RecordStep s s' (.saveInstalled snapshot)
  | capture (sm : KVStateMachine) (capturedIndex : Int) (snapshot : Snapshot)
      (h : s.snap = .taken sm capturedIndex)
      (hc : s.raft.snapshotCapture sm capturedIndex = some snapshot) (hr : s'.raft = s.raft)
      (hs : s'.snap = .captured snapshot) (hp : s'.pending = s.pending) :
      RecordStep s s' (.capture snapshot)
  | save (snapshot : Snapshot) (h : s.snap = .captured snapshot)
      (hr : s'.raft = s.raft.saveSnapshot snapshot) (hs : s'.snap = .saved snapshot.snapMeta)
      (hp : s'.pending = s.pending) : RecordStep s s' (.save snapshot)
  | truncate (m : SnapshotMeta) (h : s.snap = .saved m)
      (hr : s'.raft = s.raft.truncateLogPrefix m.index m.term) (hs : s'.snap = .truncated m.index)
      (hp : s'.pending = s.pending) : RecordStep s s' (.truncate m)
  | restart (hr : s' = s.restart) : RecordStep s s' .restart

namespace Node

variable {s s' : Node} {i : Nat} {t : Install}

theorem pending_setPhase {phase : InstallPhase} (h : s.installs[i]? = some t)
    (ht : t.unsaved = none) (hp : Install.unsaved { t with phase := phase } = none) :
    (s.setPhase i t phase).pending = s.pending := by
  show (s.installs.set i _).filterMap _ = s.installs.filterMap _
  rw [filterMap_set h, filterMap_split h, ht, hp]

theorem pending_endInstall (h : s.installs[i]? = some t) (ht : t.unsaved = none) :
    (s.endInstall i t).pending = s.pending := by
  show (s.installs.eraseIdx i).filterMap _ = s.installs.filterMap _
  rw [filterMap_eraseIdx, filterMap_split h, ht]
  rfl

theorem mem_pending_setPhase {data : SnapshotData} (h : s.installs[i]? = some t)
    (ht : t.unsaved = none) (m : SnapshotMeta) :
    m ∈ (s.setPhase i t (.save data)).pending ↔ m = t.args.snapMeta ∨ m ∈ s.pending := by
  show m ∈ (s.installs.set i _).filterMap _ ↔ _ ∨ m ∈ s.installs.filterMap _
  rw [filterMap_set h, filterMap_split h, ht]
  simp only [Install.unsaved, Option.toList, List.mem_append, List.mem_singleton, List.not_mem_nil]
  tauto

theorem mem_pending_endInstall {data : SnapshotData} (h : s.installs[i]? = some t)
    (ht : t.phase = .save data) (m : SnapshotMeta) :
    m ∈ s.pending ↔ m = t.args.snapMeta ∨ m ∈ (s.endInstall i t).pending := by
  have hu : t.unsaved = some t.args.snapMeta := by rw [Install.unsaved, ht]
  show m ∈ s.installs.filterMap _ ↔ _ ∨ m ∈ (s.installs.eraseIdx i).filterMap _
  rw [filterMap_eraseIdx, filterMap_split h, hu]
  simp only [Option.toList, List.mem_append, List.mem_singleton]
  tauto

theorem unsaved_of_phase {phase : InstallPhase} (h : t.phase = phase)
    (hp : ∀ data, phase ≠ .save data) : t.unsaved = none := by
  unfold Install.unsaved
  rw [h]
  cases phase with
  | save data => exact absurd rfl (hp data)
  | _ => rfl

variable [Codec] {act : Act}

theorem record_step_install (h : Section s (.installNext i) s') :
    RecordStep s s' (s.recordEvent (.installNext i)) := by
  have hev : ∀ {t}, s.installs[i]? = some t →
      s.recordEvent (.installNext i) = s.installEvent t := by
    intro t ht
    simp only [recordEvent, ht]
  cases h with
  | installBuffer _ t h hp hd =>
    have hu := unsaved_of_phase hp (by simp)
    rw [hev h, installEvent, hp]
    exact .keep ⟨rfl, rfl, rfl, rfl, rfl, rfl, rfl, .inl rfl⟩ rfl
      (pending_endInstall (s := s.withRaft _) h hu)
  | installLast _ t h hp hd =>
    have hu := unsaved_of_phase hp (by simp)
    rw [hev h, installEvent, hp]
    exact .keep ⟨rfl, rfl, rfl, rfl, rfl, rfl, rfl, .inl rfl⟩ rfl
      (pending_setPhase (s := s.withRaft _) h hu rfl)
  | installBad _ t h hp hd =>
    have hu := unsaved_of_phase hp (by simp)
    rw [hev h, installEvent, hp]
    exact .keep ⟨rfl, rfl, rfl, rfl, rfl, rfl, rfl, .inl rfl⟩ rfl
      (pending_endInstall (s := s.withRaft _) h hu)
  | installTaken _ t data h hp hd =>
    have hu := unsaved_of_phase hp (by simp)
    rw [hev h, installEvent, hp]
    exact .keep ⟨rfl, rfl, rfl, rfl, rfl, rfl, rfl, .inl rfl⟩ rfl
      (pending_setPhase (s := s.withRaft _) h hu rfl)
  | installFast _ t data h hp hf =>
    have hu := unsaved_of_phase hp (by simp)
    rw [hev h, installEvent, hp]
    dsimp only
    rw [if_pos hf]
    exact .fast t.args hf rfl rfl (pending_endInstall (s := s.withRaft _) h hu)
  | installFull _ t data h hp hf hsm =>
    have hu := unsaved_of_phase hp (by simp)
    rw [hev h, installEvent, hp]
    dsimp only
    rw [if_neg (by simp [hf]), if_pos hsm]
    exact .keep (RaftNode.SameRecord.refl _) rfl (pending_setPhase h hu rfl)
  | installRestore _ t data h hp =>
    have hu := unsaved_of_phase hp (by simp)
    rw [hev h, installEvent, hp]
    refine .keep ⟨rfl, rfl, rfl, rfl, rfl, rfl, ?_, .inl rfl⟩ rfl
      (pending_setPhase (s := s.withRaft _) h hu rfl)
    show (s.raft.sm.map _).isSome = s.raft.sm.isSome
    rw [Option.isSome_map]
  | installDiscard _ t data h hp =>
    -- with a state machine in its own section, without one right after the decision
    have hu : t.unsaved = none := by
      rcases hp with hp | ⟨hp, _⟩ <;> exact unsaved_of_phase hp (by simp)
    have hd : s.installEvent t = .discard t.args data := by
      rcases hp with hp | ⟨hp, hf, hsm⟩
      · simp only [installEvent, hp]
      · simp [installEvent, hp, hf, hsm]
    rw [hev h, hd]
    exact .discard t.args data rfl rfl (mem_pending_setPhase (s := s.withRaft _) h hu)
  | installSave _ t data h hp =>
    rw [hev h, installEvent, hp]
    exact .saveInstalled _ rfl rfl (mem_pending_endInstall (s := s.withRaft _) h hp)

theorem record_step (h : Section s act s') : RecordStep s s' (s.recordEvent act) := by
  have hsame : ∀ {n : RaftNode}, RaftNode.ElectionOnly s.raft n → s'.raft = n →
      s'.snap = s.snap → s'.pending = s.pending → RecordStep s s' .other := by
    rintro n hn rfl hs hp
    exact .keep hn.sameRecord hs hp
  have hprop : ∀ {n : RaftNode}, (n = s.raft ∨ ∃ e : LogEntry,
      e.index = s.raft.lastEntry.1 + 1 ∧ n = s.raft.appendEntry e) → s'.raft = n →
      s'.snap = s.snap → s'.pending = s.pending → RecordStep s s' .other := by
    rintro n (rfl | ⟨e, he, rfl⟩) hr hs hp
    · exact .keep (hr ▸ RaftNode.SameRecord.refl _) hs hp
    · exact .extend e he hr hs hp
  cases act with
  | installNext i => exact record_step_install h
  | deliver c f =>
    cases h with
    | deliverVote _ args _ _ hreq =>
      simp only [recordEvent, hreq]
      exact hsame (RaftNode.electionOnly_handleRequestVote _ args f) rfl rfl rfl
    | deliverAppend _ args _ _ hreq =>
      simp only [recordEvent, hreq]
      exact .batch args f rfl rfl rfl
    | installStale _ args _ _ hreq =>
      simp only [recordEvent, hreq]
      exact .keep (RaftNode.SameRecord.refl _) rfl rfl
    | installAdmit _ args _ n _ hreq hn =>
      simp only [recordEvent, hreq]
      refine hsame (RaftNode.electionOnly_installAdmit hn) rfl rfl ?_
      show (s.installs ++ [_]).filterMap _ = s.installs.filterMap _
      rw [List.filterMap_append]
      exact List.append_nil _
  | startElection f =>
    cases h with
    | electionAborted => exact hsame (RaftNode.electionOnly_startElection _ f) rfl rfl rfl
    | electionStarted => exact hsame (RaftNode.electionOnly_startElection _ f) rfl rfl rfl
  | electAlone => cases h; exact hsame (RaftNode.electionOnly_becomeLeader _ _) rfl rfl rfl
  | voteResult addr res =>
    cases h with
    | voteStepDown => exact hsame ⟨_, _, _, _, _, _, rfl⟩ rfl rfl rfl
    | voteWon => exact hsame (RaftNode.electionOnly_becomeLeader _ _) rfl rfl rfl
    | voteCounted => exact .keep (RaftNode.SameRecord.refl _) rfl rfl
  | build =>
    cases h with
    | buildSolo term _ =>
      exact .keep ((RaftNode.pointersOnly_soloCommit _ term).sameRecord
        (RaftNode.advances_soloCommit _ term)) rfl rfl
    | build => exact .keep (RaftNode.SameRecord.refl _) rfl rfl
  | ackResult addr res =>
    cases h with
    | ackError => exact .keep (RaftNode.SameRecord.refl _) rfl rfl
    | ackStepDown => exact hsame (RaftNode.electionOnly_leaderStepDown _ _) rfl rfl rfl
    | ackSuccess r cfg p =>
      exact .keep ((RaftNode.pointersOnly_handleAck _ _ _ cfg _ _).sameRecord
        (RaftNode.advances_handleAck _ _ _ cfg _ _)) rfl rfl
    | ackRefused => exact .keep ⟨rfl, rfl, rfl, rfl, rfl, rfl, rfl, .inl rfl⟩ rfl rfl
  | propose data f => cases h; exact hprop (RaftNode.proposeEntry_cases _ _ _ _) rfl rfl rfl
  | proposeConfigChange newVoters f =>
    cases h
    exact hprop (RaftNode.proposeConfigChange_cases _ _ _) rfl rfl rfl
  | changeNext i f =>
    cases h with
    | changeWaited => exact .keep (RaftNode.SameRecord.refl _) rfl rfl
    | changeStable => exact hprop (RaftNode.proposeEntry_cases _ _ _ _) rfl rfl rfl
    | changeFinish => exact .keep (RaftNode.sameRecord_stepDownIfRemoved _ _) rfl rfl
  | collect => cases h; exact .keep (RaftNode.sameRecord_collectApply _) rfl rfl
  | transferDone i => cases h; exact .keep (RaftNode.sameRecord_snapshotSent _ _ _) rfl rfl
  | apply writeFails =>
    cases h
    refine .keep ⟨rfl, rfl, rfl, rfl, rfl, rfl, ?_, .inl rfl⟩ rfl rfl
    rw [Option.isSome_map]
  | snapTake =>
    cases h with
    | snapTake sm k hs => exact .take sm k hs rfl rfl rfl
  | snapCapture =>
    cases h with
    | snapSkip sm k hs hc =>
      simp only [recordEvent, hs, hc]
      exact .giveUp (by simp [hs]) rfl rfl rfl
    | snapCapture sm k snapshot hs hc =>
      simp only [recordEvent, hs, hc]
      exact .capture sm k snapshot hs hc rfl rfl rfl
  | snapSave fails =>
    cases h with
    | snapFail snapshot hs =>
      simp only [recordEvent, hs, if_true]
      exact .giveUp (by simp [hs]) rfl rfl rfl
    | snapSave snapshot hs =>
      simp only [recordEvent, hs, Bool.false_eq_true, if_false]
      exact .save snapshot hs rfl rfl rfl
  | snapTruncate =>
    cases h with
    | snapTruncate m hs =>
      simp only [recordEvent, hs]
      exact .truncate m hs rfl rfl rfl
  | snapCompact =>
    cases h with
    | snapCompact k hs => exact .compact k hs rfl rfl rfl
  | restart => cases h; exact .restart rfl
  | reset =>
    cases h <;> exact .keep ⟨rfl, rfl, rfl, rfl, rfl, rfl, rfl, .inl rfl⟩ rfl rfl
  | timeout =>
    cases h <;> exact .keep ⟨rfl, rfl, rfl, rfl, rfl, rfl, rfl, .inl rfl⟩ rfl rfl
  | enterLeader =>
    cases h
    exact .keep ⟨rfl, rfl, rfl, rfl, rfl, rfl, rfl, .inl rfl⟩ rfl rfl
  | _ => cases h <;> exact .keep (RaftNode.SameRecord.refl _) rfl rfl

end Node

end Raft
