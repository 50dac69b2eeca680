/-
CoreX/Raft/Unsnapped.lean

Runs in which no snapshot is saved or installed, and so no log is compacted.  The
membership may change and nodes may be restarted, with or without a log store.  Every
log is then whole, and all of them are cut from the logs of the terms: the snapshots of
`Histories` cover nothing, and none of its tests is needed (`logs_of_visits`).
-/
import CoreX.Raft.Histories
import CoreX.Raft.StoreFaults

namespace Raft

open StepSystem TermLog

/-! ### One node -/

namespace RaftNode

variable [Codec] {n : RaftNode}

/-- The log is whole, and the file, if there is one, holds it. -/
structure WholeLog (n : RaftNode) : Prop where
  boundary : n.boundary = ⟨0, 0⟩
  files : n.snapshotStore.getD [] = []
  file : n.logStore = none ∨ n.InStep

omit [Codec] in
theorem WholeLog.of_sameRecord {n' : RaftNode} (h : n.WholeLog) (hr : SameRecord n n') :
    n'.WholeLog := by
  refine ⟨?_, by rw [hr.snapshotStore]; exact h.files, ?_⟩
  · have hbd : n'.boundary = n.boundary := by
      rw [RaftNode.boundary, hr.snapshotIndex, hr.snapshotTerm]
      rfl
    exact hbd.trans h.boundary
  · rw [hr.logStore]
    exact h.file.imp (fun hno => hno) fun hin => hin.frame hr.log hr.logStore

theorem logStore_handleAppendEntries (h : n.logStore = none) (args : AppendEntriesArgs)
    (f : Faults) : (n.handleAppendEntries args f).1.logStore = none := by
  have hacc : (n.acceptLeader args f).logStore = none := by
    rw [(electionOnly_acceptLeader n args f).sameRecord.logStore, h]
  have hloop : (appendLoop f (n.acceptLeader args f) false 0 args.entries).1.logStore = none := by
    refine appendLoop_keeps f (P := fun m => m.logStore = none) (fun m i hm => ?_)
      (fun m e _ hm => by rw [appendEntry_logStore, hm]; rfl) hacc
    show m.logStore.map _ = none
    rw [hm]
    rfl
  exact handleAppendEntries_rule (P := fun m => m.logStore = none) h hacc hloop fun _ _ hm => hm

theorem WholeLog.handleAppendEntries (h : n.WholeLog) (args : AppendEntriesArgs) (f : Faults) :
    (n.handleAppendEntries args f).1.WholeLog := by
  obtain ⟨hbd, hst, _⟩ := handleAppendEntries_frame n args f
  refine ⟨hbd.trans h.boundary, by rw [hst]; exact h.files, ?_⟩
  exact h.file.imp (fun hno => logStore_handleAppendEntries hno args f)
    fun hin => hin.handleAppendEntries args f

theorem WholeLog.appendEntry (h : n.WholeLog) (e : LogEntry) : (n.appendEntry e).WholeLog := by
  have honly := logOnly_appendEntry (n := n) e
  refine ⟨honly.boundary.trans h.boundary, ?_, ?_⟩
  · rw [honly.snapshotStore]
    exact h.files
  · refine h.file.imp (fun hno => ?_) fun hin => hin.appendEntry e
    rw [appendEntry_logStore, hno]
    rfl

omit [Codec] in
theorem recoverFromSnapshot_none (h : n.snapshotStore.getD [] = []) :
    n.recoverFromSnapshot = n := by
  unfold recoverFromSnapshot
  rcases hs : n.snapshotStore with - | files
  · rfl
  · rw [hs] at h
    obtain rfl : files = [] := h
    split
    · next hfiles _ =>
      cases hfiles
      rfl
    · rfl

theorem restart_of_no_files (boot : Option (List Addr))
    (hfiles : n.snapshotStore.getD [] = []) :
    ∃ sm cfg, n.restart boot = { newRaftNode n.id boot n.metaStore n.logStore with
      sm := sm
      snapshotStore := n.snapshotStore
      snapshotCfg := cfg } := by
  obtain ⟨_, _, _, _, hnew⟩ := configOnly_newRaftNode n.id boot n.metaStore n.logStore
  unfold restart
  rcases hs : n.snapshotStore with - | files
  · rcases n.sm with - | sm <;>
      exact ⟨_, _, (recoverFromSnapshot_none (by rw [hnew]; rfl)).trans (by rw [hnew]; rfl)⟩
  · rw [hs] at hfiles
    obtain rfl : files = [] := hfiles
    rcases n.sm with - | sm <;> exact ⟨_, _, (recoverFromSnapshot_none rfl).trans rfl⟩

theorem WholeLog.restart (h : n.WholeLog) (boot : Option (List Addr)) :
    (n.restart boot).WholeLog ∧ (n.restart boot).role = .follower ∧
      ((n.restart boot).log = n.log ∨ (n.restart boot).log = []) := by
  obtain ⟨sm, cfg, heq⟩ := restart_of_no_files boot h.files
  obtain ⟨_, _, _, _, hnew⟩ := configOnly_newRaftNode n.id boot n.metaStore n.logStore
  rw [hnew] at heq
  rw [heq]
  rcases h.file with hno | ⟨wal, hwal, hlog⟩
  · refine ⟨⟨rfl, h.files, .inl hno⟩, rfl, .inr ?_⟩
    rw [hno]
    rfl
  · have hlive : (n.logStore.map loadAll).getD [] = n.log := by
      rw [hwal, hlog]
      rfl
    exact ⟨⟨rfl, h.files, .inr ⟨wal, hwal, by rw [← hlog]; exact hlive⟩⟩, rfl, .inl hlive⟩

omit [Codec] in
theorem WholeLog.covers (h : n.WholeLog) (hidx : Indexed LogEntry.index 0 n.log) : n.Covers [] :=
  ⟨hidx, (congrArg SnapshotMeta.index h.boundary).symm,
    (congrArg SnapshotMeta.term h.boundary).symm⟩

end RaftNode

namespace Node

variable [Codec] {s s' : Node} {act : Act}

/-- The section saves no snapshot, installs none and compacts nothing. -/
def unsnapped (s : Node) (act : Act) : Bool :=
  match s.recordEvent act with
  | .fast _ | .discard _ _ | .saveInstalled _ | .save _ | .truncate _ => false
  | _ => true

/-- The snapshot goroutine never comes as far as a saved snapshot. -/
structure Unsnapped (s : Node) : Prop where
  whole : s.raft.WholeLog
  saved : ∀ m, s.snap ≠ .saved m
  truncated : ∀ i, s.snap ≠ .truncated i

theorem Unsnapped.step (h : s.Unsnapped) (hstep : s.step act = some s')
    (hok : s.unsnapped act = true) : s'.Unsnapped := by
  have hrec := record_step (step_section hstep)
  unfold unsnapped at hok
  generalize s.recordEvent act = ev at hrec hok
  cases hrec with
  | keep hr hs => exact ⟨h.whole.of_sameRecord hr, hs ▸ h.saved, hs ▸ h.truncated⟩
  | extend e he hr hs => exact ⟨hr ▸ h.whole.appendEntry e, hs ▸ h.saved, hs ▸ h.truncated⟩
  | take sm i _ hr hs => exact ⟨hr ▸ h.whole, by simp [hs], by simp [hs]⟩
  | giveUp _ hr hs => exact ⟨hr ▸ h.whole, by simp [hs], by simp [hs]⟩
  | compact i hi => exact absurd hi (h.truncated i)
  | batch args f hr hs =>
    exact ⟨hr ▸ h.whole.handleAppendEntries args f, hs ▸ h.saved, hs ▸ h.truncated⟩
  | capture sm i snapshot _ _ hr hs => exact ⟨hr ▸ h.whole, by simp [hs], by simp [hs]⟩
  | restart hr =>
    subst hr
    exact ⟨(h.whole.restart s.boot).1, by simp [Node.restart], by simp [Node.restart]⟩
  | fast | discard | saveInstalled | save | truncate => cases hok

theorem unsnapped_fresh (addr : Addr) (id : NodeID) (boot : Option (List Addr))
    (metaStore logStore sm : Bool) (snapshots : Option SnapshotConfig) :
    (fresh addr id boot metaStore logStore sm snapshots).Unsnapped := by
  refine ⟨?_, by simp [fresh], by simp [fresh]⟩
  rw [raft_fresh]
  refine ⟨rfl, ?_, ?_⟩
  · cases snapshots <;> rfl
  · cases logStore
    · exact .inl rfl
    · exact .inr ⟨[], rfl, rfl⟩

end Node

/-! ### The cluster -/

section

variable [Codec] {C : Cluster} {ws : List World} {w w' : World} {L : Int → List LogEntry}
variable {a : Addr} {act : Act}

/-- The condition on the sections: no term goes back, and no snapshots. -/
def unsnappedOk (C : Cluster) (w : World) (e : Addr × Act) : Bool :=
  termsKept C w e && (w e.1).unsnapped e.2

/-- Every history is a log. -/
abbrev Logs (C : Cluster) (ws : List World) (w : World) (L : Int → List LogEntry) : Prop :=
  Histories C (fun _ _ => True) ws w (fun _ => []) L

theorem Logs.restart (h : Logs C ws w L) (ht : Tenures C ws w) (hn : (w a).Unsnapped) (hw : w ∈ ws)
    (hstep : World.step C w (a, act) = some (Function.update w a (w a).restart))
    (hsent : SendsCuts L (w a).restart)
    (hu : OneLeaderPerTerm C (Function.update w a (w a).restart :: ws)) :
    ∃ L', Histories C (fun _ _ => True) (Function.update w a (w a).restart :: ws)
      (Function.update w a (w a).restart) (Function.update (fun _ => []) a []) L' := by
  obtain ⟨hwhole, hrole, hlog⟩ := hn.whole.restart (w a).boot
  rcases hlog with hlog | hlog
  · have hcov := hwhole.covers (by rw [hlog]; exact (h.covers a).indexed)
    exact h.same ht hw hstep hsent hu hcov hlog
  · -- nothing is left, which is a prefix of everything
    have hcov := hwhole.covers (by rw [hlog]; exact Indexed.nil)
    refine ⟨L, h.update hsent (fun t => List.prefix_rfl) h.linked hcov ?_ (fun t hl => ?_)
      (fun _ _ _ _ => rfl) fun t hne => .inl hne⟩
    · show Valid LogEntry.term L ([] ++ ((w a).raft.restart (w a).boot).log)
      rw [hlog]
      exact Valid.nil
    · have hlead : ((w a).raft.restart (w a).boot).role = .leader := (leads_update_self.mp hl).2.1
      rw [hrole] at hlead
      cases hlead

theorem Logs.step (h : Logs C ws w L) (ht : Tenures C ws w) (hn : (w a).Unsnapped)
    (hw : w ∈ ws) (hstep : World.step C w (a, act) = some w')
    (hok : (w a).unsnapped act = true) (hu : OneLeaderPerTerm C (w' :: ws)) :
    ∃ L', Logs C (w' :: ws) w' L' := by
  obtain ⟨x', _, _, hx, rfl⟩ := World.step_some hstep
  have hsnap : (w a).raft.snapshotIndex = 0 := ((h.covers a).length).symm
  have hsent := h.sends (Node.step_section hx) (by simp [sendsCut, hsnap])
  have hpast : (fun _ => [] : Past) = Function.update (fun _ => []) a [] := by
    rw [Function.update_eq_self]
  unfold Logs
  rw [hpast]
  by_cases hres : (w a).recordEvent act = .restart
  · have hrec := Node.record_step (Node.step_section hx)
    rw [hres] at hrec
    cases hrec with
    | restart hr =>
      subst hr
      exact h.restart ht hn hw hstep hsent hu
  · have htest : historyTest (w a) ((w a).recordEvent act) = true ∧
        (w a).compacted ((w a).recordEvent act) = [] := by
      unfold Node.unsnapped at hok
      generalize (w a).recordEvent act = ev at hok hres ⊢
      cases ev with
      | fast | discard | saveInstalled | save | truncate => cases hok
      | restart => exact absurd rfl hres
      | batch args => exact ⟨by simp [historyTest, hsnap], rfl⟩
      | _ => exact ⟨rfl, rfl⟩
    have hst := Node.history_step (h.covers a) hx htest.1
    rw [htest.2] at hst
    exact h.outcome ht hw hstep hsent hu hst fun _ _ _ _ => trivial

theorem logs_of_visits {w₀ : World} (h₀ : Booted w₀)
    (hrun : Visits (World.step C) (fun w e => unsnappedOk C w e) w₀ ws)
    (hu : OneLeaderPerTerm C ws) :
    ∃ w us L, ws = w :: us ∧ Tenures C ws w ∧ (∀ a, (w a).Unsnapped) ∧ Logs C ws w L := by
  induction hrun with
  | start =>
    refine ⟨_, _, _, rfl, h₀.tenures, fun a => ?_, h₀.histories⟩
    obtain ⟨id, boot, metaStore, logStore, sm, snapshots, hw⟩ := h₀ a
    rw [hw]
    exact Node.unsnapped_fresh ..
  | @next u v us e h hstep hok ih =>
    obtain ⟨_, _, L, heq, ht, hn, hL⟩ := ih hu.tail
    cases heq
    obtain ⟨a, act⟩ := e
    obtain ⟨hkept, hfree⟩ := Bool.and_eq_true_iff.mp hok
    obtain ⟨L', hL'⟩ := hL.step ht (hn a) (List.mem_cons_self ..) hstep hfree hu
    refine ⟨v, u :: us, L', rfl, ht.step (List.mem_cons_self ..) hstep hkept, fun b => ?_, hL'⟩
    obtain ⟨x', _, _, hx, rfl⟩ := World.step_some hstep
    rcases eq_or_ne b a with rfl | hne
    · rw [Function.update_self]
      exact (hn b).step hx hfree
    · rw [Function.update_of_ne hne]
      exact hn b

end

end Raft
