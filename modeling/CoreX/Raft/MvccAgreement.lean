/-
CoreX/Raft/MvccAgreement.lean

The MVCC machines of two nodes that have consumed the same log.

The machine is fed by `applyCh` only.  It starts empty with the process; snapshots,
`RecoverFromSnapshot` and `RestoreSnapshot` belong to the other state machine.  So it
misses what `runApplyLoop` does not find in the log any more: after a restart the
loop begins at `1`, also if the log begins later, and after an install it begins
behind the snapshot (`mvcc_diverges`).

`Process.gapless` says that this does not happen.  Then the entries that have gone
into the machine since the process was started, with those on their way to it, are
the first `lastApplied` entries of the log (`Fed`), and the versions are a function
of them (`mvcc_agrees`).
-/
import CoreX.Raft.Versions
import CoreX.Raft.Applied
import CoreX.Raft.Deployment

namespace Raft

open StepSystem

/-! ### The entries on their way -/

namespace Process

section

variable (p : Process)

/-- The entries between `runApplyLoop` and the MVCC machine. -/
def mvccQueue : List LogEntry := p.mvccCh ++ p.fan.toList ++ p.node.queue

/-- The log is consumed up to index `i`: `runApplyLoop` has come to `i`, and nothing is
on its way to the machine. -/
def ConsumedTo (i : Int) : Prop := p.node.raft.lastApplied = i ∧ p.mvccQueue = []

instance decidableConsumedTo (i : Int) : Decidable (p.ConsumedTo i) := by
  unfold ConsumedTo
  infer_instance

/-- The log holds what `runApplyLoop` is going to collect, as it stands in `C`; and no
install moves `lastApplied`. -/
def gapless (C : CommittedLog) : ProcessAct → Bool
  | .node .collect =>
      (List.range (p.node.raft.commitIndex - p.node.raft.lastApplied).toNat).all fun k : Nat =>
        (p.node.raft.entryAt (p.node.raft.lastApplied + 1 + k)).any fun e => decide (C.Has e)
  | .node (.installNext i) =>
      match p.node.installs[i]? with
      | some ⟨_, args, _, .discard _⟩ => decide (args.lastIncludedIndex ≤ p.node.raft.lastApplied)
      | _ => true
  | _ => true

end

section

variable [Codec] {C : CommittedLog} {p p' : Process} {fed : List LogEntry}

omit [Codec] in
theorem handlerNext_alike {j : Nat} (h : p.handlerNext j = some p') : p'.mvcc.Alike p.mvcc := by
  unfold handlerNext at h
  split at h
  · cases h
  · split at h
    case h_7 =>
      dsimp only at h
      split at h <;> cases h <;> exact MVCCStateMachine.alike_isCASConflict _ _
    all_goals cases h; try exact MVCCStateMachine.Alike.refl _

omit [Codec] in
theorem collectApply_gapless (hpos : 0 ≤ p.node.raft.lastApplied)
    (hok : p.gapless C (.node .collect) = true) :
    p.node.raft.lastApplied ≤ p.node.raft.collectApply.1.lastApplied ∧
      C.entries.take p.node.raft.lastApplied.toNat ++ p.node.raft.collectApply.2 =
        C.entries.take p.node.raft.collectApply.1.lastApplied.toNat := by
  unfold RaftNode.collectApply
  split
  · exact ⟨le_rfl, List.append_nil _⟩
  · next hlt =>
    have hread : ∀ k ∈ List.range (p.node.raft.commitIndex - p.node.raft.lastApplied).toNat,
        p.node.raft.entryAt (p.node.raft.lastApplied + 1 + (k : Int)) =
          C.entries[p.node.raft.lastApplied.toNat + k]? := by
      intro k hk
      obtain ⟨e, he, hhas⟩ := exists_of_any (List.all_eq_true.mp hok k hk)
      obtain ⟨_, hget⟩ := hhas
      have hidx := (RaftNode.mem_of_entryAt he).2
      rw [he, ← hget]
      congr 1
      omega
    have hle : p.node.raft.lastApplied ≤ p.node.raft.commitIndex := by omega
    refine ⟨hle, ?_⟩
    show _ ++ (List.range _).filterMap _ = C.entries.take p.node.raft.commitIndex.toNat
    rw [List.filterMap_congr hread, Outputs.filterMap_range_getElem?, ← List.take_add]
    congr 1
    omega

omit [Codec] in
theorem installs_behind {act : Act} (hsm : p.node.raft.sm.isSome = true)
    (hok : p.gapless C (.node act) = true) (i : Nat) (t : Install) (data : SnapshotData)
    (hact : act = .installNext i) (ht : p.node.installs[i]? = some t)
    (hp : t.phase = .discard data ∨ p.node.raft.sm = none) :
    t.args.lastIncludedIndex ≤ p.node.raft.lastApplied := by
  subst hact
  have hphase : t.phase = .discard data := by
    rcases hp with hp | hnone
    · exact hp
    · rw [hnone] at hsm
      cases hsm
  obtain ⟨call, args, term, phase⟩ := t
  obtain rfl : phase = .discard data := hphase
  simpa [gapless, ht] using hok

/-! ### The invariant -/

/-- What has gone into the machine, and what is on its way, is the log up to
`lastApplied`. -/
structure Fed (C : CommittedLog) (p : Process) (fed : List LogEntry) : Prop where
  pos : 0 ≤ p.node.raft.lastApplied
  line : fed ++ p.mvccQueue = C.entries.take p.node.raft.lastApplied.toNat
  versions : p.mvcc.Alike ((MVCCStateMachine.new 10).applyAll fed)
  machine : p.node.raft.sm.isSome = true
  reader : p.node.consumed ≤ p.node.emitted.length

namespace Fed

theorem frame (h : Fed C p fed) (hla : p'.node.raft.lastApplied = p.node.raft.lastApplied)
    (hq : p'.mvccQueue = p.mvccQueue) (hsm : p'.node.raft.sm.isSome = true)
    (hc : p'.node.consumed ≤ p'.node.emitted.length) (hm : p'.mvcc.Alike p.mvcc) :
    Fed C p' fed where
  pos := hla ▸ h.pos
  line := by rw [hq, hla, h.line]
  versions := hm.trans h.versions
  machine := hsm
  reader := hc

theorem collect (h : Fed C p fed) (hempty : p.node.toApply = [])
    (hn : p'.node = { p.node with
      raft := p.node.raft.collectApply.1, toApply := p.node.raft.collectApply.2 })
    (hok : p.gapless C (.node .collect) = true) (hch : p'.mvccCh = p.mvccCh)
    (hfan : p'.fan = p.fan) (hmvcc : p'.mvcc = p.mvcc)
    (hc : p'.node.consumed ≤ p'.node.emitted.length) : Fed C p' fed := by
  obtain ⟨hle, hline⟩ := collectApply_gapless h.pos hok
  have hraft : p'.node.raft = p.node.raft.collectApply.1 := by rw [hn]
  have hqueue : p'.mvccQueue = p.mvccQueue ++ p.node.raft.collectApply.2 := by
    rw [mvccQueue, mvccQueue, hch, hfan, hn, Node.queue, Node.queue, hempty]
    simp
  have hsm : p.node.raft.collectApply.1.sm = p.node.raft.sm := by
    unfold RaftNode.collectApply
    split <;> rfl
  refine ⟨?_, ?_, hmvcc ▸ h.versions, ?_, hc⟩
  · rw [hraft]
    exact h.pos.trans hle
  · rw [hqueue, ← List.append_assoc, h.line, hline, hraft]
  · rw [hraft, hsm]
    exact h.machine

theorem nodeAct (h : Fed C p fed) {act : Act} (hok : p.gapless C (.node act) = true)
    (hs : p.nodeAct act = some p') : Fed C p' fed := by
  obtain ⟨s, hstep, happly, hrestart, hp'⟩ := nodeAct_cases hs
  have hsec := Node.step_section hstep
  have hframe : p'.node = s ∧ p'.mvccCh = p.mvccCh ∧ p'.fan = p.fan ∧ p'.mvcc = p.mvcc := by
    rcases hp' with ⟨_, rfl⟩ | ⟨_, _, _, rfl⟩ <;> exact ⟨rfl, rfl, rfl, rfl⟩
  obtain ⟨rfl, hch, hfan, hmvcc⟩ := hframe
  have hc := Node.consumed_le hsec h.reader
  -- every section but one leaves the queue and `lastApplied` alone
  have hkeep : act ≠ .collect → p'.node.raft.sm.isSome = true →
      p'.node.queue = p.node.queue → Fed C p' fed := by
    intro hcollect hsm hq
    refine h.frame ?_ (by rw [mvccQueue, mvccQueue, hch, hfan, hq]) hsm hc
      (hmvcc ▸ MVCCStateMachine.Alike.refl _)
    exact Node.lastApplied_section hsec hcollect hrestart (installs_behind h.machine hok)
  cases Node.machine_step hsec h.machine h.reader happly hrestart with
  | keep hsm hq hla hh =>
    by_cases hcollect : act = .collect
    · subst hcollect
      obtain ⟨hempty, hs'⟩ := Node.collect_section hsec
      exact h.collect hempty hs' hok hch hfan hmvcc hc
    · exact hkeep hcollect (hsm ▸ h.machine) hq
  | collect hact hempty hs' =>
    subst hact
    exact h.collect hempty hs' hok hch hfan hmvcc hc
  | take sm hact hsm hr hq hh => exact hkeep (by simp [hact]) (hr ▸ h.machine) hq
  | restore i t data hact ht hp hr hq hh =>
    refine hkeep (by simp [hact]) ?_ hq
    obtain ⟨sm, hsm⟩ := Option.isSome_iff_exists.mp h.machine
    rw [hr, RaftNode.installRestore, hsm]
    rfl

theorem fanKv (h : Fed C p fed) (hs : p.fanKv = some p') : Fed C p' fed := by
  obtain ⟨e, hfan, he, rfl⟩ := fanKv_some hs
  refine h.frame rfl ?_ h.machine (List.getElem?_eq_some_iff.mp he).1
    (MVCCStateMachine.Alike.refl _)
  show p.mvccCh ++ [e] ++ (p.node.emitted.drop (p.node.consumed + 1) ++ p.node.toApply) = _
  rw [mvccQueue, hfan, Node.queue_of_next he]
  simp

theorem fanMvcc (h : Fed C p fed) (hs : p.fanMvcc = some p') : Fed C p' fed := by
  obtain ⟨e, hfan, rfl⟩ := fanMvcc_some hs
  refine h.frame rfl ?_ h.machine h.reader (MVCCStateMachine.Alike.refl _)
  show p.mvccCh ++ [e] ++ [] ++ p.node.queue = _
  rw [mvccQueue, hfan, List.append_nil]
  rfl

theorem mvccApply (h : Fed C p fed) (hs : p.mvccApply = some p') :
    ∃ e, Fed C p' (fed ++ [e]) := by
  obtain ⟨e, rest, hch, rfl⟩ := mvccApply_some hs
  refine ⟨e, h.pos, ?_, ?_, h.machine, h.reader⟩
  · show fed ++ [e] ++ (rest ++ p.fan.toList ++ p.node.queue) =
      C.entries.take p.node.raft.lastApplied.toNat
    rw [← h.line, mvccQueue, hch]
    simp
  · show (p.mvcc.apply e).Alike ((MVCCStateMachine.new 10).applyAll (fed ++ [e]))
    rw [MVCCStateMachine.applyAll_concat]
    exact h.versions.apply e

theorem mapSM (h : Fed C p fed) {f : KVStateMachine → KVStateMachine}
    (hn : p'.node = (p.mapSM f).node) (hch : p'.mvccCh = p.mvccCh) (hfan : p'.fan = p.fan)
    (hmvcc : p'.mvcc = p.mvcc) : Fed C p' fed := by
  refine h.frame ?_ ?_ ?_ ?_ (hmvcc ▸ MVCCStateMachine.Alike.refl _)
  · rw [hn]
    rfl
  · rw [mvccQueue, mvccQueue, hch, hfan, hn]
    rfl
  · rw [hn]
    show (p.node.raft.sm.map f).isSome = true
    rw [Option.isSome_map]
    exact h.machine
  · rw [hn]
    exact h.reader

theorem kvWrite (h : Fed C p fed) {r : StoreResult} (hs : p.kvWrite r = some p') :
    Fed C p' fed := by
  obtain ⟨e, rest, _, _, hp'⟩ := kvWrite_cases hs
  rcases hp' with ⟨_, rfl⟩ | ⟨_, rfl⟩ | ⟨_, _, rfl⟩
  · exact h.frame rfl rfl h.machine h.reader (MVCCStateMachine.Alike.refl _)
  · exact h.frame rfl rfl h.machine h.reader (MVCCStateMachine.Alike.refl _)
  · exact h.mapSM rfl rfl rfl rfl

theorem request (h : Fed C p fed) {backend : Backend} {data : Bytes} {f : Faults}
    (hs : p.request backend data f = some p') : Fed C p' fed := by
  obtain ⟨_, hcases⟩ := request_cases hs
  have hsame := (RaftNode.logOnly_proposeEntry p.node.raft entryTypeCommand data f).sameMachine
  have hmachine : (p.node.propose data f).raft.sm.isSome = true := by
    rw [show (p.node.propose data f).raft.sm = p.node.raft.sm from hsame.sm]
    exact h.machine
  rcases hcases with ⟨_, rfl⟩ | ⟨_, rfl⟩ <;>
    exact h.frame hsame.lastApplied rfl hmachine h.reader (MVCCStateMachine.Alike.refl _)

theorem crash (h : Fed C p fed) {keep : Nat} {results : LogEntry → StoreResult}
    (hs : p.crash keep results = some p') : Fed C p' [] := by
  obtain ⟨x, _, rfl⟩ := Option.map_eq_some_iff.mp hs
  have hla : (p.node.raft.restart p.node.boot).lastApplied = 0 :=
    (RaftNode.restart_volatile p.node.raft p.node.boot).2.2
  have hret : p.mvcc.retention = 10 :=
    h.versions.retention.trans (MVCCStateMachine.Keeps.applyAll 10 fed).retention
  refine ⟨hla.ge, ?_, ?_, rfl, le_rfl⟩
  · show [] = C.entries.take (p.node.raft.restart p.node.boot).lastApplied.toNat
    rw [hla]
    rfl
  · show (MVCCStateMachine.new p.mvcc.retention).Alike _
    rw [hret]
    exact MVCCStateMachine.Alike.refl _

theorem noteCommitted (h : Fed C p fed) : Fed C p.noteCommitted fed :=
  ⟨h.pos, h.line, h.versions, h.machine, h.reader⟩

theorem step (h : Fed C p fed) {a : ProcessAct} (hok : p.gapless C a = true)
    (hs : p.step a = some p') : ∃ fed', Fed C p' fed' := by
  obtain ⟨q, hq, rfl⟩ := Option.map_eq_some_iff.mp hs
  cases a with
  | node act => exact ⟨fed, (h.nodeAct hok hq).noteCommitted⟩
  | fanKv => exact ⟨fed, (h.fanKv hq).noteCommitted⟩
  | fanMvcc => exact ⟨fed, (h.fanMvcc hq).noteCommitted⟩
  | kvWrite r => exact ⟨fed, (h.kvWrite hq).noteCommitted⟩
  | kvStore =>
    obtain ⟨e, _, rfl⟩ := kvStore_some hq
    refine ⟨fed, noteCommitted ?_⟩
    exact h.mapSM rfl rfl rfl rfl
  | mvccApply =>
    obtain ⟨e, hfed⟩ := h.mvccApply hq
    exact ⟨fed ++ [e], hfed.noteCommitted⟩
  | request backend data f => exact ⟨fed, (h.request hq).noteCommitted⟩
  | handlerNext j =>
    have hm := handlerNext_alike hq
    rw [handlerNext_frame hq] at hm ⊢
    refine ⟨fed, noteCommitted ?_⟩
    exact h.frame rfl rfl h.machine h.reader hm
  | handlerTimeout j =>
    rw [handlerTimeout_some hq]
    refine ⟨fed, noteCommitted ?_⟩
    exact h.frame rfl rfl h.machine h.reader (MVCCStateMachine.Alike.refl _)
  | crash keep results => exact ⟨[], (h.crash hq).noteCommitted⟩

theorem consumed (h : Fed C p fed) {i : Int} (hi : p.ConsumedTo i) :
    p.mvcc.Alike ((MVCCStateMachine.new 10).applyAll (C.entries.take i.toNat)) := by
  obtain ⟨rfl, hempty⟩ := hi
  have hline := h.line
  rw [hempty, List.append_nil] at hline
  rw [← hline]
  exact h.versions

end Fed

theorem fed_fresh (C : CommittedLog) (addr : Addr) (id : NodeID) (boot : Option (List Addr))
    (cfg : SnapshotConfig) : Fed C (fresh addr id boot cfg) [] :=
  ⟨le_rfl, rfl, MVCCStateMachine.Alike.refl _, rfl, le_rfl⟩

end

end Process

/-! ### Two nodes of a cluster -/

namespace Deployment

/-- **The MVCC state is a function of the log**: nodes that have consumed it up to the
same index hold the same versions, and accept the same commands. -/
theorem mvcc_agrees [Codec] (K : Cluster) (cfg : Addr → SnapshotConfig) (C : CommittedLog)
    {D : Deployment} (h : Runs (Deployment.step K) (fun D e => (D e.1).gapless C e.2 = true)
      (Deployment.init K cfg) D) {a b : Addr} {i : Int} (ha : (D a).ConsumedTo i)
    (hb : (D b).ConsumedTo i) :
    (D a).mvcc.latest = (D b).mvcc.latest ∧ (D a).mvcc.versions = (D b).mvcc.versions ∧
      ∀ e, (D a).mvcc.effect e = (D b).mvcc.effect e := by
  have hfed : ∀ a, ∃ fed, (D a).Fed C fed := by
    refine h.invariant (P := fun D => ∀ a, ∃ fed, (D a).Fed C fed) ?_ ?_
    · rintro D ⟨a, act⟩ D' hD hs hok b
      obtain ⟨p, _, _, hp, rfl⟩ := step_cases hs
      obtain ⟨fed, hfed⟩ := hD a
      rcases eq_or_ne b a with rfl | hne
      · rw [Function.update_self]
        exact hfed.step hok hp
      · rw [Function.update_of_ne hne]
        exact hD b
    · exact fun a => ⟨[], Process.fed_fresh C a _ _ _⟩
  obtain ⟨feda, hfeda⟩ := hfed a
  obtain ⟨fedb, hfedb⟩ := hfed b
  have halike := (hfeda.consumed ha).trans (hfedb.consumed hb).symm
  exact ⟨halike.latest, halike.versions, halike.effect⟩

/-! ### A node that has compacted its log -/

section

local instance agreementCodec : Codec := Codec.twoKeys

/-- Three processes that take a snapshot after any entry. -/
def snapshotTrio : Deployment := init trio fun _ => ⟨1, 2⟩

/-- The log that the runs below commit. -/
def oneEntryLog : CommittedLog := .ofTexts [setA]

/-- The leader `a` sends its next heartbeat to `b`, nobody answers. -/
def heartbeat (call : Nat) : List (Addr × ProcessAct) :=
  onNodes [("a", .ackResult "b" none), ("a", .ackResult "c" none), ("a", .tick), ("a", .build),
    ("a", .readConfig), appendEntries "a" call "b" ⟨1, "a", 1, 1, [], 1⟩]

/-- The entry that is committed at `x` goes through both machines. -/
def consumeAt (x : Addr) : List (Addr × ProcessAct) :=
  onNodes [(x, .collect), (x, .emit)] ++
    [(x, .fanKv), (x, .fanMvcc), (x, .kvWrite .ok), (x, .kvStore), (x, .mvccApply)]

/-- `a` commits an entry with `b`, and both consume it. -/
def consumedRun : List (Addr × ProcessAct) :=
  electWith "a" 1 "b" ++ [("a", .request .mvcc entryA.data .none)] ++ commitWith "a" 1 "b" entryA ++
    onNodes [("a", .ackResult "c" none), ("a", .tick), ("a", .build), ("a", .readConfig),
      appendEntries "a" 2 "b" ⟨1, "a", 1, 1, [], 1⟩] ++ consumeAt "a" ++ consumeAt "b"

/-- Then `b` takes a snapshot, compacts its log and is started again; the next
heartbeat tells it what is committed. -/
def compactedRun : List (Addr × ProcessAct) :=
  consumedRun ++ onNodes [("b", .snapTake), ("b", .snapCapture), ("b", .snapSave false),
    ("b", .snapTruncate), ("b", .snapCompact)] ++ [("b", .crash 2 fun _ => .ok)] ++ heartbeat 3 ++
    onNodes [("b", .collect)]

/-- **The machines differ.**  Both nodes have committed the one entry and consumed the
log up to it, but the machine of `b` has no version of the key, and a write that
expects version 1 is accepted by `a` and refused by `b`. -/
theorem mvcc_diverges :
    ∃ D, Runs (Deployment.step trio) (fun _ _ => True) snapshotTrio D ∧
      (D "a").committed = oneEntryLog.entries ∧ (D "b").committed = oneEntryLog.entries ∧
      (D "a").ConsumedTo 1 ∧ (D "b").ConsumedTo 1 ∧
      (D "a").mvcc.latest "a" = some 1 ∧ (D "b").mvcc.latest "a" = none ∧
      (D "a").mvcc.conflicts ⟨"cas", "a", "2", 1⟩ = false ∧
      (D "b").mvcc.conflicts ⟨"cas", "a", "2", 1⟩ = true :=
  Runs.exists_of_exec compactedRun (by decide +kernel)

/-- `b` is started again with its whole log. -/
theorem mvcc_agrees_restarted :
    ∃ D, Runs (Deployment.step trio) (fun D e => (D e.1).gapless oneEntryLog e.2 = true)
        snapshotTrio D ∧
      ((D "a").ConsumedTo 1 ∧ (D "b").ConsumedTo 1 ∧ (D "b").mvcc.latest "a" = some 1) ∧
      ((D "a").mvcc.latest = (D "b").mvcc.latest ∧ (D "a").mvcc.versions = (D "b").mvcc.versions ∧
        ∀ e, (D "a").mvcc.effect e = (D "b").mvcc.effect e) :=
  Runs.exists_and_of_exec
    (consumedRun ++ [("b", .crash 2 fun _ => .ok)] ++ heartbeat 3 ++ consumeAt "b")
    (by decide +kernel) fun _ hrun hend =>
      mvcc_agrees trio (fun _ => ⟨1, 2⟩) oneEntryLog hrun hend.1 hend.2.1

end

end Deployment

end Raft
