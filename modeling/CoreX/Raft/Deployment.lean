/-
CoreX/Raft/Deployment.lean

What reaches the state machines of a cluster of processes.

`runApplyLoop` delivers what its node takes for committed, and that is committed in
the cluster.  Startup does not ask: it replays the whole log file, the end of which
may be an entry that nobody else has and that another leader is about to overwrite
(`uncommitted_entry_applied`).  If the file of a restarted node holds committed
entries only, INV-S1 holds (`only_committed_applied`).
-/
import CoreX.Raft.Delivery
import CoreX.Raft.CommitLedger

namespace Raft

open StepSystem

/-! ### Maps made of known entries -/

section

variable [Codec] {K K' : LogEntry → Prop} {base base' : List SnapshotData}
  {m : String → Option String} {e : LogEntry} {es : List LogEntry}

/-- The map holds the effects of entries with the property `K`, on top of nothing or
of one of the given snapshots. -/
def BuiltFrom (K : LogEntry → Prop) (base : List SnapshotData) (m : String → Option String) :
    Prop :=
  ∃ m₀ es, (m₀ = (fun _ => none) ∨ ∃ d ∈ base, m₀ = d.kv) ∧ (∀ e ∈ es, K e) ∧
    m = Replay.run kvOp m₀ es

theorem builtFrom_empty : BuiltFrom K base fun _ => none :=
  ⟨fun _ => none, [], .inl rfl, fun _ he => absurd he List.not_mem_nil, rfl⟩

theorem builtFrom_snapshot {d : SnapshotData} (h : d ∈ base) : BuiltFrom K base d.kv :=
  ⟨d.kv, [], .inr ⟨d, h, rfl⟩, fun _ he => absurd he List.not_mem_nil, rfl⟩

theorem BuiltFrom.mono (h : BuiltFrom K base m) (hK : ∀ e, K e → K' e)
    (hsub : ∀ d ∈ base, d ∈ base') : BuiltFrom K' base' m := by
  obtain ⟨m₀, es, hbase, hes, rfl⟩ := h
  refine ⟨m₀, es, ?_, fun e he => hK e (hes e he), rfl⟩
  rcases hbase with hbase | ⟨d, hd, hbase⟩
  · exact .inl hbase
  · exact .inr ⟨d, hsub d hd, hbase⟩

theorem BuiltFrom.act (h : BuiltFrom K base m) (he : (kvOp e).isSome = true → K e) :
    BuiltFrom K base (Replay.act kvOp m e) := by
  rcases hop : kvOp e with - | op
  · rw [Replay.act_of_none hop]
    exact h
  · obtain ⟨m₀, es, hbase, hes, rfl⟩ := h
    refine ⟨m₀, es ++ [e], hbase, ?_, Replay.run_concat.symm⟩
    intro e' he'
    rcases List.mem_append.mp he' with he' | he'
    · exact hes e' he'
    · rw [List.mem_singleton.mp he']
      exact he (by rw [hop]; rfl)

theorem BuiltFrom.run (h : BuiltFrom K base m) (hes : ∀ e ∈ es, (kvOp e).isSome = true → K e) :
    BuiltFrom K base (Replay.run kvOp m es) := by
  induction es generalizing m with
  | nil => exact h
  | cons e es ih =>
    exact ih (h.act (hes e List.mem_cons_self)) fun e' he' => hes e' (List.mem_cons_of_mem e he')

/-! ### Startup -/

/-- What startup has applied, written and built is made of known entries. -/
structure Recovery.Known (K : LogEntry → Prop) (base : List SnapshotData) (x : Recovery) :
    Prop where
  applied : ∀ e ∈ x.applied, K e
  kv : ∀ r ∈ x.kv, ∃ e, K e ∧ r ∈ kvRecords e
  data : BuiltFrom K base x.sm.data

theorem mem_kvWritten {r : StoreResult} {rec : KvRecord} (h : rec ∈ kvWritten e r) :
    rec ∈ kvRecords e := by
  cases r with
  | ok => exact h
  | failed n => exact List.mem_of_mem_take h

theorem kvOp_of_mem_kvRecords {rec : KvRecord} (h : rec ∈ kvRecords e) :
    (kvOp e).isSome = true := by
  unfold kvRecords at h
  rcases hop : kvOp e with - | op
  · rw [hop] at h
    cases h
  · rfl

theorem records_known {kv : List KvRecord} {r : StoreResult}
    (h : ∀ rec ∈ kv, ∃ e, K e ∧ rec ∈ kvRecords e) (he : (kvOp e).isSome = true → K e) :
    ∀ rec ∈ kv ++ kvWritten e r, ∃ e, K e ∧ rec ∈ kvRecords e := by
  intro rec hrec
  rcases List.mem_append.mp hrec with hrec | hrec
  · exact h rec hrec
  · have hmem := mem_kvWritten hrec
    exact ⟨e, he (kvOp_of_mem_kvRecords hmem), hmem⟩

theorem KVStateMachine.data_apply (sm : KVStateMachine) (e : LogEntry) (fails : Bool) :
    (sm.apply e fails).data = sm.data ∨ (sm.apply e fails).data = Replay.act kvOp sm.data e := by
  cases fails with
  | false =>
    rw [KVStateMachine.apply_eq]
    exact .inr rfl
  | true =>
    rcases hop : kvOp e with - | op
    · rw [KVStateMachine.apply_unwritten hop, KVStateMachine.apply_eq]
      exact .inr rfl
    · rw [KVStateMachine.apply_failed (by rw [hop]; rfl)]
      exact .inl rfl

theorem Recovery.Known.applyDirect {x : Recovery} (h : x.Known K base)
    (results : LogEntry → StoreResult) (he : wellFormed e = true → K e) :
    (x.applyDirect results e).Known K base := by
  have hop : (kvOp e).isSome = true → K e := fun hop => he (wellFormed_of_kvOp hop)
  unfold Recovery.applyDirect
  split
  · exact h
  · refine ⟨?_, records_known h.kv hop, ?_⟩
    · intro e' he'
      split at he'
      · next hc =>
        rw [Bool.and_eq_true] at hc
        rcases List.mem_append.mp he' with he' | he'
        · exact h.applied e' he'
        · rw [List.mem_singleton.mp he']
          exact he hc.1
      · exact h.applied e' he'
    · rcases x.sm.data_apply e (writeFails e (results e)) with hd | hd
      · show BuiltFrom K base (x.sm.apply e _).data
        rw [hd]
        exact h.data
      · show BuiltFrom K base (x.sm.apply e _).data
        rw [hd]
        exact h.data.act hop

theorem Recovery.Known.foldl {x : Recovery} (h : x.Known K base)
    (results : LogEntry → StoreResult) (hes : ∀ e ∈ es, wellFormed e = true → K e) :
    (es.foldl (Recovery.applyDirect results) x).Known K base := by
  induction es generalizing x with
  | nil => exact h
  | cons e es ih =>
    exact ih (h.applyDirect results (hes e List.mem_cons_self))
      fun e' he' => hes e' (List.mem_cons_of_mem e he')

theorem startup_known {sm : KVStateMachine} {S : Int} {entries : List LogEntry}
    {kv : List KvRecord} {results : LogEntry → StoreResult} {x : Recovery}
    (hs : startup sm S entries kv results = some x) (hsm : BuiltFrom K base sm.data)
    (hkv : ∀ r ∈ kv, ∃ e, K e ∧ r ∈ kvRecords e)
    (hes : ∀ e ∈ entries, wellFormed e = true → K e) : x.Known K base := by
  have hsettled : ∀ e ∈ settled kv entries, (kvOp e).isSome = true → K e := fun e he hop =>
    hes e ((List.takeWhile_sublist _).subset he) (wellFormed_of_kvOp hop)
  have hbegin : (Recovery.begin sm kv entries).Known K base := by
    refine ⟨?_, hkv, hsm.run hsettled⟩
    intro e he
    obtain ⟨he, hop⟩ := List.mem_filter.mp he
    exact hsettled e he hop
  simp only [startup] at hs
  split at hs
  · cases hs
  · split at hs
    · cases hs
      exact hbegin.foldl results fun e he => hes e (List.mem_of_mem_filter he)
    · cases hs
      exact hbegin

/-! ### One process -/

namespace Process

/-- Everything on its way into the map, and everything that came from there, is made
of known entries. -/
structure Sound (K : LogEntry → Prop) (p : Process) : Prop where
  hasSM : p.node.raft.sm.isSome = true
  reader : p.node.consumed ≤ p.node.emitted.length
  noted : ∀ e ∈ p.node.raft.log, e.index ≤ p.node.raft.commitIndex → K e
  queue : ∀ e ∈ p.kvCh ++ p.node.queue, K e
  applied : ∀ e ∈ p.applied, K e
  kv : ∀ r ∈ p.kv, ∃ e, K e ∧ r ∈ kvRecords e
  data : ∀ sm, p.node.raft.sm = some sm → BuiltFrom K p.restored sm.data
  held : ∀ x ∈ p.node.held, BuiltFrom K p.restored x.2

variable {p p' : Process}

namespace Sound

theorem mono (h : Sound K p) (hK : ∀ e, K e → K' e) : Sound K' p where
  hasSM := h.hasSM
  reader := h.reader
  noted e he hle := hK e (h.noted e he hle)
  queue e he := hK e (h.queue e he)
  applied e he := hK e (h.applied e he)
  kv r hr := by
    obtain ⟨e, he, hmem⟩ := h.kv r hr
    exact ⟨e, hK e he, hmem⟩
  data sm hsm := (h.data sm hsm).mono hK fun _ hd => hd
  held x hx := (h.held x hx).mono hK fun _ hd => hd

theorem frame (h : Sound K p)
    (hnoted : ∀ e ∈ p'.node.raft.log, e.index ≤ p'.node.raft.commitIndex → K e)
    (hreader : p'.node.consumed ≤ p'.node.emitted.length)
    (hsm : p'.node.raft.sm = p.node.raft.sm)
    (hqueue : ∀ e ∈ p'.kvCh ++ p'.node.queue, K e)
    (happlied : p'.applied = p.applied) (hkv : p'.kv = p.kv)
    (hheld : ∀ x ∈ p'.node.held, BuiltFrom K p.restored x.2)
    (hrestored : ∀ d ∈ p.restored, d ∈ p'.restored) : Sound K p' where
  hasSM := by
    rw [hsm]
    exact h.hasSM
  reader := hreader
  noted := hnoted
  queue := hqueue
  applied := by
    rw [happlied]
    exact h.applied
  kv := by
    rw [hkv]
    exact h.kv
  data sm hsm' := (h.data sm (hsm ▸ hsm')).mono (fun _ he => he) hrestored
  held x hx := (hheld x hx).mono (fun _ he => he) hrestored

theorem same (h : Sound K p) (hn : p'.node = p.node) (hch : p'.kvCh = p.kvCh)
    (happlied : p'.applied = p.applied) (hkv : p'.kv = p.kv) (hres : p'.restored = p.restored) :
    Sound K p' :=
  h.frame (by rw [hn]; exact h.noted) (by rw [hn]; exact h.reader) (by rw [hn])
    (by rw [hch, hn]; exact h.queue) happlied hkv (by rw [hn]; exact h.held)
    (by rw [hres]; exact fun _ hd => hd)

theorem collectApply_known (h : Sound K p) : ∀ e ∈ p.node.raft.collectApply.2, K e := by
  intro e he
  obtain ⟨hlog, hle⟩ := RaftNode.mem_collectApply he
  exact h.noted e hlog hle

theorem nodeAct (h : Sound K p) {act : Act} (hs : p.nodeAct act = some p')
    (hnoted : ∀ e ∈ p'.node.raft.log, e.index ≤ p'.node.raft.commitIndex → K e) : Sound K p' := by
  obtain ⟨s, hstep, happly, hrestart, hp'⟩ := nodeAct_cases hs
  have hsec := Node.step_section hstep
  obtain ⟨rfl, hch, happlied, hkv, hrestored⟩ : p'.node = s ∧ p'.kvCh = p.kvCh ∧
      p'.applied = p.applied ∧ p'.kv = p.kv ∧ ∀ d ∈ p.restored, d ∈ p'.restored := by
    rcases hp' with ⟨_, rfl⟩ | ⟨_, _, _, rfl⟩
    · exact ⟨rfl, rfl, rfl, rfl, fun _ hd => hd⟩
    · exact ⟨rfl, rfl, rfl, rfl, fun _ hd => List.mem_append_left _ hd⟩
  have hc := Node.consumed_le hsec h.reader
  have hqueue : p'.node.queue = p.node.queue → ∀ e ∈ p'.kvCh ++ p'.node.queue, K e := by
    intro hq
    rw [hch, hq]
    exact h.queue
  cases Node.machine_step hsec h.hasSM h.reader happly hrestart with
  | keep hsm hq hla hh =>
    exact h.frame hnoted hc hsm (hqueue hq) happlied hkv (fun x hx => h.held x (hh x hx))
      hrestored
  | collect hact hempty hs' =>
    have hsame : p'.node.raft.sm = p.node.raft.sm ∧ p'.node.held = p.node.held := by
      rw [hs']
      unfold RaftNode.collectApply
      split <;> exact ⟨rfl, rfl⟩
    refine h.frame hnoted hc hsame.1 ?_ happlied hkv
      (by rw [hsame.2]; exact h.held) hrestored
    have hq : p'.node.queue = p.node.queue ++ p.node.raft.collectApply.2 := by
      rw [hs', Node.queue, Node.queue, hempty, List.append_nil]
    rw [hch, hq, ← List.append_assoc]
    intro e he
    rcases List.mem_append.mp he with he | he
    · exact h.queue e he
    · exact h.collectApply_known e he
  | take sm hact hsm hr hq hh =>
    refine h.frame hnoted hc (by rw [hr]) (hqueue hq) happlied hkv (fun x hx => ?_) hrestored
    rcases hh x hx with rfl | hx
    · exact h.data sm hsm
    · exact h.held x hx
  | restore i t data hact ht hp hr hq hh =>
    -- the map is now that of the snapshot, which is on record
    subst hact
    have hdata : data ∈ p'.restored := by
      rcases hp' with ⟨hnone, _⟩ | ⟨args, data', hsome, heq⟩
      · rw [restoring_of_phase ht hp] at hnone
        cases hnone
      · rw [restoring_of_phase ht hp] at hsome
        cases hsome
        have hres : p'.restored = p.restored ++ [data] := congrArg Process.restored heq
        rw [hres]
        exact List.mem_append_right _ (List.mem_singleton_self _)
    obtain ⟨sm, hsm⟩ := Option.isSome_iff_exists.mp h.hasSM
    have hsm' : p'.node.raft.sm = some ⟨data.kv, t.args.lastIncludedIndex⟩ := by
      rw [hr, RaftNode.installRestore, hsm]
      rfl
    refine ⟨by rw [hsm']; rfl, hc, hnoted, hqueue hq, by rw [happlied]; exact h.applied,
      by rw [hkv]; exact h.kv, ?_, fun x hx => ?_⟩
    · intro sm'' hsm''
      rw [hsm'] at hsm''
      cases hsm''
      exact builtFrom_snapshot hdata
    · rcases hh x hx with rfl | hx
      · exact builtFrom_snapshot hdata
      · exact (h.held x hx).mono (fun _ he => he) hrestored

theorem kvWrite (h : Sound K p) {r : StoreResult} (hs : p.kvWrite r = some p') : Sound K p' := by
  obtain ⟨e, rest, hst, hch, hp'⟩ := kvWrite_cases hs
  have he : K e := h.queue e (by rw [hch]; exact List.mem_cons_self)
  have hqueue : ∀ x ∈ rest ++ p.node.queue, K x := fun x hx =>
    h.queue x (by rw [hch]; exact List.mem_cons_of_mem e hx)
  have hkv := records_known (e := e) (r := r) h.kv fun _ => he
  rcases hp' with ⟨_, rfl⟩ | ⟨_, rfl⟩ | ⟨hwf, hfail, rfl⟩
  · exact { h with queue := hqueue, kv := hkv }
  · exact { h with queue := hqueue, kv := hkv }
  · obtain ⟨sm, hsm⟩ := Option.isSome_iff_exists.mp h.hasSM
    have hsm' : p.node.raft.sm.map (fun sm : KVStateMachine =>
        { sm with data := Replay.act kvOp sm.data e }) =
          some { sm with data := Replay.act kvOp sm.data e } := by rw [hsm]; rfl
    refine { h with hasSM := ?_, queue := hqueue, applied := ?_, kv := hkv, data := ?_ }
    · show (p.node.raft.sm.map _).isSome = true
      rw [hsm']
      rfl
    · intro x hx
      rcases List.mem_append.mp hx with hx | hx
      · exact h.applied x hx
      · rw [List.mem_singleton.mp hx]
        exact he
    · intro sm'' hsm''
      have hsm'' : p.node.raft.sm.map _ = some sm'' := hsm''
      rw [hsm'] at hsm''
      cases hsm''
      exact (h.data sm hsm).act fun _ => he

theorem kvStore (h : Sound K p) (hs : p.kvStore = some p') : Sound K p' := by
  obtain ⟨e, hst, rfl⟩ := kvStore_some hs
  refine { h with hasSM := ?_, data := ?_ }
  · show (p.node.raft.sm.map _).isSome = true
    rw [Option.isSome_map]
    exact h.hasSM
  · intro sm' hsm'
    obtain ⟨sm, hsm, rfl⟩ := Option.map_eq_some_iff.mp hsm'
    exact h.data sm hsm

theorem fanKv (h : Sound K p) (hs : p.fanKv = some p') : Sound K p' := by
  obtain ⟨e, _, he, rfl⟩ := fanKv_some hs
  refine { h with reader := (List.getElem?_eq_some_iff.mp he).1, queue := ?_ }
  -- the entry goes from one channel to the next
  have hsplit := Node.queue_of_next he
  rw [List.append_assoc]
  show ∀ x ∈ p.kvCh ++ e :: (p.node.emitted.drop (p.node.consumed + 1) ++ p.node.toApply), K x
  rw [← hsplit]
  exact h.queue

theorem crash (h : Sound K p) {keep : Nat} {results : LogEntry → StoreResult}
    (hs : p.crash keep results = some p') (hes : ∀ e ∈ p.logEntries, wellFormed e = true → K e)
    (hnoted : ∀ e ∈ p'.node.raft.log, e.index ≤ p'.node.raft.commitIndex → K e) : Sound K p' := by
  obtain ⟨x, hx, rfl⟩ := Option.map_eq_some_iff.mp hs
  obtain ⟨hstore, _, hsm⟩ := RaftNode.restart_sm (n := p.node.raft) p.node.boot h.hasSM
  have hbase : BuiltFrom K p.restored
      ((p.node.restart.raft.sm.getD newKVStateMachine).data) := by
    show BuiltFrom K p.restored (((p.node.raft.restart p.node.boot).sm.getD _).data)
    rcases hsm with ⟨hsm, _⟩ | ⟨f, hf, hsm, _⟩
    · rw [hsm]
      exact builtFrom_empty
    · rw [hsm]
      exact h.held _ (Node.held_of_file hf)
  have hknown := startup_known hx hbase (fun r hr => h.kv r (List.mem_of_mem_take hr)) hes
  refine ⟨rfl, le_rfl, hnoted, fun e he => absurd he List.not_mem_nil, ?_, hknown.kv, ?_, ?_⟩
  · intro e he
    rcases List.mem_append.mp he with he | he
    · exact h.applied e he
    · exact hknown.applied e he
  · intro sm hsm'
    cases hsm'
    exact hknown.data
  · intro y hy
    rcases Node.mem_held.mp hy with hy | ⟨t, ht, _⟩ | ⟨f, hf, rfl⟩
    · exact absurd hy List.not_mem_nil
    · exact absurd ht List.not_mem_nil
    · have hf' : f ∈ (p.node.raft.restart p.node.boot).snapshotStore.getD [] := hf
      rw [hstore] at hf'
      exact h.held _ (Node.held_of_file hf')

end Sound

theorem Sound.step (h : Sound K p) {a : ProcessAct} (hs : p.step a = some p')
    (hnew : ∀ e ∈ p'.committed, K e)
    (hes : a.isCrash = true → ∀ e ∈ p.logEntries, wellFormed e = true → K e) : Sound K p' := by
  obtain ⟨q, hq, rfl⟩ := Option.map_eq_some_iff.mp hs
  have hnoted : ∀ e ∈ q.node.raft.log, e.index ≤ q.node.raft.commitIndex → K e := by
    intro e he hle
    apply hnew
    by_cases hold : e ∈ q.committed
    · exact List.mem_append_left _ hold
    · exact List.mem_append_right _ (List.mem_filter.mpr ⟨he, by simp [hle, hold]⟩)
  suffices hsound : Sound K q from { hsound with noted := hnoted }
  cases a with
  | node act => exact h.nodeAct hq hnoted
  | fanKv => exact h.fanKv hq
  | fanMvcc =>
    obtain ⟨e, _, rfl⟩ := fanMvcc_some hq
    exact h.same rfl rfl rfl rfl rfl
  | kvWrite r => exact h.kvWrite hq
  | kvStore => exact h.kvStore hq
  | mvccApply =>
    obtain ⟨e, rest, _, rfl⟩ := mvccApply_some hq
    exact h.same rfl rfl rfl rfl rfl
  | request backend data f =>
    obtain ⟨_, hcases⟩ := request_cases hq
    have hnode : p.nodeAct (.propose data f) = some { p with node := p.node.propose data f } := rfl
    have hsound : Sound K { p with node := p.node.propose data f } := by
      apply h.nodeAct hnode
      rcases hcases with ⟨_, rfl⟩ | ⟨_, rfl⟩ <;> exact hnoted
    rcases hcases with ⟨_, rfl⟩ | ⟨_, rfl⟩
    · exact hsound
    · exact hsound.same rfl rfl rfl rfl rfl
  | handlerNext j =>
    rw [handlerNext_frame hq]
    exact h.same rfl rfl rfl rfl rfl
  | handlerTimeout j =>
    rw [handlerTimeout_some hq]
    exact h.same rfl rfl rfl rfl rfl
  | crash keep results => exact h.crash hq (hes rfl) hnoted

theorem sound_fresh (K : LogEntry → Prop) (addr : Addr) (id : NodeID) (boot : Option (List Addr))
    (cfg : SnapshotConfig) : Sound K (fresh addr id boot cfg) := by
  have hlog : (fresh addr id boot cfg).node.raft.log = [] := by
    rfl
  refine ⟨rfl, le_rfl, fun e he => ?_, fun e he => absurd he List.not_mem_nil,
    fun e he => absurd he List.not_mem_nil, fun r hr => absurd hr List.not_mem_nil,
    fun sm hsm => ?_, fun x hx => absurd hx List.not_mem_nil⟩
  · rw [hlog] at he
    cases he
  · cases hsm
    exact builtFrom_empty

end Process

/-! ### The cluster -/

namespace Deployment

variable (C : Cluster)

/-- A process is started only on a log file whose commands are all committed. -/
def startsCommitted (x : Deployment × CommitLedger) (e : Addr × ProcessAct) : Bool :=
  !e.2.isCrash || (x.1 e.1).logEntries.all fun y => !wellFormed y || decide (y ∈ x.2.commits)

/-- **INV-S1.**  What was applied, what is in the key-value file, and every snapshot
that was taken: all of it comes from committed entries, a snapshot perhaps on top
of one that was received.  At each index one entry is committed, and a majority of the
members holds it. -/
structure OnlyCommitted (x : Deployment × CommitLedger) : Prop where
  applied : ∀ a, ∀ e ∈ (x.1 a).applied, e ∈ x.2.commits
  stored : ∀ a, ∀ r ∈ (x.1 a).kv, ∃ e, e ∈ x.2.commits ∧ r ∈ kvRecords e
  captured : ∀ a, ∀ y ∈ (x.1 a).node.held, BuiltFrom (· ∈ x.2.commits) (x.1 a).restored y.2
  unique : ∀ e ∈ x.2.commits, ∀ e' ∈ x.2.commits, e.index = e'.index → e = e'
  held : ∀ e ∈ x.2.commits, ∃ A, C.quorums.isQuorum A ∧
    ∀ b ∈ A, e ∈ historyOf (x.1.nodes, x.2.past) b

variable {C}

theorem sound_step {x x' : Deployment × CommitLedger} {s' : Abs} {e : Addr × ProcessAct}
    (h : ∀ a, (x.1 a).Sound (· ∈ x.2.commits)) (h' : Ledgered C x' s')
    (hs : Deployment.record C x e = some x') (hok : startsCommitted x e = true) :
    ∀ a, (x'.1 a).Sound (· ∈ x'.2.commits) := by
  obtain ⟨D', hD', rfl⟩ := Option.map_eq_some_iff.mp hs
  obtain ⟨p, _, _, hp, rfl⟩ := step_cases (show _ = some D' from hD')
  have hmono : ∀ y ∈ x.2.commits, y ∈ (x.2.follow C x.1 e).commits := CommitLedger.subset_follow
  intro b
  have hseen := h'.seen b
  dsimp only at hseen ⊢
  rcases eq_or_ne b e.1 with rfl | hne
  · rw [Function.update_self] at hseen ⊢
    refine ((h e.1).mono hmono).step hp hseen fun hcrash y hy hwf => hmono y ?_
    simp only [startsCommitted, hcrash, Bool.not_true, Bool.false_or, List.all_eq_true] at hok
    simpa [hwf] using hok y hy
  · rw [Function.update_of_ne hne]
    exact (h b).mono hmono

/-- **Only committed entries are applied.** -/
theorem only_committed_applied (C : Cluster) (cfg : Addr → SnapshotConfig)
    {x : Deployment × CommitLedger}
    (h : Runs (Deployment.record C) (fun x e => ledgerTest C x e && startsCommitted x e)
      (init C cfg, CommitLedger.empty) x) (hv : VotesOnce C x.1.nodes) : OnlyCommitted C x := by
  obtain ⟨⟨s, hl⟩, hsound⟩ := ledgered_of_runs (P := fun x => ∀ a, (x.1 a).Sound (· ∈ x.2.commits))
    h (fun x e hok => (Bool.and_eq_true_iff.mp hok).1)
    (fun a => Process.sound_fresh _ a (C.idOf a) (some (C.peersOf a)) (cfg a))
    (fun x s x' s' e _ hl' hok hs hsound =>
      sound_step hsound hl' hs (Bool.and_eq_true_iff.mp hok).2) hv
  exact ⟨fun a => (hsound a).applied, fun a => (hsound a).kv, fun a => (hsound a).held,
    fun e he e' he' => hl.unique he he', fun e he => hl.held he⟩

end Deployment

end

/-! ### A leader that crashes too early -/

namespace Deployment

section

local instance trioCodec : Codec := Codec.twoKeys

/-- Three processes that never take a snapshot. -/
def trioInit : Deployment := init trio fun _ => ⟨0, 2⟩

/-- Sections of the nodes. -/
def onNodes (l : List (Addr × Act)) : List (Addr × ProcessAct) := l.map fun x => (x.1, .node x.2)

/-- `a` wins `term` with the vote of `v`, both with empty logs. -/
def electWith (a : Addr) (term : Int) (v : Addr) : List (Addr × ProcessAct) :=
  onNodes (campaign a ++ [requestVote a 0 term v, (a, .voteResult v (some (term, true))),
    (a, .dispatch), (a, .enterLeader)])

/-- `a` sends its entry of `term` to `v`, which takes it, and commits it. -/
def commitWith (a : Addr) (term : Int) (v : Addr) (e : LogEntry) : List (Addr × ProcessAct) :=
  onNodes [(a, .tick), (a, .build), (a, .readConfig),
    appendEntries a 1 v ⟨term, a, 0, 0, [e.toPb], 0⟩, acked a term v]

/-- Term `1` sets `a`, term `2` sets `b`. -/
def entryB : LogEntry := ⟨1, 2, entryTypeCommand, goString setB⟩

/-- `a` leads term 1, appends an entry and crashes before it has sent it.  Then `b`
leads term 2 and commits another one. -/
def crashedLeaderRun : List (Addr × ProcessAct) :=
  electWith "a" 1 "b" ++ [("a", .request .kv entryA.data .none), ("a", .crash 0 fun _ => .ok)] ++
    electWith "b" 2 "c" ++ [("b", .request .kv entryB.data .none)] ++ commitWith "b" 2 "c" entryB

/-- **An uncommitted entry is applied.**  It is in the map and in the key-value file of
`a`, while another entry is committed at its index. -/
theorem uncommitted_entry_applied :
    ∃ x, Runs (Deployment.record trio) (fun x e => ledgerTest trio x e)
        (trioInit, CommitLedger.empty) x ∧
      VotesOnce trio x.1.nodes ∧ entryA ∈ (x.1 "a").applied ∧
      KvRecord.set "a" "1" 1 ∈ (x.1 "a").kv ∧ entryA ∉ x.2.commits ∧ entryB ∈ x.2.commits ∧
      entryA.index = entryB.index :=
  Runs.exists_of_exec crashedLeaderRun (by decide +kernel)

/-- `a` commits its entry, applies it, and crashes then; the key-value file is lost. -/
def committedLeaderRun : List (Addr × ProcessAct) :=
  electWith "a" 1 "b" ++ [("a", .request .kv entryA.data .none)] ++ commitWith "a" 1 "b" entryA ++
    onNodes [("a", .collect), ("a", .emit)] ++
    [("a", .fanKv), ("a", .kvWrite .ok), ("a", .kvStore), ("a", .crash 0 fun _ => .ok)]

theorem only_committed_applied_restarted :
    ∃ x, Runs (Deployment.record trio) (fun x e => ledgerTest trio x e && startsCommitted x e)
        (trioInit, CommitLedger.empty) x ∧
      (VotesOnce trio x.1.nodes ∧ (x.1 "a").applied = [entryA, entryA] ∧ x.2.commits = [entryA]) ∧
      OnlyCommitted trio x :=
  Runs.exists_and_of_exec committedLeaderRun (by decide +kernel) fun _ hrun hend =>
    only_committed_applied trio (fun _ => ⟨0, 2⟩) hrun hend.1

end

end Deployment

end Raft
