/-
CoreX/Raft/Retained.lean

What a node has acknowledged, it can serve.  A 204 says that the client's entry is
among those the state machine has applied (`acknowledged_write_is_own`), and the map
is that of the log up to the index it has come to (`applied_state_forward`).  It
remains to see that the machine never falls back behind an entry it has applied.
-/
import CoreX.Raft.Acknowledged
import CoreX.Raft.Applied

namespace Raft

section

variable [Codec] {C : CommittedLog}

/-! ### The log -/

omit [Codec] in
theorem CommittedLog.has_of_mem {e : LogEntry} (h : e ∈ C.entries) : C.Has e := by
  obtain ⟨n, hn⟩ := List.getElem?_of_mem h
  have hidx := C.index_eq n e hn
  refine ⟨by omega, ?_⟩
  rwa [show e.index.toNat - 1 = n by omega]

theorem CommittedLog.mapAt_of_last {e : LogEntry} {i : Int} {k : String} {v : Option String}
    (he : C.Has e) (hop : kvOp e = some (k, v)) (hle : e.index ≤ i)
    (hlast : ∀ x ∈ C.entries, e.index < x.index → x.index ≤ i → Replay.Spares kvOp k x) :
    C.mapAt i k = v := by
  have hpos := he.1
  refine Replay.stateAt_of_last he.2 hop (by omega) fun m x hlo hhi hx => ?_
  have hidx := C.index_eq m x hx
  exact hlast x (List.mem_of_getElem? hx) (by omega) (by omega)

/-! ### Startup -/

theorem KVStateMachine.lastApplied_apply (sm : KVStateMachine) (e : LogEntry) (r : StoreResult) :
    (sm.apply e (writeFails e r)).lastApplied =
      if wellFormed e && !writeFails e r then e.index else sm.lastApplied := by
  cases hfail : writeFails e r with
  | false =>
    rw [KVStateMachine.apply_eq, Bool.not_false, Bool.and_true]
  | true =>
    have hop : (kvOp e).isSome = true := by
      cases r with
      | ok => cases hfail
      | failed n => exact hfail
    rw [KVStateMachine.apply_failed hop, Bool.not_true, Bool.and_false]
    rfl

/-- What startup has applied is the log's, and not beyond where it has come to. -/
def Recovery.Within (C : CommittedLog) (x : Recovery) : Prop :=
  ∀ e ∈ x.applied, C.Has e ∧ e.index ≤ x.sm.lastApplied

theorem Recovery.Within.begin {sm : KVStateMachine} {kv : List KvRecord}
    {entries : List LogEntry} {lo : Nat}
    (hpiece : settled kv entries = (C.entries.take (recoverKV kv).toNat).drop lo) :
    (Recovery.begin sm kv entries).Within C := by
  intro e he
  obtain ⟨he, _⟩ := List.mem_filter.mp he
  rw [hpiece] at he
  obtain ⟨n, hn⟩ := List.getElem?_of_mem (List.mem_of_mem_drop he)
  rw [List.getElem?_take] at hn
  split at hn
  · next hlt =>
    have hidx := C.index_eq n e hn
    refine ⟨CommittedLog.has_of_mem (List.mem_of_getElem? hn), ?_⟩
    show e.index ≤ recoverKV kv
    omega
  · cases hn

theorem Recovery.Within.foldl {results : LogEntry → StoreResult} (es : List LogEntry)
    {x : Recovery} (h : x.Within C) (hok : C.inOrderAll results x.sm.lastApplied es = true) :
    (es.foldl (Recovery.applyDirect results) x).Within C := by
  induction es generalizing x with
  | nil => exact h
  | cons e es ih =>
    rw [List.foldl_cons]
    rw [CommittedLog.inOrderAll] at hok
    by_cases hle : e.index ≤ x.sm.lastApplied
    · -- the entry is passed over
      rw [if_pos hle] at hok
      rw [Recovery.applyDirect, if_pos hle]
      exact ih h hok
    · rw [if_neg hle, Bool.and_eq_true] at hok
      obtain ⟨horder, hrest⟩ := hok
      rw [CommittedLog.inOrder, Bool.and_eq_true, decide_eq_true_eq] at horder
      rw [← x.sm.lastApplied_apply e (results e)] at hrest
      rw [Recovery.applyDirect, if_neg hle]
      refine ih ?_ hrest
      intro e' he'
      rw [x.sm.lastApplied_apply e (results e)]
      split at he'
      · next hc =>
        rw [if_pos hc]
        rcases List.mem_append.mp he' with he' | he'
        · obtain ⟨hhas, hle'⟩ := h e' he'
          exact ⟨hhas, by omega⟩
        · rw [List.mem_singleton.mp he']
          exact ⟨horder.1, le_rfl⟩
      · next hc =>
        rw [if_neg hc]
        exact h e' he'

end

/-! ### The process -/

namespace Process

section

variable [Codec] {C : CommittedLog} {p p' : Process}

/-- Startup finds at least as much as the map had come to. -/
def retains (p : Process) (keep : Nat) (results : LogEntry → StoreResult) : Bool :=
  (p.recovery keep results).all fun x => decide (p.reached ≤ x.sm.lastApplied)

/-- Nobody is woken by another's entry: no section of the node changes an entry that
somebody waits for and `runApplyLoop` has not collected. -/
def keepsEntries (p : Process) (a : ProcessAct) : Bool :=
  p.wakesOwners a && match a with
    | .node act => (p.node.step act).all fun s => p.writes.all fun w =>
        decide (w.entry.index ≤ p.node.raft.lastApplied) ||
          decide (s.raft.entryAt w.entry.index = p.node.raft.entryAt w.entry.index)
    | _ => true

theorem keepsAwaited_of_keepsEntries {act : Act} (h : p.keepsEntries (.node act) = true) :
    p.KeepsAwaited act := by
  intro s hs w hw hlt hat
  simp only [keepsEntries, hs, Option.all_some, Bool.and_eq_true, List.all_eq_true,
    Bool.or_eq_true, decide_eq_true_eq] at h
  rw [(h.2 w hw).resolve_left (Int.not_le.mpr hlt), hat]

/-- Nobody is woken by another's entry, the state machine only goes forward, and
startup finds what was applied. -/
def lasting (C : CommittedLog) (p : Process) (a : ProcessAct) : Prop :=
  p.keepsEntries a = true ∧ p.forward C a ∧
    ∀ keep results, a = .crash keep results → p.retains keep results = true

/-- `lasting` as a test, for runs in which no snapshot is installed. -/
def lastingAlone (C : CommittedLog) (p : Process) (a : ProcessAct) : Bool :=
  p.keepsEntries a && p.forwardAlone C a &&
    match a with
    | .crash keep results => p.retains keep results
    | _ => true

theorem lasting_of_alone {a : ProcessAct} (h : p.lastingAlone C a = true) : p.lasting C a := by
  unfold lastingAlone at h
  simp only [Bool.and_eq_true] at h
  obtain ⟨⟨hown, hforward⟩, hret⟩ := h
  refine ⟨hown, forward_of_alone hforward, ?_⟩
  rintro keep results rfl
  exact hret

/-- Every applied entry is the log's and at or below the index the map has come to. -/
def Kept (C : CommittedLog) (p : Process) : Prop :=
  ∀ e ∈ p.applied, C.Has e ∧ e.index ≤ p.reached

omit [Codec] in
theorem reached_mono (hst : p'.storing = p.storing) (hle : p.kvApplied ≤ p'.kvApplied) :
    p.reached ≤ p'.reached := by
  rcases hs : p.storing with - | e
  · rwa [reached_of_none hs, reached_of_none (hst.trans hs)]
  · rw [reached_of_some hs, reached_of_some (hst.trans hs)]

namespace Kept

omit [Codec] in
theorem frame (h : Kept C p) (happlied : p'.applied = p.applied) (hst : p'.storing = p.storing)
    (hle : p.kvApplied ≤ p'.kvApplied) : Kept C p' := by
  intro e he
  rw [happlied] at he
  obtain ⟨hhas, hreach⟩ := h e he
  exact ⟨hhas, hreach.trans (reached_mono hst hle)⟩

theorem kvWrite (h : Kept C p) (hle : p.kvApplied ≤ p'.kvApplied) {r : StoreResult}
    (hok : p.forward C (.kvWrite r)) (hs : p.kvWrite r = some p') : Kept C p' := by
  obtain ⟨e, rest, hst, hch, hp'⟩ := kvWrite_cases hs
  rcases hp' with ⟨_, rfl⟩ | ⟨_, rfl⟩ | ⟨hwf, hfail, rfl⟩
  · exact h.frame rfl rfl hle
  · exact h.frame rfl rfl hle
  · unfold forward at hok
    simp only [hch, CommittedLog.inOrder, hwf, hfail, Bool.not_true, Bool.false_or,
      Bool.and_eq_true, decide_eq_true_eq] at hok
    obtain ⟨hhas, hlt, _⟩ := hok
    intro e' he'
    show C.Has e' ∧ e'.index ≤ e.index
    rcases List.mem_append.mp he' with he' | he'
    · obtain ⟨hhas', hreach⟩ := h e' he'
      rw [reached_of_none hst] at hreach
      exact ⟨hhas', by omega⟩
    · rw [List.mem_singleton.mp he']
      exact ⟨hhas, le_rfl⟩

theorem kvStore (h : Kept C p) (hex : Exact C p) (hs : p.kvStore = some p') : Kept C p' := by
  obtain ⟨e, hst, rfl⟩ := kvStore_some hs
  obtain ⟨sm, hsm, _⟩ := hex.machine
  intro e' he'
  obtain ⟨hhas, hreach⟩ := h e' he'
  rw [reached_of_some hst] at hreach
  refine ⟨hhas, ?_⟩
  rw [reached_of_none rfl, kvApplied_of_sm (sm_kvStored hsm e)]
  exact hreach

theorem crash (h : Kept C p) {keep : Nat} {results : LogEntry → StoreResult}
    (hok : p.recoverable C keep results = true) (hret : p.retains keep results = true)
    (hs : p.crash keep results = some p') : Kept C p' := by
  obtain ⟨x, hx, rfl⟩ := Option.map_eq_some_iff.mp hs
  rw [retains, hx, Option.all_some, decide_eq_true_eq] at hret
  simp only [recoverable, Bool.and_eq_true, decide_eq_true_eq, List.any_eq_true,
    List.mem_range] at hok
  obtain ⟨⟨_, lo, _, hpiece⟩, hgap⟩ := hok
  have hwithin : x.Within C := by
    simp only [recovery, startup] at hx
    split at hx
    · cases hx
    · split at hx
      · cases hx
        exact (Recovery.Within.begin hpiece).foldl _ hgap
      · cases hx
        exact Recovery.Within.begin hpiece
  intro e he
  rcases List.mem_append.mp he with he | he
  · obtain ⟨hhas, hreach⟩ := h e he
    exact ⟨hhas, hreach.trans hret⟩
  · exact hwithin e he

theorem step (h : Kept C p) (hex : Exact C p) {a : ProcessAct} (hok : p.lasting C a)
    (hs : p.step a = some p') : Kept C p' := by
  obtain ⟨_, hforward, hret⟩ := hok
  obtain ⟨_, hle⟩ := hex.step hforward hs
  obtain ⟨q, hq, rfl⟩ := Option.map_eq_some_iff.mp hs
  show Kept C q
  cases a with
  | node act =>
    obtain ⟨s, _, _, _, hp⟩ := nodeAct_cases hq
    have hle' : p.kvApplied ≤ q.kvApplied := hle rfl
    rcases hp with ⟨_, rfl⟩ | ⟨_, _, _, rfl⟩ <;> exact h.frame rfl rfl hle'
  | fanKv =>
    obtain ⟨e, _, _, rfl⟩ := fanKv_some hq
    exact h.frame rfl rfl le_rfl
  | fanMvcc =>
    obtain ⟨e, _, rfl⟩ := fanMvcc_some hq
    exact h.frame rfl rfl le_rfl
  | kvWrite r => exact h.kvWrite (hle rfl) hforward hq
  | kvStore => exact h.kvStore hex hq
  | mvccApply =>
    obtain ⟨e, rest, _, rfl⟩ := mvccApply_some hq
    exact h.frame rfl rfl le_rfl
  | request backend data f =>
    have hle' : p.kvApplied ≤ q.kvApplied := hle rfl
    obtain ⟨_, ⟨_, rfl⟩ | ⟨_, rfl⟩⟩ := request_cases hq <;> exact h.frame rfl rfl hle'
  | handlerNext j =>
    rw [handlerNext_frame hq]
    exact h.frame rfl rfl le_rfl
  | handlerTimeout j =>
    rw [handlerTimeout_some hq]
    exact h.frame rfl rfl le_rfl
  | crash keep results => exact h.crash hforward (hret keep results rfl) hq

end Kept

/-! ### What an acknowledged write leaves -/

/-- A process whose answers can be relied on. -/
structure Reliable (C : CommittedLog) (p : Process) : Prop where
  ack : AckInv p
  noted : Noted p
  exact : Exact C p
  kept : Kept C p

theorem Reliable.step (h : Reliable C p) {a : ProcessAct} (hok : p.lasting C a)
    (hs : p.step a = some p') : Reliable C p' := by
  obtain ⟨hack, hnoted⟩ := AckInv.step ⟨h.ack, h.noted⟩ (Bool.and_eq_true_iff.mp hok.1).1
    (by rintro act rfl; exact keepsAwaited_of_keepsEntries hok.1) hs
  exact ⟨hack, hnoted, (h.exact.step hok.2.1 hs).1, h.kept.step h.exact hok hs⟩

theorem reliable_fresh (C : CommittedLog) (addr : Addr) (id : NodeID)
    (boot : Option (List Addr)) (cfg : SnapshotConfig) : Reliable C (fresh addr id boot cfg) where
  ack := (ackInv_fresh addr id boot cfg).1
  noted := (ackInv_fresh addr id boot cfg).2
  exact := exact_fresh C addr id boot cfg
  kept := fun _ he => absurd he List.not_mem_nil

theorem Reliable.served (h : Reliable C p) {w : Write} (hw : w ∈ p.answered)
    (hb : w.backend = .kv) {k : String} {v : Option String} (hop : kvOp w.entry = some (k, v))
    (hlast : ∀ x ∈ C.entries, w.entry.index < x.index → x.index ≤ p.reached →
      Replay.Spares kvOp k x) : p.kvData k = v := by
  have happlied : w.entry ∈ p.appliedOf w.backend := (h.ack.answered w hw).2
  rw [hb] at happlied
  obtain ⟨hhas, hreach⟩ := h.kept w.entry happlied
  rw [h.exact.data]
  exact CommittedLog.mapAt_of_last hhas hop hreach hlast

end

end Process

end Raft
