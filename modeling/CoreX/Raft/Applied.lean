/-
CoreX/Raft/Applied.lean

The map of the key-value state machine against the log.  `CommittedLog` is the log
as it should be; the map is right if it is that of the first `lastApplied` entries.

Three things can break this.  `apply` takes whatever the channel holds, also an
entry that the machine is already past: after a restart `runApplyLoop` starts at
`1` again (`applied_state_goes_back`).  `RestoreSnapshot` jumps, in either
direction, also between the two halves of an `apply`.  And startup sets
`lastApplied` to the checkpoint of the key-value file even if the snapshot is
newer, and replays old entries over it (`stale_checkpoint_recovered`).

`Process.forward` is what must not happen; in every other run the map is right
(`applied_state_forward`), also after startup (`startup_rebuilds_state`).
-/
import CoreX.Raft.Delivery
import CoreX.Raft.Process

namespace Raft

open StepSystem

/-! ### The log and its maps -/

namespace CommittedLog

variable (C : CommittedLog)

/-- The entry stands in the log. -/
def Has (e : LogEntry) : Prop := 0 < e.index ∧ C.entries[e.index.toNat - 1]? = some e

instance (e : LogEntry) : Decidable (C.Has e) := by
  unfold Has
  infer_instance

variable [Codec]

/-- The map after the entries up to an index. -/
def mapAt (i : Int) : String → Option String := Replay.stateAt kvOp C.entries i.toNat

/-- The entries strictly between two indices neither set nor delete. -/
def inert (lo hi : Int) : Bool :=
  ((C.entries.take (hi.toNat - 1)).drop lo.toNat).all fun e => (kvOp e).isNone

/-- The entry is the log's; and if `apply` is going to move `lastApplied`, then
forward, and past nothing that counts. -/
def inOrder (lastApplied : Int) (e : LogEntry) (r : StoreResult) : Bool :=
  decide (C.Has e) && (!wellFormed e || writeFails e r ||
    decide (lastApplied < e.index) && C.inert lastApplied e.index)

/-- The same along a replay with `ApplyDirect`. -/
def inOrderAll (results : LogEntry → StoreResult) : Int → List LogEntry → Bool
  | _, [] => true
  | lastApplied, e :: es =>
      if e.index ≤ lastApplied then inOrderAll results lastApplied es
      else C.inOrder lastApplied e (results e) &&
        inOrderAll results
          (if wellFormed e && !writeFails e (results e) then e.index else lastApplied) es

variable {C} {e : LogEntry} {i : Int}

theorem mapAt_advance (he : C.Has e) (hlt : i < e.index)
    (hinert : C.inert i e.index = true) : Replay.act kvOp (C.mapAt i) e = C.mapAt e.index := by
  obtain ⟨hpos, hget⟩ := he
  have hnum : e.index.toNat = (e.index.toNat - 1) + 1 := by omega
  have hskip : Replay.stateAt kvOp C.entries (e.index.toNat - 1) =
      Replay.stateAt kvOp C.entries i.toNat := by
    apply Replay.stateAt_skip (by omega)
    intro n x hn hlt' hx
    have hmem : x ∈ (C.entries.take (e.index.toNat - 1)).drop i.toNat := by
      apply List.mem_of_getElem? (i := n - i.toNat)
      rw [List.getElem?_drop, Nat.add_sub_cancel' hn, List.getElem?_take_of_lt hlt', hx]
    exact Option.isNone_iff_eq_none.mp (List.all_eq_true.mp hinert x hmem)
  show _ = Replay.stateAt kvOp C.entries e.index.toNat
  rw [hnum, Replay.stateAt_succ hget, hskip, mapAt]

end CommittedLog

/-! ### Startup -/

section

variable [Codec] {C : CommittedLog}

/-- The machine is right: its map is that of its index. -/
def KVStateMachine.At (C : CommittedLog) (sm : KVStateMachine) : Prop :=
  0 ≤ sm.lastApplied ∧ sm.data = C.mapAt sm.lastApplied

theorem KVStateMachine.At.apply {sm : KVStateMachine} {e : LogEntry} {r : StoreResult}
    (h : sm.At C) (hok : C.inOrder sm.lastApplied e r = true) :
    (sm.apply e (writeFails e r)).At C ∧
      (sm.apply e (writeFails e r)).lastApplied =
        (if wellFormed e && !writeFails e r then e.index else sm.lastApplied) ∧
      sm.lastApplied ≤ (sm.apply e (writeFails e r)).lastApplied := by
  simp only [CommittedLog.inOrder, Bool.and_eq_true, decide_eq_true_eq, Bool.or_eq_true,
    Bool.not_eq_true'] at hok
  obtain ⟨hhas, hok⟩ := hok
  by_cases hfail : writeFails e r = true
  · -- a failed write
    have hop : (kvOp e).isSome = true := by
      cases r with
      | ok => cases hfail
      | failed k => exact hfail
    rw [hfail, KVStateMachine.apply_failed hop]
    simp only [Bool.not_true, Bool.and_false, Bool.false_eq_true, if_false]
    exact ⟨h, trivial, le_rfl⟩
  rw [Bool.not_eq_true] at hfail
  rw [hfail, KVStateMachine.apply_eq]
  by_cases hwf : wellFormed e = true
  · -- the entry moves the machine to its index
    have hord : sm.lastApplied < e.index ∧ C.inert sm.lastApplied e.index = true := by
      rcases hok with (hwf' | hfail') | hord
      · rw [hwf] at hwf'
        cases hwf'
      · rw [hfail] at hfail'
        cases hfail'
      · exact hord
    have hadv := CommittedLog.mapAt_advance hhas hord.1 hord.2
    simp only [hwf, Bool.not_false, Bool.and_true, if_true]
    refine ⟨⟨hhas.1.le, ?_⟩, trivial, hord.1.le⟩
    rw [h.2]
    exact hadv
  · -- a malformed entry
    have hop : kvOp e = none := by
      by_contra hne
      exact hwf (wellFormed_of_kvOp (Option.isSome_iff_ne_none.mpr hne))
    simp only [hwf, Bool.false_and, Bool.false_eq_true, if_false, Replay.act_of_none hop]
    exact ⟨h, trivial, le_rfl⟩

theorem Recovery.foldl_applyDirect {results : LogEntry → StoreResult} (es : List LogEntry)
    {x : Recovery} (h : x.sm.At C) (hok : C.inOrderAll results x.sm.lastApplied es = true) :
    (es.foldl (Recovery.applyDirect results) x).sm.At C ∧
      x.sm.lastApplied ≤ (es.foldl (Recovery.applyDirect results) x).sm.lastApplied := by
  induction es generalizing x with
  | nil => exact ⟨h, le_rfl⟩
  | cons e es ih =>
    show (es.foldl _ (x.applyDirect results e)).sm.At C ∧
      _ ≤ (es.foldl _ (x.applyDirect results e)).sm.lastApplied
    unfold CommittedLog.inOrderAll at hok
    by_cases hle : e.index ≤ x.sm.lastApplied
    · -- INV-3: already applied
      rw [if_pos hle] at hok
      rw [Recovery.applyDirect, if_pos hle]
      exact ih h hok
    · rw [if_neg hle, Bool.and_eq_true] at hok
      obtain ⟨hat, hla, hmono⟩ := h.apply hok.1
      rw [Recovery.applyDirect, if_neg hle]
      obtain ⟨hat', hmono'⟩ := ih (x := ⟨x.sm.apply e (writeFails e (results e)), _, _⟩) hat
        (hla ▸ hok.2)
      exact ⟨hat', hmono.trans hmono'⟩

theorem startup_at {sm : KVStateMachine} {S : Int} {entries : List LogEntry}
    {kv : List KvRecord} {results : LogEntry → StoreResult} {x : Recovery} {lo : Nat}
    (hs : startup sm S entries kv results = some x) (hS : 0 ≤ S) (hsm : sm.data = C.mapAt S)
    (hcheck : S ≤ recoverKV kv) (hlo : lo ≤ S.toNat)
    (hpiece : settled kv entries = (C.entries.take (recoverKV kv).toNat).drop lo)
    (hgap : C.inOrderAll results (recoverKV kv) (gap kv entries) = true) :
    x.sm.At C ∧ S ≤ x.sm.lastApplied := by
  have hbegin : (Recovery.begin sm kv entries).sm.At C := by
    refine ⟨hS.trans hcheck, ?_⟩
    show Replay.run kvOp sm.data (settled kv entries) = C.mapAt (recoverKV kv)
    rw [hpiece, hsm]
    exact Replay.run_piece hlo (by omega)
  simp only [startup] at hs
  split at hs
  · cases hs
  · split at hs
    · cases hs
      obtain ⟨hat, hle⟩ := Recovery.foldl_applyDirect (gap kv entries) hbegin hgap
      exact ⟨hat, hcheck.trans hle⟩
    · cases hs
      exact ⟨hbegin, hcheck⟩

end

/-! ### What must not happen -/

namespace Process

section

variable [Codec] (C : CommittedLog) (p : Process)

/-- The map of the key-value state machine. -/
def kvData : String → Option String :=
  match p.node.raft.sm with
  | some sm => sm.data
  | none => fun _ => none

/-- The index the map has come to; inside an `apply` it is ahead of `lastApplied`. -/
def reached : Int :=
  match p.storing with
  | some e => e.index
  | none => p.kvApplied

/-- Startup finds a checkpoint that is not behind the newest snapshot; the entries
of the log file up to the checkpoint are those of the log from some index on that
the snapshot covers, and the rest can be applied in order. -/
def recoverable (keep : Nat) (results : LogEntry → StoreResult) : Bool :=
  let kv := p.kv.take keep
  decide (p.node.raft.stored.index ≤ recoverKV kv) &&
    ((List.range (p.node.raft.stored.index.toNat + 1)).any fun lo =>
      decide (settled kv p.logEntries = (C.entries.take (recoverKV kv).toNat).drop lo)) &&
    C.inOrderAll results (recoverKV kv) (gap kv p.logEntries)

/-- The state machine only goes forward: entries are applied in order; a snapshot is
restored only if it is the map of its index and not behind, and neither restored
nor taken in the middle of an `apply`; startup finds what it needs. -/
def forward : ProcessAct → Prop
  | .node act =>
      match p.restoring act with
      | some (args, data) => p.storing = none ∧ p.kvApplied ≤ args.lastIncludedIndex ∧
          data.kv = C.mapAt args.lastIncludedIndex
      | none => act = .snapTake → p.storing = none
  | .kvWrite r =>
      match p.kvCh with
      | e :: _ => C.inOrder p.kvApplied e r = true
      | [] => True
  | .crash keep results => p.recoverable C keep results = true
  | _ => True

/-! ### The invariant -/

variable {C p} {p' : Process}

/-- The map is that of the index it has come to, and every snapshot the node holds is
that of its own. -/
structure Exact (C : CommittedLog) (p : Process) : Prop where
  machine : ∃ sm, p.node.raft.sm = some sm ∧ 0 ≤ sm.lastApplied ∧
    sm.lastApplied ≤ p.reached ∧ sm.data = C.mapAt p.reached
  held : ∀ x ∈ p.node.held, 0 ≤ x.1 ∧ x.2 = C.mapAt x.1
  reader : p.node.consumed ≤ p.node.emitted.length

/-- The invariant is kept and `lastApplied` has not gone back. -/
def Progress (C : CommittedLog) (p p' : Process) : Prop := Exact C p' ∧ p.kvApplied ≤ p'.kvApplied

omit [Codec] in
theorem kvApplied_of_sm {sm : KVStateMachine} (h : p.node.raft.sm = some sm) :
    p.kvApplied = sm.lastApplied := by
  rw [kvApplied, h]
  rfl

omit [Codec] in
theorem reached_of_none (h : p.storing = none) : p.reached = p.kvApplied := by
  rw [reached, h]

omit [Codec] in
theorem reached_of_some {e : LogEntry} (h : p.storing = some e) : p.reached = e.index := by
  rw [reached, h]

omit [Codec] in
theorem sm_kvStored {sm : KVStateMachine} (h : p.node.raft.sm = some sm) (e : LogEntry) :
    (({ p.mapSM fun sm => { sm with lastApplied := e.index } with
      storing := none }.wake .kv fun i => i = e.index) : Process).node.raft.sm =
        some ⟨sm.data, e.index⟩ := by
  show p.node.raft.sm.map _ = _
  rw [h]
  rfl

namespace Exact

theorem frame (h : Exact C p) (hsm : p'.node.raft.sm = p.node.raft.sm)
    (hst : p'.storing = p.storing)
    (hh : ∀ x ∈ p'.node.held, x ∈ p.node.held ∨ 0 ≤ x.1 ∧ x.2 = C.mapAt x.1)
    (hc : p'.node.consumed ≤ p'.node.emitted.length) : Progress C p p' := by
  have hla : p'.kvApplied = p.kvApplied := by rw [kvApplied, kvApplied, hsm]
  have hreach : p'.reached = p.reached := by rw [reached, reached, hst, hla]
  refine ⟨⟨?_, ?_, hc⟩, hla.ge⟩
  · rw [hsm, hreach]
    exact h.machine
  · intro x hx
    rcases hh x hx with hx | hx
    · exact h.held x hx
    · exact hx

theorem same (h : Exact C p) (hn : p'.node = p.node) (hst : p'.storing = p.storing) :
    Progress C p p' :=
  h.frame (by rw [hn]) hst (fun x hx => .inl (hn ▸ hx)) (by rw [hn]; exact h.reader)

theorem advance (h : Exact C p) (sm : KVStateMachine) (hsm : p'.node.raft.sm = some sm)
    (hla : p.kvApplied ≤ sm.lastApplied) (hreach : sm.lastApplied ≤ p'.reached)
    (hdata : sm.data = C.mapAt p'.reached)
    (hh : ∀ x ∈ p'.node.held, x ∈ p.node.held ∨ 0 ≤ x.1 ∧ x.2 = C.mapAt x.1)
    (hc : p'.node.consumed ≤ p'.node.emitted.length) : Progress C p p' := by
  obtain ⟨sm₀, hsm₀, hpos, _⟩ := h.machine
  rw [kvApplied_of_sm hsm₀] at hla
  refine ⟨⟨⟨sm, hsm, hpos.trans hla, hreach, hdata⟩, ?_, hc⟩, ?_⟩
  · intro x hx
    rcases hh x hx with hx | hx
    · exact h.held x hx
    · exact hx
  · rw [kvApplied_of_sm hsm₀, kvApplied_of_sm hsm]
    exact hla

theorem at_of_none (h : Exact C p) (hst : p.storing = none) :
    ∃ sm, p.node.raft.sm = some sm ∧ sm.At C := by
  obtain ⟨sm, hsm, hpos, _, hdata⟩ := h.machine
  refine ⟨sm, hsm, hpos, ?_⟩
  rw [hdata, reached_of_none hst, kvApplied_of_sm hsm]

/-! ### One step of each kind -/

theorem nodeAct (h : Exact C p) {act : Act} (hok : p.forward C (.node act))
    (hs : p.nodeAct act = some p') : Progress C p p' := by
  obtain ⟨s, hstep, happly, hrestart, hp'⟩ := nodeAct_cases hs
  have hsec := Node.step_section hstep
  have hnode : p'.node = s ∧ p'.storing = p.storing := by
    rcases hp' with ⟨_, rfl⟩ | ⟨_, _, _, rfl⟩ <;> exact ⟨rfl, rfl⟩
  obtain ⟨rfl, hst⟩ := hnode
  have hc := Node.consumed_le hsec h.reader
  obtain ⟨sm₀, hsm₀, _⟩ := h.machine
  cases Node.machine_step hsec (by rw [hsm₀]; rfl) h.reader happly hrestart with
  | keep hsm hq hla hh => exact h.frame hsm hst (fun x hx => .inl (hh x hx)) hc
  | collect hact hempty hs' =>
    have hsame : p'.node.raft.sm = p.node.raft.sm ∧ p'.node.held = p.node.held := by
      rw [hs']
      unfold RaftNode.collectApply
      split <;> exact ⟨rfl, rfl⟩
    exact h.frame hsame.1 hst (fun x hx => .inl (hsame.2 ▸ hx)) hc
  | take sm hact hsm hr hq hh =>
    -- the map is taken between two entries
    subst hact
    have hnone : p.storing = none := hok rfl
    obtain ⟨sm', hsm', hat⟩ := h.at_of_none hnone
    obtain rfl : sm = sm' := Option.some.inj (hsm.symm.trans hsm')
    refine h.frame (by rw [hr]) hst (fun x hx => ?_) hc
    rcases hh x hx with rfl | hx
    · exact .inr hat
    · exact .inl hx
  | restore i t data hact ht hp hr hq hh =>
    subst hact
    have hres := restoring_of_phase ht hp
    unfold forward at hok
    simp only [hres] at hok
    obtain ⟨hnone, hle, hdata⟩ := hok
    have hsm' : p'.node.raft.sm = some ⟨data.kv, t.args.lastIncludedIndex⟩ := by
      rw [hr, RaftNode.installRestore, hsm₀]
      rfl
    have hreach : p'.reached = t.args.lastIncludedIndex := by
      rw [reached_of_none (hst.trans hnone), kvApplied_of_sm hsm']
    refine h.advance _ hsm' hle hreach.ge (by rw [hreach]; exact hdata) (fun x hx => ?_) hc
    rcases hh x hx with rfl | hx
    · refine .inr ⟨?_, hdata⟩
      have hpos : 0 ≤ p.kvApplied := by
        obtain ⟨sm, hsm, hpos, _⟩ := h.machine
        rw [kvApplied_of_sm hsm]
        exact hpos
      exact hpos.trans hle
    · exact .inl hx

theorem kvWrite (h : Exact C p) {r : StoreResult} (hok : p.forward C (.kvWrite r))
    (hs : p.kvWrite r = some p') : Progress C p p' := by
  obtain ⟨e, rest, hst, hch, hp'⟩ := kvWrite_cases hs
  rcases hp' with ⟨_, rfl⟩ | ⟨_, rfl⟩ | ⟨hwf, hfail, rfl⟩
  · exact h.same rfl rfl
  · exact h.same rfl rfl
  · unfold forward at hok
    simp only [hch, CommittedLog.inOrder, hwf, hfail, Bool.not_true, Bool.false_or,
      Bool.and_eq_true, decide_eq_true_eq] at hok
    obtain ⟨hhas, hlt, hinert⟩ := hok
    obtain ⟨sm, hsm, hat⟩ := h.at_of_none hst
    rw [kvApplied_of_sm hsm] at hlt hinert
    refine h.advance ⟨Replay.act kvOp sm.data e, sm.lastApplied⟩ ?_ ?_ ?_ ?_
      (fun x hx => .inl hx) h.reader
    · show p.node.raft.sm.map _ = _
      rw [hsm]
      rfl
    · rw [kvApplied_of_sm hsm]
    · exact hlt.le
    · show Replay.act kvOp sm.data e = C.mapAt e.index
      rw [hat.2]
      exact CommittedLog.mapAt_advance hhas hlt hinert

theorem kvStore (h : Exact C p) (hs : p.kvStore = some p') : Progress C p p' := by
  obtain ⟨e, hst, rfl⟩ := kvStore_some hs
  obtain ⟨sm, hsm, _, hle, hdata⟩ := h.machine
  rw [reached_of_some hst] at hle hdata
  have hsm' := sm_kvStored hsm e
  have hreach : (({ p.mapSM fun sm => { sm with lastApplied := e.index } with
      storing := none }.wake .kv fun i => i = e.index) : Process).reached = e.index := by
    rw [reached_of_none rfl, kvApplied_of_sm hsm']
  refine h.advance _ hsm' ?_ hreach.ge (by rw [hreach]; exact hdata) (fun x hx => .inl hx) h.reader
  rw [kvApplied_of_sm hsm]
  exact hle

theorem crash (h : Exact C p) {keep : Nat} {results : LogEntry → StoreResult}
    (hok : p.recoverable C keep results = true) (hs : p.crash keep results = some p') :
    Exact C p' ∧ p'.storing = none ∧ p.node.raft.stored.index ≤ p'.kvApplied := by
  obtain ⟨x, hx, rfl⟩ := Option.map_eq_some_iff.mp hs
  obtain ⟨sm₀, hsm₀, _⟩ := h.machine
  obtain ⟨hstore, hindex, hsm⟩ :=
    RaftNode.restart_sm (n := p.node.raft) p.node.boot (by rw [hsm₀]; rfl)
  -- the machine that startup begins with is that of the newest snapshot
  obtain ⟨sm, hsm, hS, hdata⟩ : ∃ sm, (p.node.raft.restart p.node.boot).sm = some sm ∧
      0 ≤ p.node.raft.stored.index ∧ sm.data = C.mapAt p.node.raft.stored.index := by
    rcases hsm with ⟨hsm, hzero⟩ | ⟨f, hf, hsm, heq⟩
    · exact ⟨_, hsm, hzero.ge, by rw [hzero]; rfl⟩
    · obtain ⟨hpos, hmap⟩ := h.held _ (Node.held_of_file hf)
      exact ⟨_, hsm, heq ▸ hpos, by rw [heq]; exact hmap⟩
  simp only [recoverable, Bool.and_eq_true, decide_eq_true_eq, List.any_eq_true,
    List.mem_range] at hok
  obtain ⟨⟨hcheck, lo, hlo, hpiece⟩, hgap⟩ := hok
  have hstart : startup sm p.node.raft.stored.index p.logEntries (p.kv.take keep) results =
      some x := by
    rw [← hx, recovery]
    show _ = startup ((p.node.raft.restart p.node.boot).sm.getD _)
      (p.node.raft.restart p.node.boot).snapshotIndex _ _ _
    rw [hsm, hindex]
    rfl
  obtain ⟨hat, hle⟩ := startup_at hstart hS hdata hcheck (by omega) hpiece hgap
  refine ⟨⟨⟨x.sm, rfl, hat.1, le_rfl, hat.2⟩, ?_, le_rfl⟩, rfl, hle⟩
  intro y hy
  rcases Node.mem_held.mp hy with hy | ⟨t, ht, _⟩ | ⟨f, hf, rfl⟩
  · exact absurd hy List.not_mem_nil
  · exact absurd ht List.not_mem_nil
  · refine h.held _ (Node.held_of_file ?_)
    have hf' : f ∈ (p.node.raft.restart p.node.boot).snapshotStore.getD [] := hf
    rw [hstore] at hf'
    exact hf'

theorem step (h : Exact C p) {a : ProcessAct} (hok : p.forward C a) (hs : p.step a = some p') :
    Exact C p' ∧ (a.isCrash = false → p.kvApplied ≤ p'.kvApplied) := by
  obtain ⟨q, hq, rfl⟩ := Option.map_eq_some_iff.mp hs
  have hprog : Progress C p q → Exact C q.noteCommitted ∧
      (a.isCrash = false → p.kvApplied ≤ q.noteCommitted.kvApplied) :=
    fun hprog => ⟨⟨hprog.1.machine, hprog.1.held, hprog.1.reader⟩, fun _ => hprog.2⟩
  cases a with
  | node act => exact hprog (h.nodeAct hok hq)
  | fanKv =>
    obtain ⟨e, _, he, rfl⟩ := fanKv_some hq
    exact hprog (h.frame rfl rfl (fun x hx => .inl hx) (List.getElem?_eq_some_iff.mp he).1)
  | fanMvcc =>
    obtain ⟨e, _, rfl⟩ := fanMvcc_some hq
    exact hprog (h.same rfl rfl)
  | kvWrite r => exact hprog (h.kvWrite hok hq)
  | kvStore => exact hprog (h.kvStore hq)
  | mvccApply =>
    obtain ⟨e, rest, _, rfl⟩ := mvccApply_some hq
    exact hprog (h.same rfl rfl)
  | request backend data f =>
    obtain ⟨_, hcases⟩ := request_cases hq
    have hsame := (RaftNode.logOnly_proposeEntry p.node.raft entryTypeCommand data f).sameMachine
    have hnode : q.node = p.node.propose data f ∧ q.storing = p.storing := by
      rcases hcases with ⟨_, rfl⟩ | ⟨_, rfl⟩ <;> exact ⟨rfl, rfl⟩
    refine hprog (h.frame ?_ hnode.2 (fun x hx => .inl ?_) ?_)
    · rw [hnode.1]
      exact hsame.sm
    · rw [hnode.1] at hx
      have hheld : (p.node.propose data f).held = p.node.held := by
        show _ ++ (_ ++ (Option.getD (RaftNode.snapshotStore _) []).map _) = _
        rw [show (p.node.propose data f).raft.snapshotStore = p.node.raft.snapshotStore from
          hsame.snapshotStore]
        rfl
      rw [hheld] at hx
      exact hx
    · rw [hnode.1]
      exact h.reader
  | handlerNext j =>
    rw [handlerNext_frame hq] at hprog ⊢
    exact hprog (h.same rfl rfl)
  | handlerTimeout j =>
    rw [handlerTimeout_some hq] at hprog ⊢
    exact hprog (h.same rfl rfl)
  | crash keep results =>
    obtain ⟨hex, _⟩ := h.crash hok hq
    exact ⟨⟨hex.machine, hex.held, hex.reader⟩, fun hno => by cases hno⟩

end Exact

theorem exact_fresh (C : CommittedLog) (addr : Addr) (id : NodeID) (boot : Option (List Addr))
    (cfg : SnapshotConfig) : Exact C (fresh addr id boot cfg) :=
  ⟨⟨newKVStateMachine, rfl, le_rfl, le_rfl, rfl⟩, fun _ hx => absurd hx List.not_mem_nil, le_rfl⟩

theorem Exact.data (h : Exact C p) : p.kvData = C.mapAt p.reached := by
  obtain ⟨sm, hsm, _, _, hdata⟩ := h.machine
  rw [kvData, hsm]
  exact hdata

theorem exact_of_runs {addr : Addr} {id : NodeID} {boot : Option (List Addr)}
    {cfg : SnapshotConfig} (h : Runs Process.step (fun p a => p.forward C a)
      (fresh addr id boot cfg) p) : Exact C p :=
  h.invariant (fun _ _ _ hex hs hok => (hex.step hok hs).1) (exact_fresh C addr id boot cfg)

/-- **The applied state never goes back**: until the next crash `lastApplied` does not
decrease, and the map is that of the entries it has come to. -/
theorem applied_state_forward (C : CommittedLog) (addr : Addr) (id : NodeID)
    (boot : Option (List Addr)) (cfg : SnapshotConfig) {p p' : Process}
    (h : Runs Process.step (fun p a => p.forward C a) (fresh addr id boot cfg) p)
    (h' : Runs Process.step (fun p a => p.forward C a ∧ a.isCrash = false) p p') :
    p.kvApplied ≤ p'.kvApplied ∧ p'.kvData = C.mapAt p'.reached := by
  have hinv : ∀ (q : Process) (a : ProcessAct) (q' : Process), Exact C q → q.step a = some q' →
      (q.forward C a ∧ a.isCrash = false) → Exact C q' :=
    fun q a q' hex hs hok => (hex.step hok.1 hs).1
  have hex := exact_of_runs h
  refine ⟨?_, (h'.invariant hinv hex).data⟩
  exact h'.relates (R := fun q q' => q.kvApplied ≤ q'.kvApplied) hinv (fun q => le_rfl)
    (fun _ _ _ => le_trans) (fun q a q' hex hs hok => (hex.step hok.1 hs).2 hok.2) hex

/-- **Startup rebuilds the state.** -/
theorem startup_rebuilds_state (C : CommittedLog) (addr : Addr) (id : NodeID)
    (boot : Option (List Addr)) (cfg : SnapshotConfig) {p p' : Process} {keep : Nat}
    {results : LogEntry → StoreResult}
    (h : Runs Process.step (fun p a => p.forward C a) (fresh addr id boot cfg) p)
    (hrec : p.recoverable C keep results = true)
    (hs : p.step (.crash keep results) = some p') :
    p'.kvData = C.mapAt p'.kvApplied ∧ p.node.raft.stored.index ≤ p'.kvApplied := by
  obtain ⟨q, hq, rfl⟩ := Option.map_eq_some_iff.mp hs
  obtain ⟨hex, hnone, hle⟩ := (exact_of_runs h).crash hrec hq
  refine ⟨?_, hle⟩
  have hdata := hex.data
  rw [reached_of_none hnone] at hdata
  exact hdata

/-- `forward` as a test, for runs in which no snapshot is installed. -/
def forwardAlone (C : CommittedLog) (p : Process) : ProcessAct → Bool
  | .node (.installNext _) => false
  | .node .snapTake => p.storing.isNone
  | .kvWrite r =>
      match p.kvCh with
      | e :: _ => C.inOrder p.kvApplied e r
      | [] => true
  | .crash keep results => p.recoverable C keep results
  | _ => true

theorem forward_of_alone {a : ProcessAct} (h : p.forwardAlone C a = true) : p.forward C a := by
  cases a with
  | node act =>
    cases act with
    | installNext i => cases h
    | snapTake => exact fun _ => Option.isNone_iff_eq_none.mp h
    | _ => exact fun hact => by cases hact
  | kvWrite r =>
    rcases hch : p.kvCh with - | ⟨e, rest⟩
    · simp only [forward, hch]
    · simp only [forwardAlone, hch] at h
      simp only [forward, hch]
      exact h
  | crash keep results => exact h
  | _ => trivial

end

/-! ### A node on its own -/

section

local instance soloCodec : Codec := Codec.twoKeys

/-- A process without peers that takes a snapshot after any entry. -/
def solo : Process := fresh "a" "a" (some []) ⟨1, 2⟩

/-- The node is elected. -/
def soloElected : List ProcessAct :=
  [.node .dispatch, .node .timeout, .node .dispatch, .node (.startElection .none),
    .node .openCampaign, .node .electAlone, .node .dispatch, .node .enterLeader]

/-- `a` and `b` are set, and the entries go to the channels. -/
def soloDelivered : List ProcessAct :=
  soloElected ++
    [.request .kv (goString setA) .none, .request .kv (goString setB) .none, .node .tick,
    .node .build, .node .collect, .node .emit, .fanKv, .fanMvcc, .node .emit, .fanKv, .fanMvcc]

/-- The next entry is applied. -/
def kvApply : List ProcessAct := [.kvWrite .ok, .kvStore]

/-- A snapshot is taken and the log is compacted. -/
def soloSnapshot : List ProcessAct :=
  [.node .snapTake, .node .snapCapture, .node (.snapSave false), .node .snapTruncate,
    .node .snapCompact]

/-- After a restart, a third entry is committed and the first one comes again. -/
def soloAgain : List ProcessAct :=
  soloElected ++ [.request .kv (goString setA) .none, .node .tick, .node .build, .node .collect,
    .node .emit, .fanKv] ++ kvApply

/-- The crash loses all but `keep` records; no write fails during startup. -/
def crashKeeping (keep : Nat) : ProcessAct := .crash keep fun _ => .ok

/-- **The applied state goes back.**  Startup has recovered both entries; then
`runApplyLoop` begins at `1` again. -/
theorem applied_state_goes_back :
    ∃ p p', Runs Process.step (fun _ _ => True) solo p ∧
      Runs Process.step (fun _ a => a.isCrash = false) p p' ∧
      (p.kvApplied = 2 ∧ p'.kvApplied = 1 ∧ p'.storing = none ∧ p'.kvData "b" = some "2") ∧
      p'.kvData ≠ twoKeyLog.mapAt p'.kvApplied := by
  refine Runs.exists_and_of_execs (soloDelivered ++ kvApply ++ kvApply ++ [crashKeeping 4])
    soloAgain
    (by decide +kernel) ?_
  rintro p p' _ _ ⟨_, hla', _, hb⟩ heq
  rw [heq, hla'] at hb
  exact absurd hb (by decide)

/-- Two entries are delivered and then applied. -/
theorem applied_state_forward_solo :
    ∃ p p', Runs Process.step (fun p a => p.forward twoKeyLog a) solo p ∧
      Runs Process.step (fun p a => p.forward twoKeyLog a ∧ a.isCrash = false) p p' ∧
      p.kvApplied = 0 ∧ p'.kvApplied = 2 ∧
      (p.kvApplied ≤ p'.kvApplied ∧ p'.kvData = twoKeyLog.mapAt p'.reached) := by
  obtain ⟨p, hp, hla, hnext⟩ := exists_of_any
    (o := exec Process.step (fun p a => p.forwardAlone twoKeyLog a = true) solo soloDelivered)
    (P := fun p => p.kvApplied = 0 ∧
      ((exec Process.step (fun p a => p.forwardAlone twoKeyLog a = true ∧
          a.isCrash = false) p (kvApply ++ kvApply)).any fun p' =>
        decide (p'.kvApplied = 2)) = true)
    (by decide +kernel)
  obtain ⟨p', hp', hla'⟩ := exists_of_any hnext
  have h := (Runs.of_exec hp).weaken fun _ _ => forward_of_alone
  have h' : Runs Process.step (fun p a => p.forward twoKeyLog a ∧ a.isCrash = false) p p' :=
    (Runs.of_exec hp').weaken fun _ _ hok => ⟨forward_of_alone hok.1, hok.2⟩
  exact ⟨p, p', h, h', hla, hla', applied_state_forward twoKeyLog "a" "a" (some []) ⟨1, 2⟩ h h'⟩

/-- **A stale checkpoint is recovered.**  The snapshot covers both entries, but the
key-value file is lost: `lastApplied` becomes `0` under the snapshot's map. -/
theorem stale_checkpoint_recovered :
    ∃ p p', Runs Process.step (fun _ _ => True) solo p ∧
      p.step (crashKeeping 0) = some p' ∧
      p.node.raft.stored.index = 2 ∧ p'.kvApplied = 0 ∧
      p'.kvData ≠ twoKeyLog.mapAt p'.kvApplied := by
  obtain ⟨p, hp, hstored, hnext⟩ := exists_of_any
    (o := exec Process.step (fun _ _ => True) solo
      (soloDelivered ++ kvApply ++ kvApply ++ soloSnapshot))
    (P := fun p => p.node.raft.stored.index = 2 ∧
      ((p.step (crashKeeping 0)).any fun p' =>
        decide (p'.kvApplied = 0 ∧ p'.kvData "b" = some "2")) = true)
    (by decide +kernel)
  obtain ⟨p', hp', hla, hb⟩ := exists_of_any hnext
  refine ⟨p, p', Runs.of_exec hp, hp', hstored, hla, fun heq => ?_⟩
  rw [heq, hla] at hb
  exact absurd hb (by decide)

/-- The snapshot covers the first entry, the records of the second are lost. -/
theorem startup_rebuilds_state_solo :
    ∃ p p', Runs Process.step (fun p a => p.forward twoKeyLog a) solo p ∧
      p.recoverable twoKeyLog 2 (fun _ => .ok) = true ∧ p.step (crashKeeping 2) = some p' ∧
      p'.kvApplied = 2 ∧
      (p'.kvData = twoKeyLog.mapAt p'.kvApplied ∧ p.node.raft.stored.index ≤ p'.kvApplied) := by
  obtain ⟨p, hp, hrec, hnext⟩ := exists_of_any
    (o := exec Process.step (fun p a => p.forwardAlone twoKeyLog a = true) solo
      (soloDelivered ++ kvApply ++ soloSnapshot ++ kvApply))
    (P := fun p => p.recoverable twoKeyLog 2 (fun _ => .ok) = true ∧
      ((p.step (crashKeeping 2)).any fun p' => decide (p'.kvApplied = 2)) = true)
    (by decide +kernel)
  obtain ⟨p', hp', hla⟩ := exists_of_any hnext
  have h := (Runs.of_exec hp).weaken fun _ _ => forward_of_alone
  exact ⟨p, p', h, hrec, hp', hla,
    startup_rebuilds_state twoKeyLog "a" "a" (some []) ⟨1, 2⟩ h hrec hp'⟩

end

end Process

end Raft
