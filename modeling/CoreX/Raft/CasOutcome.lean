/-
CoreX/Raft/CasOutcome.lean

What a client of `PUT /mvcc/kv` is told about its conditional write.  `apply` leaves
a conflict in `conflictResults`, `WaitForIndex` returns `nil` for a conflict and for
a success alike, and `IsCASConflict` tells them apart; `RestoreSnapshot` clears the
table, and sends `ErrSnapshotDisplaced` to those that wait for an index it covers.

The sections of all four interleave here, with one caller for each index.  A client
is told that its write succeeded although it did not, in two ways
(`lost_write_reported`).  The table is cleared between the conflict and the question:
a caller that has been woken, or was not registered, is not displaced.  And a caller
that comes after a snapshot has covered its entry returns on the first fast path.

In all other runs the answer is right (`cas_outcome_truthful`).
-/
import CoreX.Raft.Versions
import CoreX.Raft.Applied

namespace Raft

open StepSystem

/-! ### Snapshots of the MVCC machine -/

/-- `mvccSnapshotPayload`. -/
structure MvccSnapshotPayload where
  versions : String → List MVCCVersion
  latest : String → Option Nat

/-- `encoding/json` on the payload. -/
class PayloadCodec where
  marshalPayload : MvccSnapshotPayload → String
  unmarshalPayload : String → Option MvccSnapshotPayload

/-- The payload in which `k` has one version. -/
def MvccSnapshotPayload.single (version : Nat) (value : String) : MvccSnapshotPayload :=
  ⟨Function.update (fun _ => []) "k" [⟨version, value, false⟩],
    Function.update (fun _ => none) "k" (some version)⟩

/-- Its JSON text. -/
def MvccSnapshotPayload.singleText (version value : String) : String :=
  "\x7b\"versions\":\x7b\"k\":[\x7b\"Version\":" ++ version ++ ",\"Value\":\"" ++ value ++
    "\",\"Deleted\":false\x7d]\x7d,\"latest\":\x7b\"k\":" ++ version ++ "\x7d\x7d"

/-- A codec that knows this payload only. -/
abbrev PayloadCodec.single (version : Nat) (value : String) : PayloadCodec where
  marshalPayload _ := MvccSnapshotPayload.singleText (toString version) value
  unmarshalPayload raw :=
    if raw = MvccSnapshotPayload.singleText (toString version) value then
      some (.single version value)
    else none

/-- The key under which `SnapshotData` carries the MVCC state. -/
def snapshotMVCCKey : String := "\x00__mvcc_state__"

namespace MVCCStateMachine

variable [PayloadCodec] (sm : MVCCStateMachine)

/-- `TakeSnapshot`. -/
def takeSnapshot : SnapshotData × Int :=
  (⟨Function.update (fun _ => none) snapshotMVCCKey
      (some (PayloadCodec.marshalPayload ⟨sm.versions, sm.latest⟩)), ⟨.stable, [], []⟩⟩,
    sm.lastApplied)

/-- `RestoreSnapshot`, the section under the lock; `none` is its error. -/
def restoreSnapshot (data : SnapshotData) (lastApplied : Int) : Option MVCCStateMachine :=
  match data.kv snapshotMVCCKey with
  | none =>
      some { sm with
        versions := fun _ => []
        latest := fun _ => none
        conflictResults := fun _ => none
        lastApplied := lastApplied }
  | some raw =>
      (PayloadCodec.unmarshalPayload raw).map fun payload =>
        { sm with
          versions := payload.versions
          latest := payload.latest
          conflictResults := fun _ => none
          lastApplied := lastApplied }

variable {sm}

theorem conflictResults_restoreSnapshot {sm' : MVCCStateMachine} {data : SnapshotData}
    {lastApplied : Int} (h : sm.restoreSnapshot data lastApplied = some sm') :
    sm'.conflictResults = fun _ => none := by
  unfold restoreSnapshot at h
  split at h
  · cases h
    rfl
  · obtain ⟨payload, _, rfl⟩ := Option.map_eq_some_iff.mp h
    rfl

end MVCCStateMachine

/-! ### Callers -/

/-- Where the caller of an index stands. -/
inductive CasStage
  /-- Before `WaitForIndex`. -/
  | called
  /-- `lastApplied` was below the index. -/
  | checked
  /-- And there was no conflict. -/
  | cleared
  /-- Its channel is registered. -/
  | waiting
  /-- `WaitForIndex` returns `nil`. -/
  | returned
  /-- `WaitForIndex` returns `ErrSnapshotDisplaced`. -/
  | displaced
  /-- `WaitForIndex` returns the error of the context. -/
  | timedOut
  /-- `IsCASConflict` has returned. -/
  | answered (conflict : Option Nat)
  deriving DecidableEq, Repr

structure CasState where
  sm : MVCCStateMachine
  /-- How many entries of the log have gone to `Run`, or have been passed over. -/
  next : Nat
  /-- `apply` has still to notify the waiters of this index. -/
  notifying : Option Int
  /-- The `RestoreSnapshot` calls that have still to displace waiters. -/
  displacing : List Int
  callers : Int → CasStage
  /-- The machine that the entry of an index has met, a history that no section
  reads. -/
  met : Int → Option MVCCStateMachine

inductive CasAct
  | apply
  | notify
  /-- The next entries never come, a snapshot has covered them. -/
  | skip (n : Nat)
  | restore (data : SnapshotData) (lastApplied : Int)
  | displace (j : Nat)
  | caller (i : Int)
  | timeout (i : Int)

namespace CasState

/-- An empty machine, and nobody has called. -/
def init (retention : Nat) : CasState :=
  ⟨.new retention, 0, none, [], fun _ => .called, fun _ => none⟩

variable (s : CasState)

/-- `notifyWaiters` and `displaceWaitersUpTo`: registered callers get their answer. -/
def wake (woken : Int → Bool) (stage : CasStage) : CasState :=
  { s with callers := fun i => if s.callers i = .waiting ∧ woken i then stage else s.callers i }

def setStage (i : Int) (stage : CasStage) : CasState :=
  { s with callers := Function.update s.callers i stage }

/-- The next section of the caller of `i`: the fast paths of `WaitForIndex`, the
registration, and `IsCASConflict`. -/
def callerNext (i : Int) : Option CasState :=
  match s.callers i with
  | .called => some (s.setStage i (if i ≤ s.sm.lastApplied then .returned else .checked))
  | .checked =>
      some (s.setStage i (if (s.sm.conflictResults i).isSome then .returned else .cleared))
  | .cleared => some (s.setStage i .waiting)
  | .returned =>
      some { s.setStage i (.answered (s.sm.isCASConflict i).2) with sm := (s.sm.isCASConflict i).1 }
  | _ => none

variable [Codec]

/-- The section of `apply` under the lock. -/
def applied (e : LogEntry) : CasState :=
  { s with
    sm := s.sm.apply e
    next := s.next + 1
    notifying := some e.index
    met := Function.update s.met e.index (some s.sm) }

variable [PayloadCodec]

/-- One atomic section; the entries come from the log `C`, in its order. -/
def step (C : CommittedLog) (s : CasState) : CasAct → Option CasState
  | .apply =>
      match s.notifying, C.entries[s.next]? with
      | none, some e => some (s.applied e)
      | _, _ => none
  | .notify =>
      s.notifying.map fun index =>
        { s.wake (fun i => i = index) .returned with notifying := none }
  | .skip n => some { s with next := s.next + n }
  | .restore data lastApplied =>
      (s.sm.restoreSnapshot data lastApplied).map fun sm =>
        { s with sm := sm, displacing := s.displacing ++ [lastApplied] }
  | .displace j =>
      s.displacing[j]?.map fun upTo =>
        { s.wake (fun i => i ≤ upTo) .displaced with displacing := s.displacing.eraseIdx j }
  | .caller i => s.callerNext i
  | .timeout i => if s.callers i = .waiting then some (s.setStage i .timedOut) else none

/-- No snapshot is restored while somebody has still to ask for a conflict, and
`WaitForIndex` is not called for an entry that `lastApplied` has passed although
`apply` has never seen it. -/
def reportable (C : CommittedLog) (s : CasState) : CasAct → Bool
  | .restore data lastApplied =>
      (s.sm.restoreSnapshot data lastApplied).isNone ||
        C.entries.all fun e => (s.sm.conflictResults e.index).isNone
  | .caller i =>
      decide (s.callers i = .called → i ≤ s.sm.lastApplied → (s.met i).isSome = true)
  | _ => true

end CasState

/-! ### What an entry leaves in the table -/

namespace MVCCStateMachine

variable [Codec] {sm : MVCCStateMachine} {e : LogEntry} {cmd : RaftKVCommand} {i : Int}

theorem conflictResults_apply_of_ne (h : i ≠ e.index) :
    (sm.apply e).conflictResults i = sm.conflictResults i := by
  by_cases hacc : sm.accepts e = true
  · rw [(apply_accepted hacc).2]
  · exact (apply_refused (Bool.not_eq_true _ ▸ hacc)).2.1 i h

theorem conflictResults_apply_conflict (hcmd : Codec.unmarshalCommand e.data = some cmd)
    (h : sm.conflicts cmd = true) :
    (sm.apply e).conflictResults e.index = some (sm.current cmd.key) := by
  unfold apply
  rw [hcmd]
  dsimp only
  rw [if_pos h]
  exact Function.update_self _ _ _

theorem conflict_of_conflictResults {v : Nat} (hold : sm.conflictResults e.index = none)
    (h : (sm.apply e).conflictResults e.index = some v) :
    ∃ cmd, Codec.unmarshalCommand e.data = some cmd ∧ sm.conflicts cmd = true ∧
      sm.current cmd.key = v := by
  rcases hcmd : Codec.unmarshalCommand e.data with - | cmd
  · rw [apply, hcmd] at h
    rw [hold] at h
    cases h
  · by_cases hc : sm.conflicts cmd = true
    · rw [conflictResults_apply_conflict hcmd hc] at h
      exact ⟨cmd, rfl, hc, Option.some.inj h⟩
    · have hacc : sm.accepts e = true := by
        rw [accepts, hcmd]
        simpa using hc
      rw [(apply_accepted hacc).2, hold] at h
      cases h

end MVCCStateMachine

/-! ### The invariant -/

def CasStage.isAnswered : CasStage → Bool
  | .answered _ => true
  | _ => false

namespace CommittedLog

theorem Has.unique {C : CommittedLog} {e e' : LogEntry} (h : C.Has e) (h' : C.Has e')
    (hidx : e.index = e'.index) : e = e' := by
  have hget := h.2
  rw [hidx, h'.2] at hget
  exact (Option.some.inj hget).symm

theorem has_of_getElem? {C : CommittedLog} {n : Nat} {e : LogEntry}
    (h : C.entries[n]? = some e) : C.Has e := by
  have hidx := C.index_eq n e h
  refine ⟨by omega, ?_⟩
  rw [hidx, show ((n : Int) + 1).toNat - 1 = n by omega]
  exact h

end CommittedLog

namespace CasState

section

variable [Codec] {C : CommittedLog} {s s' : CasState}

omit [Codec] in
@[simp] theorem setStage_self (i : Int) (stage : CasStage) :
    (s.setStage i stage).callers i = stage := Function.update_self _ _ _

omit [Codec] in
theorem setStage_of_ne {i j : Int} (h : j ≠ i) (stage : CasStage) :
    (s.setStage i stage).callers j = s.callers j := Function.update_of_ne h _ _

@[simp] theorem met_applied_self (e : LogEntry) : (s.applied e).met e.index = some s.sm :=
  Function.update_self _ _ _

theorem met_applied_of_ne {e : LogEntry} {i : Int} (h : i ≠ e.index) :
    (s.applied e).met i = s.met i := Function.update_of_ne h _ _

/-- The entry met a machine with which it conflicts, at version `v`. -/
def Conflicted (s : CasState) (e : LogEntry) (v : Nat) : Prop :=
  ∃ cmd sm, Codec.unmarshalCommand e.data = some cmd ∧ s.met e.index = some sm ∧
    sm.conflicts cmd = true ∧ sm.current cmd.key = v

theorem Conflicted.unique {e : LogEntry} {v w : Nat} (h : s.Conflicted e v)
    (h' : s.Conflicted e w) : v = w := by
  obtain ⟨cmd, sm, hcmd, hmet, _, rfl⟩ := h
  obtain ⟨cmd', sm', hcmd', hmet', _, rfl⟩ := h'
  rw [Option.some.inj (hcmd.symm.trans hcmd'), Option.some.inj (hmet.symm.trans hmet')]

/-- What the sections keep. -/
structure Reported (C : CommittedLog) (s : CasState) : Prop where
  /-- What has been applied is behind. -/
  behind : ∀ i, (s.met i).isSome = true → i ≤ s.next
  /-- The table holds conflicts. -/
  recorded : ∀ i v, s.sm.conflictResults i = some v →
    ∃ e, C.Has e ∧ e.index = i ∧ s.Conflicted e v
  /-- A conflict is in the table, or has been asked for. -/
  kept : ∀ e v, C.Has e → s.Conflicted e v →
    (s.sm.conflictResults e.index).isSome = true ∨ s.callers e.index = .answered (some v)
  notified : ∀ i, s.notifying = some i → (s.met i).isSome = true
  returned : ∀ i, s.callers i = .returned → (s.met i).isSome = true
  success : ∀ e, C.Has e → s.callers e.index = .answered none →
    (s.met e.index).isSome = true ∧ ∀ v, ¬s.Conflicted e v
  conflict : ∀ e v, C.Has e → s.callers e.index = .answered (some v) → s.Conflicted e v

namespace Reported

theorem callers (h : Reported C s) (hsm : s'.sm = s.sm) (hmet : s'.met = s.met)
    (hnext : s.next ≤ s'.next) (hnot : s'.notifying = s.notifying ∨ s'.notifying = none)
    (hcall : ∀ i, s'.callers i = s.callers i ∨
      (s.callers i).isAnswered = false ∧ (s'.callers i).isAnswered = false ∧
        (s'.callers i = .returned → (s.met i).isSome = true)) : Reported C s' := by
  have hconf : ∀ e v, s'.Conflicted e v ↔ s.Conflicted e v := by
    intro e v
    rw [Conflicted, Conflicted, hmet]
  have hans : ∀ i c, s'.callers i = .answered c ↔ s.callers i = .answered c := by
    intro i c
    rcases hcall i with heq | ⟨hold, hnew, _⟩
    · rw [heq]
    · constructor
      · intro hc
        rw [hc] at hnew
        cases hnew
      · intro hc
        rw [hc] at hold
        cases hold
  constructor
  · intro i hi
    rw [hmet] at hi
    exact (h.behind i hi).trans (by exact_mod_cast hnext)
  · intro i v hv
    rw [hsm] at hv
    obtain ⟨e, he, hidx, hc⟩ := h.recorded i v hv
    exact ⟨e, he, hidx, (hconf e v).mpr hc⟩
  · intro e v he hc
    rw [hsm, hans]
    exact h.kept e v he ((hconf e v).mp hc)
  · intro i hi
    rw [hmet]
    rcases hnot with heq | hnone
    · exact h.notified i (heq ▸ hi)
    · rw [hnone] at hi
      cases hi
  · intro i hi
    rw [hmet]
    rcases hcall i with heq | ⟨_, _, hret⟩
    · exact h.returned i (heq ▸ hi)
    · exact hret hi
  · intro e he hc
    rw [hmet]
    obtain ⟨hsome, hno⟩ := h.success e he ((hans _ _).mp hc)
    exact ⟨hsome, fun v hv => hno v ((hconf e v).mp hv)⟩
  · intro e v he hc
    exact (hconf e v).mpr (h.conflict e v he ((hans _ _).mp hc))

theorem init (C : CommittedLog) (retention : Nat) : Reported C (init retention) where
  behind _ h := by cases h
  recorded _ _ h := by cases h
  kept e v _ h := by
    obtain ⟨cmd, sm, _, hmet, _⟩ := h
    cases hmet
  notified _ h := by cases h
  returned _ h := by cases h
  success _ _ h := by cases h
  conflict _ _ _ h := by cases h

theorem wake (h : Reported C s) (woken : Int → Bool) (stage : CasStage)
    (hans : stage.isAnswered = false)
    (hret : stage = .returned → ∀ i, woken i = true → (s.met i).isSome = true)
    (hs : s'.callers = (s.wake woken stage).callers) (hsm : s'.sm = s.sm) (hmet : s'.met = s.met)
    (hnext : s'.next = s.next) (hnot : s'.notifying = s.notifying ∨ s'.notifying = none) :
    Reported C s' := by
  refine h.callers hsm hmet hnext.ge hnot fun i => ?_
  rw [hs]
  show (if s.callers i = .waiting ∧ woken i then stage else s.callers i) = _ ∨ _ ∧
    (if s.callers i = .waiting ∧ woken i then stage else s.callers i).isAnswered = false ∧
    ((if s.callers i = .waiting ∧ woken i then stage else s.callers i) = .returned → _)
  split
  · next hw =>
    refine .inr ⟨by rw [hw.1]; rfl, hans, fun hstage => hret hstage i hw.2⟩
  · exact .inl rfl

theorem setStage (h : Reported C s) {i : Int} {stage : CasStage}
    (hold : (s.callers i).isAnswered = false)
    (hans : stage.isAnswered = false) (hret : stage = .returned → (s.met i).isSome = true) :
    Reported C (s.setStage i stage) := by
  refine h.callers rfl rfl le_rfl (.inl rfl) fun j => ?_
  by_cases hj : j = i
  · subst hj
    rw [setStage_self]
    exact .inr ⟨hold, hans, hret⟩
  · rw [setStage_of_ne hj]
    exact .inl rfl

theorem unknown (h : Reported C s) {e : LogEntry} (he : C.entries[s.next]? = some e) :
    s.met e.index = none ∧ s.sm.conflictResults e.index = none ∧
      ∀ c, s.callers e.index ≠ .answered c := by
  have hidx := C.index_eq s.next e he
  have hhas := CommittedLog.has_of_getElem? he
  have hnew : s.met e.index = none := by
    by_contra hne
    have := h.behind e.index (Option.isSome_iff_ne_none.mpr hne)
    omega
  have hno : ∀ v, ¬s.Conflicted e v := by
    rintro v ⟨_, _, _, hmet, _⟩
    rw [hnew] at hmet
    cases hmet
  refine ⟨hnew, ?_, ?_⟩
  · by_contra hne
    obtain ⟨v, hv⟩ := Option.ne_none_iff_exists'.mp hne
    obtain ⟨e', he', hidx', hc⟩ := h.recorded _ v hv
    obtain rfl := he'.unique hhas hidx'
    exact hno v hc
  · rintro (- | v) hc
    · have hsome := (h.success e hhas hc).1
      rw [hnew] at hsome
      cases hsome
    · exact hno v (h.conflict e v hhas hc)

theorem applied (h : Reported C s) {e : LogEntry} (he : C.entries[s.next]? = some e) :
    Reported C (s.applied e) := by
  have hidx := C.index_eq s.next e he
  have hhas := CommittedLog.has_of_getElem? he
  obtain ⟨hnew, hnone, hunanswered⟩ := h.unknown he
  have hother : ∀ {e' : LogEntry} {v : Nat}, e'.index ≠ e.index →
      ((s.applied e).Conflicted e' v ↔ s.Conflicted e' v) := by
    intro e' v hne
    rw [Conflicted, Conflicted, met_applied_of_ne hne]
  have hmet : ∀ i, (s.met i).isSome = true → ((s.applied e).met i).isSome = true := by
    intro i hi
    have hne : i ≠ e.index := by
      rintro rfl
      rw [hnew] at hi
      cases hi
    rw [met_applied_of_ne hne]
    exact hi
  refine ⟨?behind, ?recorded, ?kept, ?notified, ?returned, ?success, ?conflict⟩
  case behind =>
    intro i hi
    show i ≤ ((s.next + 1 : Nat) : Int)
    by_cases hi' : i = e.index
    · omega
    · rw [met_applied_of_ne hi'] at hi
      have := h.behind i hi
      omega
  case recorded =>
    intro i v hv
    by_cases hi : i = e.index
    · subst hi
      obtain ⟨cmd, hcmd, hc, hcur⟩ := MVCCStateMachine.conflict_of_conflictResults hnone hv
      exact ⟨e, hhas, rfl, cmd, s.sm, hcmd, met_applied_self e, hc, hcur⟩
    · have hv' : s.sm.conflictResults i = some v := by
        rw [← MVCCStateMachine.conflictResults_apply_of_ne hi]
        exact hv
      obtain ⟨e', he', rfl, hc⟩ := h.recorded i v hv'
      exact ⟨e', he', rfl, (hother hi).mpr hc⟩
  case kept =>
    intro e' v he' hc
    by_cases hi : e'.index = e.index
    · -- `apply` itself puts the conflict into the table
      obtain rfl := he'.unique hhas hi
      obtain ⟨cmd, sm, hcmd, hsm, hconf, _⟩ := hc
      rw [met_applied_self] at hsm
      obtain rfl := Option.some.inj hsm
      left
      show ((s.sm.apply e').conflictResults e'.index).isSome = true
      rw [MVCCStateMachine.conflictResults_apply_conflict hcmd hconf]
      rfl
    · rcases h.kept e' v he' ((hother hi).mp hc) with hin | hasked
      · left
        show ((s.sm.apply e).conflictResults e'.index).isSome = true
        rw [MVCCStateMachine.conflictResults_apply_of_ne hi]
        exact hin
      · exact .inr hasked
  case notified =>
    intro i hi
    obtain rfl := Option.some.inj hi
    rw [met_applied_self]
    rfl
  case returned => exact fun i hi => hmet i (h.returned i hi)
  case success =>
    intro e' he' hc
    have hi : e'.index ≠ e.index := fun hi => hunanswered none (hi ▸ hc)
    obtain ⟨hsome, hno⟩ := h.success e' he' hc
    exact ⟨hmet _ hsome, fun v hv => hno v ((hother hi).mp hv)⟩
  case conflict =>
    intro e' v he' hc
    have hi : e'.index ≠ e.index := fun hi => hunanswered (some v) (hi ▸ hc)
    exact (hother hi).mpr (h.conflict e' v he' hc)

theorem restored (h : Reported C s) {sm : MVCCStateMachine} {displacing : List Int}
    (hsm : sm.conflictResults = fun _ => none)
    (hempty : ∀ e ∈ C.entries, s.sm.conflictResults e.index = none) :
    Reported C { s with sm := sm, displacing := displacing } where
  behind := h.behind
  recorded i v hv := by
    rw [hsm] at hv
    cases hv
  kept e v he hc := by
    rcases h.kept e v he hc with hin | hasked
    · rw [hempty e (List.mem_of_getElem? he.2)] at hin
      cases hin
    · exact .inr hasked
  notified := h.notified
  returned := h.returned
  success := h.success
  conflict := h.conflict

theorem asked (h : Reported C s) {i : Int} (hi : s.callers i = .returned) :
    Reported C { s.setStage i (.answered (s.sm.isCASConflict i).2) with
      sm := (s.sm.isCASConflict i).1 } := by
  have hans : ∀ {j c}, j ≠ i → (s.setStage i (.answered (s.sm.isCASConflict i).2)).callers j =
      .answered c → s.callers j = .answered c := by
    intro j c hj hc
    rwa [setStage_of_ne hj] at hc
  have hself : ∀ {c}, (s.setStage i (.answered (s.sm.isCASConflict i).2)).callers i = .answered c →
      s.sm.conflictResults i = c := by
    intro c hc
    rw [setStage_self] at hc
    exact CasStage.answered.inj hc
  refine ⟨?behind, ?recorded, ?kept, ?notified, ?returned, ?success, ?conflict⟩
  case behind => exact h.behind
  case recorded =>
    intro j v hv
    by_cases hj : j = i
    · have hnone : (s.sm.isCASConflict i).1.conflictResults j = none := by
        rw [hj]
        exact Function.update_self _ _ _
      rw [hnone] at hv
      cases hv
    · have hsame : (s.sm.isCASConflict i).1.conflictResults j = s.sm.conflictResults j :=
        Function.update_of_ne hj _ _
      exact h.recorded j v (hsame ▸ hv)
  case kept =>
    intro e v he hc
    rcases h.kept e v he hc with hin | hasked
    · by_cases hj : e.index = i
      · -- the conflict moves from the table to the caller
        right
        obtain ⟨w, hw⟩ := Option.isSome_iff_exists.mp hin
        obtain ⟨e', he', hidx, hc'⟩ := h.recorded _ w hw
        obtain rfl := he'.unique he hidx
        obtain rfl := hc.unique hc'
        rw [hj, setStage_self, ← hj]
        exact congrArg CasStage.answered hw
      · left
        show (Function.update s.sm.conflictResults i none e.index).isSome = true
        rw [Function.update_of_ne hj]
        exact hin
    · right
      have hj : e.index ≠ i := by
        rintro rfl
        rw [hi] at hasked
        cases hasked
      rw [setStage_of_ne hj]
      exact hasked
  case notified => exact h.notified
  case returned =>
    intro j hj
    by_cases hji : j = i
    · exact hji ▸ h.returned i hi
    · refine h.returned j ?_
      rw [← setStage_of_ne hji]
      exact hj
  case success =>
    intro e he hc
    by_cases hj : e.index = i
    · have hnone := hself (hj ▸ hc)
      refine ⟨hj ▸ h.returned i hi, fun v hv => ?_⟩
      rcases h.kept e v he hv with hin | hasked
      · rw [hj, hnone] at hin
        cases hin
      · rw [hj, hi] at hasked
        cases hasked
    · exact h.success e he (hans hj hc)
  case conflict =>
    intro e v he hc
    by_cases hj : e.index = i
    · obtain ⟨e', he', hidx, hc'⟩ := h.recorded i v (hself (hj ▸ hc))
      obtain rfl := he'.unique he (hidx.trans hj.symm)
      exact hc'
    · exact h.conflict e v he (hans hj hc)

theorem callerNext (h : Reported C s) {i : Int}
    (hok : s.callers i = .called → i ≤ s.sm.lastApplied → (s.met i).isSome = true)
    (hs : s.callerNext i = some s') : Reported C s' := by
  unfold CasState.callerNext at hs
  split at hs
  · next hc =>
    cases hs
    refine h.setStage (by rw [hc]; rfl) (by split <;> rfl) fun hret => hok hc ?_
    by_contra hlt
    rw [if_neg hlt] at hret
    cases hret
  · next hc =>
    cases hs
    refine h.setStage (by rw [hc]; rfl) (by split <;> rfl) fun hret => ?_
    -- a conflict in the table is that of an entry that has been applied
    have hin : (s.sm.conflictResults i).isSome = true := by
      by_contra hno
      rw [if_neg hno] at hret
      cases hret
    obtain ⟨v, hv⟩ := Option.isSome_iff_exists.mp hin
    obtain ⟨e, _, rfl, _, _, _, hmet, _⟩ := h.recorded i v hv
    rw [hmet]
    rfl
  · next hc =>
    cases hs
    exact h.setStage (by rw [hc]; rfl) rfl fun hret => by cases hret
  · next hc =>
    cases hs
    exact h.asked hc
  · cases hs

variable [PayloadCodec]

theorem step (h : Reported C s) {a : CasAct} (hok : s.reportable C a = true)
    (hs : s.step C a = some s') : Reported C s' := by
  cases a with
  | apply =>
    simp only [CasState.step] at hs
    split at hs
    · next e _ he =>
      cases hs
      exact h.applied he
    · cases hs
  | notify =>
    obtain ⟨index, hindex, rfl⟩ := Option.map_eq_some_iff.mp hs
    refine h.wake (fun i => i = index) .returned rfl ?_ rfl rfl rfl rfl (.inr rfl)
    intro _ i hi
    rw [of_decide_eq_true hi]
    exact h.notified index hindex
  | skip n =>
    cases hs
    exact h.callers rfl rfl (Nat.le_add_right _ _) (.inl rfl) fun _ => .inl rfl
  | restore data lastApplied =>
    obtain ⟨sm, hsm, rfl⟩ := Option.map_eq_some_iff.mp hs
    refine h.restored (MVCCStateMachine.conflictResults_restoreSnapshot hsm) ?_
    simp only [reportable, hsm, Option.isNone_some, Bool.false_or, List.all_eq_true,
      Option.isNone_iff_eq_none] at hok
    exact hok
  | displace j =>
    obtain ⟨upTo, _, rfl⟩ := Option.map_eq_some_iff.mp hs
    exact h.wake (fun i => i ≤ upTo) .displaced rfl (fun hret => by cases hret) rfl rfl rfl rfl
      (.inl rfl)
  | caller i => exact h.callerNext (of_decide_eq_true hok) hs
  | timeout i =>
    simp only [CasState.step] at hs
    split at hs
    · next hc =>
      cases hs
      exact h.setStage (by rw [hc]; rfl) rfl fun hret => by cases hret
    · cases hs

end Reported

/-! ### The answers -/

/-- **Outcomes are reported truthfully.**  A caller that is told of no conflict has
written the version after the one it expects; one that is told of a conflict has
changed nothing, and is told the version that was current. -/
theorem cas_outcome_truthful [PayloadCodec] (C : CommittedLog) (retention : Nat) {s : CasState}
    (h : Runs (CasState.step C) (fun s a => s.reportable C a = true) (init retention) s)
    {e : LogEntry} {cmd : RaftKVCommand} (he : e ∈ C.entries)
    (hcmd : Codec.unmarshalCommand e.data = some cmd) (hpos : 0 < cmd.expectedVersion) :
    (s.callers e.index = .answered none → ∃ sm, s.met e.index = some sm ∧
      sm.current cmd.key = cmd.expectedVersion ∧ sm.apply e = sm.write cmd e.index) ∧
    (∀ v, s.callers e.index = .answered (some v) → ∃ sm, s.met e.index = some sm ∧
      sm.current cmd.key = v ∧ (sm.apply e).versions = sm.versions ∧
        (sm.apply e).latest = sm.latest) := by
  have hrep := h.invariant (P := Reported C) (fun _ _ _ hs ha hok => hs.step hok ha)
    (Reported.init C retention)
  obtain ⟨n, hn⟩ := List.getElem?_of_mem he
  have hhas := CommittedLog.has_of_getElem? hn
  constructor
  · intro hc
    obtain ⟨hsome, hno⟩ := hrep.success e hhas hc
    obtain ⟨sm, hsm⟩ := Option.isSome_iff_exists.mp hsome
    have hfree : sm.conflicts cmd = false := by
      by_contra hyes
      exact hno _ ⟨cmd, sm, hcmd, hsm, Bool.not_eq_false _ ▸ hyes, rfl⟩
    have heff := MVCCStateMachine.effect_eq_some.mpr ⟨hcmd, hfree⟩
    exact ⟨sm, hsm, MVCCStateMachine.current_of_effect heff hpos,
      MVCCStateMachine.apply_of_effect heff⟩
  · intro v hc
    obtain ⟨cmd', sm, hcmd', hsm, hconf, hcur⟩ := hrep.conflict e v hhas hc
    obtain rfl : cmd = cmd' := Option.some.inj (hcmd.symm.trans hcmd')
    have hnone : sm.effect e = none := by
      rw [MVCCStateMachine.effect, hcmd]
      simp [hconf]
    obtain ⟨conflicts, heq⟩ := MVCCStateMachine.apply_of_no_effect hnone
    exact ⟨sm, hsm, hcur, by rw [heq], by rw [heq]⟩

end

/-! ### A write that is lost and reported -/

section

local instance casCodec : Codec := Codec.conditional

local instance casPayload : PayloadCodec := .single 1 "a"

/-- The key is written; then a write expects version 2, but there is one only. -/
def lateWrite : CommittedLog := .ofTexts [setK, casK2]

def lateEntry : LogEntry := ⟨2, 1, entryTypeCommand, goString casK2⟩

/-- The snapshot of a machine that has applied the whole log; `lastApplied` has stayed
at the first entry. -/
def lateSnapshot : SnapshotData × Int :=
  ((MVCCStateMachine.new 10).applyAll lateWrite.entries).takeSnapshot

/-- The caller waits, its entry conflicts, and it is woken.  A snapshot is restored
before it asks. -/
def clearedRun : List CasAct :=
  [.caller 2, .caller 2, .caller 2, .apply, .notify, .apply, .notify,
    .restore lateSnapshot.1 lateSnapshot.2, .displace 0, .caller 2]

/-- A snapshot covers the entry before the caller comes. -/
def coveredRun : List CasAct :=
  [.apply, .notify, .restore lateSnapshot.1 2, .displace 0, .skip 1, .caller 2, .caller 2]

/-- **A lost write is reported as a success.**  In both runs the caller of the second
entry is told of no conflict.  In the first the entry has met a machine that refuses
it; in the second it is never applied, and it has no effect in the log either. -/
theorem lost_write_reported :
    (∃ s, Runs (CasState.step lateWrite) (fun _ _ => True) (init 10) s ∧
      s.callers 2 = .answered none ∧
      ((s.met 2).any fun sm => (sm.effect lateEntry).isNone) = true) ∧
    (∃ s, Runs (CasState.step lateWrite) (fun _ _ => True) (init 10) s ∧
      s.callers 2 = .answered none ∧ (s.met 2).isNone = true) ∧
    (MVCCStateMachine.new 10).effectAt lateWrite.entries 1 = none :=
  ⟨Runs.exists_of_exec clearedRun (by decide +kernel),
    Runs.exists_of_exec coveredRun (by decide +kernel), by decide +kernel⟩

/-- The caller asks before the snapshot is restored. -/
theorem cas_outcome_truthful_asked :
    ∃ s, Runs (CasState.step lateWrite) (fun s a => s.reportable lateWrite a = true) (init 10) s ∧
      s.callers 2 = .answered (some 1) ∧
      ((s.callers lateEntry.index = .answered none → ∃ sm, s.met lateEntry.index = some sm ∧
        sm.current "k" = 2 ∧ sm.apply lateEntry = sm.write ⟨"cas", "k", "b", 2⟩ lateEntry.index) ∧
      (∀ v, s.callers lateEntry.index = .answered (some v) →
        ∃ sm, s.met lateEntry.index = some sm ∧ sm.current "k" = v ∧
          (sm.apply lateEntry).versions = sm.versions ∧
          (sm.apply lateEntry).latest = sm.latest)) := by
  have hcmd : Codec.unmarshalCommand lateEntry.data = some ⟨"cas", "k", "b", 2⟩ := by
    decide +kernel
  exact Runs.exists_and_of_exec [.caller 2, .caller 2, .caller 2, .apply, .notify, .apply, .notify,
      .caller 2, .restore lateSnapshot.1 lateSnapshot.2, .displace 0]
    (by decide +kernel) fun s hrun _ =>
      cas_outcome_truthful lateWrite 10 hrun (by decide +kernel) hcmd (by decide)

end

end CasState

end Raft
