/-
CoreX/Raft/Mvcc.lean

`MVCCStateMachine`: every key has a history of numbered versions, and a command
may expect a version.  A command whose expectation fails is a conflict: it is
remembered under its log index for the handler that waits for it, and
`lastApplied` stays where it is.
-/
import CoreX.Raft.Types
import Mathlib.Logic.Function.Basic

namespace Raft

structure MVCCVersion where
  version : Nat
  value : String
  deleted : Bool
  deriving DecidableEq, Repr

structure MVCCStateMachine where
  /-- The versions of a key that are kept, oldest first. -/
  versions : String → List MVCCVersion
  latest : String → Option Nat
  /-- The conflicts nobody has asked for yet, by log index, with the version that
  was current. -/
  conflictResults : Int → Option Nat
  retention : Nat
  lastApplied : Int

namespace MVCCStateMachine

variable (sm : MVCCStateMachine)

/-- `NewMVCCStateMachine`. -/
def new (retention : Nat) : MVCCStateMachine :=
  ⟨fun _ => [], fun _ => none, fun _ => none, retention, 0⟩

/-- The version of a key, `0` if it has none. -/
def current (key : String) : Nat := (sm.latest key).getD 0

/-- `gc`: all but the newest `retention` versions go; `0` keeps all. -/
def gc (vs : List MVCCVersion) : List MVCCVersion :=
  if sm.retention = 0 then vs else vs.drop (vs.length - sm.retention)

/-- The command expects a version that is not the current one. -/
def conflicts (cmd : RaftKVCommand) : Bool :=
  decide (0 < cmd.expectedVersion) && decide (sm.current cmd.key ≠ cmd.expectedVersion)

/-- A new version of the key. -/
def write (cmd : RaftKVCommand) (index : Int) : MVCCStateMachine :=
  { sm with
    versions := Function.update sm.versions cmd.key
      (sm.gc (sm.versions cmd.key ++
        [⟨sm.current cmd.key + 1, cmd.value, decide (cmd.op = "del")⟩]))
    latest := Function.update sm.latest cmd.key (some (sm.current cmd.key + 1))
    lastApplied := index }

/-- The entry becomes a version: it parses and does not conflict. -/
def accepts [Codec] (entry : LogEntry) : Bool :=
  match Codec.unmarshalCommand entry.data with
  | none => false
  | some cmd => !sm.conflicts cmd

/-- `apply`. -/
def apply [Codec] (entry : LogEntry) : MVCCStateMachine :=
  match Codec.unmarshalCommand entry.data with
  | none => sm
  | some cmd =>
      if sm.conflicts cmd then
        { sm with conflictResults :=
          Function.update sm.conflictResults entry.index (some (sm.current cmd.key)) }
      else sm.write cmd entry.index

/-- `IsCASConflict`: the conflict is handed out once. -/
def isCASConflict (index : Int) : MVCCStateMachine × Option Nat :=
  ({ sm with conflictResults := Function.update sm.conflictResults index none },
    sm.conflictResults index)

variable {sm} [Codec] {e : LogEntry} {i : Int}

theorem apply_accepted (h : sm.accepts e = true) :
    (sm.apply e).lastApplied = e.index ∧ (sm.apply e).conflictResults = sm.conflictResults := by
  unfold accepts at h
  unfold apply
  rcases hc : Codec.unmarshalCommand e.data with - | cmd
  · simp [hc] at h
  · simp only [hc, Bool.not_eq_true'] at h
    dsimp only
    rw [if_neg (by simp [h])]
    exact ⟨rfl, rfl⟩

theorem apply_refused (h : sm.accepts e = false) :
    (sm.apply e).lastApplied = sm.lastApplied ∧
      (∀ i, i ≠ e.index → (sm.apply e).conflictResults i = sm.conflictResults i) ∧
      ((Codec.unmarshalCommand e.data).isSome = true ∨
        (sm.conflictResults e.index).isSome = true →
        ((sm.apply e).conflictResults e.index).isSome = true) := by
  unfold accepts at h
  unfold apply
  rcases hc : Codec.unmarshalCommand e.data with - | cmd
  · refine ⟨rfl, fun _ _ => rfl, ?_⟩
    rintro (hwf | hold)
    · cases hwf
    · exact hold
  · simp only [hc, Bool.not_eq_false'] at h
    dsimp only
    rw [if_pos h]
    refine ⟨rfl, fun i hi => Function.update_of_ne hi _ _, fun _ => ?_⟩
    show (Function.update sm.conflictResults e.index _ e.index).isSome = true
    rw [Function.update_self]
    rfl

theorem lastApplied_apply (sm : MVCCStateMachine) (e : LogEntry) :
    (sm.apply e).lastApplied = e.index ∨ (sm.apply e).lastApplied = sm.lastApplied := by
  by_cases hacc : sm.accepts e = true
  · exact .inl (apply_accepted hacc).1
  · exact .inr (apply_refused (by simpa using hacc)).1

theorem conflict_of_apply (h : ((sm.apply e).conflictResults i).isSome = true) :
    i = e.index ∨ (sm.conflictResults i).isSome = true := by
  by_cases hidx : i = e.index
  · exact .inl hidx
  · right
    by_cases hacc : sm.accepts e = true
    · rw [(apply_accepted hacc).2] at h
      exact h
    · rw [(apply_refused (by simpa using hacc)).2.1 i hidx] at h
      exact h

theorem conflict_apply (h : (sm.conflictResults i).isSome = true) :
    ((sm.apply e).conflictResults i).isSome = true := by
  by_cases hacc : sm.accepts e = true
  · rw [(apply_accepted hacc).2]
    exact h
  · obtain ⟨_, hother, hself⟩ := apply_refused (Bool.not_eq_true _ ▸ hacc)
    by_cases hidx : i = e.index
    · rw [hidx] at h ⊢
      exact hself (.inr h)
    · rw [hother i hidx]
      exact h

end MVCCStateMachine

end Raft
