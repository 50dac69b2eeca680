/-
CoreX/Cdc/Entries.lean

`MVCCStateMachine` with a change log, and what the entries of the Raft log do to it.
The apply loop sends every committed entry to the same channel, and `apply` looks at the
data only: what decodes is a command, whatever its `op` says.

So an entry that is no command leaves the machine and the change log alone only if its
data does not decode, or decodes to a conflict (`non_commands_untouched`).  A
configuration change decodes, to a command of empty strings, and each of them becomes a
version of the key `""` with an event of its own (`configs_le_current`).
-/
import CoreX.Cdc.ChangeLog
import CoreX.Raft.CommandJson
import CoreX.Raft.Versions

namespace Cdc

open Raft

/-- `MVCCStateMachine` and its `changeLog`, `none` if change data capture is off. -/
structure Replica where
  sm : MVCCStateMachine
  changeLog : Option Hub

namespace Replica

section

variable [Codec] (r : Replica)

/-- The event of an entry; the two early returns of `apply` have none. -/
def event (entry : LogEntry) : Option ChangeEvent :=
  (r.sm.effect entry).map fun cmd =>
    ⟨cmd.op, cmd.key, cmd.value, r.sm.current cmd.key + 1, entry.index⟩

/-- `apply`, with `Publish` at its end. -/
def apply (entry : LogEntry) : Replica where
  sm := r.sm.apply entry
  changeLog :=
    match r.event entry with
    | none => r.changeLog
    | some ev => r.changeLog.map fun hub => hub.publish ev

/-- `Run`: the entries one after the other. -/
def applyAll (entries : List LogEntry) : Replica := entries.foldl apply r

end

/-- No version is written and no event published. -/
structure Untouched (r r' : Replica) : Prop where
  versions : r'.sm.versions = r.sm.versions
  latest : r'.sm.latest = r.sm.latest
  changeLog : r'.changeLog = r.changeLog

end Replica

/-- The data is one of the commands that the handlers propose. -/
def isKVCommand [Codec] (entry : LogEntry) : Bool :=
  match Codec.unmarshalCommand entry.data with
  | none => false
  | some cmd => cmd.op = "set" || cmd.op = "del" || cmd.op = "cas"

/-! ### One entry -/

section

variable [Codec] {sm : MVCCStateMachine} {r : Replica} {e : LogEntry}

theorem effect_eq_none : sm.effect e = none ↔ ∀ cmd, Codec.unmarshalCommand e.data = some cmd →
    0 < cmd.expectedVersion ∧ sm.current cmd.key ≠ cmd.expectedVersion := by
  rw [Option.eq_none_iff_forall_ne_some]
  refine forall_congr' fun cmd => ?_
  rw [ne_eq, MVCCStateMachine.effect_eq_some, not_and, Bool.not_eq_false,
    MVCCStateMachine.conflicts, Bool.and_eq_true, decide_eq_true_eq, decide_eq_true_eq]

theorem untouched_iff : r.Untouched (r.apply e) ↔ r.sm.effect e = none := by
  constructor
  · intro h
    rcases heff : r.sm.effect e with - | cmd
    · rfl
    · -- the version of the key of a command that is written moves
      have hcurrent : (r.sm.apply e).current cmd.key = r.sm.current cmd.key :=
        congrArg (fun latest => (latest cmd.key).getD 0) h.latest
      rw [MVCCStateMachine.apply_of_effect heff, MVCCStateMachine.current_write] at hcurrent
      omega
  · intro heff
    obtain ⟨conflicts, happly⟩ := MVCCStateMachine.apply_of_no_effect heff
    have hevent : r.event e = none := by rw [Replica.event, heff, Option.map_none]
    refine ⟨?_, ?_, ?_⟩
    · show (r.sm.apply e).versions = _
      rw [happly]
    · show (r.sm.apply e).latest = _
      rw [happly]
    · unfold Replica.apply
      rw [hevent]

end

/-! ### Configuration changes -/

section

variable [JsonCodec] {sm : MVCCStateMachine} {r : Replica} {e : LogEntry}
  {p : ConfigChangePayload}

theorem effect_config (he : e.data = Codec.marshalConfig p) : sm.effect e = some .zero := by
  rw [MVCCStateMachine.effect_eq_some, he, unmarshalCommand_marshalConfig]
  exact ⟨rfl, MVCCStateMachine.conflicts_of_zero rfl⟩

theorem isKVCommand_config (he : e.data = Codec.marshalConfig p) : isKVCommand e = false := by
  rw [isKVCommand, he, unmarshalCommand_marshalConfig]
  decide

/-- **Entries that are no commands**: exactly those are harmless that do not decode or
that decode to a conflict, and a configuration change is never harmless. -/
theorem non_commands_untouched (r : Replica) :
    (∀ e, isKVCommand e = false → (r.Untouched (r.apply e) ↔
      ∀ cmd, Codec.unmarshalCommand e.data = some cmd →
        0 < cmd.expectedVersion ∧ r.sm.current cmd.key ≠ cmd.expectedVersion)) ∧
      ∀ e p, e.data = Codec.marshalConfig p →
        isKVCommand e = false ∧ ¬r.Untouched (r.apply e) := by
  refine ⟨fun e _ => untouched_iff.trans effect_eq_none, fun e p he => ?_⟩
  refine ⟨isKVCommand_config he, fun h => ?_⟩
  rw [untouched_iff, effect_config he] at h
  cases h

theorem configs_le_current (es : List LogEntry)
    (hes : ∀ e ∈ es, e.type = entryTypeConfig → ∃ p, e.data = Codec.marshalConfig p) :
    es.countP (fun e => e.type = entryTypeConfig) ≤ (r.applyAll es).sm.current "" := by
  induction es using List.reverseRecOn with
  | nil => exact Nat.zero_le _
  | append_singleton es e ih =>
    have hbefore := ih fun e' he' => hes e' (List.mem_append_left _ he')
    have hlast : (r.applyAll (es ++ [e])).sm = (r.applyAll es).sm.apply e := by
      rw [Replica.applyAll, List.foldl_append]
      rfl
    rw [List.countP_append, List.countP_singleton, hlast]
    split
    · next htype =>
      obtain ⟨p, hp⟩ := hes e (List.mem_append_right _ List.mem_cons_self) (of_decide_eq_true htype)
      rw [MVCCStateMachine.apply_of_effect (effect_config hp)]
      have hnext := MVCCStateMachine.current_write (r.applyAll es).sm .zero e.index
      exact (Nat.succ_le_succ hbefore).trans hnext.ge
    · exact hbefore.trans (MVCCStateMachine.current_le_apply _ e "")

end

section

local instance entriesCodec : JsonCodec := JsonCodec.plain

/-- The entry that ends a change to the voters `["b"]`, on a new machine: the key `""`
exists afterwards, and there is an event for it. -/
theorem config_becomes_event :
    let r : Replica := ⟨.new 0, some (.init 0)⟩
    let e : LogEntry := ⟨1, 1, entryTypeConfig, Codec.marshalConfig ⟨"stable", ["b"], []⟩⟩
    isKVCommand e = false ∧ (r.apply e).sm.get "" = ("", 1, true) ∧
      (r.apply e).changeLog.map (fun hub => hub.log.history) = some [⟨"", "", "", 1, 1⟩] := by
  decide +kernel

end

end Cdc
