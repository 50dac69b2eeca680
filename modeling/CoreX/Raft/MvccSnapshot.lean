/-
CoreX/Raft/MvccSnapshot.lean

A machine that is restored from an MVCC snapshot, next to the one the snapshot was taken
from.  The payload has the versions and the latest numbers, and `lastApplied` travels
beside it; the conflicts nobody has asked for stay behind.

`apply` never reads those, so the two machines stay alike over any entries that follow
(`Restored`): the same commands take effect, the same conflicts come up, and the reads
answer the same.  The old conflicts are the only difference there is, and they lie
under indices of entries before the snapshot.

Of `encoding/json` it is assumed that it reads the payload of the snapshot back.
-/
import CoreX.Raft.CasOutcome
import CoreX.Raft.MvccReads

namespace Raft

open Outputs

namespace MVCCStateMachine

/-! ### Conflicts -/

section

variable [Codec]

/-- The version that `apply` reports for an entry that is a conflict. -/
def conflict (sm : MVCCStateMachine) (e : LogEntry) : Option Nat :=
  ((Codec.unmarshalCommand e.data).filter sm.conflicts).map fun cmd => sm.current cmd.key

/-- That of the `i`-th entry. -/
def conflictAt (sm : MVCCStateMachine) (es : List LogEntry) (i : Nat) : Option Nat :=
  outputAt (fun sm e => sm.apply e) (fun sm e => sm.conflict e) sm es i

variable {sm sm' : MVCCStateMachine} {e : LogEntry} {es : List LogEntry}

theorem conflictResults_apply (sm : MVCCStateMachine) (e : LogEntry) (index : Int) :
    (sm.apply e).conflictResults index =
      if index = e.index then (sm.conflict e).or (sm.conflictResults index)
      else sm.conflictResults index := by
  unfold apply conflict
  rcases Codec.unmarshalCommand e.data with - | cmd
  · show sm.conflictResults index = _
    split <;> rfl
  · dsimp only
    by_cases hc : sm.conflicts cmd = true
    · rw [if_pos hc, Option.filter_some_pos hc]
      exact Function.update_apply _ _ _ _
    · rw [if_neg hc, Option.filter_some_neg (by simpa using hc)]
      split <;> rfl

theorem conflictResults_applyAll_of_ne {index : Int} (h : ∀ e ∈ es, e.index ≠ index) :
    (sm.applyAll es).conflictResults index = sm.conflictResults index := by
  induction es using List.reverseRecOn with
  | nil => rfl
  | append_singleton es e ih =>
    have hne : index ≠ e.index := (h e (by simp)).symm
    rw [applyAll_concat, conflictResults_apply, if_neg hne]
    exact ih fun e' he' => h e' (List.mem_append_left _ he')

theorem Alike.conflict (h : Alike sm sm') (e : LogEntry) : sm.conflict e = sm'.conflict e := by
  rw [MVCCStateMachine.conflict, MVCCStateMachine.conflict, h.conflicts, h.current]

end

/-! ### The two machines -/

/-- `sm'` is `sm` up to conflicts from before the snapshot, those of `old`. -/
structure Restored (old : Int → Option Nat) (sm sm' : MVCCStateMachine) : Prop extends
    Alike sm sm' where
  lastApplied : sm.lastApplied = sm'.lastApplied
  conflictResults : ∀ index,
    sm.conflictResults index = (sm'.conflictResults index).or (old index)

namespace Restored

variable {old : Int → Option Nat} {sm sm' : MVCCStateMachine}

theorem restoreSnapshot [PayloadCodec] {fresh : MVCCStateMachine}
    (hjson : PayloadCodec.unmarshalPayload (PayloadCodec.marshalPayload
      ⟨sm.versions, sm.latest⟩) = some ⟨sm.versions, sm.latest⟩)
    (hret : fresh.retention = sm.retention) :
    ∃ sm', fresh.restoreSnapshot sm.takeSnapshot.1 sm.takeSnapshot.2 = some sm' ∧
      Restored sm.conflictResults sm sm' := by
  have hraw : sm.takeSnapshot.1.kv snapshotMVCCKey =
      some (PayloadCodec.marshalPayload ⟨sm.versions, sm.latest⟩) := by
    simp only [takeSnapshot, Function.update_self]
  refine ⟨{ fresh with
    versions := sm.versions
    latest := sm.latest
    conflictResults := fun _ => none
    lastApplied := sm.lastApplied }, ?_, ?_⟩
  · unfold MVCCStateMachine.restoreSnapshot
    rw [hraw]
    dsimp only
    rw [hjson]
    rfl
  · exact ⟨⟨rfl, rfl, hret.symm⟩, rfl, fun _ => rfl⟩

variable [Codec]

theorem apply (h : Restored old sm sm') (e : LogEntry) :
    Restored old (sm.apply e) (sm'.apply e) where
  toAlike := h.toAlike.apply e
  lastApplied := h.toAlike.lastApplied_apply h.lastApplied e
  conflictResults index := by
    rw [conflictResults_apply, conflictResults_apply, h.toAlike.conflict, h.conflictResults]
    split
    · rw [Option.or_assoc]
    · rfl

theorem applyAll (h : Restored old sm sm') (es : List LogEntry) :
    Restored old (sm.applyAll es) (sm'.applyAll es) := by
  induction es using List.reverseRecOn with
  | nil => exact h
  | append_singleton es e ih =>
    rw [applyAll_concat, applyAll_concat]
    exact ih.apply e

theorem outputAt_eq {β : Type*} {out : MVCCStateMachine → LogEntry → Option β}
    (hout : ∀ {sm sm' : MVCCStateMachine}, Alike sm sm' → ∀ e, out sm e = out sm' e)
    (h : Restored old sm sm') (es : List LogEntry) (i : Nat) :
    outputAt (fun sm e => sm.apply e) out sm es i =
      outputAt (fun sm e => sm.apply e) out sm' es i := by
  rw [outputAt, outputAt]
  congr 1
  funext e
  exact hout (h.applyAll (es.take i)).toAlike e

omit [Codec] in
theorem reads (h : Restored old sm sm') (key : String) :
    sm.get key = sm'.get key ∧
      ∀ version, sm.getVersion key version = sm'.getVersion key version := by
  constructor
  · rw [get, get, h.latest, h.versions]
  · intro version
    rw [getVersion, getVersion, h.versions]

end Restored

/-- **A restored machine cannot be told from the original.**  It has the same versions,
latest numbers and applied index.  Whatever entries follow, the same of them take effect
and the same are conflicts, the later indices answer the same to `IsCASConflict`, and the
reads agree. -/
theorem restored_is_original [Codec] [PayloadCodec] {r : Nat} {es : List LogEntry}
    {sm : MVCCStateMachine} (hsm : sm = (new r).applyAll es)
    (hjson : PayloadCodec.unmarshalPayload (PayloadCodec.marshalPayload
      ⟨sm.versions, sm.latest⟩) = some ⟨sm.versions, sm.latest⟩) :
    ∃ sm', (new r).restoreSnapshot sm.takeSnapshot.1 sm.takeSnapshot.2 = some sm' ∧
      sm.versions = sm'.versions ∧ sm.latest = sm'.latest ∧ sm.lastApplied = sm'.lastApplied ∧
      ∀ later,
        (∀ i, sm.effectAt later i = sm'.effectAt later i ∧
          sm.conflictAt later i = sm'.conflictAt later i) ∧
        (∀ index, (∀ e ∈ es, e.index ≠ index) →
          ((sm.applyAll later).isCASConflict index).2 =
            ((sm'.applyAll later).isCASConflict index).2) ∧
        (sm.applyAll later).lastApplied = (sm'.applyAll later).lastApplied ∧
        (∀ key, (sm.applyAll later).get key = (sm'.applyAll later).get key ∧
          ∀ version, (sm.applyAll later).getVersion key version =
            (sm'.applyAll later).getVersion key version) := by
  have hkeeps : Keeps r sm ((new r).effects es) := hsm ▸ Keeps.applyAll r es
  have hret : (new r).retention = sm.retention := hkeeps.retention.symm
  obtain ⟨sm', hrestore, hsame⟩ := Restored.restoreSnapshot hjson hret
  refine ⟨sm', hrestore, hsame.versions, hsame.latest, hsame.lastApplied, fun later => ?_⟩
  have hlater := hsame.applyAll later
  refine ⟨fun i => ⟨?_, ?_⟩, ?_, hlater.lastApplied, hlater.reads⟩
  · exact hsame.outputAt_eq Alike.effect later i
  · exact hsame.outputAt_eq Alike.conflict later i
  · intro index hindex
    have hold : sm.conflictResults index = none := by
      rw [hsm]
      exact conflictResults_applyAll_of_ne hindex
    show (sm.applyAll later).conflictResults index = (sm'.applyAll later).conflictResults index
    rw [hlater.conflictResults, hold, Option.or_none]

section

local instance snapshotCommands : Codec := Codec.conditional

local instance snapshotPayload : PayloadCodec := .single 2 "b"

/-- The second command meets the version it expects, the third comes too late. -/
def threeCommands : List LogEntry := (CommittedLog.ofTexts [setK, casK1, casK1]).entries

/-- What is left of them if one version is kept. -/
theorem payload_threeCommands :
    (⟨((new 1).applyAll threeCommands).versions, ((new 1).applyAll threeCommands).latest⟩ :
      MvccSnapshotPayload) = .single 2 "b" := by
  have hkeeps := Keeps.applyAll 1 threeCommands
  have hnone : ∀ key, key ≠ "k" → commandsOn key ((new 1).effects threeCommands) = [] := by
    intro key hkey
    rw [show (new 1).effects threeCommands =
      [⟨"set", "k", "a", 0⟩, ⟨"cas", "k", "b", 1⟩] by decide +kernel]
    simp [commandsOn, hkey.symm]
  refine congrArg₂ MvccSnapshotPayload.mk (funext fun key => ?_) (funext fun key => ?_)
  · by_cases hkey : key = "k"
    · subst hkey
      decide +kernel
    · rw [hkeeps.versions, hnone key hkey, Function.update_of_ne hkey]
      exact newest_nil
  · by_cases hkey : key = "k"
    · subst hkey
      decide +kernel
    · rw [hkeeps.latest, if_pos (hnone key hkey), Function.update_of_ne hkey]

/-- One version is kept, and there is a conflict after the snapshot. -/
theorem restored_is_original_trimmed :
    ∃ sm sm' : MVCCStateMachine, sm = (new 1).applyAll threeCommands ∧
      (new 1).restoreSnapshot sm.takeSnapshot.1 sm.takeSnapshot.2 = some sm' ∧
      sm'.conflictAt [⟨4, 1, 0, goString casK1⟩] 0 = some 2 ∧
      sm'.getVersion "k" 1 = ("", false) := by
  have hsm : (new 1).applyAll threeCommands = (new 1).applyAll threeCommands := rfl
  obtain ⟨sm', hrestore, _, _, _, hlater⟩ := restored_is_original hsm
    (by rw [payload_threeCommands]; exact if_pos rfl)
  refine ⟨_, sm', rfl, hrestore, ?_, ?_⟩
  · rw [← ((hlater _).1 0).2]
    decide +kernel
  · exact (((hlater []).2.2.2 "k").2 1).symm.trans (by decide +kernel)

end

end MVCCStateMachine

end Raft
