/-
CoreX/Raft/StoreFaults.lean

The log in memory and the log in the store when store operations fail.  A call of
`Propose` or `HandleAppendEntries` may stop at any `Append` or `TruncateSuffix`; the
batches are arbitrary, with gaps, repetitions or indices out of order.
-/
import CoreX.Raft.LogStore
import CoreX.Raft.Recovery
import CoreX.Raft.Replicate

namespace Raft

open StepSystem

/-! ### The store in memory -/

/-- One successful call of the store. -/
def MemLogStore.call (s : MemLogStore) : LogRecord → MemLogStore
  | .entry e => s.append e
  | .truncate fromIndex => s.truncateSuffix fromIndex

/-- A `MemLogStore` after the calls that the records stand for. -/
def memLogStore (wal : List LogRecord) : MemLogStore := wal.foldl MemLogStore.call ⟨[]⟩

theorem memLogStore_loadAll (wal : List LogRecord) : (memLogStore wal).loadAll = loadAll wal := by
  induction wal using List.reverseRecOn with
  | nil => rfl
  | append_singleton wal r ih =>
    have hcall : memLogStore (wal ++ [r]) = (memLogStore wal).call r := by
      rw [memLogStore, List.foldl_append]
      rfl
    rw [hcall]
    cases r with
    | entry e =>
      rw [loadAll_entry, ← ih]
      rfl
    | truncate i =>
      rw [loadAll_truncate, ← ih]
      rfl

namespace RaftNode

variable {n : RaftNode}

/-! ### Both logs at the same point -/

/-- The log in memory is what the store would load. -/
def InStep (n : RaftNode) : Prop := ∃ wal, n.logStore = some wal ∧ n.log = loadAll wal

theorem InStep.cutSuffix (h : n.InStep) (i : Int) : (n.cutSuffix i).InStep := by
  obtain ⟨wal, hwal, hlog⟩ := h
  refine ⟨wal ++ [.truncate i], ?_, ?_⟩
  · show n.logStore.map _ = _
    rw [hwal]
    rfl
  · rw [loadAll_truncate, ← hlog]
    rfl

variable [Codec]

theorem InStep.appendEntry (h : n.InStep) (e : LogEntry) : (n.appendEntry e).InStep := by
  obtain ⟨wal, hwal, hlog⟩ := h
  refine ⟨wal ++ [.entry e], ?_, ?_⟩
  · rw [appendEntry_logStore, hwal]
    rfl
  · rw [appendEntry_log, loadAll_entry, hlog]

theorem InStep.appendLoop (h : n.InStep) (f : Faults) (es : List PbLogEntry) :
    (appendLoop f n false 0 es).1.InStep := by
  exact appendLoop_keeps f (P := InStep) (fun _ i hm => hm.cutSuffix i)
    (fun _ e _ hm => hm.appendEntry e.toEntry) h

omit [Codec] in
theorem InStep.frame {n' : RaftNode} (h : n.InStep) (hlog : n'.log = n.log)
    (hstore : n'.logStore = n.logStore) : n'.InStep := by
  obtain ⟨wal, hwal, heq⟩ := h
  exact ⟨wal, hstore.trans hwal, hlog.trans heq⟩

theorem InStep.handleAppendEntries (h : n.InStep) (args : AppendEntriesArgs) (f : Faults) :
    (n.handleAppendEntries args f).1.InStep := by
  have hacc : (n.acceptLeader args f).InStep := by
    obtain ⟨_, _, _, _, _, _, heq⟩ := electionOnly_acceptLeader n args f
    rw [heq]
    exact h.frame rfl rfl
  exact handleAppendEntries_rule (P := InStep) h hacc (hacc.appendLoop f args.entries)
    fun _ _ hm => hm.frame rfl rfl

theorem commitIndex_of_rejected {args : AppendEntriesArgs} {f : Faults}
    (h : (n.handleAppendEntries args f).2.success = false) :
    (n.handleAppendEntries args f).1.commitIndex = n.commitIndex := by
  have hacc : (n.acceptLeader args f).commitIndex = n.commitIndex := by
    obtain ⟨_, _, _, _, _, _, heq⟩ := electionOnly_acceptLeader n args f
    rw [heq]
  have hloop := (appendLoop_boundaries f (n.acceptLeader args f) 0 args.entries).1
  rcases handleAppendEntries_outcome n args f with
    ⟨_, heq⟩ | ⟨_, ⟨c, t, _, heq⟩ | ⟨_, n₂, ⟨hstop, heq⟩ | ⟨_, heq⟩⟩⟩
  · rw [heq]
  · rw [heq]
    exact hacc
  · rw [heq]
    rw [hstop] at hloop
    exact hloop.trans hacc
  · rw [heq] at h
    cases h

/-! ### Sequences of calls -/

/-- A call that may stop at a store operation; between two calls the node may take
part in elections. -/
inductive LogCall
  | propose (data : Bytes) (f : Faults)
  | appendEntries (args : AppendEntriesArgs) (f : Faults)
  | elections (role : RaftRole) (term : Int) (vote : NodeID)

def callStep (n : RaftNode) : LogCall → Option RaftNode
  | .propose data f => some (n.propose data f).1
  | .appendEntries args f => some (n.handleAppendEntries args f).1
  | .elections role term vote =>
      some { n with role := role, currentTerm := term, votedFor := vote }

theorem InStep.step {n' : RaftNode} {c : LogCall} (h : n.InStep) (hs : n.callStep c = some n') :
    n'.InStep := by
  cases c with
  | propose data f =>
    obtain rfl := Option.some.inj hs
    show (n.proposeEntry entryTypeCommand data f).1.InStep
    rcases n.proposeEntry_outcome entryTypeCommand data f with heq | ⟨-, heq⟩
    · rw [heq]
      exact h
    · rw [heq]
      exact h.appendEntry _
  | appendEntries args f =>
    obtain rfl := Option.some.inj hs
    exact h.handleAppendEntries args f
  | elections role term vote =>
    obtain rfl := Option.some.inj hs
    exact h.frame rfl rfl

/-- **Failing stores never split memory from disk.**  After any sequence of calls the
log in memory is what the store loads, whichever store it is; a proposal that is
refused appends nothing, in neither log, and a request that is not answered with
success commits nothing. -/
theorem store_faults_in_step (id : NodeID) (boot : Option (List Addr))
    (metaStore : Option RaftMeta) (wal : List LogRecord)
    (hrun : Runs callStep (fun _ _ => True) (newRaftNode id boot metaStore (some wal)) n) :
    (∃ wal', n.logStore = some wal' ∧ n.log = loadAll wal' ∧
      n.log = (memLogStore wal').loadAll) ∧
    (∀ data f, (n.propose data f).2.2.2 = false → (n.propose data f).1 = n) ∧
    (∀ args f, (n.handleAppendEntries args f).2.success = false →
      (n.handleAppendEntries args f).1.commitIndex = n.commitIndex) := by
  have h0 : (newRaftNode id boot metaStore (some wal)).InStep := by
    obtain ⟨hlog, hstore, _⟩ := newRaftNode_record id boot metaStore wal
    exact ⟨wal, hstore, hlog⟩
  obtain ⟨wal', hstore, hlog⟩ := hrun.invariant (fun _ _ _ hm hs _ => hm.step hs) h0
  refine ⟨⟨wal', hstore, hlog, ?_⟩, fun data f hno => ?_, fun args f => commitIndex_of_rejected⟩
  · rw [memLogStore_loadAll, hlog]
  · rcases n.proposeEntry_outcome entryTypeCommand data f with heq | ⟨-, heq⟩
    · rw [propose, heq]
    · rw [propose, heq] at hno
      cases hno

end RaftNode

section

local instance storeFaultsCodec : Codec := Codec.silent

open RaftNode

/-- A batch that conflicts at its first entry and fails at its second, a refused
proposal, and one that is appended. -/
def faultyCalls : List LogCall :=
  [.appendEntries ⟨2, "l", 1, 1, [⟨2, 2, 0, [5]⟩, ⟨3, 2, 0, [6]⟩], 3⟩
      ⟨false, false, false, some 1⟩,
    .elections .leader 3 "f", .propose [7] ⟨false, false, false, some 0⟩, .propose [8] Faults.none]

theorem store_faults_in_step_mixed :
    ∃ n, Runs callStep (fun _ _ => True)
        (newRaftNode "f" none none (some [.entry ⟨1, 1, 0, []⟩, .entry ⟨2, 1, 0, [4]⟩])) n ∧
      (n.log = [⟨1, 1, 0, []⟩, ⟨2, 2, 0, [5]⟩, ⟨3, 3, 0, [8]⟩] ∧ n.commitIndex = 0) ∧
      ∃ wal', n.logStore = some wal' ∧ n.log = loadAll wal' := by
  refine Runs.exists_and_of_exec faultyCalls (by decide +kernel) fun n hrun _ => ?_
  obtain ⟨⟨wal', hstore, hload, _⟩, _⟩ := store_faults_in_step "f" none none _ hrun
  exact ⟨wal', hstore, hload⟩

end

end Raft
