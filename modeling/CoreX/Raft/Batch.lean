/-
CoreX/Raft/Batch.lean

What `HandleAppendEntries` does to a log.  On a log whose indices are consecutive
the search functions are plain indexing (`entryAt_eq`, `termAt_eq`,
`lastEntry_index`).

`Cut src args` says that the batch of `args` was cut from the log `src`, the way
`sendHeartbeats` and `confirmLeadership` cut it.
-/
import CoreX.Lib.Indexed
import CoreX.Lib.TermLog
import CoreX.Raft.Static

namespace Raft

open TermLog

namespace RaftNode

variable {n : RaftNode}

/-! ### Reading a log with consecutive indices -/

/-- The log of `n` continues its snapshot without a gap. -/
def Contiguous (n : RaftNode) : Prop := Indexed LogEntry.index n.snapshotIndex n.log

theorem entryAt_eq {b : Int} (h : Indexed LogEntry.index b n.log) (hb : 0 ≤ b) (i : Int) :
    n.entryAt i = if b < i then n.log[(i - b - 1).toNat]? else none := by
  unfold entryAt
  split
  · next hcond =>
    have hcond' : i ≤ 0 ∨ n.log = [] := by simpa using hcond
    rcases hcond' with hi | hl
    · rw [if_neg (by omega)]
    · simp [hl]
  · exact h.find?_reverse i

theorem lastEntry_index (h : n.Contiguous) :
    n.lastEntry.1 = n.snapshotIndex + n.log.length := by
  unfold lastEntry
  split
  · next hl => simp [List.getLast?_eq_none_iff.mp hl]
  · next e he => exact h.getLast?_num he

theorem termAt_eq (h : n.Contiguous) (hb : 0 ≤ n.snapshotIndex) {i : Int}
    (hi : n.snapshotIndex < i) :
    n.termAt i = (n.log[(i - n.snapshotIndex - 1).toNat]?).map LogEntry.term := by
  unfold termAt
  rw [if_neg (by omega), entryAt_eq h hb, if_pos hi]
  split
  · next e he => rw [he]; rfl
  · next he => rw [he, if_neg (by omega)]; rfl

theorem cutSuffix_log (h : n.Contiguous) (i : Int) :
    (n.cutSuffix i).log = n.log.take (i - n.snapshotIndex - 1).toNat :=
  h.takeWhile_lt i

/-! ### What appending one entry leaves alone -/

variable [Codec] (e : LogEntry)

theorem applyConfigEntry_frame :
    (n.applyConfigEntry e).log = n.log ∧ (n.applyConfigEntry e).logStore = n.logStore ∧
      (n.applyConfigEntry e).commitIndex = n.commitIndex := by
  unfold applyConfigEntry
  split
  · exact ⟨rfl, rfl, rfl⟩
  · split
    · exact ⟨rfl, rfl, rfl⟩
    · split <;> exact ⟨rfl, rfl, rfl⟩

@[simp] theorem appendEntry_log : (n.appendEntry e).log = n.log ++ [e] := by
  unfold appendEntry
  split
  · exact (applyConfigEntry_frame e).1
  · rfl

@[simp] theorem appendEntry_logStore :
    (n.appendEntry e).logStore = n.logStore.map fun wal => wal ++ [.entry e] := by
  unfold appendEntry
  split
  · exact (applyConfigEntry_frame e).2.1
  · rfl

@[simp] theorem appendEntry_commitIndex :
    (n.appendEntry e).commitIndex = n.commitIndex := by
  unfold appendEntry
  split
  · exact (applyConfigEntry_frame e).2.2
  · rfl

@[simp] theorem appendEntry_snapshotIndex :
    (n.appendEntry e).snapshotIndex = n.snapshotIndex :=
  (logOnly_appendEntry e).snapshotIndex

end RaftNode

/-! ### Batches cut from a log -/

/-- The batch of `args` was cut from `src`: all of it, or what follows the
position `prevLogIndex`; or the position lies beyond `src`, which no receiver
accepts. -/
inductive Cut (src : List LogEntry) (args : AppendEntriesArgs) : Prop
  | whole (hp : args.prevLogIndex ≤ 0) (he : args.entries.map PbLogEntry.toEntry = src)
  | after (k : Nat) (x : LogEntry) (hp : args.prevLogIndex = k + 1) (hx : src[k]? = some x)
      (ht : args.prevLogTerm = x.term)
      (he : args.entries.map PbLogEntry.toEntry = src.drop (k + 1))
  | beyond (hp : 0 < args.prevLogIndex) (ht : args.prevLogTerm = 0) (he : args.entries = [])

namespace RaftNode

variable {n : RaftNode}

theorem map_toEntry_toPb (l : List LogEntry) :
    (l.map LogEntry.toPb).map PbLogEntry.toEntry = l := by
  simp [List.map_map, Function.comp_def]

theorem peerArgs_entries (h : n.Contiguous) (hsnap : n.snapshotIndex = 0) (term : Int)
    (addr : Addr) :
    (n.peerArgs term addr).args.entries.map PbLogEntry.toEntry
      = n.log.drop (n.nextOf addr - 1).toNat := by
  have hidx : Indexed LogEntry.index 0 n.log := hsnap ▸ h
  show ((n.log.filter _).map LogEntry.toPb).map PbLogEntry.toEntry = _
  rw [map_toEntry_toPb, hidx.filter_le]
  simp

theorem peerArgs_prevLogTerm (h : n.Contiguous) (hsnap : n.snapshotIndex = 0) (term : Int)
    {addr : Addr} {k : Nat} (hk : n.nextOf addr - 1 = k + 1) :
    (n.peerArgs term addr).args.prevLogTerm = ((n.log[k]?).map LogEntry.term).getD 0 := by
  show (if 0 < n.nextOf addr - 1 then (n.termAt (n.nextOf addr - 1)).getD 0 else 0) = _
  have hpos : (n.nextOf addr - 1 - n.snapshotIndex - 1).toNat = k := by omega
  rw [if_pos (by omega), termAt_eq h (by omega) (by omega), hpos]

theorem cut_peerArgs (h : n.Contiguous) (hsnap : n.snapshotIndex = 0) (term : Int) (addr : Addr) :
    Cut n.log (n.peerArgs term addr).args := by
  have hentries := peerArgs_entries h hsnap term addr
  by_cases hprev : 0 < n.nextOf addr - 1
  · obtain ⟨k, hk⟩ : ∃ k : Nat, n.nextOf addr - 1 = k + 1 := ⟨(n.nextOf addr - 2).toNat, by omega⟩
    have hterm := peerArgs_prevLogTerm h hsnap term hk
    have hdrop : (n.nextOf addr - 1).toNat = k + 1 := by omega
    rw [hdrop] at hentries
    rcases hx : n.log[k]? with - | x
    · refine .beyond hprev (by rw [hterm, hx]; rfl) ?_
      rw [List.drop_of_length_le (by rw [List.getElem?_eq_none_iff] at hx; omega)] at hentries
      simpa using hentries
    · exact .after k x hk hx (by rw [hterm, hx]; rfl) hentries
  · have hdrop : (n.nextOf addr - 1).toNat = 0 := by omega
    rw [hdrop, List.drop_zero] at hentries
    exact .whole (by show n.nextOf addr - 1 ≤ 0; omega) hentries

theorem cut_confirmArgs (h : n.Contiguous) (hsnap : n.snapshotIndex = 0) (term : Int) :
    Cut n.log (n.confirmArgs term) := by
  rcases hlast : n.log.getLast? with - | e
  · have hnil := List.getLast?_eq_none_iff.mp hlast
    have hprev : (n.confirmArgs term).prevLogIndex = 0 := by
      simp [confirmArgs, lastEntry, hlast, hsnap]
    exact .whole hprev.le (by rw [hnil]; rfl)
  · have hlen : 0 < n.log.length := List.length_pos_of_mem (List.mem_of_getLast? hlast)
    have hprev : (n.confirmArgs term).prevLogIndex = ((n.log.length - 1 : Nat) : Int) + 1 := by
      show n.lastEntry.1 = _
      rw [lastEntry_index h, hsnap]
      omega
    refine .after (n.log.length - 1) e hprev ?_ ?_ ?_
    · rw [← List.getLast?_eq_getElem?, hlast]
    · simp [confirmArgs, lastEntry, hlast]
    · rw [List.drop_of_length_le (by omega)]
      rfl

/-! ### Committing -/

theorem followCommit_cases (n : RaftNode) (leaderCommit : Int) :
    (n.followCommit leaderCommit).commitIndex = n.commitIndex ∨
      n.commitIndex < leaderCommit ∧ (n.followCommit leaderCommit).commitIndex =
        min leaderCommit (n.followCommit leaderCommit).lastEntry.1 := by
  unfold followCommit
  split
  · next hlt =>
    refine .inr ⟨hlt, ?_⟩
    show (if leaderCommit < n.lastEntry.1 then leaderCommit else n.lastEntry.1)
      = min leaderCommit n.lastEntry.1
    split <;> omega
  · exact .inl rfl

/-- Entries of one position and one term are the same, and so is what precedes
them. -/
def Matches (l src : List LogEntry) : Prop :=
  ∀ (k : Nat) (x y : LogEntry), l[k]? = some x → src[k]? = some y → x.term = y.term →
    l.take (k + 1) = src.take (k + 1)

variable [Codec]

theorem appendLoop_boundaries (f : Faults) (n : RaftNode) (i : Nat) (es : List PbLogEntry) :
    (appendLoop f n false i es).1.commitIndex = n.commitIndex ∧
      (appendLoop f n false i es).1.snapshotIndex = n.snapshotIndex := by
  refine appendLoop_keeps f (P := fun m => m.commitIndex = n.commitIndex ∧
    m.snapshotIndex = n.snapshotIndex) (fun _ _ h => h) (fun m e _ h => ?_) ⟨rfl, rfl⟩
  simpa using h

theorem handleAppendEntries_commit (n : RaftNode) (args : AppendEntriesArgs) (f : Faults) :
    (n.handleAppendEntries args f).1.commitIndex = n.commitIndex ∨
      (n.handleAppendEntries args f).2.success = true ∧ n.commitIndex < args.leaderCommit ∧
        (n.handleAppendEntries args f).1.commitIndex =
          min args.leaderCommit (n.handleAppendEntries args f).1.lastEntry.1 := by
  have hcommit : (n.acceptLeader args f).commitIndex = n.commitIndex := by
    obtain ⟨_, _, _, _, _, _, h⟩ := electionOnly_acceptLeader n args f
    rw [h]
  have hc := (appendLoop_boundaries f (n.acceptLeader args f) 0 args.entries).1
  rw [hcommit] at hc
  rcases handleAppendEntries_outcome n args f with
    ⟨_, heq⟩ | ⟨_, ⟨_, _, _, heq⟩ | ⟨_, m, ⟨hstop, heq⟩ | ⟨hdone, heq⟩⟩⟩
  · exact .inl (by rw [heq])
  · exact .inl (by rw [heq]; exact hcommit)
  · rw [hstop] at hc
    exact .inl (by rw [heq]; exact hc)
  · rw [hdone] at hc
    rw [heq]
    rcases followCommit_cases m args.leaderCommit with h | ⟨hlt, h⟩
    · exact .inl (h.trans hc)
    · exact .inr ⟨rfl, hc ▸ hlt, h⟩

end RaftNode

end Raft
