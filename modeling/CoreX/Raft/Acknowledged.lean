/-
CoreX/Raft/Acknowledged.lean

What a client is told.  A handler proposes a command, keeps the index that
`Propose` returns and drops the term; `WaitForIndex` then waits for that index,
whatever entry comes to stand there.  If the leader is deposed and its entry
replaced, the client is told that its command was applied although another one
was (`foreign_write_acknowledged`).

There are more ways to be told so wrongly: an index that the state machine had passed
already when it was given out, a snapshot that is restored over it, a write that
fails and is passed over by the next entry.  `Process.ownWrites` excludes these: no
batch that disagrees with the log up to an index that is waited for, no index that is
given out twice.  Then a 204 means that the client's own entry is the one that the
cluster has committed at its index, and was applied (`acknowledged_write_is_own`).
-/
import CoreX.Raft.Deployment

namespace Raft

open StepSystem TermLog

/-! ### What stays in a log -/

/-- The change that is about to be made to the record leaves the entry at index `i` in
its place: a batch agrees with the log up to there, a log is compacted below it. -/
def RaftNode.keepsAt (n : RaftNode) (i : Int) : RecordEvent → Bool
  | .batch args => decide (args.term < n.currentTerm) || args.entries.all fun e =>
      decide (i < e.index) || (n.entryAt e.index).all fun x => x.term == e.term
  | .fast args => decide (args.lastIncludedIndex < i)
  | .discard _ _ | .restart => false
  | .truncate m => decide (m.index < i)
  | _ => true

namespace RaftNode.Covers

variable {n : RaftNode} {past : List LogEntry} {i : Int} {e : LogEntry}

theorem entryAt_of_getElem? (h : Covers n past) (hi : n.snapshotIndex < i)
    (he : (past ++ n.log)[(i - 1).toNat]? = some e) : n.entryAt i = some e := by
  have hb := h.nonneg
  rw [← h.entryAt_whole hi, entryAt_eq h.whole_contiguous le_rfl]
  show (if 0 < i then (past ++ n.log)[(i - 0 - 1).toNat]? else none) = some e
  rw [if_pos (by omega), Int.sub_zero]
  exact he

theorem entryAt_spliced [Codec] {m : RaftNode} {es : List PbLogEntry} {all : Bool}
    (h : Covers n past) (hs : Spliced n es all m) (he : n.entryAt i = some e)
    (hkeep : ∀ y ∈ es, ∀ x, n.entryAt y.index = some x → x.term ≠ y.term → i < y.index) :
    m.entryAt i = some e := by
  obtain ⟨hcont, hsi, _⟩ := hs.contiguous h.contiguous h.nonneg
  obtain ⟨hlo, hget⟩ := lt_of_entryAt h.contiguous h.nonneg he
  have hlt := (List.getElem?_eq_some_iff.mp hget).1
  rw [entryAt_eq hcont (hsi ▸ h.nonneg), hsi, if_pos hlo]
  cases hs with
  | grown added => rw [appendAll_log, List.getElem?_append_left hlt, hget]
  | replaced y x added hx ht _ skipped hy =>
    have hi := hkeep y (hy.subset (by simp)) x hx ht
    rw [appendAll_log, cutSuffix_log h.contiguous,
      List.getElem?_append_left (by rw [List.length_take]; omega),
      List.getElem?_take_of_lt (by omega), hget]

theorem entryAt_handleAppendEntries [Codec] (h : Covers n past) {src : List LogEntry}
    {args : AppendEntriesArgs} (f : Faults) (hfit : n.snapshotIndex = 0 ∨ n.placeFits args = true)
    (hpos : ∀ e ∈ past ++ n.log, 0 < e.term) (hsrc : Indexed LogEntry.index 0 src)
    (hcut : Cut src args) (hmatch : Matches (past ++ n.log) src) (he : n.entryAt i = some e)
    (hkeep : n.keepsAt i (.batch args) = true) :
    (n.handleAppendEntries args f).1.entryAt i = some e := by
  rcases h.handleAppendEntries_spliced f hfit hpos hsrc hcut hmatch with
    ⟨hlog, _⟩ | ⟨hterm, n₁, n₂, _, hcov, hlog₁, _, _, hspl, hlog⟩
  · rw [entryAt, hlog]
    exact he
  · simp only [keepsAt, hterm, decide_false, Bool.false_or, List.all_eq_true, Bool.or_eq_true,
      decide_eq_true_eq] at hkeep
    have hat : ∀ j, n₁.entryAt j = n.entryAt j := fun j => by rw [entryAt, hlog₁, entryAt]
    rw [entryAt, hlog]
    refine hcov.entryAt_spliced hspl ((hat i).trans he) fun y hy x hx ht => ?_
    refine (hkeep y hy).resolve_right fun hsame => ht ?_
    simpa [(hat y.index).symm.trans hx] using hsame

end RaftNode.Covers

theorem mem_follow [Codec] {C : Cluster} {w : World} {past : Past} {a : Addr} {act : Act} {i : Int}
    {e : LogEntry} (hkeep : (w a).raft.keepsAt i ((w a).recordEvent act) = true)
    (he : e ∈ past.follow C w (a, act) a) : e ∈ past a ∨ e.index < i := by
  have htake : ∀ {j}, e ∈ (w a).raft.log.takeWhile (fun e => e.index ≤ j) → j < i →
      e.index < i := by
    intro j he hlt
    have hle := of_decide_eq_true (List.all_eq_true.mp List.all_takeWhile e he)
    omega
  rcases hev : (w a).recordEvent act with - | args | args | ⟨args, data⟩ | _ | _ | _ | m | -
  case discard | restart =>
    rw [hev] at hkeep
    cases hkeep
  all_goals
    rw [hev] at hkeep
    simp only [Past.follow, hev, Past.next, Function.update_self, Node.compacted, List.append_nil,
      List.mem_append] at he
  case fast | truncate => exact he.imp_right fun he => htake he (of_decide_eq_true hkeep)
  all_goals exact .inl he

theorem Committed.keeps [Codec] {C : Cluster} {K : List LogEntry → Prop} {w : World} {past : Past}
    {s : Abs} (h : Committed C K (w, past) s) {a : Addr} {act : Act} {x' : Node}
    (havail : w.available a act = true) (hx : (w a).step act = some x')
    (htest : followTest C (w, past) a ((w a).recordEvent act) = true) {i : Int}
    {e : LogEntry} (he : (w a).raft.entryAt i = some e)
    (hkeep : (w a).raft.keepsAt i ((w a).recordEvent act) = true) :
    x'.raft.entryAt i = some e := by
  have hcov : (w a).raft.Covers (past a) := (h.tracks.sim.node a).covers
  have hi := h.tracks.inv
  obtain ⟨hpos, hget⟩ := hcov.getElem?_of_entryAt he
  have hidx := (RaftNode.mem_of_entryAt he).2
  have hsnap := (RaftNode.lt_of_entryAt hcov.contiguous hcov.nonneg he).1
  have hf := follow_step (C := C) hcov hx htest
  generalize hp : past.follow C w (a, act) a = p' at hf
  cases hf with
  | replaced args data b hev hrole hb hr =>
    rw [hev] at hkeep
    cases hkeep
  | history _ hh =>
    -- what the snapshot covers after the section ends below the entry
    have hkept : x'.raft.Covers p' → (past a ++ (w a).raft.log) <+: p' ++ x'.raft.log →
        x'.raft.entryAt i = some e := by
      intro hc hpre
      have hget' : (p' ++ x'.raft.log)[(i - 1).toNat]? = some e := by
        rw [getElem?_of_prefix_of_lt hpre (List.getElem?_eq_some_iff.mp hget).1]
        exact hget
      refine hc.entryAt_of_getElem? ?_ hget'
      by_contra hge
      have hlen := hc.length
      rw [List.getElem?_append_left (by omega)] at hget'
      have hmem := List.mem_of_getElem? hget'
      rw [← hp] at hmem
      rcases mem_follow hkeep hmem with hmem | hlt
      · have := hcov.past_le e hmem
        omega
      · omega
    cases hh with
    | same hc heq => exact hkept hc (heq ▸ List.prefix_rfl)
    | proposed type data _ _ _ _ hc heq => exact hkept hc (heq ▸ List.prefix_append _ _)
    | batch c args f hact hreq hfit hpast hr =>
      obtain ⟨f', rfl⟩ := hact
      have hsent : c ∈ (w c.src).sent := by simpa [World.available] using havail
      have hcall := (h.tracks.sim.node c.src).sent c hsent
      rw [hreq] at hcall
      obtain ⟨_, src, hvalid, hcut, _⟩ := hcall
      rw [hr]
      refine hcov.entryAt_handleAppendEntries f hfit (h.tracks.sim.term_pos hi)
        (hi.numbered_of_valid hvalid) hcut (h.tracks.sim.matches hi hvalid) he ?_
      simpa [Node.recordEvent, hreq] using hkeep
/-! ### What `runApplyLoop` collects -/

namespace RaftNode

variable {n : RaftNode} {e : LogEntry}

theorem mem_collectApply_iff :
    e ∈ n.collectApply.2 ↔ n.lastApplied < e.index ∧ e.index ≤ n.commitIndex ∧
      n.entryAt e.index = some e := by
  unfold collectApply
  split
  · next hle =>
    refine ⟨fun h => absurd h List.not_mem_nil, fun h => ?_⟩
    omega
  · next hlt =>
    simp only [List.mem_filterMap, List.mem_range]
    constructor
    · rintro ⟨k, hk, he⟩
      have hidx := (mem_of_entryAt he).2
      refine ⟨by omega, by omega, ?_⟩
      rw [hidx]
      exact he
    · rintro ⟨hlo, hhi, he⟩
      refine ⟨(e.index - n.lastApplied - 1).toNat, by omega, ?_⟩
      rw [show n.lastApplied + 1 + ((e.index - n.lastApplied - 1).toNat : Int) = e.index by omega]
      exact he

theorem sorted_collectApply : n.collectApply.2.Pairwise fun x y => x.index < y.index := by
  unfold collectApply
  split
  · exact List.Pairwise.nil
  · rw [List.pairwise_filterMap]
    refine List.pairwise_lt_range.imp ?_
    intro i j hij x hx y hy
    have hxi := (mem_of_entryAt hx).2
    have hyj := (mem_of_entryAt hy).2
    omega

theorem collectApply_frame (n : RaftNode) : n.collectApply.1.log = n.log ∧
    n.collectApply.1.sm = n.sm ∧ n.collectApply.1.commitIndex = n.commitIndex ∧
    n.lastApplied ≤ n.collectApply.1.lastApplied ∧
    (n.lastApplied < n.collectApply.1.lastApplied →
      n.collectApply.1.lastApplied = n.commitIndex) := by
  unfold collectApply
  split
  · exact ⟨rfl, rfl, rfl, le_rfl, fun h => absurd h (lt_irrefl _)⟩
  · exact ⟨rfl, rfl, rfl, by dsimp only; omega, fun _ => rfl⟩

theorem entryAt_congr {n' : RaftNode} (h : n'.log = n.log) (i : Int) :
    n'.entryAt i = n.entryAt i := by
  rw [entryAt, entryAt, h]

theorem entryAt_append {n' : RaftNode} (h : n'.log = n.log ++ [e]) (i : Int) :
    n'.entryAt i = if 0 < i ∧ i = e.index then some e else n.entryAt i := by
  have hne : (n.log ++ [e]).isEmpty = false := by
    cases n.log <;> rfl
  rw [entryAt, h, hne, List.reverse_append]
  simp only [Bool.or_false, decide_eq_true_eq]
  by_cases hpos : i ≤ 0
  · rw [if_pos hpos, if_neg (by omega), entryAt, if_pos (by simp [hpos])]
  · rw [if_neg hpos]
    by_cases hi : i = e.index
    · rw [if_pos ⟨by omega, hi⟩]
      exact List.find?_cons_of_pos (by simp [hi])
    · rw [if_neg fun hc => hi hc.2, entryAt]
      show (e :: n.log.reverse).find? _ = _
      rw [List.find?_cons_of_neg (by simpa using fun hc => hi hc.symm)]
      by_cases hlog : n.log = []
      · simp [hlog]
      · rw [if_neg (by simp [hlog, hpos])]

theorem propose_spec [Codec] (n : RaftNode) (data : Bytes) (f : Faults) :
    (n.propose data f).2.2.2 = false ∧ (n.propose data f).1 = n ∨
      (n.propose data f).2.2.2 = true ∧ (n.propose data f).1.log = n.log ++
        [⟨(n.propose data f).2.1, (n.propose data f).2.2.1, entryTypeCommand, data⟩] := by
  unfold propose
  rcases n.proposeEntry_outcome entryTypeCommand data f with heq | ⟨-, heq⟩
  · rw [heq]
    exact .inl ⟨rfl, rfl⟩
  · rw [heq]
    exact .inr ⟨rfl, appendEntry_log _⟩

end RaftNode

namespace Process

variable (p : Process)

/-! ### Queues and waiting writes -/

/-- The entries that the given state machine is still to get. -/
def queueOf : Backend → List LogEntry
  | .kv => p.kvCh ++ p.node.queue
  | .mvcc => p.mvccCh ++ (p.fan.toList ++ p.node.queue)

/-- The entries that the given state machine has applied. -/
def appliedOf : Backend → List LogEntry
  | .kv => p.applied
  | .mvcc => p.mvccApplied

/-- The node has taken the client's own entry for committed, and it was applied. -/
def Arrived (w : Write) : Prop := w.entry ∈ p.committed ∧ w.entry ∈ p.appliedOf w.backend

/-- What a handler finds when `WaitForIndex` returns. -/
def Ready (w : Write) : Prop :=
  p.Arrived w ∨ w.backend = .mvcc ∧ (p.mvcc.conflictResults w.entry.index).isSome = true

section

variable [Codec]

/-- The section leaves the entries alone that somebody waits for and
`runApplyLoop` has not collected. -/
def keepsAwaited (act : Act) : Bool :=
  p.writes.all fun w => decide (w.entry.index ≤ p.node.raft.lastApplied) ||
    p.node.raft.keepsAt w.entry.index (p.node.recordEvent act)

/-- The key-value machine may be set to `index`: it jumps over no write that waits. -/
def jumpsOverNone (index : Int) : Bool :=
  p.writes.all fun w => decide (w.backend = .mvcc) || decide (index < w.entry.index) ||
    decide (w.entry.index ≤ p.kvApplied)

/-- Somebody waits for the key-value machine to apply `index`. -/
def awaited (index : Int) : Bool :=
  p.writes.any fun w => decide (w.backend = .kv) && decide (w.entry.index = index)

/-- Nobody is woken by another's entry, as long as the log keeps the entries that somebody
waits for: a restored snapshot jumps over none; an index is given out
only if it was never used before; the write of an awaited entry does not fail. -/
def wakesOwners : ProcessAct → Bool
  | .node act =>
      match p.restoring act with
      | some (args, _) => p.jumpsOverNone args.lastIncludedIndex
      | none => true
  | .request _ data f =>
      let r := p.node.raft.propose data f
      !r.2.2.2 || decide (p.node.raft.lastApplied < r.2.1) && decide (p.kvApplied < r.2.1) &&
        p.writes.all fun w => decide (w.entry.index ≠ r.2.1)
  | .kvWrite r =>
      match p.kvCh with
      | e :: _ => !writeFails e r || !p.awaited e.index
      | [] => true
  | _ => true

/-- Nobody is woken by another's entry: the log, too, keeps the entry of a waiting write
until it is collected. -/
def ownWrites (a : ProcessAct) : Bool :=
  p.wakesOwners a && match a with
    | .node act => p.keepsAwaited act
    | _ => true

/-- A write whose handler has not answered: the state machine will find its entry, or
has found it. -/
structure Waits (p : Process) (w : Write) : Prop where
  wf : wellFormed w.entry = true
  log : p.node.raft.lastApplied < w.entry.index →
    p.node.raft.entryAt w.entry.index = some w.entry
  queue : ∀ x ∈ p.queueOf w.backend, x.index = w.entry.index → x = w.entry
  done : w.entry.index ≤ p.appliedIndex w.backend ∨ w.stage = .returned → p.Ready w
  storing : w.backend = .kv → ∀ x, p.storing = some x →
    (x.index = w.entry.index → x = w.entry) ∧ (w.entry.index < x.index → p.Arrived w)
  collected : w.entry.index ≤ p.node.raft.lastApplied →
    w.entry ∈ p.queueOf w.backend ∨ p.Ready w

/-- What is committed at the node is on record. -/
def Noted (p : Process) : Prop :=
  ∀ e ∈ p.node.raft.log, e.index ≤ p.node.raft.commitIndex → e ∈ p.committed

/-- The queues hold committed entries that were collected, in order; every waiting
write is on its way, and every answered one arrived. -/
structure AckInv (p : Process) : Prop where
  hasSM : p.node.raft.sm.isSome = true
  reader : p.node.consumed ≤ p.node.emitted.length
  nonneg : 0 ≤ p.node.raft.lastApplied
  queues : ∀ b, ∀ e ∈ p.queueOf b, e.index ≤ p.node.raft.lastApplied ∧ e ∈ p.committed
  storing : ∀ e, p.storing = some e →
    e.index ≤ p.node.raft.lastApplied ∧ e ∈ p.committed ∧ e ∈ p.applied
  sorted : ∀ b, (p.queueOf b).Pairwise fun x y => x.index < y.index
  mvcc : p.mvcc.lastApplied ≤ p.node.raft.lastApplied
  conflicts : ∀ i, (p.mvcc.conflictResults i).isSome = true → i ≤ p.node.raft.lastApplied
  writes : ∀ w ∈ p.writes, Waits p w
  distinct : p.writes.Pairwise fun v w => v.entry.index ≠ w.entry.index
  answered : ∀ w ∈ p.answered, p.Arrived w

variable {p} {p' : Process} {w w' : Write}

/-! ### Frames -/

omit [Codec] in
theorem Arrived.mono (h : p.Arrived w) (hc : ∀ e ∈ p.committed, e ∈ p'.committed)
    (ha : ∀ b, ∀ e ∈ p.appliedOf b, e ∈ p'.appliedOf b) : p'.Arrived w :=
  ⟨hc _ h.1, ha _ _ h.2⟩

omit [Codec] in
theorem Ready.own (h : p.Ready w)
    (hc : w.backend = .kv ∨ p.mvcc.conflictResults w.entry.index = none) : p.Arrived w := by
  rcases h with ho | ⟨hb, hsome⟩
  · exact ho
  · rcases hc with hkv | hnone
    · rw [hb] at hkv
      cases hkv
    · rw [hnone] at hsome
      cases hsome

theorem Waits.stage (h : Waits p w) (stage : WaitStage)
    (hs : stage = .returned → p.Ready w) : Waits p { w with stage := stage } where
  wf := h.wf
  log := h.log
  queue := h.queue
  done := by
    rintro (hle | hst)
    · exact h.done (.inl hle)
    · exact hs hst
  storing := h.storing
  collected := h.collected

theorem Waits.frame (h : Waits p w)
    (hlog : p'.node.raft.lastApplied < w.entry.index →
      p'.node.raft.entryAt w.entry.index = some w.entry)
    (hle : w.entry.index ≤ p'.node.raft.lastApplied →
      w.entry ∈ p'.queueOf w.backend ∨ w.entry.index ≤ p.node.raft.lastApplied)
    (hq : ∀ x ∈ p'.queueOf w.backend, x ∈ p.queueOf w.backend ∨
      (x.index = w.entry.index → x = w.entry))
    (hkeep : w.entry ∈ p.queueOf w.backend → w.entry ∈ p'.queueOf w.backend ∨ p'.Ready w)
    (hap : w.entry.index ≤ p'.appliedIndex w.backend →
      w.entry.index ≤ p.appliedIndex w.backend ∨ p'.Ready w)
    (hst : w.backend = .kv → ∀ x, p'.storing = some x → p.storing = some x ∨
      (x.index = w.entry.index → x = w.entry) ∧ (w.entry.index < x.index → p'.Arrived w))
    (hready : p.Ready w → p'.Ready w) (hown : p.Arrived w → p'.Arrived w) : Waits p' w where
  wf := h.wf
  log := hlog
  queue x hx hidx := by
    rcases hq x hx with hold | hnew
    · exact h.queue x hold hidx
    · exact hnew hidx
  done := by
    rintro (happ | hret)
    · rcases hap happ with hold | hnew
      · exact hready (h.done (.inl hold))
      · exact hnew
    · exact hready (h.done (.inr hret))
  storing hkv x hx := by
    rcases hst hkv x hx with hold | hnew
    · obtain ⟨hsame, hpass⟩ := h.storing hkv x hold
      exact ⟨hsame, fun hlt => hown (hpass hlt)⟩
    · exact hnew
  collected hidx := by
    rcases hle hidx with hnew | hold
    · exact .inl hnew
    · rcases h.collected hold with hmem | hr
      · exact hkeep hmem
      · exact .inr (hready hr)

omit [Codec] in
theorem queueOf_congr (hn : p'.node.queue = p.node.queue) (hkv : p'.kvCh = p.kvCh)
    (hmv : p'.mvccCh = p.mvccCh) (hf : p'.fan = p.fan) (b : Backend) :
    p'.queueOf b = p.queueOf b := by
  cases b with
  | kv => rw [queueOf, queueOf, hn, hkv]
  | mvcc => rw [queueOf, queueOf, hn, hmv, hf]

theorem AckInv.update (h : AckInv p) (hn : p'.node = p.node)
    (hq : ∀ b, p'.queueOf b = p.queueOf b) (hst : p'.storing = p.storing)
    (hc : ∀ e ∈ p.committed, e ∈ p'.committed) (ha : ∀ b, p'.appliedOf b = p.appliedOf b)
    (hla : p'.mvcc.lastApplied = p.mvcc.lastApplied)
    (hcf : ∀ i, (p'.mvcc.conflictResults i).isSome = true →
      (p.mvcc.conflictResults i).isSome = true)
    (hw : ∀ w' ∈ p'.writes, ∃ w ∈ p.writes, ∃ stage, w' = { w with stage := stage } ∧
      p'.mvcc.conflictResults w.entry.index = p.mvcc.conflictResults w.entry.index ∧
      (stage = .returned → w.stage = .returned ∨ p.Ready w))
    (hd : p'.writes.Pairwise fun v w => v.entry.index ≠ w.entry.index)
    (hans : ∀ w ∈ p'.answered, p.Arrived w) : AckInv p' := by
  have hown : ∀ w, p.Arrived w → p'.Arrived w := fun w hw =>
    hw.mono hc fun b e he => by rw [ha b]; exact he
  refine ⟨by rw [hn]; exact h.hasSM, by rw [hn]; exact h.reader, by rw [hn]; exact h.nonneg,
    fun b e he => ?_, fun e he => ?_, fun b => by rw [hq]; exact h.sorted b,
    by rw [hn, hla]; exact h.mvcc,
    fun i hi => ?_, fun w' hw' => ?_, hd, fun w hw => hown w (hans w hw)⟩
  · rw [hq] at he
    rw [hn]
    exact ⟨(h.queues b e he).1, hc e (h.queues b e he).2⟩
  · rw [hst] at he
    obtain ⟨hle, hcom, happ⟩ := h.storing e he
    rw [hn]
    refine ⟨hle, hc e hcom, ?_⟩
    show e ∈ p'.appliedOf .kv
    rw [ha]
    exact happ
  · rw [hn]
    exact h.conflicts i (hcf i hi)
  · obtain ⟨w, hmem, stage, rfl, hcon, hret⟩ := hw w' hw'
    have hwait := h.writes w hmem
    have hready : p.Ready w → p'.Ready w := by
      rintro (ho | ⟨hb, hc'⟩)
      · exact .inl (hown w ho)
      · exact .inr ⟨hb, by rw [hcon]; exact hc'⟩
    have hap : p'.appliedIndex w.backend = p.appliedIndex w.backend := by
      cases w.backend with
      | kv =>
        show p'.kvApplied = p.kvApplied
        rw [kvApplied, kvApplied, hn]
      | mvcc => exact hla
    have hwait' : Waits p' w := hwait.frame (by rw [hn]; exact hwait.log)
      (by rw [hn]; exact .inr) (by rw [hq]; exact fun x hx => .inl hx)
      (by rw [hq]; exact .inl) (by rw [hap]; exact .inl) (by rw [hst]; exact fun _ x hx => .inl hx)
      hready (hown w)
    exact hwait'.stage stage fun hs => by
      rcases hret hs with hold | hnew
      · exact hwait'.done (.inr hold)
      · exact hready hnew

theorem AckInv.wake (h : AckInv p) (b : Backend) (woken : Int → Bool)
    (hready : ∀ w ∈ p.writes, w.backend = b → woken w.entry.index = true → p.Ready w) :
    AckInv (p.wake b woken) := by
  refine h.update rfl (fun b => queueOf_congr rfl rfl rfl rfl b) rfl (fun _ he => he)
    (fun b => by cases b <;> rfl) rfl (fun _ hi => hi) ?_ ?_ h.answered
  · intro w' hw'
    obtain ⟨w, hw, rfl⟩ := List.mem_map.mp hw'
    by_cases hc : w.stage = .waiting ∧ w.backend = b ∧ woken w.entry.index = true
    · exact ⟨w, hw, .returned, if_pos hc, rfl, fun _ => .inr (hready w hw hc.2.1 hc.2.2)⟩
    · exact ⟨w, hw, w.stage, if_neg hc, rfl, .inl⟩
  · show (p.writes.map _).Pairwise _
    rw [List.pairwise_map]
    refine h.distinct.imp ?_
    intro v w hne
    have hsame : ∀ u : Write, (if u.stage = .waiting ∧ u.backend = b ∧ woken u.entry.index then
        { u with stage := .returned } else u).entry = u.entry := by
      intro u
      split <;> rfl
    rw [hsame, hsame]
    exact hne

theorem AckInv.note (h : AckInv p) : AckInv p.noteCommitted ∧ Noted p.noteCommitted := by
  constructor
  · refine h.update rfl (fun b => queueOf_congr rfl rfl rfl rfl b) rfl
      (fun e he => List.mem_append_left _ he) (fun b => by cases b <;> rfl) rfl (fun _ hi => hi)
      (fun w hw => ⟨w, hw, w.stage, rfl, rfl, .inl⟩) h.distinct h.answered
  · intro e he hle
    by_cases hold : e ∈ p.committed
    · exact List.mem_append_left _ hold
    · have hle' : e.index ≤ p.node.raft.commitIndex := hle
      exact List.mem_append_right _ (List.mem_filter.mpr ⟨he, by simp [hle', hold]⟩)

/-! ### The node -/

omit [Codec] in
theorem kvApplied_node {s : Node} (h : s.raft.sm = p.node.raft.sm) :
    ({ p with node := s } : Process).kvApplied = p.kvApplied := by
  show (s.raft.sm.map _).getD 0 = (p.node.raft.sm.map _).getD 0
  rw [h]

theorem AckInv.node_keep (h : AckInv p) {s : Node} (hsome : s.raft.sm.isSome = true)
    (hreader : s.consumed ≤ s.emitted.length) (hq : s.queue = p.node.queue)
    (hla : s.raft.lastApplied = p.node.raft.lastApplied ∨
      p.node.raft.lastApplied ≤ s.raft.lastApplied ∧ s.raft.log = [])
    (hkept : ∀ w ∈ p.writes, w.entry.index ≤ p.node.raft.lastApplied ∨
      s.raft.entryAt w.entry.index = some w.entry)
    (hkv : ∀ w ∈ p.writes, w.backend = .kv →
      w.entry.index ≤ ({ p with node := s } : Process).kvApplied → w.entry.index ≤ p.kvApplied) :
    AckInv { p with node := s } := by
  have hmono : p.node.raft.lastApplied ≤ s.raft.lastApplied := by
    rcases hla with heq | ⟨hle, _⟩
    · exact heq.ge
    · exact hle
  have hqueue : ∀ b, ({ p with node := s } : Process).queueOf b = p.queueOf b :=
    queueOf_congr hq rfl rfl rfl
  -- a section that raises `lastApplied` in another way empties the log
  have hcases : ∀ w ∈ p.writes, w.entry.index ≤ p.node.raft.lastApplied ∨
      s.raft.lastApplied = p.node.raft.lastApplied ∧
        s.raft.entryAt w.entry.index = some w.entry := by
    intro w hw
    rcases hkept w hw with hle | hsome'
    · exact .inl hle
    · rcases hla with heq | ⟨_, hnil⟩
      · exact .inr ⟨heq, hsome'⟩
      · have hmem := (RaftNode.mem_of_entryAt hsome').1
        rw [hnil] at hmem
        cases hmem
  refine ⟨hsome, hreader, h.nonneg.trans hmono, fun b e he => ?_, fun e he => ?_, fun b => ?_,
    h.mvcc.trans hmono, fun i hi => (h.conflicts i hi).trans hmono, fun w hw => ?_, h.distinct,
    h.answered⟩
  · rw [hqueue] at he
    exact ⟨(h.queues b e he).1.trans hmono, (h.queues b e he).2⟩
  · obtain ⟨hle, hcom, happ⟩ := h.storing e he
    exact ⟨hle.trans hmono, hcom, happ⟩
  · rw [hqueue]
    exact h.sorted b
  · refine (h.writes w hw).frame ?_ ?_ ?_ ?_ ?_ (fun _ x hx => .inl hx) id id
    · intro hlt
      rcases hcases w hw with hle | ⟨_, hsome'⟩
      · have hlt' : s.raft.lastApplied < w.entry.index := hlt
        omega
      · exact hsome'
    · intro hle
      right
      rcases hcases w hw with hle' | ⟨heq, _⟩
      · exact hle'
      · rw [← heq]
        exact hle
    · rw [hqueue]
      exact fun x hx => .inl hx
    · rw [hqueue]
      exact .inl
    · rcases hb : w.backend with - | -
      · exact fun hle => .inl (hkv w hw hb hle)
      · exact .inl

theorem AckInv.node_collect (h : AckInv p) (hnoted : Noted p) (hempty : p.node.toApply = []) :
    AckInv { p with node := { p.node with
      raft := p.node.raft.collectApply.1
      toApply := p.node.raft.collectApply.2 } } := by
  obtain ⟨hlog, hsm, hcommit, hmono, hnew⟩ := p.node.raft.collectApply_frame
  have hqueue : ∀ b, ({ p with node := { p.node with
      raft := p.node.raft.collectApply.1
      toApply := p.node.raft.collectApply.2 } } : Process).queueOf b =
        p.queueOf b ++ p.node.raft.collectApply.2 := by
    intro b
    cases b with
    | kv => simp only [queueOf, Node.queue, hempty, List.append_nil, List.append_assoc]
    | mvcc => simp only [queueOf, Node.queue, hempty, List.append_nil, List.append_assoc]
  have hupto : ∀ e ∈ p.node.raft.collectApply.2,
      e.index ≤ p.node.raft.collectApply.1.lastApplied ∧ e ∈ p.committed := by
    intro e he
    obtain ⟨hlo, hhi, hat⟩ := RaftNode.mem_collectApply_iff.mp he
    refine ⟨?_, hnoted e (RaftNode.mem_of_entryAt hat).1 hhi⟩
    unfold RaftNode.collectApply
    split
    · omega
    · exact hhi
  refine ⟨by rw [hsm]; exact h.hasSM, h.reader, h.nonneg.trans hmono, fun b e he => ?_,
    fun e he => ?_, fun b => ?_, h.mvcc.trans hmono, fun i hi => (h.conflicts i hi).trans hmono,
    fun w hw => ?_, h.distinct, h.answered⟩
  · rw [hqueue] at he
    rcases List.mem_append.mp he with he | he
    · exact ⟨(h.queues b e he).1.trans hmono, (h.queues b e he).2⟩
    · exact hupto e he
  · obtain ⟨hle, hcom, happ⟩ := h.storing e he
    exact ⟨hle.trans hmono, hcom, happ⟩
  · -- what is collected comes behind what was
    rw [hqueue, List.pairwise_append]
    refine ⟨h.sorted b, RaftNode.sorted_collectApply, fun x hx y hy => ?_⟩
    have hx' := (h.queues b x hx).1
    have hy' := (RaftNode.mem_collectApply_iff.mp hy).1
    omega
  · have hwait := h.writes w hw
    refine hwait.frame ?_ ?_ ?_ ?_ ?_ (fun _ x hx => .inl hx) id id
    · intro hlt
      have hlt' : p.node.raft.collectApply.1.lastApplied < w.entry.index := hlt
      rw [RaftNode.entryAt_congr hlog]
      exact hwait.log (by omega)
    · intro hle
      have hle' : w.entry.index ≤ p.node.raft.collectApply.1.lastApplied := hle
      by_cases hold : w.entry.index ≤ p.node.raft.lastApplied
      · exact .inr hold
      · left
        rw [hqueue]
        refine List.mem_append_right _ (RaftNode.mem_collectApply_iff.mpr ⟨by omega, ?_, ?_⟩)
        · rw [hnew (by omega)] at hle'
          exact hle'
        · exact hwait.log (by omega)
    · intro x hx
      rw [hqueue] at hx
      rcases List.mem_append.mp hx with hx | hx
      · exact .inl hx
      · right
        intro hidx
        obtain ⟨hlo, _, hat⟩ := RaftNode.mem_collectApply_iff.mp hx
        rw [hidx] at hlo hat
        exact Option.some.inj (hat.symm.trans (hwait.log hlo))
    · intro hmem
      rw [hqueue]
      exact .inl (List.mem_append_left _ hmem)
    · have hkv := kvApplied_node (p := p) (s := { p.node with
        raft := p.node.raft.collectApply.1
        toApply := p.node.raft.collectApply.2 }) hsm
      rcases hb : w.backend with - | -
      · intro hle
        left
        show w.entry.index ≤ p.kvApplied
        rw [← hkv]
        exact hle
      · exact .inl

omit [Codec] in
theorem passed_of_jumpsOverNone {index : Int} (h : p.jumpsOverNone index = true) (hw : w ∈ p.writes)
    (hb : w.backend = .kv) (hle : w.entry.index ≤ index) : w.entry.index ≤ p.kvApplied := by
  simp only [jumpsOverNone, List.all_eq_true, Bool.or_eq_true, decide_eq_true_eq] at h
  rcases h w hw with (hm | hlt) | hpassed
  · rw [hb] at hm
    cases hm
  · omega
  · exact hpassed

theorem AckInv.node (h : AckInv p) (hnoted : Noted p) {act : Act} {s : Node}
    (hstep : p.node.step act = some s) (happly : ∀ fails, act ≠ .apply fails)
    (hrestart : act ≠ .restart)
    (hkept : ∀ w ∈ p.writes, w.entry.index ≤ p.node.raft.lastApplied ∨
      s.raft.entryAt w.entry.index = some w.entry)
    (hpass : ∀ args data, p.restoring act = some (args, data) →
      p.jumpsOverNone args.lastIncludedIndex = true) : AckInv { p with node := s } := by
  have hsec := Node.step_section hstep
  have hreader := Node.consumed_le hsec h.reader
  cases Node.machine_step hsec h.hasSM h.reader happly hrestart with
  | keep hsm hq hla hh =>
    refine h.node_keep (by rw [hsm]; exact h.hasSM) hreader hq hla hkept fun w hw _ hle => ?_
    rw [kvApplied_node hsm] at hle
    exact hle
  | collect hact hempty hs' =>
    rw [hs']
    exact h.node_collect hnoted hempty
  | take sm hact hsm hr hq hh =>
    refine h.node_keep (by rw [hr]; exact h.hasSM) hreader hq (.inl (by rw [hr])) hkept
      fun w hw _ hle => ?_
    rw [kvApplied_node (by rw [hr])] at hle
    exact hle
  | restore i t data hact ht hp hr hq hh =>
    -- the machine jumps, but past nobody who waits
    subst hact
    obtain ⟨sm, hsm⟩ := Option.isSome_iff_exists.mp h.hasSM
    have hsm' : s.raft.sm = some ⟨data.kv, t.args.lastIncludedIndex⟩ := by
      rw [hr, RaftNode.installRestore, hsm]
      rfl
    refine h.node_keep (by rw [hsm']; rfl) hreader hq (.inl (by rw [hr]; rfl)) hkept
      fun w hw hb hle => ?_
    have hla : ({ p with node := s } : Process).kvApplied = t.args.lastIncludedIndex := by
      show (s.raft.sm.map _).getD 0 = _
      rw [hsm']
      rfl
    rw [hla] at hle
    exact passed_of_jumpsOverNone (hpass _ _ (restoring_of_phase ht hp)) hw hb hle

/-- The entries that are waited for are in place after a section of the node. -/
def KeepsAwaited (p : Process) (act : Act) : Prop :=
  ∀ s, p.node.step act = some s → ∀ w ∈ p.writes, p.node.raft.lastApplied < w.entry.index →
    p.node.raft.entryAt w.entry.index = some w.entry → s.raft.entryAt w.entry.index = some w.entry

theorem AckInv.nodeAct (h : AckInv p) (hnoted : Noted p) {act : Act}
    (hok : p.wakesOwners (.node act) = true) (hkept : p.KeepsAwaited act)
    (hs : p.nodeAct act = some p') : AckInv p' := by
  obtain ⟨s, hstep, happly, hrestart, hp'⟩ := nodeAct_cases hs
  have hnode : AckInv { p with node := s } := by
    refine h.node hnoted hstep happly hrestart (fun w hw => ?_) fun args data hres => ?_
    · rcases Int.lt_or_le p.node.raft.lastApplied w.entry.index with hlt | hle
      · exact .inr (hkept s hstep w hw hlt ((h.writes w hw).log hlt))
      · exact .inl hle
    · simpa only [wakesOwners, hres] using hok
  rcases hp' with ⟨_, rfl⟩ | ⟨args, data, hres, rfl⟩
  · exact hnode
  · have hrest : AckInv { p with node := s, restored := p.restored ++ [data] } :=
      hnode.update rfl (fun b => queueOf_congr rfl rfl rfl rfl b) rfl (fun _ he => he)
        (fun b => by cases b <;> rfl) rfl (fun _ hi => hi)
        (fun w hw => ⟨w, hw, w.stage, rfl, rfl, .inl⟩) hnode.distinct hnode.answered
    -- a handler that is woken was about to find its index applied
    refine hrest.wake .kv _ fun w hw hb hle => (h.writes w hw).done (.inl ?_)
    rw [hb]
    simp only [wakesOwners, hres] at hok
    exact passed_of_jumpsOverNone hok hw hb (of_decide_eq_true hle)

/-! ### The channels -/

theorem AckInv.move (h : AckInv p) (hr : p'.node.raft = p.node.raft)
    (hreader : p'.node.consumed ≤ p'.node.emitted.length)
    (hq : ∀ b, p'.queueOf b = p.queueOf b) (hst : p'.storing = p.storing)
    (hm : p'.mvcc = p.mvcc) (hc : p'.committed = p.committed)
    (ha : ∀ b, p'.appliedOf b = p.appliedOf b) (hw : p'.writes = p.writes)
    (hans : p'.answered = p.answered) : AckInv p' := by
  have hown : ∀ w, p.Arrived w → p'.Arrived w := fun w hw =>
    hw.mono (fun e he => by rw [hc]; exact he) fun b e he => by rw [ha b]; exact he
  have hap : ∀ b, p'.appliedIndex b = p.appliedIndex b := by
    intro b
    cases b with
    | kv =>
      show p'.kvApplied = p.kvApplied
      rw [kvApplied, kvApplied, hr]
    | mvcc =>
      show p'.mvcc.lastApplied = p.mvcc.lastApplied
      rw [hm]
  refine ⟨by rw [hr]; exact h.hasSM, hreader, by rw [hr]; exact h.nonneg, fun b e he => ?_,
    fun e he => ?_, fun b => by rw [hq]; exact h.sorted b, by rw [hr, hm]; exact h.mvcc,
    by rw [hr, hm]; exact h.conflicts, fun w hw' => ?_, by rw [hw]; exact h.distinct,
    fun w hw' => hown w (h.answered w (hans ▸ hw'))⟩
  · rw [hq] at he
    rw [hr, hc]
    exact h.queues b e he
  · rw [hst] at he
    rw [hr, hc]
    obtain ⟨hle, hcom, happ⟩ := h.storing e he
    refine ⟨hle, hcom, ?_⟩
    show e ∈ p'.appliedOf .kv
    rw [ha]
    exact happ
  · rw [hw] at hw'
    have hwait := h.writes w hw'
    refine hwait.frame (by rw [hr]; exact hwait.log) (by rw [hr]; exact .inr)
      (by rw [hq]; exact fun x hx => .inl hx) (by rw [hq]; exact .inl) (by rw [hap]; exact .inl)
      (by rw [hst]; exact fun _ x hx => .inl hx) ?_ (hown w)
    rintro (ho | hc')
    · exact .inl (hown w ho)
    · exact .inr (by rw [hm]; exact hc')

theorem AckInv.fanKv (h : AckInv p) (hs : p.fanKv = some p') : AckInv p' := by
  obtain ⟨e, hf, he, rfl⟩ := fanKv_some hs
  have hsplit := Node.queue_of_next he
  refine h.move rfl (List.getElem?_eq_some_iff.mp he).1 ?_ rfl rfl rfl
    (fun b => by cases b <;> rfl) rfl rfl
  intro b
  cases b with
  | kv =>
    show (p.kvCh ++ [e]) ++ _ = p.kvCh ++ p.node.queue
    rw [hsplit, List.append_assoc]
    rfl
  | mvcc =>
    show p.mvccCh ++ ([e] ++ _) = p.mvccCh ++ (p.fan.toList ++ p.node.queue)
    rw [hf, hsplit]
    rfl

theorem AckInv.fanMvcc (h : AckInv p) (hs : p.fanMvcc = some p') : AckInv p' := by
  obtain ⟨e, hf, rfl⟩ := fanMvcc_some hs
  refine h.move rfl h.reader ?_ rfl rfl rfl (fun b => by cases b <;> rfl) rfl rfl
  intro b
  cases b with
  | kv => rfl
  | mvcc =>
    show (p.mvccCh ++ [e]) ++ ([] ++ p.node.queue) = p.mvccCh ++ (p.fan.toList ++ p.node.queue)
    rw [hf, List.append_assoc]
    rfl

/-! ### The key-value state machine -/

section

variable {e : LogEntry} {rest : List LogEntry}

omit [Codec] in
theorem queueOf_kvTake (hch : p.kvCh = e :: rest) (kv : List KvRecord) :
    p.queueOf .kv = e :: ({ p with kvCh := rest, kv := kv } : Process).queueOf .kv := by
  show p.kvCh ++ _ = _
  rw [hch]
  rfl

theorem AckInv.served (h : AckInv p) {b : Backend} {q : List LogEntry}
    (hq : p.queueOf b = e :: q) (hw : w ∈ p.writes) (hb : w.backend = b)
    (hle : w.entry.index ≤ e.index) : w.entry = e ∨ p.Ready w := by
  have hqe := h.queues b e (by rw [hq]; exact List.mem_cons_self)
  rcases (h.writes w hw).collected (hle.trans hqe.1) with hmem | hr
  · rw [hb, hq] at hmem
    rcases List.mem_cons.mp hmem with heq | hmem
    · exact .inl heq
    · have hsorted := h.sorted b
      rw [hq, List.pairwise_cons] at hsorted
      have hlt := hsorted.1 _ hmem
      omega
  · exact .inr hr

theorem AckInv.kvTake (h : AckInv p) (hch : p.kvCh = e :: rest) (kv : List KvRecord)
    (hnone : ∀ w ∈ p.writes, w.backend = .kv → w.entry ≠ e) :
    AckInv { p with kvCh := rest, kv := kv } := by
  have hqueue := queueOf_kvTake hch kv
  have hsorted := h.sorted .kv
  rw [hqueue, List.pairwise_cons] at hsorted
  have hsub : ∀ b, ∀ x ∈ ({ p with kvCh := rest, kv := kv } : Process).queueOf b,
      x ∈ p.queueOf b := by
    intro b x hx
    cases b with
    | kv =>
      rw [hqueue]
      exact List.mem_cons_of_mem e hx
    | mvcc => exact hx
  refine ⟨h.hasSM, h.reader, h.nonneg, fun b x hx => h.queues b x (hsub b x hx), h.storing,
    fun b => ?_, h.mvcc, h.conflicts, fun w hw => ?_, h.distinct, h.answered⟩
  · cases b with
    | kv => exact hsorted.2
    | mvcc => exact h.sorted .mvcc
  · refine (h.writes w hw).frame (h.writes w hw).log .inr (fun x hx => .inl (hsub w.backend x hx))
      ?_ .inl (fun _ x hx => .inl hx) id id
    rcases hb : w.backend with - | -
    · rw [hqueue]
      intro hmem
      rcases List.mem_cons.mp hmem with heq | hmem
      · exact absurd heq (hnone w hw hb)
      · exact .inl hmem
    · exact .inl

/-- The process after the first half of `KVStateMachine.apply`. -/
def kvTaken (p : Process) (e : LogEntry) (rest : List LogEntry) (r : StoreResult) : Process :=
  { { p with kvCh := rest, kv := p.kv ++ kvWritten e r }.mapSM fun sm =>
      { sm with data := Replay.act kvOp sm.data e } with
    storing := some e
    applied := p.applied ++ [e] }

theorem own_kvTaken {r : StoreResult} (h : p.Arrived w) : (p.kvTaken e rest r).Arrived w := by
  refine h.mono (fun _ he => he) fun b x hx => ?_
  cases b with
  | kv => exact List.mem_append_left _ hx
  | mvcc => exact hx

theorem ready_kvTaken {r : StoreResult} (h : p.Ready w) : (p.kvTaken e rest r).Ready w := by
  rcases h with ho | hc
  · exact .inl (own_kvTaken ho)
  · exact .inr hc

theorem kvApplied_kvTaken (r : StoreResult) : (p.kvTaken e rest r).kvApplied = p.kvApplied := by
  show ((p.node.raft.sm.map _).map _).getD 0 = (p.node.raft.sm.map _).getD 0
  rw [Option.map_map]
  rfl

theorem AckInv.kvTaken (h : AckInv p) (hch : p.kvCh = e :: rest) (r : StoreResult) :
    AckInv (p.kvTaken e rest r) := by
  have hqueue : p.queueOf .kv = e :: (p.kvTaken e rest r).queueOf .kv := queueOf_kvTake hch _
  have hsorted := h.sorted .kv
  rw [hqueue, List.pairwise_cons] at hsorted
  have hmem : e ∈ p.queueOf .kv := by
    rw [hqueue]
    exact List.mem_cons_self
  have hqe := h.queues .kv e hmem
  have hsub : ∀ b, ∀ x ∈ (p.kvTaken e rest r).queueOf b, x ∈ p.queueOf b := by
    intro b x hx
    cases b with
    | kv =>
      rw [hqueue]
      exact List.mem_cons_of_mem e hx
    | mvcc => exact hx
  have happlied : e ∈ (p.kvTaken e rest r).applied :=
    List.mem_append_right _ (List.mem_singleton_self _)
  have hself : ∀ w, w.backend = .kv → w.entry = e → (p.kvTaken e rest r).Arrived w := by
    rintro w hb rfl
    refine ⟨hqe.2, ?_⟩
    rw [hb]
    exact happlied
  refine ⟨?_, h.reader, h.nonneg, fun b x hx => h.queues b x (hsub b x hx), ?_, fun b => ?_, h.mvcc,
    h.conflicts, fun w hw => ?_, h.distinct, fun w hw => own_kvTaken (h.answered w hw)⟩
  · show (p.node.raft.sm.map _).isSome = true
    rw [Option.isSome_map]
    exact h.hasSM
  · rintro x ⟨⟩
    exact ⟨hqe.1, hqe.2, happlied⟩
  · cases b with
    | kv => exact hsorted.2
    | mvcc => exact h.sorted .mvcc
  · have hwait := h.writes w hw
    refine hwait.frame hwait.log .inr (fun x hx => .inl (hsub _ x hx)) ?_ ?_ ?_ ready_kvTaken
      own_kvTaken
    · rcases hb : w.backend with - | -
      · rw [hqueue]
        intro hin
        rcases List.mem_cons.mp hin with heq | hin
        · exact .inr (.inl (hself w hb heq))
        · exact .inl hin
      · exact .inl
    · rcases hb : w.backend with - | -
      · intro hle
        left
        show w.entry.index ≤ p.kvApplied
        rw [← kvApplied_kvTaken r]
        exact hle
      · exact .inl
    · rintro hb x ⟨⟩
      refine .inr ⟨hwait.queue e (by rw [hb]; exact hmem), fun hlt => ?_⟩
      rcases h.served hqueue hw hb hlt.le with heq | hready
      · exact hself w hb heq
      · exact own_kvTaken (hready.own (.inl hb))

theorem AckInv.kvWrite (h : AckInv p) {r : StoreResult} (hok : p.wakesOwners (.kvWrite r) = true)
    (hs : p.kvWrite r = some p') : AckInv p' := by
  obtain ⟨e, rest, hst, hch, hp'⟩ := kvWrite_cases hs
  have hmem : e ∈ p.queueOf .kv := by
    rw [queueOf_kvTake hch p.kv]
    exact List.mem_cons_self
  rcases hp' with ⟨hwf, rfl⟩ | ⟨hfail, rfl⟩ | ⟨hwf, hfail, rfl⟩
  · -- nobody waits for a malformed entry
    have hnone : ∀ w ∈ p.writes, w.backend = .kv → w.entry ≠ e := by
      rintro w hw hb rfl
      rw [(h.writes w hw).wf] at hwf
      cases hwf
    refine (h.kvTake hch _ hnone).wake .kv _ fun w hw hb hidx => ?_
    exact absurd
      ((h.writes w hw).queue e (by rw [hb]; exact hmem) (of_decide_eq_true hidx).symm).symm
      (hnone w hw hb)
  · refine h.kvTake hch _ ?_
    rintro w hw hb rfl
    simp only [wakesOwners, hch, hfail, Bool.not_true, Bool.false_or, Bool.not_eq_true', awaited,
      List.any_eq_false] at hok
    exact hok w hw (by simp [hb])
  · exact h.kvTaken hch r

end

theorem AckInv.kvStore (h : AckInv p) (hs : p.kvStore = some p') : AckInv p' := by
  obtain ⟨e, hst, rfl⟩ := kvStore_some hs
  obtain ⟨hle, hcom, happ⟩ := h.storing e hst
  have hown : ∀ w ∈ p.writes, w.backend = .kv → w.entry.index ≤ e.index → p.Arrived w := by
    intro w hw hb hidx
    obtain ⟨hsame, hpass⟩ := (h.writes w hw).storing hb e hst
    rcases Int.lt_or_eq_of_le hidx with hlt | heq
    · exact hpass hlt
    · have hentry := hsame heq.symm
      refine ⟨hentry ▸ hcom, ?_⟩
      rw [hb]
      exact hentry ▸ happ
  have hstored : AckInv { p.mapSM fun sm => { sm with lastApplied := e.index } with
      storing := none } := by
    refine ⟨?_, h.reader, h.nonneg, h.queues, fun x hx => (by cases hx), h.sorted, h.mvcc,
      h.conflicts, fun w hw => ?_, h.distinct, h.answered⟩
    · show (p.node.raft.sm.map _).isSome = true
      rw [Option.isSome_map]
      exact h.hasSM
    · refine (h.writes w hw).frame (h.writes w hw).log .inr (fun x hx => .inl hx) .inl
        ?_ (fun _ x hx => by cases hx) id id
      rcases hb : w.backend with - | -
      · intro hidx
        right
        left
        apply hown w hw hb
        obtain ⟨sm, hsm⟩ := Option.isSome_iff_exists.mp h.hasSM
        have hidx' : w.entry.index ≤ ((p.node.raft.sm.map fun sm : KVStateMachine =>
          { sm with lastApplied := e.index }).map KVStateMachine.lastApplied).getD 0 := hidx
        rw [hsm] at hidx'
        exact hidx'
      · exact .inl
  refine hstored.wake .kv _ fun w hw hb hidx => .inl ?_
  exact hown w hw hb (of_decide_eq_true hidx).le

/-! ### The versioned state machine -/

section

variable {e : LogEntry} {rest : List LogEntry}

/-- The process after `MVCCStateMachine.apply`, nobody woken yet. -/
def mvccTaken (p : Process) (e : LogEntry) (rest : List LogEntry) : Process :=
  { p with
    mvccCh := rest
    mvcc := p.mvcc.apply e
    mvccApplied := if p.mvcc.accepts e then p.mvccApplied ++ [e] else p.mvccApplied }

theorem own_mvccTaken (h : p.Arrived w) : (p.mvccTaken e rest).Arrived w := by
  refine h.mono (fun _ he => he) fun b x hx => ?_
  cases b with
  | kv => exact hx
  | mvcc =>
    show x ∈ if p.mvcc.accepts e then p.mvccApplied ++ [e] else p.mvccApplied
    split
    · exact List.mem_append_left _ hx
    · exact hx

theorem ready_mvccTaken (h : p.Ready w) : (p.mvccTaken e rest).Ready w := by
  rcases h with ho | ⟨hb, hc⟩
  · exact .inl (own_mvccTaken ho)
  · exact .inr ⟨hb, MVCCStateMachine.conflict_apply hc⟩

theorem ready_self (hb : w.backend = .mvcc) (hwf : wellFormed w.entry = true)
    (hcom : w.entry ∈ p.committed) : (p.mvccTaken w.entry rest).Ready w := by
  by_cases hacc : p.mvcc.accepts w.entry = true
  · refine .inl ⟨hcom, ?_⟩
    rw [hb]
    show w.entry ∈ if p.mvcc.accepts w.entry then p.mvccApplied ++ [w.entry] else p.mvccApplied
    rw [if_pos hacc]
    exact List.mem_append_right _ (List.mem_singleton_self _)
  · rw [Bool.not_eq_true] at hacc
    exact .inr ⟨hb, (MVCCStateMachine.apply_refused hacc).2.2 (.inl hwf)⟩

theorem AckInv.mvccTaken (h : AckInv p) (hch : p.mvccCh = e :: rest) :
    AckInv (p.mvccTaken e rest) ∧ ∀ w ∈ p.writes, w.backend = .mvcc →
      w.entry.index ≤ e.index → (p.mvccTaken e rest).Ready w := by
  have hqueue : p.queueOf .mvcc = e :: (p.mvccTaken e rest).queueOf .mvcc := by
    show p.mvccCh ++ _ = _
    rw [hch]
    rfl
  have hsub : ∀ b, ∀ x ∈ (p.mvccTaken e rest).queueOf b, x ∈ p.queueOf b := by
    intro b x hx
    cases b with
    | kv => exact hx
    | mvcc =>
      rw [hqueue]
      exact List.mem_cons_of_mem e hx
  have hsorted := h.sorted .mvcc
  rw [hqueue, List.pairwise_cons] at hsorted
  have hqe := h.queues .mvcc e (by rw [hqueue]; exact List.mem_cons_self)
  have hself : ∀ w ∈ p.writes, w.backend = .mvcc → w.entry = e → (p.mvccTaken e rest).Ready w := by
    rintro w hw hb rfl
    exact ready_self hb (h.writes w hw).wf hqe.2
  have hserved : ∀ w ∈ p.writes, w.backend = .mvcc → w.entry.index ≤ e.index →
      (p.mvccTaken e rest).Ready w := by
    intro w hw hb hle
    rcases h.served hqueue hw hb hle with heq | hr
    · exact hself w hw hb heq
    · exact ready_mvccTaken hr
  refine ⟨⟨h.hasSM, h.reader, h.nonneg, fun b x hx => h.queues b x (hsub b x hx), h.storing,
    fun b => ?_, ?_, ?_, ?_, h.distinct, fun w hw => own_mvccTaken (h.answered w hw)⟩, hserved⟩
  · cases b with
    | kv => exact h.sorted .kv
    | mvcc => exact hsorted.2
  · show (p.mvcc.apply e).lastApplied ≤ _
    rcases p.mvcc.lastApplied_apply e with hl | hl
    · rw [hl]
      exact hqe.1
    · rw [hl]
      exact h.mvcc
  · intro i hi
    rcases MVCCStateMachine.conflict_of_apply hi with rfl | hi
    · exact hqe.1
    · exact h.conflicts i hi
  · intro w hw
    have hwait := h.writes w hw
    refine hwait.frame hwait.log .inr (fun x hx => .inl (hsub _ x hx)) ?_ ?_
      (fun _ x hx => .inl hx) ready_mvccTaken own_mvccTaken
    · rcases hb : w.backend with - | -
      · exact .inl
      · rw [hqueue]
        intro hmem
        rcases List.mem_cons.mp hmem with heq | hmem
        · exact .inr (hself w hw hb heq)
        · exact .inl hmem
    · rcases hb : w.backend with - | -
      · exact .inl
      · intro hle
        have hle' : w.entry.index ≤ (p.mvcc.apply e).lastApplied := hle
        rcases p.mvcc.lastApplied_apply e with hl | hl
        · exact .inr (hserved w hw hb (hl ▸ hle'))
        · left
          rw [hl] at hle'
          exact hle'

theorem AckInv.mvccApply (h : AckInv p) (hs : p.mvccApply = some p') : AckInv p' := by
  obtain ⟨e, rest, hch, rfl⟩ := mvccApply_some hs
  obtain ⟨hinv, hserved⟩ := h.mvccTaken hch
  exact hinv.wake .mvcc _ fun w hw hb hidx => hserved w hw hb (of_decide_eq_true hidx).le

end

/-! ### The handlers -/

theorem AckInv.addWrite (h : AckInv p) (hst : w.stage = .proposed) (hwf : wellFormed w.entry = true)
    (hlog : p.node.raft.entryAt w.entry.index = some w.entry)
    (hla : p.node.raft.lastApplied < w.entry.index) (hkv : p.kvApplied < w.entry.index)
    (hnew : ∀ v ∈ p.writes, v.entry.index ≠ w.entry.index) :
    AckInv { p with writes := p.writes ++ [w] } := by
  have hold : ∀ v ∈ p.writes, Waits { p with writes := p.writes ++ [w] } v := fun v hv =>
    (h.writes v hv).frame (h.writes v hv).log .inr (fun x hx => .inl hx) .inl .inl
      (fun _ x hx => .inl hx) id id
  have hself : Waits { p with writes := p.writes ++ [w] } w := by
    refine ⟨hwf, fun _ => hlog, fun x hx hidx => ?_, ?_, fun _ x hx => ?_, fun hle => ?_⟩
    · have := (h.queues w.backend x hx).1
      omega
    · rintro (hle | hret)
      · rcases hb : w.backend with - | -
        · rw [hb] at hle
          have hle' : w.entry.index ≤ p.kvApplied := hle
          omega
        · rw [hb] at hle
          have hle' : w.entry.index ≤ p.mvcc.lastApplied := hle
          have := h.mvcc
          omega
      · rw [hst] at hret
        cases hret
    · have := (h.storing x hx).1
      exact ⟨fun hidx => by omega, fun hlt => by omega⟩
    · have hle' : w.entry.index ≤ p.node.raft.lastApplied := hle
      omega
  refine ⟨h.hasSM, h.reader, h.nonneg, h.queues, h.storing, h.sorted, h.mvcc, h.conflicts, ?_, ?_,
    h.answered⟩
  · intro v hv
    rcases List.mem_append.mp hv with hv | hv
    · exact hold v hv
    · rw [List.mem_singleton.mp hv]
      exact hself
  · show (p.writes ++ [w]).Pairwise _
    rw [List.pairwise_append]
    refine ⟨h.distinct, List.pairwise_singleton _ _, fun v hv u hu => ?_⟩
    rw [List.mem_singleton.mp hu]
    exact hnew v hv

theorem wellFormed_of_proposable {backend : Backend} {data : Bytes} {i t : Int} {type : EntryType}
    (h : proposable backend data = true) : wellFormed ⟨i, t, type, data⟩ = true := by
  unfold wellFormed
  unfold proposable at h
  rcases hc : Codec.unmarshalCommand data with - | cmd
  · simp [hc] at h
  · rfl

theorem AckInv.request (h : AckInv p) {backend : Backend} {data : Bytes} {f : Faults}
    (hok : p.wakesOwners (.request backend data f) = true)
    (hs : p.request backend data f = some p') : AckInv p' := by
  obtain ⟨hdata, hcases⟩ := request_cases hs
  have hsame := (RaftNode.logOnly_proposeEntry p.node.raft entryTypeCommand data f).sameMachine
  have hsm : (p.node.propose data f).raft.sm = p.node.raft.sm := hsame.sm
  have hla : (p.node.propose data f).raft.lastApplied = p.node.raft.lastApplied :=
    hsame.lastApplied
  have hkeep : (∀ w ∈ p.writes, w.entry.index ≤ p.node.raft.lastApplied ∨
      (p.node.propose data f).raft.entryAt w.entry.index = some w.entry) →
      AckInv { p with node := p.node.propose data f } := fun hkept =>
    h.node_keep (by rw [hsm]; exact h.hasSM) h.reader rfl (.inl hla) hkept
      fun w hw _ hle => by rw [kvApplied_node hsm] at hle; exact hle
  rcases hcases with ⟨hfalse, rfl⟩ | ⟨htrue, rfl⟩
  · -- nothing was appended
    rcases p.node.raft.propose_spec data f with ⟨_, heq⟩ | ⟨hlead, _⟩
    · refine hkeep fun w hw => ?_
      by_cases hle : w.entry.index ≤ p.node.raft.lastApplied
      · exact .inl hle
      · right
        show (p.node.raft.propose data f).1.entryAt _ = _
        rw [heq]
        exact (h.writes w hw).log (by omega)
    · rw [hfalse] at hlead
      cases hlead
  · rcases p.node.raft.propose_spec data f with ⟨hlead, _⟩ | ⟨_, hlog⟩
    · rw [htrue] at hlead
      cases hlead
    · simp only [wakesOwners, htrue, Bool.not_true, Bool.false_or, Bool.and_eq_true,
        decide_eq_true_eq, List.all_eq_true] at hok
      obtain ⟨⟨hfresh, hkv⟩, hnew⟩ := hok
      have hpos := h.nonneg
      have hat := RaftNode.entryAt_append hlog
      have hinv : AckInv { p with node := p.node.propose data f } := by
        refine hkeep fun w hw => ?_
        by_cases hle : w.entry.index ≤ p.node.raft.lastApplied
        · exact .inl hle
        · right
          show (p.node.raft.propose data f).1.entryAt _ = _
          rw [hat, if_neg fun hc => hnew w hw hc.2]
          exact (h.writes w hw).log (by omega)
      refine hinv.addWrite rfl (wellFormed_of_proposable hdata) ?_ ?_ ?_ hnew
      · show (p.node.raft.propose data f).1.entryAt _ = _
        rw [hat, if_pos ⟨by dsimp only; omega, rfl⟩]
      · rw [hla]
        exact hfresh
      · rw [kvApplied_node hsm]
        exact hkv

theorem AckInv.removeWrite (h : AckInv p) (j : Nat) {m : MVCCStateMachine} {answered : List Write}
    (hla : m.lastApplied = p.mvcc.lastApplied)
    (hcf : ∀ i, (m.conflictResults i).isSome = true → (p.mvcc.conflictResults i).isSome = true)
    (hother : ∀ w ∈ p.writes.eraseIdx j,
      m.conflictResults w.entry.index = p.mvcc.conflictResults w.entry.index)
    (hans : ∀ w ∈ answered, p.Arrived w) :
    AckInv { p with mvcc := m, writes := p.writes.eraseIdx j, answered := answered } :=
  h.update rfl (fun b => queueOf_congr rfl rfl rfl rfl b) rfl (fun _ he => he)
    (fun b => by cases b <;> rfl) hla hcf
    (fun w hw => ⟨w, List.mem_of_mem_eraseIdx hw, w.stage, rfl, hother w hw, .inl⟩)
    (h.distinct.sublist (List.eraseIdx_sublist _ _)) hans

theorem AckInv.index_ne (h : AckInv p) {j k : Nat} {v : Write} (hv : p.writes[k]? = some v)
    (hw : p.writes[j]? = some w) (hne : k ≠ j) : v.entry.index ≠ w.entry.index := by
  obtain ⟨hk, rfl⟩ := List.getElem?_eq_some_iff.mp hv
  obtain ⟨hj, rfl⟩ := List.getElem?_eq_some_iff.mp hw
  have hd := List.pairwise_iff_getElem.mp h.distinct
  rcases Nat.lt_or_gt_of_ne hne with hlt | hgt
  · exact hd k j hk hj hlt
  · exact (hd j k hj hk hgt).symm

theorem AckInv.setStage (h : AckInv p) {j : Nat} (hw : p.writes[j]? = some w) (stage : WaitStage)
    (hret : stage = .returned → w.stage = .returned ∨ p.Ready w) :
    AckInv (p.setStage j w stage) := by
  refine h.update rfl (fun b => queueOf_congr rfl rfl rfl rfl b) rfl (fun _ he => he)
    (fun b => by cases b <;> rfl) rfl (fun _ hi => hi) ?_ ?_ h.answered
  · intro w' hw'
    rcases List.mem_or_eq_of_mem_set hw' with hmem | rfl
    · exact ⟨w', hmem, w'.stage, rfl, rfl, .inl⟩
    · exact ⟨w, List.mem_of_getElem? hw, stage, rfl, rfl, hret⟩
  · -- the index of the write is the same
    have hmap : (p.writes.set j { w with stage := stage }).map (fun w => w.entry.index) =
        p.writes.map fun w => w.entry.index := by
      obtain ⟨hj, rfl⟩ := List.getElem?_eq_some_iff.mp hw
      have hj' : j < (p.writes.map fun w => w.entry.index).length := by
        rw [List.length_map]
        exact hj
      rw [List.map_set, ← List.getElem_map (fun w : Write => w.entry.index) (h := hj')]
      exact List.set_getElem_self hj'
    have hd := h.distinct
    rw [← List.pairwise_map (f := fun w : Write => w.entry.index) (R := (· ≠ ·))] at hd ⊢
    rw [show (p.setStage j w stage).writes = p.writes.set j { w with stage := stage } from rfl,
      hmap]
    exact hd

theorem AckInv.handlerTimeout (h : AckInv p) {j : Nat} (hs : p.handlerTimeout j = some p') :
    AckInv p' := by
  rw [handlerTimeout_some hs]
  exact h.removeWrite j rfl (fun _ hi => hi) (fun _ _ => rfl) h.answered

theorem AckInv.answer (h : AckInv p) {j : Nat} (hw : p.writes[j]? = some w)
    {answered : List Write} (hans : ∀ v ∈ answered, p.Arrived v) :
    AckInv { p with
      mvcc := (p.mvcc.isCASConflict w.entry.index).1
      writes := p.writes.eraseIdx j
      answered := answered } := by
  refine h.removeWrite j rfl ?_ ?_ hans
  · intro i hi
    have hi' : (Function.update p.mvcc.conflictResults w.entry.index none i).isSome = true := hi
    by_cases hidx : i = w.entry.index
    · rw [hidx, Function.update_self] at hi'
      cases hi'
    · rw [Function.update_of_ne hidx] at hi'
      exact hi'
  · intro v hv
    refine Function.update_of_ne ?_ _ _
    obtain ⟨k, hne, hk⟩ := List.mem_eraseIdx_iff_getElem?.mp hv
    exact h.index_ne hk hw hne

theorem AckInv.handlerNext (h : AckInv p) {j : Nat} (hs : p.handlerNext j = some p') :
    AckInv p' := by
  unfold Process.handlerNext at hs
  split at hs
  · cases hs
  · next w hw =>
    have hwait := h.writes w (List.mem_of_getElem? hw)
    split at hs
    · -- the first check of `WaitForIndex`
      cases hs
      refine h.setStage hw _ fun hret => ?_
      split at hret
      · next hle => exact .inr (hwait.done (.inl hle))
      · cases hret
    · cases hs
      exact h.setStage hw _ nofun
    · next _ hb =>
      -- the second one
      cases hs
      refine h.setStage hw _ fun hret => ?_
      split at hret
      · next hc => exact .inr (.inr ⟨hb, hc⟩)
      · cases hret
    · cases hs
      exact h.setStage hw _ nofun
    · cases hs
    · next hst hb =>
      cases hs
      refine h.removeWrite j rfl (fun _ hi => hi) (fun _ _ => rfl) fun v hv => ?_
      rcases List.mem_append.mp hv with hv | hv
      · exact h.answered v hv
      · rw [List.mem_singleton.mp hv]
        exact (hwait.done (.inr hst)).own (.inl hb)
    · next hst hb =>
      dsimp only at hs
      split at hs
      · cases hs
        exact h.answer hw h.answered
      · next hnone =>
        cases hs
        refine h.answer hw fun v hv => ?_
        rcases List.mem_append.mp hv with hv | hv
        · exact h.answered v hv
        · rw [List.mem_singleton.mp hv]
          exact (hwait.done (.inr hst)).own (.inr hnone)

/-! ### Crashes -/

theorem AckInv.crash (h : AckInv p) {keep : Nat} {results : LogEntry → StoreResult}
    (hs : p.crash keep results = some p') : AckInv p' := by
  obtain ⟨x, _, rfl⟩ := Option.map_eq_some_iff.mp hs
  obtain ⟨_, _, hla⟩ := RaftNode.restart_volatile p.node.raft p.node.boot
  refine ⟨rfl, le_rfl, hla.ge, fun b e he => ?_, fun e he => (by cases he), fun b => ?_,
    hla.ge, fun i hi => (by cases hi), fun w hw => (by cases hw), List.Pairwise.nil, fun w hw => ?_⟩
  · -- the channels are empty
    cases b <;> cases he
  · cases b <;> exact List.Pairwise.nil
  · refine (h.answered w hw).mono (fun _ he => he) fun b e he => ?_
    cases b with
    | kv => exact List.mem_append_left _ he
    | mvcc => exact he

/-! ### The step and the start -/

theorem AckInv.step (h : AckInv p ∧ Noted p) {a : ProcessAct} (hok : p.wakesOwners a = true)
    (hkept : ∀ act, a = .node act → p.KeepsAwaited act) (hs : p.step a = some p') :
    AckInv p' ∧ Noted p' := by
  obtain ⟨q, hq, rfl⟩ := Option.map_eq_some_iff.mp hs
  obtain ⟨h, hnoted⟩ := h
  suffices hinv : AckInv q from hinv.note
  cases a with
  | node act => exact h.nodeAct hnoted hok (hkept act rfl) hq
  | fanKv => exact h.fanKv hq
  | fanMvcc => exact h.fanMvcc hq
  | kvWrite r => exact h.kvWrite hok hq
  | kvStore => exact h.kvStore hq
  | mvccApply => exact h.mvccApply hq
  | request backend data f => exact h.request hok hq
  | handlerNext j => exact h.handlerNext hq
  | handlerTimeout j => exact h.handlerTimeout hq
  | crash keep results => exact h.crash hq

theorem ackInv_fresh (addr : Addr) (id : NodeID) (boot : Option (List Addr))
    (cfg : SnapshotConfig) :
    AckInv (fresh addr id boot cfg) ∧ Noted (fresh addr id boot cfg) := by
  have hla : (fresh addr id boot cfg).node.raft.lastApplied = 0 := by
    rfl
  have hlog : (fresh addr id boot cfg).node.raft.log = [] := by
    rfl
  refine ⟨⟨rfl, le_rfl, hla.ge, fun b e he => ?_, fun e he => (by cases he), fun b => ?_,
    hla.ge, fun i hi => (by cases hi), fun w hw => (by cases hw), List.Pairwise.nil,
    fun w hw => (by cases hw)⟩, fun e he => ?_⟩
  · cases b <;> cases he
  · cases b <;> exact List.Pairwise.nil
  · rw [hlog] at he
    cases he

end

end Process

/-! ### The cluster -/

namespace Deployment

section

variable [Codec]

theorem keepsAwaited_of_ledgered {C : Cluster} {D : Deployment} {L : CommitLedger} {s : Abs}
    (h : Ledgered C (D, L) s) {a : Addr} {act : Act} (havail : D.nodes.available a act = true)
    (hok : ledgerTest C (D, L) (a, .node act) = true)
    (hown : (D a).ownWrites (.node act) = true) : (D a).KeepsAwaited act := by
  intro x hx w hw hlt hat
  simp only [ledgerTest, ProcessAct.act?, commitTest, simTest, Bool.and_eq_true] at hok
  simp only [Process.ownWrites, Process.keepsAwaited, Bool.and_eq_true, List.all_eq_true,
    Bool.or_eq_true, decide_eq_true_eq] at hown
  have hkeep := (hown.2 w hw).resolve_left (by omega)
  exact h.committed.keeps havail hx hok.2.1.1.1.1.2 hat hkeep

theorem ackInv_step {C : Cluster} {x x' : Deployment × CommitLedger} {s : Abs}
    {e : Addr × ProcessAct}
    (hl : Ledgered C x s) (h : ∀ a, (x.1 a).AckInv ∧ (x.1 a).Noted)
    (hok : ledgerTest C x e = true) (hown : (x.1 e.1).ownWrites e.2 = true)
    (hs : Deployment.record C x e = some x') : ∀ a, (x'.1 a).AckInv ∧ (x'.1 a).Noted := by
  intro b
  obtain ⟨a, act⟩ := e
  obtain ⟨D', hD', rfl⟩ := Option.map_eq_some_iff.mp hs
  obtain ⟨p, _, havail, hp, rfl⟩ := step_cases hD'
  dsimp only
  rcases eq_or_ne b a with rfl | hne
  · rw [Function.update_self]
    refine Process.AckInv.step (h b) (Bool.and_eq_true_iff.mp hown).1 ?_ hp
    rintro act' rfl
    exact keepsAwaited_of_ledgered hl havail hok hown
  · rw [Function.update_of_ne hne]
    exact h b

/-- A write that was answered is the entry that is committed at its index. -/
structure OwnWrites (x : Deployment × CommitLedger) : Prop where
  committed : ∀ a, ∀ w ∈ (x.1 a).answered, w.entry ∈ x.2.commits
  applied : ∀ a, ∀ w ∈ (x.1 a).answered, w.entry ∈ (x.1 a).appliedOf w.backend
  unique : ∀ e ∈ x.2.commits, ∀ e' ∈ x.2.commits, e.index = e'.index → e = e'

/-- **An acknowledged write is the client's own**, if nobody is woken by another's
entry. -/
theorem acknowledged_write_is_own (C : Cluster) (cfg : Addr → SnapshotConfig)
    {x : Deployment × CommitLedger}
    (h : Runs (Deployment.record C) (fun x e => ledgerTest C x e && (x.1 e.1).ownWrites e.2)
      (init C cfg, CommitLedger.empty) x) (hv : VotesOnce C x.1.nodes) : OwnWrites x := by
  obtain ⟨⟨s, hl⟩, hinv⟩ := ledgered_of_runs (P := fun x => ∀ a, (x.1 a).AckInv ∧ (x.1 a).Noted) h
    (fun x e hok => (Bool.and_eq_true_iff.mp hok).1)
    (fun a => Process.ackInv_fresh a (C.idOf a) (some (C.peersOf a)) (cfg a))
    (fun x s x' s' e hl _ hok hs hx => ackInv_step hl hx (Bool.and_eq_true_iff.mp hok).1
      (Bool.and_eq_true_iff.mp hok).2 hs) hv
  exact ⟨fun a w hw => hl.seen a _ ((hinv a).1.answered w hw).1,
    fun a w hw => ((hinv a).1.answered w hw).2, fun e he e' he' => hl.unique he he'⟩

end

/-! ### A leader that is deposed -/

section

local instance ackCodec : Codec := Codec.twoKeys

/-- The handler of `a` goes on to the wait. -/
def waitForIndex (a : Addr) : List (Addr × ProcessAct) := [(a, .handlerNext 0), (a, .handlerNext 0)]

/-- What is committed reaches the key-value machine of `a`, and the handler answers. -/
def applyAndAnswer (a : Addr) : List (Addr × ProcessAct) :=
  onNodes [(a, .collect), (a, .emit)] ++
    [(a, .fanKv), (a, .kvWrite .ok), (a, .kvStore), (a, .handlerNext 0)]

/-- `a` leads term 1 and a client waits there for `entryA`.  Then `b` leads term 2,
puts `entryB` at the same index and commits it with `a`; the next heartbeat tells
`a`. -/
def deposedLeaderRun : List (Addr × ProcessAct) :=
  electWith "a" 1 "b" ++ [("a", .request .kv entryA.data .none)] ++ waitForIndex "a" ++
    electWith "b" 2 "c" ++ [("b", .request .kv entryB.data .none)] ++ commitWith "b" 2 "a" entryB ++
    onNodes [("b", .ackResult "c" none), ("b", .tick), ("b", .build),
      appendEntries "b" 2 "a" ⟨2, "b", 1, 2, [], 1⟩] ++
    applyAndAnswer "a"

/-- The client of `a` waits for its own entry. -/
def acknowledgedRun : List (Addr × ProcessAct) :=
  electWith "a" 1 "b" ++ [("a", .request .kv entryA.data .none)] ++ waitForIndex "a" ++
    commitWith "a" 1 "b" entryA ++ applyAndAnswer "a"

/-- **A write is acknowledged that was replaced.**  The client of `a` is told that its
entry was applied; another one is committed and applied at its index. -/
theorem foreign_write_acknowledged :
    ∃ x, Runs (Deployment.record trio) (fun x e => ledgerTest trio x e)
        (trioInit, CommitLedger.empty) x ∧
      VotesOnce trio x.1.nodes ∧ (x.1 "a").answered = [⟨.kv, entryA, .returned⟩] ∧
      (x.1 "a").applied = [entryB] ∧ x.2.commits = [entryB] ∧ entryA.index = entryB.index :=
  Runs.exists_of_exec deposedLeaderRun (by decide +kernel)

theorem acknowledged_write_is_own_applied :
    ∃ x, Runs (Deployment.record trio) (fun x e => ledgerTest trio x e && (x.1 e.1).ownWrites e.2)
        (trioInit, CommitLedger.empty) x ∧
      (VotesOnce trio x.1.nodes ∧ (x.1 "a").answered = [⟨.kv, entryA, .returned⟩] ∧
        x.2.commits = [entryA]) ∧ OwnWrites x :=
  Runs.exists_and_of_exec acknowledgedRun (by decide +kernel) fun _ hrun hend =>
    acknowledged_write_is_own trio (fun _ => ⟨0, 2⟩) hrun hend.1

end

end Deployment

end Raft
