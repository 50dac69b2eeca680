/-
CoreX/Raft/Whole.lean

A compacted log behaves like a whole one.  `n.whole past` is the node `n` with the
entries `past`, which its snapshot covers, put back in front of its log.  Above the
snapshot the two cannot be told apart: `entryAt`, `termAt` and `lastEntry` give the
same answers, both send the same requests, and the loop of `HandleAppendEntries`
does the same to both logs.  So what is known about batches and whole logs holds of
compacted ones (`Covers.handleAppendEntries_merge`).
-/
import CoreX.Raft.Recovery

namespace Raft

open TermLog

namespace RaftNode

/-- The node as it would be if nothing had been compacted. -/
def whole (n : RaftNode) (past : List LogEntry) : RaftNode :=
  { n with log := past ++ n.log, snapshotIndex := 0, snapshotTerm := 0 }

theorem lastEntry_term {n : RaftNode} (h : n.snapshotTerm = 0) :
    n.lastEntry.2 = lastTerm LogEntry.term n.log := by
  unfold lastEntry lastTerm
  split
  · next hl => rw [hl, h]; rfl
  · next e he => rw [he]; rfl

/-- The snapshot of `n` covers the entries `past`, and the log goes on from there. -/
structure Covers (n : RaftNode) (past : List LogEntry) : Prop where
  indexed : Indexed LogEntry.index 0 (past ++ n.log)
  length : (past.length : Int) = n.snapshotIndex
  term : lastTerm LogEntry.term past = n.snapshotTerm

namespace Covers

variable {n n' : RaftNode} {past : List LogEntry}

theorem nonneg (h : Covers n past) : 0 ≤ n.snapshotIndex := by
  have := h.length
  omega

theorem contiguous (h : Covers n past) : n.Contiguous := by
  have hdrop := h.indexed.drop past.length
  rw [List.drop_left, Int.zero_add, h.length] at hdrop
  exact hdrop

theorem whole_contiguous (h : Covers n past) : (n.whole past).Contiguous := h.indexed

theorem of_eq (h : Covers n past) (hlog : n'.log = n.log)
    (hsi : n'.snapshotIndex = n.snapshotIndex) (hst : n'.snapshotTerm = n.snapshotTerm) :
    Covers n' past :=
  ⟨hlog ▸ h.indexed, hsi ▸ h.length, hst ▸ h.term⟩

theorem past_le (h : Covers n past) : ∀ e ∈ past, e.index ≤ n.snapshotIndex := by
  intro e he
  obtain ⟨i, hi⟩ := List.getElem?_of_mem he
  have hlt := (List.getElem?_eq_some_iff.mp hi).1
  have hnum := h.indexed i e (by rw [List.getElem?_append_left hlt, hi])
  have hlen := h.length
  omega

/-! ### Reading -/

theorem entryAt_whole (h : Covers n past) {i : Int} (hi : n.snapshotIndex < i) :
    (n.whole past).entryAt i = n.entryAt i := by
  have hb := h.nonneg
  have hlen := h.length
  rw [entryAt_eq h.whole_contiguous le_rfl, entryAt_eq h.contiguous hb, if_pos hi]
  show (if 0 < i then (past ++ n.log)[(i - 0 - 1).toNat]? else none) = _
  rw [if_pos (by omega), List.getElem?_append_right (by omega)]
  congr 1
  omega

theorem termAt_whole (h : Covers n past) {i : Int} (hi : n.snapshotIndex ≤ i) (hpos : 0 < i) :
    (n.whole past).termAt i = n.termAt i := by
  rcases hi.lt_or_eq with hlt | rfl
  · -- the entry is in both logs or in neither
    unfold termAt
    rw [h.entryAt_whole hlt, if_neg (show ¬i ≤ 0 by omega), if_neg (show ¬i ≤ 0 by omega)]
    split
    · rfl
    · rw [if_neg (show ¬i = (n.whole past).snapshotIndex from hpos.ne'), if_neg hlt.ne']
  · -- the last entry that the snapshot covers
    have hlen := h.length
    obtain ⟨p, e, rfl⟩ := (List.eq_nil_or_concat' past).resolve_left (by
      rintro rfl
      simp at hlen
      omega)
    have hnone : n.entryAt n.snapshotIndex = none := by
      rw [entryAt_eq h.contiguous h.nonneg, if_neg (lt_irrefl _)]
    have hat : (n.whole (p ++ [e])).termAt n.snapshotIndex = some e.term := by
      rw [termAt_eq h.whole_contiguous le_rfl hpos]
      have hk : (n.snapshotIndex - (n.whole (p ++ [e])).snapshotIndex - 1).toNat = p.length := by
        show (n.snapshotIndex - 0 - 1).toNat = _
        simp only [List.length_append, List.length_singleton] at hlen
        omega
      rw [hk]
      show ((p ++ [e] ++ n.log)[p.length]?).map LogEntry.term = _
      simp
    have hterm := h.term
    rw [lastTerm_concat] at hterm
    unfold termAt at hat ⊢
    rw [hat, hnone, if_neg (show ¬n.snapshotIndex ≤ 0 by omega), hterm]
    simp

theorem getElem?_of_entryAt (h : Covers n past) {i : Int} {e : LogEntry}
    (he : n.entryAt i = some e) : 0 < i ∧ (past ++ n.log)[(i - 1).toNat]? = some e := by
  have hlt := (lt_of_entryAt h.contiguous h.nonneg he).1
  have hpos : 0 < i := h.nonneg.trans_lt hlt
  rw [← h.entryAt_whole hlt, entryAt_eq h.whole_contiguous le_rfl] at he
  have he' : (if 0 < i then (past ++ n.log)[(i - 0 - 1).toNat]? else none) = some e := he
  rw [if_pos hpos, Int.sub_zero] at he'
  exact ⟨hpos, he'⟩

theorem lastEntry_whole (h : Covers n past) : (n.whole past).lastEntry = n.lastEntry := by
  have hlast : (n.whole past).log.getLast? = n.log.getLast?.or past.getLast? :=
    List.getLast?_append
  unfold lastEntry
  rw [hlast]
  rcases hl : n.log.getLast? with - | e
  · -- an empty log ends where the snapshot does
    have hlen := h.length
    have hterm := h.term
    rcases List.eq_nil_or_concat' past with rfl | ⟨p, e, rfl⟩
    · simp only [List.length_nil, lastTerm_nil] at hlen hterm
      simp [whole, ← hlen, ← hterm]
    · have hnum : e.index = 0 + p.length + 1 := h.indexed p.length e (by simp)
      rw [lastTerm_concat] at hterm
      simp only [List.length_append, List.length_singleton] at hlen
      simp only [List.getLast?_concat, Option.none_or, Prod.mk.injEq]
      exact ⟨by omega, hterm⟩
  · rfl

theorem lastEntry_eq (h : Covers n past) :
    n.lastEntry = (((past ++ n.log).length : Int), lastTerm LogEntry.term (past ++ n.log)) := by
  refine Prod.ext ?_ ?_
  · have hlen := h.length
    rw [lastEntry_index h.contiguous, List.length_append]
    omega
  · rw [← h.lastEntry_whole]
    exact lastEntry_term (n := n.whole past) rfl

/-! ### Compacting -/

theorem compact (h : Covers n past) {i t : Int} (ht : n.termAt i = some t)
    (hlog : n'.log = n.log.dropWhile fun e => e.index ≤ i) (hsi : n'.snapshotIndex = i)
    (hst : n'.snapshotTerm = t) : Covers n' (past ++ n.log.takeWhile fun e => e.index ≤ i) := by
  have hlen := h.length
  obtain ⟨hlo, hhi⟩ := bounds_of_termAt h.contiguous h.nonneg ht
  rw [lastEntry_index h.contiguous] at hhi
  have hpos : 0 < i := by
    by_contra hle
    rw [termAt, if_pos (Int.not_lt.mp hle)] at ht
    cases ht
  -- what is covered now is a prefix of the whole log
  have htake : past ++ n.log.takeWhile (fun e => e.index ≤ i) = (past ++ n.log).take i.toNat := by
    have hwhile := h.contiguous.takeWhile_lt (i + 1)
    simp only [Int.lt_add_one_iff] at hwhile
    rw [hwhile, List.take_append, List.take_of_length_le (show past.length ≤ i.toNat by omega)]
    congr 2
    omega
  refine ⟨?_, ?_, ?_⟩
  · rw [hlog, List.append_assoc, List.takeWhile_append_dropWhile]
    exact h.indexed
  · rw [htake, hsi, List.length_take, List.length_append]
    omega
  · rw [← h.termAt_whole hlo hpos, termAt_eq h.whole_contiguous le_rfl hpos] at ht
    have hk : (i - (n.whole past).snapshotIndex - 1).toNat = i.toNat - 1 := by
      show (i - 0 - 1).toNat = _
      omega
    rw [hk] at ht
    obtain ⟨e, he, rfl⟩ := Option.map_eq_some_iff.mp ht
    have hi : i.toNat = i.toNat - 1 + 1 := by omega
    have he' : (past ++ n.log)[i.toNat - 1]? = some e := he
    rw [htake, hst, hi, List.take_add_one, he']
    exact lastTerm_concat LogEntry.term _ e

/-! ### Sending -/

theorem past_eq_nil (h : Covers n past) (hsnap : n.snapshotIndex = 0) : past = [] := by
  have hlen := h.length
  exact List.eq_nil_of_length_eq_zero (by omega)

theorem cut_peerArgs (h : Covers n past) {addr : Addr}
    (hnext : n.snapshotIndex = 0 ∨ n.snapshotIndex < n.nextOf addr) (term : Int) :
    Cut (past ++ n.log) (n.peerArgs term addr).args := by
  rcases hnext with hsnap | hnext
  · rw [h.past_eq_nil hsnap]
    exact RaftNode.cut_peerArgs h.contiguous hsnap term addr
  have hcut := RaftNode.cut_peerArgs h.whole_contiguous rfl term addr
  have hsame : ((n.whole past).peerArgs term addr).args = (n.peerArgs term addr).args := by
    have hsent : (past ++ n.log).filter (fun e => n.nextOf addr ≤ e.index)
        = n.log.filter fun e => n.nextOf addr ≤ e.index := by
      rw [List.filter_append]
      have hnil : past.filter (fun e => n.nextOf addr ≤ e.index) = [] := by
        refine List.filter_eq_nil_iff.mpr fun e he => ?_
        have hle := h.past_le e he
        simp only [decide_eq_true_eq, Int.not_le]
        omega
      rw [hnil, List.nil_append]
    have hprev : (if 0 < n.nextOf addr - 1 then ((n.whole past).termAt (n.nextOf addr - 1)).getD 0
        else 0) = if 0 < n.nextOf addr - 1 then (n.termAt (n.nextOf addr - 1)).getD 0 else 0 := by
      split
      · next hp => rw [h.termAt_whole (by omega) hp]
      · rfl
    show AppendEntriesArgs.mk term n.id (n.nextOf addr - 1) (if _ then _ else _)
      (((past ++ n.log).filter fun e => n.nextOf addr ≤ e.index).map LogEntry.toPb)
      n.commitIndex = _
    rw [hsent]
    exact congrArg (fun t => AppendEntriesArgs.mk term n.id (n.nextOf addr - 1) t _ n.commitIndex)
      hprev
  exact hsame ▸ hcut

theorem cut_confirmArgs (h : Covers n past) (term : Int) :
    Cut (past ++ n.log) (n.confirmArgs term) := by
  have hcut := RaftNode.cut_confirmArgs h.whole_contiguous rfl term
  have hsame : (n.whole past).confirmArgs term = n.confirmArgs term := by
    unfold confirmArgs
    rw [h.lastEntry_whole]
    rfl
  exact hsame ▸ hcut

end Covers

/-! ### Receiving -/

section

variable {n m : RaftNode} {past src : List LogEntry} {args : AppendEntriesArgs}

namespace Covers

theorem append_cutSuffix (h : Covers n past) {i : Int} (hi : n.snapshotIndex < i) :
    past ++ (n.cutSuffix i).log = (past ++ n.log).take (i - 1).toNat := by
  have hlen := h.length
  rw [cutSuffix_log h.contiguous, List.take_append,
    List.take_of_length_le (show past.length ≤ (i - 1).toNat by omega)]
  congr 2
  omega

theorem place (h : Covers n past) (hpos : ∀ e ∈ past ++ n.log, 0 < e.term) (hcut : Cut src args)
    (hmatch : Matches (past ++ n.log) src) (hpass : n.checkPrev args = none) :
    ∃ k : Nat, (past ++ n.log).take k = src.take k ∧
      args.entries.map PbLogEntry.toEntry = src.drop k ∧ k ≤ (past ++ n.log).length ∧
      (n.snapshotIndex ≤ k ∨ args.prevLogIndex ≤ 0) := by
  -- the entry at the position the request names
  have hat : 0 < args.prevLogIndex → n.snapshotIndex ≤ args.prevLogIndex ∧
      ∃ x, (past ++ n.log)[(args.prevLogIndex - 1).toNat]? = some x ∧
        x.term = args.prevLogTerm := by
    intro hp
    have ht := checkPrev_eq_none_iff.mp hpass hp
    have hlo := (bounds_of_termAt h.contiguous h.nonneg ht).1
    rw [← h.termAt_whole hlo hp, termAt_eq h.whole_contiguous le_rfl hp] at ht
    obtain ⟨x, hx, hterm⟩ := Option.map_eq_some_iff.mp ht
    exact ⟨hlo, x, by simpa [whole] using hx, hterm⟩
  cases hcut with
  | whole hp he => exact ⟨0, by simp, by simpa using he, by omega, .inr hp⟩
  | after k y hp hy ht he =>
    obtain ⟨hlo, x, hx, hterm⟩ := hat (by omega)
    have hk : (args.prevLogIndex - 1).toNat = k := by omega
    rw [hk] at hx
    exact ⟨k + 1, hmatch k x y hx hy (by rw [hterm, ht]), he, (List.getElem?_eq_some_iff.mp hx).1,
      .inl (by omega)⟩
  | beyond hp ht he =>
    obtain ⟨_, x, hx, hterm⟩ := hat hp
    have := hpos x (List.mem_of_getElem? hx)
    omega

variable [Codec]

theorem merge_spliced (h : Covers n past) (hsrc : Indexed LogEntry.index 0 src)
    (hmatch : Matches (past ++ n.log) src) {es : List PbLogEntry} {all : Bool} {k : Nat}
    (htake : (past ++ n.log).take k = src.take k) (hes : es.map PbLogEntry.toEntry = src.drop k)
    (hs : Spliced n es all m) :
    Merge (past ++ n.log) src (past ++ m.log) ∧ (all = true → src <+: past ++ m.log) := by
  -- what is found for an entry of the batch stands at the position of the entry
  have hat : ∀ {j : Nat} {e : PbLogEntry} {x : LogEntry},
      (es.map PbLogEntry.toEntry)[j]? = some e.toEntry → n.entryAt e.index = some x →
      src[k + j]? = some e.toEntry ∧ (past ++ n.log)[k + j]? = some x ∧
        (e.index - 1).toNat = k + j := by
    intro j e x hj hx
    rw [hes, List.getElem?_drop] at hj
    have hnum : e.index = 0 + ((k + j : Nat) : Int) + 1 := hsrc _ _ hj
    have hk : (e.index - 1).toNat = k + j := by omega
    exact ⟨hj, hk ▸ (h.getElem?_of_entryAt hx).2, hk⟩
  -- the logs agree up to the end of what was skipped, and `src` goes on with `added`
  have hdone : ∀ {skipped : List PbLogEntry} {added : List LogEntry}, n.Done es all skipped added →
      (past ++ n.log).take (k + skipped.length) = src.take (k + skipped.length) ∧
        src.take (k + skipped.length) ++ added <+: src ∧
        (all = true → src <+: src.take (k + skipped.length) ++ added) := by
    intro skipped added hd
    have hpart := hd.part
    rw [hes] at hpart
    have hskip : src.take (k + skipped.length) = src.take k ++ skipped.map PbLogEntry.toEntry := by
      have := List.prefix_iff_eq_take.mp ((List.prefix_append _ _).trans hpart)
      rw [List.length_map] at this
      rw [List.take_add, ← this]
    refine ⟨?_, ?_, fun hall => ?_⟩
    · rcases List.eq_nil_or_concat' skipped with rfl | ⟨l, e, rfl⟩
      · exact htake
      · obtain ⟨x, hx, hterm⟩ := hd.present e (by simp)
        obtain ⟨hget, hold, _⟩ := hat (hd.getElem? (j := l.length) (by simp)) hx
        have heq := hmatch _ x e.toEntry hold hget hterm
        rwa [List.length_append, List.length_singleton, ← Nat.add_assoc]
    · rw [hskip, List.append_assoc]
      have hsrc' := (List.prefix_append_right_inj (src.take k)).mpr hpart
      rwa [List.take_append_drop] at hsrc'
    · rw [hskip, List.append_assoc, hd.rest hall, hes, List.take_append_drop]
  cases hs with
  | grown added hidx skipped hd =>
    obtain ⟨heq, hpre, hall⟩ := hdone hd
    rw [appendAll_log, ← List.append_assoc]
    rcases added with - | ⟨y, added⟩
    · rw [List.append_nil] at hall ⊢
      exact ⟨Merge.same _ _, fun hyes => (heq ▸ hall hyes).trans (List.take_prefix _ _)⟩
    · -- the log ends where the rest of the batch begins
      have hlen := hpre.length_le
      rw [List.length_append, List.length_cons, List.length_take] at hlen
      have hy : src[k + skipped.length]? = some y := by
        rw [getElem?_of_prefix_of_lt hpre (by simp; omega), List.getElem?_append_right (by simp),
          List.length_take, Nat.min_eq_left (by omega), Nat.sub_self]
        rfl
      have hnum := hsrc _ y hy
      have hlast : y.index = n.lastEntry.1 + 0 + 1 := hidx 0 y rfl
      rw [h.lastEntry_eq] at hlast
      have hend : past ++ n.log = src.take (k + skipped.length) := by
        rw [← heq, List.take_of_length_le (by dsimp only at hlast; omega)]
      rw [hend]
      exact ⟨(Merge.same _ _).extend (List.prefix_append _ _) hpre, hall⟩
  | replaced e x added hx ht hidx skipped he hd =>
    obtain ⟨heq, hpre, hall⟩ := hdone hd
    obtain ⟨hget, hold, hk⟩ := hat (getElem?_of_next he) hx
    rw [appendAll_log, ← List.append_assoc,
      h.append_cutSuffix (lt_of_entryAt h.contiguous h.nonneg hx).1, hk]
    have hcut : Merge (past ++ n.log) src ((past ++ n.log).take (k + skipped.length)) :=
      Merge.cut heq hold hget fun hsame => ht (by rw [hsame]; rfl)
    rw [heq] at hcut ⊢
    exact ⟨hcut.extend (List.prefix_append _ _) hpre, hall⟩

theorem handleAppendEntries_spliced (h : Covers n past) (f : Faults)
    (hfit : n.snapshotIndex = 0 ∨ n.placeFits args = true) (hpos : ∀ e ∈ past ++ n.log, 0 < e.term)
    (hsrc : Indexed LogEntry.index 0 src) (hcut : Cut src args)
    (hmatch : Matches (past ++ n.log) src) :
    ((n.handleAppendEntries args f).1.log = n.log ∧
      (n.handleAppendEntries args f).2.success = false) ∨
    ¬args.term < n.currentTerm ∧ ∃ n₁ n₂ k, Covers n₁ past ∧ n₁.log = n.log ∧
      (past ++ n.log).take k = src.take k ∧ args.entries.map PbLogEntry.toEntry = src.drop k ∧
      Spliced n₁ args.entries (n.handleAppendEntries args f).2.success n₂ ∧
      (n.handleAppendEntries args f).1.log = n₂.log := by
  have honly := electionOnly_acceptLeader n args f
  rcases handleAppendEntries_outcome n args f with
    ⟨_, heq⟩ | ⟨hterm, ⟨_, _, _, heq⟩ | ⟨hpass, n₂, hloop⟩⟩
  · rw [heq]
    exact .inl ⟨rfl, rfl⟩
  · rw [heq]
    exact .inl ⟨honly.log, rfl⟩
  · rw [checkPrev_acceptLeader] at hpass
    obtain ⟨k, htake, hes, hle, hlo⟩ := h.place hpos hcut hmatch hpass
    refine .inr ⟨by omega, _, n₂, k, h.of_eq honly.log honly.setup.snapshotIndex
      honly.sameRecord.snapshotTerm, honly.log, htake, hes, ?_⟩
    obtain ⟨_, _, _, _, _, _, hacc⟩ := honly
    have hspl : Spliced (n.acceptLeader args f) args.entries
        (appendLoop f (n.acceptLeader args f) false 0 args.entries).2
        (appendLoop f (n.acceptLeader args f) false 0 args.entries).1 := by
      by_cases hnil : args.entries = []
      · rw [hnil]
        exact .same fun _ => rfl
      · have hlast := congrArg Prod.fst h.lastEntry_eq
        have hbase : n.snapshotIndex ≤ k := by
          refine hlo.elim (fun h => h) fun hprev => ?_
          rcases hfit with hsnap | hfit
          · omega
          · have hstale : ¬args.term < n.currentTerm := by omega
            have : 0 < args.prevLogIndex ∨ n.snapshotIndex ≤ args.prevLogIndex := by
              simpa [placeFits, hstale, hnil] using hfit
            omega
        rw [hacc]
        refine appendLoop_spliced (b := k) f h.contiguous h.nonneg ?_ hbase ?_
        · rw [hes]
          simpa using hsrc.drop k
        · show (k : Int) ≤ n.lastEntry.1
          omega
    rcases hloop with ⟨hstop, heq⟩ | ⟨hdone, heq⟩
    · rw [hstop] at hspl
      rw [heq]
      exact ⟨hspl, rfl⟩
    · rw [hdone] at hspl
      rw [heq]
      exact ⟨hspl, followCommit_log ..⟩

theorem handleAppendEntries_log_same (f : Faults)
    (h : args.term < n.currentTerm ∨ n.checkPrev args ≠ none ∨ args.entries = []) :
    (n.handleAppendEntries args f).1.log = n.log := by
  have hlog : (n.acceptLeader args f).log = n.log := (electionOnly_acceptLeader n args f).log
  by_cases hterm : args.term < n.currentTerm
  · rw [RaftNode.handleAppendEntries, if_pos hterm]
  · rw [RaftNode.handleAppendEntries, if_neg hterm]
    rcases hpass : (n.acceptLeader args f).checkPrev args with - | p
    · have hnil : args.entries = [] := by
        rcases h with h | h | h
        · exact absurd h hterm
        · exact absurd (checkPrev_acceptLeader n args f ▸ hpass) h
        · exact h
      simpa only [hpass, hnil, appendLoop, followCommit_log] using hlog
    · simpa only [hpass] using hlog

theorem handleAppendEntries_refused (f : Faults)
    (h : args.term < n.currentTerm ∨ n.checkPrev args ≠ none) :
    (n.handleAppendEntries args f).2.success = false := by
  by_cases hterm : args.term < n.currentTerm
  · rw [RaftNode.handleAppendEntries, if_pos hterm]
  · rw [RaftNode.handleAppendEntries, if_neg hterm]
    rcases hpass : (n.acceptLeader args f).checkPrev args with - | p
    · exact absurd (checkPrev_acceptLeader n args f ▸ hpass) (h.resolve_left hterm)
    · simp only [hpass]

theorem handleAppendEntries_merge (h : Covers n past) (f : Faults)
    (hfit : n.snapshotIndex = 0 ∨ n.placeFits args = true) (hpos : ∀ e ∈ past ++ n.log, 0 < e.term)
    (hsrc : Indexed LogEntry.index 0 src) (hcut : Cut src args)
    (hmatch : Matches (past ++ n.log) src) :
    Merge (past ++ n.log) src (past ++ (n.handleAppendEntries args f).1.log) ∧
      Covers (n.handleAppendEntries args f).1 past ∧
      ((n.handleAppendEntries args f).2.success = true →
        src <+: past ++ (n.handleAppendEntries args f).1.log) := by
  have hmerge : Merge (past ++ n.log) src (past ++ (n.handleAppendEntries args f).1.log) ∧
      ((n.handleAppendEntries args f).2.success = true →
        src <+: past ++ (n.handleAppendEntries args f).1.log) := by
    rcases h.handleAppendEntries_spliced f hfit hpos hsrc hcut hmatch with
      ⟨hlog, hno⟩ | ⟨_, n₁, n₂, k, hcov, hsame, htake, hes, hspl, hlog⟩
    · rw [hlog, hno]
      exact ⟨Merge.same _ _, nofun⟩
    · rw [hlog]
      rw [← hsame] at hmatch htake ⊢
      exact hcov.merge_spliced hsrc hmatch htake hes hspl
  have hbd := (handleAppendEntries_frame n args f).1
  refine ⟨hmerge.1, ⟨?_, h.length.trans (congrArg SnapshotMeta.index hbd).symm,
    h.term.trans (congrArg SnapshotMeta.term hbd).symm⟩, hmerge.2⟩
  rcases hmerge.1.shape with heq | hpre
  · exact heq ▸ h.indexed
  · exact hsrc.restrict hpre

end Covers

end

end RaftNode

end Raft
