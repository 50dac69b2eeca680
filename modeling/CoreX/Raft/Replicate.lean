/-
CoreX/Raft/Replicate.lean

Slices of a leader's log on a follower.  `SliceOf L args p q` says that `args` carries
the entries of `L` behind position `p` up to `q`: what a leader with the log `L` sends,
whether stale, overlapping, repeated or shorter than what it has.
-/
import CoreX.Lib.Overwrite
import CoreX.Lib.Run
import CoreX.Raft.Splice

namespace Raft

open Overwrite StepSystem

/-- `args` carries the entries `p + 1, ..., q` of the log `L`, and the term of the
entry before them. -/
structure SliceOf (L : List LogEntry) (args : AppendEntriesArgs) (p q : Nat) : Prop where
  prevLogIndex : args.prevLogIndex = p
  prevLogTerm : ∀ x, 0 < p → L[p - 1]? = some x → args.prevLogTerm = x.term
  entries : args.entries.map PbLogEntry.toEntry = (L.take q).drop p
  le : p ≤ q
  length : q ≤ L.length

namespace RaftNode

variable [Codec] {n : RaftNode} {L : List LogEntry} {args : AppendEntriesArgs} {p q : Nat}

/-! ### The loop over a slice -/

theorem Spliced.overwrite {m : RaftNode} {es : List PbLogEntry} (h : Spliced n es true m)
    (hcont : n.Contiguous) (hsnap : n.snapshotIndex = 0) (hL : Indexed LogEntry.index 0 L)
    (hp : p ≤ n.log.length) (hpq : p ≤ q) (hq : q ≤ L.length)
    (hes : es.map PbLogEntry.toEntry = (L.take q).drop p) :
    m.log = overwrite LogEntry.term n.log L p q := by
  -- the entries of the slice, and what is found for them
  have hget : ∀ {j : Nat} {e : LogEntry}, (es.map PbLogEntry.toEntry)[j]? = some e →
      L[p + j]? = some e ∧ e.index = 0 + ((p + j : Nat) : Int) + 1 := by
    intro j e hj
    rw [hes, List.getElem?_drop] at hj
    have hlt := (List.getElem?_eq_some_iff.mp hj).1
    exact ⟨(TermLog.getElem?_of_prefix_of_lt (List.take_prefix q L) hlt).trans hj,
      hL.restrict (List.take_prefix q L) _ _ hj⟩
  have hat : ∀ {j : Nat} {e : PbLogEntry} {x : LogEntry},
      (es.map PbLogEntry.toEntry)[j]? = some e.toEntry → n.entryAt e.index = some x →
      n.log[p + j]? = some x := by
    intro j e x hj hx
    have hnum : e.index = 0 + ((p + j : Nat) : Int) + 1 := (hget hj).2
    have hold := (lt_of_entryAt hcont hsnap.ge hx).2
    rwa [hsnap, show (e.index - 0 - 1).toNat = p + j by omega] at hold
  -- nothing that is skipped conflicts
  have hsame : ∀ {skipped : List PbLogEntry} {added : List LogEntry},
      n.Done es true skipped added → ∀ i x y, p ≤ i → i < p + skipped.length →
      n.log[i]? = some x → L[i]? = some y → x.term = y.term := by
    intro skipped added hd i x y hlo hhi hx hy
    have he := List.getElem?_eq_getElem (show i - p < skipped.length by omega)
    generalize skipped[i - p] = e at he
    obtain ⟨z, hz, hterm⟩ := hd.present e (List.mem_of_getElem? he)
    have hold := hat (hd.getElem? he) hz
    have hnew := (hget (hd.getElem? he)).1
    rw [Nat.add_sub_cancel' hlo] at hold hnew
    cases hx.symm.trans hold
    cases hy.symm.trans hnew
    exact hterm
  have hdrop : ∀ {skipped : List PbLogEntry} {added : List LogEntry},
      n.Done es true skipped added → added = (L.take q).drop (p + skipped.length) := by
    intro skipped added hd
    rw [← List.drop_drop, ← hes, ← hd.rest rfl, List.drop_left' (List.length_map _)]
  cases h with
  | grown added hidx skipped hd =>
    have hadded := hdrop hd
    have hle : p + skipped.length ≤ n.log.length := by
      rcases List.eq_nil_or_concat' skipped with rfl | ⟨l, e, rfl⟩
      · exact hp
      · obtain ⟨x, hx, _⟩ := hd.present e (by simp)
        have hlt :=
          (List.getElem?_eq_some_iff.mp (hat (hd.getElem? (j := l.length) (by simp)) hx)).1
        rw [List.length_append, List.length_singleton]
        omega
    have hend : q ≤ p + skipped.length ∨ p + skipped.length = n.log.length := by
      rcases Nat.lt_or_ge (p + skipped.length) q with hlt | hge
      · have hy := List.getElem?_eq_getElem (show p + skipped.length < L.length by omega)
        have hy' : added[0]? = some (L.get ⟨p + skipped.length, by omega⟩) := by
          rw [hadded, List.getElem?_drop, Nat.add_zero, List.getElem?_take, if_pos hlt]
          exact hy
        have hnum := hL _ _ hy
        have hlast := hidx 0 _ hy'
        rw [lastEntry_index hcont, hsnap] at hlast
        simp only [List.get_eq_getElem] at hlast
        exact .inr (by omega)
      · exact .inl hge
    have hkept : kept LogEntry.term n.log L p (q - p) = n.log.length := by
      refine kept_eq_length fun i x y hlo hhi hx hy => hsame hd i x y hlo ?_ hx hy
      have hlt := (List.getElem?_eq_some_iff.mp hx).1
      omega
    rw [appendAll_log, Overwrite.overwrite, hkept, List.take_length, hadded]
    rcases hend with hend | hend
    · rw [List.drop_of_length_le (by rw [List.length_take]; omega),
        List.drop_of_length_le (by rw [List.length_take]; omega)]
    · rw [hend]
  | replaced e x added hx ht hidx skipped he hd =>
    obtain ⟨hnew, hnum⟩ := hget (getElem?_of_next he)
    have hlen := congrArg List.length hes
    have hlt := (List.getElem?_eq_some_iff.mp (getElem?_of_next he)).1
    rw [hlen, List.length_drop, List.length_take] at hlt
    have hkept : kept LogEntry.term n.log L p (q - p) = p + skipped.length :=
      kept_eq_of_conflict (by omega) (by omega) (hat (getElem?_of_next he) hx) hnew ht (hsame hd)
    have hk : (e.index - n.snapshotIndex - 1).toNat = p + skipped.length := by
      have hnum' : e.index = 0 + ((p + skipped.length : Nat) : Int) + 1 := hnum
      omega
    rw [appendAll_log, cutSuffix_log hcont, hk, Overwrite.overwrite, hkept, hdrop hd]

/-! ### The whole request -/

omit [Codec] in
theorem slice_placed (hcont : n.Contiguous) (hsnap : n.snapshotIndex = 0) (hs : SliceOf L args p q)
    (hpass : n.checkPrev args = none) :
    p ≤ n.log.length ∧
      (0 < p → ∃ x y, n.log[p - 1]? = some x ∧ L[p - 1]? = some y ∧ x.term = y.term) := by
  have hplace := place_of_checkPrev hcont hsnap.ge hpass
    (.inr (by rw [hsnap, hs.prevLogIndex]; exact Int.natCast_nonneg p))
  rw [lastEntry_index hcont, hsnap, hs.prevLogIndex] at hplace
  refine ⟨by omega, fun hpos => ?_⟩
  have hx : n.log[p - 1]? = some (n.log.get ⟨p - 1, by omega⟩) := List.getElem?_eq_getElem _
  have hlt : p - 1 < L.length := by
    have := hs.le
    have := hs.length
    omega
  have hy : L[p - 1]? = some (L.get ⟨p - 1, hlt⟩) := List.getElem?_eq_getElem _
  refine ⟨_, _, hx, hy, ?_⟩
  have hterm := checkPrev_eq_none_iff.mp hpass (by rw [hs.prevLogIndex]; omega)
  have hat : (args.prevLogIndex - n.snapshotIndex - 1).toNat = p - 1 := by
    rw [hs.prevLogIndex, hsnap]
    omega
  rw [termAt_eq hcont hsnap.ge (by rw [hsnap, hs.prevLogIndex]; omega), hat, hx,
    hs.prevLogTerm _ hpos hy] at hterm
  exact Option.some.inj hterm

omit [Codec] in
theorem take_eq_of_placed (hmatch : Matches n.log L)
    (hpl : 0 < p → ∃ x y, n.log[p - 1]? = some x ∧ L[p - 1]? = some y ∧ x.term = y.term) :
    n.log.take p = L.take p := by
  rcases Nat.eq_zero_or_pos p with rfl | hpos
  · rfl
  · obtain ⟨x, y, hx, hy, hxy⟩ := hpl hpos
    have := hmatch (p - 1) x y hx hy hxy
    rwa [Nat.sub_add_cancel hpos] at this

omit [Codec] in
theorem indexed_overwrite {old : List LogEntry} (hold : Indexed LogEntry.index 0 old)
    (hL : Indexed LogEntry.index 0 L) (p q : Nat) :
    Indexed LogEntry.index 0 (overwrite LogEntry.term old L p q) := by
  intro i e he
  rw [getElem?_overwrite] at he
  split at he
  · exact hold i e he
  · exact hL.restrict (List.take_prefix q L) i e he

theorem handleAppendEntries_slice (f : Faults) (hcont : n.Contiguous) (hsnap : n.snapshotIndex = 0)
    (hL : Indexed LogEntry.index 0 L) (hs : SliceOf L args p q)
    (hok : (n.handleAppendEntries args f).2.success = true) :
    n.checkPrev args = none ∧
      (n.handleAppendEntries args f).1.log = overwrite LogEntry.term n.log L p q ∧
      (n.handleAppendEntries args f).1.commitIndex =
        if n.commitIndex < args.leaderCommit then
          min args.leaderCommit (overwrite LogEntry.term n.log L p q).length
        else n.commitIndex := by
  have honly := electionOnly_acceptLeader n args f
  rcases handleAppendEntries_outcome n args f with ⟨_, heq⟩ | ⟨_, ⟨_, _, _, heq⟩ | ⟨hpass, n₂, h⟩⟩
  · rw [heq] at hok
    cases hok
  · rw [heq] at hok
    cases hok
  · rcases h with ⟨_, heq⟩ | ⟨hloop, heq⟩
    · rw [heq] at hok
      cases hok
    · have hpass' := hpass
      rw [checkPrev_acceptLeader] at hpass'
      have hp := (slice_placed hcont hsnap hs hpass').1
      have hlog : n₂.log = overwrite LogEntry.term n.log L p q := by
        have hsnap' := honly.setup.snapshotIndex
        have hcont' : (n.acceptLeader args f).Contiguous := by
          rwa [Contiguous, honly.log, hsnap']
        have hspl := appendLoop_spliced (b := p) f (i := 0) hcont' (by omega)
          (by rw [hs.entries]; simpa using (hL.restrict (List.take_prefix q L)).drop p) (by omega)
          (by rw [lastEntry_index hcont', honly.log]; omega)
        rw [hloop] at hspl
        rw [hspl.overwrite hcont' (by omega) hL (by rwa [honly.log]) hs.le hs.length hs.entries,
          honly.log]
      have hbound := appendLoop_boundaries f (n.acceptLeader args f) 0 args.entries
      obtain ⟨_, _, _, _, _, _, hacc⟩ := honly
      have hcommit : n₂.commitIndex = n.commitIndex := by
        rw [hloop, hacc] at hbound
        exact hbound.1
      have hsnap₂ : n₂.snapshotIndex = 0 := by
        rw [hloop, hacc] at hbound
        exact hbound.2.trans hsnap
      have hcont₂ : n₂.Contiguous := by
        unfold Contiguous
        rw [hsnap₂, hlog]
        exact indexed_overwrite (hsnap ▸ hcont) hL p q
      refine ⟨hpass', ?_, ?_⟩
      · rw [heq]
        exact (followCommit_log ..).trans hlog
      · rw [heq, ← hlog, ← hcommit]
        rw [followCommit]
        split
        · show (if args.leaderCommit < n₂.lastEntry.1 then args.leaderCommit else n₂.lastEntry.1) =
            _
          rw [lastEntry_index hcont₂, hsnap₂, Int.zero_add]
          split <;> omega
        · rfl

/-! ### What is committed -/

/-- The two logs have the same entry at every index up to `i`. -/
def AgreeUpTo (a b : List LogEntry) (i : Int) : Prop :=
  ∀ k : Nat, (k : Int) < i → ∃ e, a[k]? = some e ∧ b[k]? = some e

omit [Codec] in
theorem AgreeUpTo.le_kept {old : List LogEntry} {i : Int} (h : AgreeUpTo old L i) (p m : Nat) :
    i ≤ kept LogEntry.term old L p m := by
  rcases kept_cases LogEntry.term old L p m with
    hall | ⟨_, _, x, y, hx, hy, hne⟩
  · rw [hall]
    by_contra hlt
    obtain ⟨e, he, _⟩ := h old.length (by omega)
    rw [List.getElem?_eq_none le_rfl] at he
    cases he
  · by_contra hlt
    obtain ⟨e, he, he'⟩ := h (kept LogEntry.term old L p m) (by omega)
    rw [hx] at he
    rw [hy] at he'
    exact hne (by rw [Option.some.inj he, Option.some.inj he'])

/-- **When the log agrees with the leader's up to the new commit index**: exactly if
the leader's commit index is no news, or every entry up to it that the request leaves in
place is the leader's. -/
theorem commit_agrees_iff (f : Faults) (hcont : n.Contiguous) (hsnap : n.snapshotIndex = 0)
    (hL : Indexed LogEntry.index 0 L) (hs : SliceOf L args p q)
    (hc : args.leaderCommit ≤ L.length) (hold : AgreeUpTo n.log L n.commitIndex)
    (hok : (n.handleAppendEntries args f).2.success = true) :
    AgreeUpTo (n.handleAppendEntries args f).1.log L (n.handleAppendEntries args f).1.commitIndex ↔
      args.leaderCommit ≤ n.commitIndex ∨
        ∀ k : Nat, (k : Int) < args.leaderCommit → k < kept LogEntry.term n.log L p (q - p) →
          n.log[k]? = L[k]? := by
  obtain ⟨-, hlog, hcommit⟩ := handleAppendEntries_slice f hcont hsnap hL hs hok
  have hkept := hold.le_kept p (q - p)
  rw [hlog, hcommit]
  split
  · next hlt =>
      rw [length_overwrite hs.length]
      constructor
      · -- what stays in place is read off the result
        intro h
        refine .inr fun k hk hkk => ?_
        obtain ⟨e, he, he'⟩ := h k (by omega)
        rw [getElem?_overwrite, if_pos hkk] at he
        rw [he, he']
      · intro h k hk
        have hplaced := h.resolve_left (by omega) k (by omega)
        have hkL : k < L.length := by omega
        refine ⟨_, ?_, List.getElem?_eq_getElem hkL⟩
        rw [getElem?_overwrite]
        split
        · next hkk => rw [hplaced hkk, List.getElem?_eq_getElem hkL]
        · next hkk =>
            rw [List.getElem?_take, if_pos (by omega), List.getElem?_eq_getElem hkL]
  · next hge =>
      refine iff_of_true (fun k hk => ?_) (.inl (by omega))
      rw [getElem?_overwrite, if_pos (by omega)]
      exact hold k hk

/-! ### Any sequence of slices -/

/-- The follower's log fits the leader's: it is whole, and equal terms mean equal
prefixes. -/
structure Follows (L : List LogEntry) (n : RaftNode) : Prop where
  contiguous : n.Contiguous
  snapshotIndex : n.snapshotIndex = 0
  matching : Matches n.log L

theorem appendLoop_none (n : RaftNode) (t : Bool) (i : Nat) (es : List PbLogEntry) :
    (appendLoop Faults.none n t i es).2 = true := by
  have hcut : ∀ m : RaftNode, ¬(m.logStore.isSome && Faults.none.truncate) = true := by
    simp [Faults.none]
  have happ : ∀ (m : RaftNode) (j : Nat),
      ¬(m.logStore.isSome && Faults.none.append == some j) = true := by
    simp [Faults.none]
  induction es generalizing n t i with
  | nil => rfl
  | cons e es ih =>
    unfold appendLoop
    split
    · split
      · exact ih _ _ _
      · rw [if_neg (hcut n), if_neg (happ n i)]
        exact ih _ _ _
    · rw [if_neg (happ n i)]
      exact ih _ _ _

theorem handleAppendEntries_none (hterm : n.currentTerm ≤ args.term) :
    (∃ conflictIndex conflictTerm, n.checkPrev args = some (conflictIndex, conflictTerm) ∧
      n.handleAppendEntries args Faults.none = (n.acceptLeader args Faults.none,
        ⟨(n.acceptLeader args Faults.none).currentTerm, false, conflictIndex, conflictTerm⟩)) ∨
    (n.checkPrev args = none ∧ (n.handleAppendEntries args Faults.none).2.success = true ∧
      (n.handleAppendEntries args Faults.none).1 =
        (appendLoop Faults.none (n.acceptLeader args Faults.none) false 0
          args.entries).1.followCommit args.leaderCommit) := by
  have hloop := appendLoop_none (n.acceptLeader args Faults.none) false 0 args.entries
  rcases handleAppendEntries_outcome n args Faults.none with
    ⟨hlt, _⟩ | ⟨_, ⟨c, t, hc, heq⟩ | ⟨hpass, n₂, ⟨hfail, _⟩ | ⟨hdone, heq⟩⟩⟩
  · omega
  · exact .inl ⟨c, t, by rw [← checkPrev_acceptLeader n args Faults.none, hc], heq⟩
  · rw [hfail] at hloop
    cases hloop
  · refine .inr ⟨by rw [← checkPrev_acceptLeader n args Faults.none, hpass], by rw [heq], ?_⟩
    rw [heq, hdone]

theorem Follows.log_cases (h : Follows L n) (hL : Indexed LogEntry.index 0 L)
    (hterm : n.currentTerm ≤ args.term) (hs : SliceOf L args p q) :
    ((n.handleAppendEntries args Faults.none).2.success = false ∧
      (n.handleAppendEntries args Faults.none).1.log = n.log) ∨
    ((n.handleAppendEntries args Faults.none).2.success = true ∧ n.log.take p = L.take p ∧
      (n.handleAppendEntries args Faults.none).1.log = overwrite LogEntry.term n.log L p q) := by
  rcases handleAppendEntries_none hterm with ⟨_, _, _, heq⟩ | ⟨hpass, hok, _⟩
  · rw [heq]
    refine .inl ⟨rfl, ?_⟩
    exact (electionOnly_acceptLeader n args Faults.none).log
  · have hplaced := (slice_placed h.contiguous h.snapshotIndex hs hpass).2
    exact .inr ⟨hok, take_eq_of_placed h.matching hplaced,
      (handleAppendEntries_slice Faults.none h.contiguous h.snapshotIndex hL hs hok).2.1⟩

theorem handleAppendEntries_snapshotIndex (n : RaftNode) (args : AppendEntriesArgs) (f : Faults) :
    (n.handleAppendEntries args f).1.snapshotIndex = n.snapshotIndex := by
  rcases handleAppendEntries_cases n args f with ⟨_, heq⟩ | ⟨_, honly, _⟩
  · rw [heq]
  · obtain ⟨_, _, _, _, _, _, hacc⟩ := electionOnly_acceptLeader n args f
    rw [honly.snapshotIndex, hacc]

theorem Follows.step (h : Follows L n) (hL : Indexed LogEntry.index 0 L)
    (hterm : n.currentTerm ≤ args.term) (hs : SliceOf L args p q) :
    Follows L (n.handleAppendEntries args Faults.none).1 := by
  have hsnap : (n.handleAppendEntries args Faults.none).1.snapshotIndex = 0 := by
    rw [handleAppendEntries_snapshotIndex, h.snapshotIndex]
  have hidx : Indexed LogEntry.index 0 n.log := h.snapshotIndex ▸ h.contiguous
  rcases h.log_cases hL hterm hs with ⟨_, hlog⟩ | ⟨_, hp, hlog⟩
  · refine ⟨?_, hsnap, hlog ▸ h.matching⟩
    unfold Contiguous
    rw [hsnap, hlog]
    exact hidx
  · refine ⟨?_, hsnap, hlog ▸ Matching.overwrite h.matching hs.length hp⟩
    unfold Contiguous
    rw [hsnap, hlog]
    exact indexed_overwrite hidx hL p q

/-! ### Repeating a request -/

omit [Codec] in
theorem acceptLeader_again {n' : RaftNode} {f : Faults} (hterm : args.term = n.currentTerm)
    (h : LogOnly (n.acceptLeader args f) n') : n'.acceptLeader args f = n' := by
  obtain ⟨_, _, _, _, _, _, _, rfl⟩ := h
  have hacc : n.acceptLeader args f =
      { n with role := .follower, leaderID := args.leaderID, resetCh := true } := by
    rw [acceptLeader, if_neg (by omega)]
  rw [hacc, acceptLeader, if_neg (by simp [hterm])]

theorem appendLoop_present (f : Faults) {i : Nat} {es : List PbLogEntry}
    (h : n.Present es) :
    appendLoop f n false i es = (n, true) := by
  induction es generalizing i with
  | nil => rfl
  | cons e es ih =>
    obtain ⟨x, hx, hterm⟩ := h e List.mem_cons_self
    unfold appendLoop
    simp only [Bool.false_eq_true, if_false, hx, hterm, if_true]
    exact ih fun e' he' => h e' (List.mem_cons_of_mem e he')

omit [Codec] in
theorem followCommit_again (n : RaftNode) (c : Int) :
    (n.followCommit c).followCommit c = n.followCommit c := by
  by_cases hlt : n.commitIndex < c
  · obtain ⟨i, hi, heq⟩ : ∃ i, i = (if c < n.lastEntry.1 then c else n.lastEntry.1) ∧
        n.followCommit c = { n with commitIndex := i } := ⟨_, rfl, if_pos hlt⟩
    rw [heq]
    by_cases hic : i < c
    · rw [followCommit, if_pos hic]
      show { n with commitIndex := if c < n.lastEntry.1 then c else n.lastEntry.1 } = _
      rw [← hi]
    · rw [followCommit, if_neg hic]
  · have heq : n.followCommit c = n := if_neg hlt
    rw [heq, heq]

omit [Codec] in
theorem slice_present (hcont : n.Contiguous) (hsnap : n.snapshotIndex = 0)
    (hL : Indexed LogEntry.index 0 L) (hs : SliceOf L args p q) (hq : n.log.take q = L.take q) :
    n.checkPrev args = none ∧ n.Present args.entries := by
  have hget : ∀ i, i < q → n.log[i]? = L[i]? := by
    intro i hi
    have := congrArg (fun l : List LogEntry => l[i]?) hq
    simpa only [List.getElem?_take, if_pos hi] using this
  have hidx : Indexed LogEntry.index 0 n.log := hsnap ▸ hcont
  have hle := hs.le
  have hlen := hs.length
  constructor
  · refine checkPrev_eq_none_iff.mpr fun hpos => ?_
    rw [hs.prevLogIndex] at hpos ⊢
    have hp : 0 < p := by omega
    have hat : ((p : Int) - n.snapshotIndex - 1).toNat = p - 1 := by omega
    have hy : L[p - 1]? = some (L.get ⟨p - 1, by omega⟩) := List.getElem?_eq_getElem _
    rw [termAt_eq hcont hsnap.ge (by omega), hat, hget (p - 1) (by omega), hy,
      hs.prevLogTerm _ hp hy]
    rfl
  · intro e he
    have hmem : e.toEntry ∈ (L.take q).drop p := hs.entries ▸ List.mem_map_of_mem he
    obtain ⟨i, hi⟩ := List.getElem?_of_mem hmem
    rw [List.getElem?_drop, List.getElem?_take] at hi
    split at hi
    · next hlt =>
      refine ⟨e.toEntry, ?_, rfl⟩
      have hnum : e.index = 0 + ((p + i : Nat) : Int) + 1 := hL _ _ hi
      rw [entryAt_eq hidx le_rfl, if_pos (by omega), show (e.index - 0 - 1).toNat = p + i by omega,
        hget (p + i) hlt, hi]
    · cases hi

theorem handleAppendEntries_accepted {f : Faults} (hterm : n.currentTerm ≤ args.term)
    (hacc : n.acceptLeader args f = n) :
    (∀ c t, n.checkPrev args = some (c, t) →
      n.handleAppendEntries args f = (n, ⟨n.currentTerm, false, c, t⟩)) ∧
    (n.checkPrev args = none → n.Present args.entries →
      n.handleAppendEntries args f =
        (n.followCommit args.leaderCommit, ⟨n.currentTerm, true, 0, 0⟩)) := by
  constructor
  · intro c t hc
    unfold handleAppendEntries
    rw [if_neg (by omega)]
    simp only [hacc, hc]
  · intro hc hthere
    unfold handleAppendEntries
    rw [if_neg (by omega)]
    simp only [hacc, hc, appendLoop_present f hthere]

theorem Follows.again (h : Follows L n) (hL : Indexed LogEntry.index 0 L)
    (hterm : args.term = n.currentTerm) (hs : SliceOf L args p q) :
    (n.handleAppendEntries args Faults.none).1.handleAppendEntries args Faults.none =
      n.handleAppendEntries args Faults.none := by
  have hstep := h.step hL hterm.ge hs
  have hlog := h.log_cases hL hterm.ge hs
  have honly : LogOnly (n.acceptLeader args Faults.none)
      (n.handleAppendEntries args Faults.none).1 := by
    rcases handleAppendEntries_cases n args Faults.none with ⟨hlt, _⟩ | ⟨_, honly, _⟩
    · omega
    · exact honly
  have hacc := acceptLeader_again hterm honly
  have hterm' : (n.handleAppendEntries args Faults.none).1.currentTerm ≤ args.term := by
    rw [honly.currentTerm, acceptLeader, if_neg (by omega)]
    exact hterm.ge
  obtain ⟨hreject, haccept⟩ := handleAppendEntries_accepted hterm' hacc
  rcases handleAppendEntries_outcome n args Faults.none with
    ⟨hlt, _⟩ | ⟨_, ⟨c, t, hc, heq⟩ | ⟨hpass, n₂, ⟨hfail, _⟩ | ⟨hdone, heq⟩⟩⟩
  · omega
  · rw [heq] at hreject ⊢
    exact hreject c t hc
  · have hloop := appendLoop_none (n.acceptLeader args Faults.none) false 0 args.entries
    rw [hfail] at hloop
    cases hloop
  · rcases hlog with ⟨hno, _⟩ | ⟨_, hp, hlog⟩
    · rw [heq] at hno
      cases hno
    · have htake : (n.handleAppendEntries args Faults.none).1.log.take q = L.take q := by
        rw [hlog]
        exact take_overwrite h.matching hs.length hp
      obtain ⟨hcheck, hthere⟩ :=
        slice_present hstep.contiguous hstep.snapshotIndex hL hs htake
      rw [haccept hcheck hthere, heq, followCommit_again]
      obtain ⟨c, hc⟩ := followCommit_eq n₂ args.leaderCommit
      rw [hc]

/-- A request with a slice of the leader's log, in the follower's term. -/
def SliceSent (L : List LogEntry) (n : RaftNode) (args : AppendEntriesArgs) : Prop :=
  args.term = n.currentTerm ∧ ∃ p q, SliceOf L args p q

/-- The follower handles a request; no store operation fails. -/
def handleReliably (n : RaftNode) (args : AppendEntriesArgs) : Option RaftNode :=
  some (n.handleAppendEntries args Faults.none).1

theorem Follows.run {n₀ : RaftNode} (hL : Indexed LogEntry.index 0 L) (h : Follows L n₀)
    (hrun : Runs handleReliably (SliceSent L) n₀ n) : Follows L n := by
  refine hrun.invariant (fun m args m' hm hstep hsent => ?_) h
  obtain ⟨hterm, p, q, hs⟩ := hsent
  obtain rfl := Option.some.inj hstep
  exact hm.step hL hterm.ge hs

/-- **Slices of the leader's log, in any order and with repetitions.**  A rejected
request leaves the log alone; one that succeeds leaves a log with the leader's entries up
to the end of its slice; what is behind stays unless something conflicts; repeating it
changes nothing.  The common prefix with the leader's log never gets shorter. -/
theorem slices_converge {n₀ : RaftNode} (hL : Indexed LogEntry.index 0 L) (h : Follows L n₀)
    (hrun : Runs handleReliably (SliceSent L) n₀ n) :
    commonLength n₀.log L ≤ commonLength n.log L ∧
      ∀ args p q, args.term = n.currentTerm → SliceOf L args p q →
        ((n.handleAppendEntries args Faults.none).2.success = false →
          (n.handleAppendEntries args Faults.none).1.log = n.log) ∧
        ((n.handleAppendEntries args Faults.none).2.success = true →
          (n.handleAppendEntries args Faults.none).1.log.take q = L.take q) ∧
        commonLength n.log L ≤
          commonLength (n.handleAppendEntries args Faults.none).1.log L ∧
        ((∀ i x y, p ≤ i → i < q → n.log[i]? = some x → L[i]? = some y → x.term = y.term) →
          (n.handleAppendEntries args Faults.none).1.log.drop q = n.log.drop q) ∧
        (n.handleAppendEntries args Faults.none).1.handleAppendEntries args Faults.none =
          n.handleAppendEntries args Faults.none := by
  have hgrow : ∀ {m : RaftNode} {args : AppendEntriesArgs} {p q : Nat}, Follows L m →
      m.currentTerm ≤ args.term → SliceOf L args p q →
      commonLength m.log L ≤ commonLength (m.handleAppendEntries args Faults.none).1.log L := by
    intro m args p q hm hterm hs
    rcases hm.log_cases hL hterm hs with ⟨_, hlog⟩ | ⟨_, _, hlog⟩
    · rw [hlog]
    · rw [hlog]
      exact commonLength_le_overwrite p q
  refine ⟨?_, fun args p q hterm hs => ?_⟩
  · refine hrun.relates (P := Follows L) (R := fun m m' => commonLength m.log L ≤
      commonLength m'.log L) ?_ (fun _ => le_rfl) (fun _ _ _ => le_trans) ?_ h
    · rintro m args m' hm hstep ⟨hterm, p, q, hs⟩
      obtain rfl := Option.some.inj hstep
      exact hm.step hL hterm.ge hs
    · rintro m args m' hm hstep ⟨hterm, p, q, hs⟩
      obtain rfl := Option.some.inj hstep
      exact hgrow hm hterm.ge hs
  · have hn := h.run hL hrun
    refine ⟨?_, ?_, hgrow hn hterm.ge hs, ?_, hn.again hL hterm hs⟩
    · intro hno
      rcases hn.log_cases hL hterm.ge hs with ⟨_, hlog⟩ | ⟨hok, _⟩
      · exact hlog
      · rw [hno] at hok
        cases hok
    · intro hok
      rcases hn.log_cases hL hterm.ge hs with ⟨hno, _⟩ | ⟨_, hp, hlog⟩
      · rw [hok] at hno
        cases hno
      · rw [hlog]
        exact take_overwrite hn.matching hs.length hp
    · intro hfree
      rcases hn.log_cases hL hterm.ge hs with ⟨_, hlog⟩ | ⟨_, _, hlog⟩
      · rw [hlog]
      · rw [hlog]
        refine drop_overwrite_of_no_conflict (kept_eq_length fun i x y hlo hhi hx hy => ?_)
        exact hfree i x y hlo (by omega) hx hy

end RaftNode

section

local instance replicateCodec : Codec := Codec.silent

open RaftNode

/-- A leader's log, and a follower with a suffix of an earlier term. -/
def leaderEntries : List LogEntry :=
  [⟨1, 1, entryTypeCommand, [1]⟩, ⟨2, 2, entryTypeCommand, [2]⟩, ⟨3, 2, entryTypeCommand, [3]⟩,
    ⟨4, 2, entryTypeCommand, [4]⟩]

def staleFollower : RaftNode :=
  { newRaftNode "f" none (some ⟨2, ""⟩)
      (some [.entry ⟨1, 1, entryTypeCommand, [1]⟩, .entry ⟨2, 1, entryTypeCommand, [9]⟩,
        .entry ⟨3, 1, entryTypeCommand, [9]⟩]) with commitIndex := 1 }

/-- The request with the entries behind `p` up to `q`. -/
def sliceArgs (L : List LogEntry) (term commit : Int) (p q : Nat) : AppendEntriesArgs :=
  { term := term
    leaderID := "l"
    prevLogIndex := p
    prevLogTerm := if 0 < p then ((L[p - 1]?).map LogEntry.term).getD 0 else 0
    entries := ((L.take q).drop p).map LogEntry.toPb
    leaderCommit := commit }

theorem sliceOf_sliceArgs {L : List LogEntry} {p q : Nat} (term commit : Int) (hpq : p ≤ q)
    (hq : q ≤ L.length) : SliceOf L (sliceArgs L term commit p q) p q where
  prevLogIndex := rfl
  prevLogTerm := by
    intro x hp hx
    show (if 0 < p then ((L[p - 1]?).map LogEntry.term).getD 0 else 0) = x.term
    rw [if_pos hp, hx]
    rfl
  entries := map_toEntry_toPb _
  le := hpq
  length := hq

theorem indexed_leaderEntries : Indexed LogEntry.index 0 leaderEntries := by decide

theorem staleFollower_follows : Follows leaderEntries staleFollower where
  contiguous := by
    decide +kernel
  snapshotIndex := rfl
  matching := by
    intro k x y hx hy hxy
    rcases k with - | - | - | k
    · rfl
    · cases hx
      cases hy
      cases hxy
    · cases hx
      cases hy
      cases hxy
    · cases hx

theorem staleFollower_agrees :
    AgreeUpTo staleFollower.log leaderEntries staleFollower.commitIndex := by
  intro k hk
  have hk' : (k : Int) < 1 := hk
  obtain rfl : k = 0 := by omega
  exact ⟨_, rfl, rfl⟩

/-- The second half comes first and is rejected; some slices come twice. -/
def outOfOrder : List (Nat × Nat) := [(2, 4), (1, 3), (1, 2), (2, 4), (0, 2), (1, 3)]

/-- The request is one of these. -/
def sentOutOfOrder (n : RaftNode) (args : AppendEntriesArgs) : Prop :=
  args.term = n.currentTerm ∧ ∃ s ∈ outOfOrder, sliceArgs leaderEntries 2 2 s.1 s.2 = args

instance (n : RaftNode) (args : AppendEntriesArgs) : Decidable (sentOutOfOrder n args) :=
  inferInstanceAs (Decidable (_ ∧ _))

theorem sliceSent_of_sentOutOfOrder {n : RaftNode} {args : AppendEntriesArgs}
    (h : sentOutOfOrder n args) : SliceSent leaderEntries n args := by
  obtain ⟨hterm, s, hs, rfl⟩ := h
  have hbounds : ∀ s ∈ outOfOrder, s.1 ≤ s.2 ∧ s.2 ≤ leaderEntries.length := by decide
  exact ⟨hterm, s.1, s.2, sliceOf_sliceArgs 2 2 (hbounds s hs).1 (hbounds s hs).2⟩

/-- The follower has the whole log in the end, and the first slice leaves it so. -/
theorem slices_converge_stale :
    ∃ n, Runs handleReliably (SliceSent leaderEntries) staleFollower n ∧
      n.log = leaderEntries ∧
      commonLength staleFollower.log leaderEntries ≤ commonLength n.log leaderEntries ∧
      (n.handleAppendEntries (sliceArgs leaderEntries 2 2 0 1) Faults.none).1.log.take 1 =
        leaderEntries.take 1 := by
  obtain ⟨n, hrun, hlog, hterm, hok⟩ : ∃ n, Runs handleReliably sentOutOfOrder staleFollower n ∧
      n.log = leaderEntries ∧ 2 = n.currentTerm ∧
      (n.handleAppendEntries (sliceArgs leaderEntries 2 2 0 1) Faults.none).2.success = true :=
    Runs.exists_of_exec (outOfOrder.map fun s => sliceArgs leaderEntries 2 2 s.1 s.2)
      (by decide +kernel)
  have hsent := hrun.weaken fun _ _ => sliceSent_of_sentOutOfOrder
  obtain ⟨hgrow, hslice⟩ := slices_converge indexed_leaderEntries staleFollower_follows hsent
  exact ⟨n, hsent, hlog, hgrow, (hslice (sliceArgs leaderEntries 2 2 0 1) 0 1 hterm
    (sliceOf_sliceArgs 2 2 (by decide) (by decide))).2.1 hok⟩

/-- A batch that conflicts replaces the stale suffix, and may be committed. -/
theorem commit_agrees_replaced :
    AgreeUpTo
      (staleFollower.handleAppendEntries (sliceArgs leaderEntries 2 2 1 2) Faults.none).1.log
      leaderEntries
      (staleFollower.handleAppendEntries (sliceArgs leaderEntries 2 2 1 2)
        Faults.none).1.commitIndex := by
  refine (commit_agrees_iff Faults.none staleFollower_follows.contiguous rfl indexed_leaderEntries
    (sliceOf_sliceArgs 2 2 (p := 1) (q := 2) (by decide) (by decide)) (by decide)
    staleFollower_agrees (by decide +kernel)).mpr (.inr fun k _ hk => ?_)
  have hkept : kept LogEntry.term staleFollower.log leaderEntries 1 (2 - 1) = 1 := by
    decide +kernel
  obtain rfl : k = 0 := by omega
  rfl

/-- **A heartbeat commits a stale suffix.**  It carries no entry and covers index 1;
the follower has index 2 from an earlier term, and commits it. -/
theorem stale_suffix_committed :
    SliceOf leaderEntries (sliceArgs leaderEntries 2 2 1 1) 1 1 ∧
      Follows leaderEntries staleFollower ∧
      AgreeUpTo staleFollower.log leaderEntries staleFollower.commitIndex ∧
      (staleFollower.handleAppendEntries (sliceArgs leaderEntries 2 2 1 1)
        Faults.none).2.success = true ∧
      ¬AgreeUpTo
        (staleFollower.handleAppendEntries (sliceArgs leaderEntries 2 2 1 1) Faults.none).1.log
        leaderEntries
        (staleFollower.handleAppendEntries (sliceArgs leaderEntries 2 2 1 1)
          Faults.none).1.commitIndex := by
  refine ⟨sliceOf_sliceArgs 2 2 (by decide) (by decide), staleFollower_follows,
    staleFollower_agrees, by decide +kernel, fun h => ?_⟩
  have hcommit : (staleFollower.handleAppendEntries (sliceArgs leaderEntries 2 2 1 1)
      Faults.none).1.commitIndex = 2 := by decide +kernel
  obtain ⟨e, he, he'⟩ := h 1 (by rw [hcommit]; decide)
  have hold : (staleFollower.handleAppendEntries (sliceArgs leaderEntries 2 2 1 1)
      Faults.none).1.log[1]? = some ⟨2, 1, entryTypeCommand, [9]⟩ := by decide +kernel
  rw [hold, ← he'] at he
  exact absurd he (by decide)

end

end Raft
