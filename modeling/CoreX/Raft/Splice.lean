/-
CoreX/Raft/Splice.lean

What `HandleAppendEntries` does to a log of which a prefix may be compacted.  If
the batch is consecutive and starts no lower than the snapshot, the loop cuts at
most once, at a conflicting entry, and then appends a consecutive list
(`appendLoop_spliced`): that is all that later modules need to know about it.
-/
import CoreX.Raft.Install

namespace Raft

/-- The batch is numbered from the position it names on. -/
def AppendEntriesArgs.consecutive (args : AppendEntriesArgs) : Bool :=
  args.entries.isEmpty ||
    decide (Indexed LogEntry.index args.prevLogIndex (args.entries.map PbLogEntry.toEntry))

namespace RaftNode

variable {n m : RaftNode} [Codec]

/-! ### Appending a list of entries -/

/-- Append the entries one after the other. -/
def appendAll (n : RaftNode) (es : List LogEntry) : RaftNode :=
  es.foldl (fun n e => n.appendEntry e) n

theorem appendAll_concat (n : RaftNode) (es : List LogEntry) (e : LogEntry) :
    n.appendAll (es ++ [e]) = (n.appendAll es).appendEntry e := by
  simp [appendAll]

theorem appendAll_induct {P : RaftNode → Prop} (hP : ∀ m e, P m → P (m.appendEntry e)) (h : P n)
    (es : List LogEntry) : P (n.appendAll es) := by
  induction es generalizing n with
  | nil => exact h
  | cons e es ih => exact ih (hP n e h)

@[simp] theorem appendAll_snapshotIndex (es : List LogEntry) :
    (n.appendAll es).snapshotIndex = n.snapshotIndex :=
  appendAll_induct (P := fun m => m.snapshotIndex = n.snapshotIndex)
    (fun m e h => by rw [appendEntry_snapshotIndex, h]) rfl es

@[simp] theorem appendAll_commitIndex (es : List LogEntry) :
    (n.appendAll es).commitIndex = n.commitIndex :=
  appendAll_induct (P := fun m => m.commitIndex = n.commitIndex)
    (fun m e h => by rw [appendEntry_commitIndex, h]) rfl es

@[simp] theorem appendAll_log (es : List LogEntry) : (n.appendAll es).log = n.log ++ es := by
  induction es generalizing n with
  | nil => simp [appendAll]
  | cons e es ih =>
    show ((n.appendEntry e).appendAll es).log = _
    rw [ih, appendEntry_log]
    simp

omit [Codec] in
theorem Contiguous.next (h : n.Contiguous) {es : List LogEntry}
    (hes : Indexed LogEntry.index n.lastEntry.1 es) :
    Indexed LogEntry.index n.snapshotIndex (n.log ++ es) := by
  apply Indexed.append h
  rwa [lastEntry_index h] at hes

theorem appendAll_contiguous (h : n.Contiguous) {es : List LogEntry}
    (hes : Indexed LogEntry.index n.lastEntry.1 es) : (n.appendAll es).Contiguous := by
  show Indexed LogEntry.index (n.appendAll es).snapshotIndex (n.appendAll es).log
  rw [appendAll_snapshotIndex, appendAll_log]
  exact h.next hes

theorem appendAll_lastEntry (h : n.Contiguous) {es : List LogEntry}
    (hes : Indexed LogEntry.index n.lastEntry.1 es) :
    (n.appendAll es).lastEntry.1 = n.lastEntry.1 + es.length := by
  rw [lastEntry_index (appendAll_contiguous h hes), appendAll_log, appendAll_snapshotIndex,
    lastEntry_index h, List.length_append]
  omega

omit [Codec] in
theorem le_of_entryAt (h : n.Contiguous) (hb : 0 ≤ n.snapshotIndex) {i : Int} {e : LogEntry}
    (he : n.entryAt i = some e) : n.snapshotIndex < i ∧ i ≤ n.lastEntry.1 := by
  obtain ⟨hlt, hget⟩ := lt_of_entryAt h hb he
  have hlen := (List.getElem?_eq_some_iff.mp hget).1
  rw [lastEntry_index h]
  omega

omit [Codec] in
theorem lt_of_entryAt_none (h : n.Contiguous) (hb : 0 ≤ n.snapshotIndex) {i : Int}
    (hi : n.snapshotIndex < i) (he : n.entryAt i = none) : n.lastEntry.1 < i := by
  rw [entryAt_eq h hb, if_pos hi, List.getElem?_eq_none_iff] at he
  rw [lastEntry_index h]
  omega

omit [Codec] in
theorem cutSuffix_contiguous (h : n.Contiguous) (i : Int) : (n.cutSuffix i).Contiguous := by
  exact h.restrict (List.takeWhile_prefix _)

omit [Codec] in
theorem cutSuffix_lastEntry (h : n.Contiguous) {i : Int} (hlo : n.snapshotIndex < i)
    (hhi : i ≤ n.lastEntry.1) : (n.cutSuffix i).lastEntry.1 = i - 1 := by
  rw [lastEntry_index h] at hhi
  rw [lastEntry_index (cutSuffix_contiguous h i), cutSuffix_log h, List.length_take]
  show n.snapshotIndex + _ = _
  omega

/-! ### The loop, on a consecutive batch -/

/-- The entries are in the log, with the same terms. -/
def Present (n : RaftNode) (es : List PbLogEntry) : Prop :=
  ∀ e ∈ es, ∃ x, n.entryAt e.index = some x ∧ x.term = e.term

/-- The loop has done with a part of the batch `es`, or all of it: the entries `skipped`
are in the log, and those of `added` come next. -/
structure Done (n : RaftNode) (es : List PbLogEntry) (all : Bool) (skipped : List PbLogEntry)
    (added : List LogEntry) : Prop where
  present : n.Present skipped
  part : skipped.map PbLogEntry.toEntry ++ added <+: es.map PbLogEntry.toEntry
  rest : all = true → skipped.map PbLogEntry.toEntry ++ added = es.map PbLogEntry.toEntry

omit [Codec] in
theorem Done.getElem? {es skipped : List PbLogEntry} {all : Bool} {added : List LogEntry}
    (h : n.Done es all skipped added) {j : Nat} {e : PbLogEntry} (he : skipped[j]? = some e) :
    (es.map PbLogEntry.toEntry)[j]? = some e.toEntry := by
  have hlt := (List.getElem?_eq_some_iff.mp he).1
  obtain ⟨rest, hrest⟩ := h.part
  rw [← hrest, List.append_assoc, List.getElem?_append_left (by rwa [List.length_map]),
    List.getElem?_map, he]
  rfl

/-- What the loop over the batch `es` can leave of `n`: entries were added at the
end, or an entry conflicted and everything from its index on was replaced. -/
inductive Spliced (n : RaftNode) (es : List PbLogEntry) (all : Bool) : RaftNode → Prop
  | grown (added : List LogEntry) (h : Indexed LogEntry.index n.lastEntry.1 added)
      (skipped : List PbLogEntry) (hd : n.Done es all skipped added) :
      Spliced n es all (n.appendAll added)
  | replaced (e : PbLogEntry) (x : LogEntry) (added : List LogEntry)
      (hx : n.entryAt e.index = some x) (ht : x.term ≠ e.term)
      (h : Indexed LogEntry.index (e.index - 1) added) (skipped : List PbLogEntry)
      (he : skipped ++ [e] <+: es) (hd : n.Done es all skipped added) :
      Spliced n es all ((n.cutSuffix e.index).appendAll added)

omit [Codec] in
theorem getElem?_of_next {es skipped : List PbLogEntry} {e : PbLogEntry}
    (h : skipped ++ [e] <+: es) :
    (es.map PbLogEntry.toEntry)[skipped.length]? = some e.toEntry := by
  obtain ⟨rest, rfl⟩ := h
  simp

theorem Spliced.same {es : List PbLogEntry} {all : Bool} (h : all = true → es = []) :
    Spliced n es all n :=
  .grown [] Indexed.nil [] ⟨nofun, List.nil_prefix, fun hall => by simp [h hall]⟩

theorem Spliced.contiguous {es : List PbLogEntry} {all : Bool} (hs : Spliced n es all m)
    (hcont : n.Contiguous) (hb : 0 ≤ n.snapshotIndex) :
    m.Contiguous ∧ m.snapshotIndex = n.snapshotIndex ∧ m.commitIndex = n.commitIndex := by
  cases hs with
  | grown added h => exact ⟨appendAll_contiguous hcont h, by simp, by simp⟩
  | replaced e x added hx ht h =>
    obtain ⟨hlo, hhi⟩ := le_of_entryAt hcont hb hx
    rw [← cutSuffix_lastEntry hcont hlo hhi] at h
    refine ⟨appendAll_contiguous (cutSuffix_contiguous hcont _) h, ?_, ?_⟩
    · rw [appendAll_snapshotIndex]
      rfl
    · rw [appendAll_commitIndex]
      rfl

/-- The three phases of the loop: entries are skipped, appended at the end of the
old log, or appended after a cut. -/
inductive Splicing (n : RaftNode) (es : List PbLogEntry) :
    RaftNode → Bool → List PbLogEntry → Prop
  | skipping (b : Int) (skipped rest : List PbLogEntry) (hes : skipped ++ rest = es)
      (hlo : n.snapshotIndex ≤ b) (hhi : b ≤ n.lastEntry.1)
      (hrest : Indexed LogEntry.index b (rest.map PbLogEntry.toEntry))
      (hs : n.Present skipped) :
      Splicing n es n false rest
  | growing (added : List LogEntry) (skipped rest : List PbLogEntry)
      (hes : skipped.map PbLogEntry.toEntry ++ (added ++ rest.map PbLogEntry.toEntry) =
        es.map PbLogEntry.toEntry)
      (h : Indexed LogEntry.index n.lastEntry.1 (added ++ rest.map PbLogEntry.toEntry))
      (hs : n.Present skipped) :
      Splicing n es (n.appendAll added) false rest
  | replacing (e : PbLogEntry) (x : LogEntry) (added : List LogEntry)
      (skipped rest : List PbLogEntry) (he : skipped ++ [e] <+: es)
      (hx : n.entryAt e.index = some x) (ht : x.term ≠ e.term)
      (hes : skipped.map PbLogEntry.toEntry ++ (added ++ rest.map PbLogEntry.toEntry) =
        es.map PbLogEntry.toEntry)
      (h : Indexed LogEntry.index (e.index - 1) (added ++ rest.map PbLogEntry.toEntry))
      (hs : n.Present skipped) :
      Splicing n es ((n.cutSuffix e.index).appendAll added) true rest

theorem Splicing.spliced {es rest : List PbLogEntry} {t all : Bool} (h : Splicing n es m t rest)
    (hall : all = true → rest = []) : Spliced n es all m := by
  have hpart : ∀ {skipped : List PbLogEntry} {added : List LogEntry},
      skipped.map PbLogEntry.toEntry ++ (added ++ rest.map PbLogEntry.toEntry) =
        es.map PbLogEntry.toEntry →
      n.Present skipped → n.Done es all skipped added := by
    intro skipped added hes hs
    rw [← List.append_assoc] at hes
    refine ⟨hs, hes ▸ List.prefix_append _ _, fun h => ?_⟩
    rw [← hes, hall h, List.map_nil, List.append_nil]
  cases h with
  | skipping b skipped _ hes hlo hhi hrest hs =>
    exact .grown [] Indexed.nil skipped (hpart (by simp [← hes]) hs)
  | growing added skipped _ hes h hs =>
    exact .grown added (h.restrict (List.prefix_append _ _)) skipped (hpart hes hs)
  | replacing e x added skipped _ he hx ht hes h hs =>
    exact .replaced e x added hx ht (h.restrict (List.prefix_append _ _)) skipped he (hpart hes hs)

theorem entryAt_growing (hcont : n.Contiguous) (hb : 0 ≤ n.snapshotIndex) {added : List LogEntry}
    {e : PbLogEntry} {rest : List PbLogEntry} {x : LogEntry}
    (h : Indexed LogEntry.index n.lastEntry.1 (added ++ (e :: rest).map PbLogEntry.toEntry)) :
    (n.appendAll added).entryAt e.index ≠ some x := by
  intro hx
  have hadded : Indexed LogEntry.index n.lastEntry.1 added :=
    h.restrict (List.prefix_append _ _)
  have hnum : e.index = n.lastEntry.1 + added.length + 1 := by
    refine h added.length e.toEntry ?_
    simp
  have hle := (le_of_entryAt (appendAll_contiguous hcont hadded) (by simpa using hb) hx).2
  rw [appendAll_lastEntry hcont hadded] at hle
  omega

theorem appendLoop_spliced (f : Faults) {i : Nat} {es : List PbLogEntry} {b : Int}
    (hcont : n.Contiguous) (hb : 0 ≤ n.snapshotIndex)
    (hes : Indexed LogEntry.index b (es.map PbLogEntry.toEntry)) (hlo : n.snapshotIndex ≤ b)
    (hhi : b ≤ n.lastEntry.1) :
    Spliced n es (appendLoop f n false i es).2 (appendLoop f n false i es).1 := by
  have hstart : Splicing n es n false es := .skipping b [] es rfl hlo hhi hes nofun
  have hrule := appendLoop_rule f (I := Splicing n es) (R := Spliced n es false) (i := i)
    (fun _ _ _ h => h.spliced (by simp)) ?_ ?_ ?_ hstart
  · rcases hall : (appendLoop f n false i es).2 with - | -
    · exact hrule.1
    · obtain ⟨_, hI⟩ := hrule.2 hall
      exact hI.spliced fun _ => rfl
  · intro m e rest x hI hx ht
    cases hI with
    | skipping b skipped _ hes hlo hhi hrest hs =>
      obtain ⟨hnum, htail⟩ := Indexed.cons_iff.mp hrest
      have hle := (le_of_entryAt hcont hb hx).2
      have hnum' : e.index = b + 1 := hnum
      refine .skipping (b + 1) (skipped ++ [e]) rest (by simpa using hes) (by omega) (by omega)
        htail fun e' he' => ?_
      rcases List.mem_append.mp he' with he' | he'
      · exact hs e' he'
      · exact List.mem_singleton.mp he' ▸ ⟨x, hx, ht⟩
    | growing added _ _ _ h => exact absurd hx (entryAt_growing hcont hb h)
  · intro m e rest x hI hx ht
    cases hI with
    | skipping b skipped _ hes hlo hhi hrest hs =>
      obtain ⟨hnum, _⟩ := Indexed.cons_iff.mp hrest
      have hbase : e.index - 1 = b := by
        have hnum' : e.index = b + 1 := hnum
        omega
      have he : skipped ++ [e] <+: es := ⟨rest, by simpa using hes⟩
      have hpart : skipped.map PbLogEntry.toEntry ++ [] <+: es.map PbLogEntry.toEntry := by
        rw [List.append_nil, ← hes, List.map_append]
        exact List.prefix_append _ _
      refine ⟨.replaced e x [] hx ht Indexed.nil skipped he ⟨hs, hpart, by simp⟩, ?_⟩
      exact .replacing e x [e.toEntry] skipped rest he hx ht (by simp [← hes]) (hbase ▸ hrest) hs
    | growing added _ _ _ h => exact absurd hx (entryAt_growing hcont hb h)
  · intro m t e rest hI hnone
    cases hI with
    | skipping b skipped _ hes hlo hhi hrest hs =>
      -- the first entry that is not there continues the log
      obtain ⟨hnum, _⟩ := Indexed.cons_iff.mp hrest
      have hnum' : e.index = b + 1 := hnum
      have hlt := lt_of_entryAt_none hcont hb (by omega) (hnone rfl)
      have hend : b = n.lastEntry.1 := by omega
      exact .growing [e.toEntry] skipped rest (by simp [← hes]) (hend ▸ hrest) hs
    | growing added skipped _ hes h hs =>
      rw [← appendAll_concat]
      exact .growing (added ++ [e.toEntry]) skipped rest (by simpa using hes) (by simpa using h) hs
    | replacing e₀ x added skipped _ he hx ht hes h hs =>
      rw [← appendAll_concat]
      exact .replacing e₀ x (added ++ [e.toEntry]) skipped rest he hx ht (by simpa using hes)
        (by simpa using h) hs

/-! ### The whole request -/

/-- The batch is placed no lower than the snapshot: it is stale or empty, the
consistency check will place it, or it skips the check and nothing is compacted. -/
def placeFits (n : RaftNode) (args : AppendEntriesArgs) : Bool :=
  decide (args.term < n.currentTerm) || args.entries.isEmpty ||
    decide (0 < args.prevLogIndex) || decide (n.snapshotIndex ≤ args.prevLogIndex)

/-- The batch fits the log: it is consecutive and is not placed too low. -/
def batchFits (n : RaftNode) (args : AppendEntriesArgs) : Bool :=
  args.consecutive && n.placeFits args

omit [Codec] in
theorem of_batchFits {args : AppendEntriesArgs} (h : n.batchFits args = true)
    (hterm : n.currentTerm ≤ args.term) (hne : args.entries ≠ []) :
    Indexed LogEntry.index args.prevLogIndex (args.entries.map PbLogEntry.toEntry) ∧
      (0 < args.prevLogIndex ∨ n.snapshotIndex ≤ args.prevLogIndex) := by
  have hempty : args.entries.isEmpty = false := by simpa using hne
  have hstale : ¬args.term < n.currentTerm := by omega
  simpa [batchFits, placeFits, AppendEntriesArgs.consecutive, hstale, hempty] using h

omit [Codec] in
theorem bounds_of_termAt (h : n.Contiguous) (hb : 0 ≤ n.snapshotIndex) {i t : Int}
    (ht : n.termAt i = some t) : n.snapshotIndex ≤ i ∧ i ≤ n.lastEntry.1 := by
  have hend : n.snapshotIndex ≤ n.lastEntry.1 := by
    rw [lastEntry_index h]
    omega
  unfold termAt at ht
  split at ht
  · cases ht
  · split at ht
    · next e he =>
      obtain ⟨hlo, hhi⟩ := le_of_entryAt h hb he
      exact ⟨hlo.le, hhi⟩
    · split at ht
      · next heq => exact ⟨by omega, by omega⟩
      · cases ht

omit [Codec] in
theorem checkPrev_eq_none_iff {args : AppendEntriesArgs} :
    n.checkPrev args = none ↔
      (0 < args.prevLogIndex → n.termAt args.prevLogIndex = some args.prevLogTerm) := by
  unfold checkPrev
  split
  · next hp =>
    split
    · next ht => simp [hp, ht]
    · next t ht => simp [hp, ht]
  · next hp => simp [hp]

omit [Codec] in
theorem place_of_checkPrev (h : n.Contiguous) (hb : 0 ≤ n.snapshotIndex)
    {args : AppendEntriesArgs} (hpass : n.checkPrev args = none)
    (hskip : 0 < args.prevLogIndex ∨ n.snapshotIndex ≤ args.prevLogIndex) :
    n.snapshotIndex ≤ args.prevLogIndex ∧ args.prevLogIndex ≤ n.lastEntry.1 := by
  by_cases hp : 0 < args.prevLogIndex
  · exact bounds_of_termAt h hb (checkPrev_eq_none_iff.mp hpass hp)
  · have hlo : n.snapshotIndex ≤ args.prevLogIndex := hskip.resolve_left hp
    rw [lastEntry_index h]
    exact ⟨hlo, by omega⟩

theorem handleAppendEntries_spliced (f : Faults) {args : AppendEntriesArgs} (hcont : n.Contiguous)
    (hb : 0 ≤ n.snapshotIndex) (hfit : n.batchFits args = true) :
    ∃ n₁ n₂ all, ElectionOnly n n₁ ∧ Spliced n₁ args.entries all n₂ ∧
      ((n.handleAppendEntries args f).1 = n₂ ∨
        (n.handleAppendEntries args f).1 = n₂.followCommit args.leaderCommit) ∧
      (n₂ = n₁ ∨ n.currentTerm ≤ args.term ∧ n.checkPrev args = none) := by
  have honly := electionOnly_acceptLeader n args f
  have hsame : ∀ {k : RaftNode}, Spliced k args.entries false k := .same (by simp)
  -- the check reads the log only
  have hprev : (n.acceptLeader args f).checkPrev args = none → n.checkPrev args = none := by
    obtain ⟨_, _, _, _, _, _, heq⟩ := honly
    rw [heq, checkPrev_eq_none_iff, checkPrev_eq_none_iff]
    exact fun h => h
  rcases handleAppendEntries_outcome n args f with
    ⟨_, heq⟩ | ⟨hterm, ⟨_, _, _, heq⟩ | ⟨hpass, n₂, hloop⟩⟩
  · rw [heq]
    exact ⟨n, n, _, ElectionOnly.refl n, hsame, .inl rfl, .inl rfl⟩
  · rw [heq]
    exact ⟨_, _, _, honly, hsame, .inl rfl, .inl rfl⟩
  · have hspl : Spliced (n.acceptLeader args f) args.entries
        (appendLoop f (n.acceptLeader args f) false 0 args.entries).2
        (appendLoop f (n.acceptLeader args f) false 0 args.entries).1 := by
      by_cases hne : args.entries = []
      · rw [hne]
        exact .same fun _ => rfl
      · obtain ⟨hidx, hskip⟩ := of_batchFits hfit hterm hne
        obtain ⟨hlo, hhi⟩ := place_of_checkPrev hcont hb (hprev hpass) hskip
        obtain ⟨_, _, _, _, _, _, heq⟩ := honly
        rw [heq]
        exact appendLoop_spliced f hcont hb hidx hlo hhi
    rcases hloop with ⟨hstop, heq⟩ | ⟨hdone, heq⟩
    · rw [hstop] at hspl
      rw [heq]
      exact ⟨_, _, _, honly, hspl, .inl rfl, .inr ⟨hterm, hprev hpass⟩⟩
    · rw [hdone] at hspl
      rw [heq]
      exact ⟨_, _, _, honly, hspl, .inr rfl, .inr ⟨hterm, hprev hpass⟩⟩

end RaftNode

end Raft
