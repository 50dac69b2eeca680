/-
CoreX/Raft/Commit.lean

State machine safety: what two nodes know to be committed they hold alike, and
`runApplyLoop` delivers exactly that, in order (`state_machine_safety`).

The commit index of a node is *justified* by the abstract protocol: its first
entries are part of something a quorum has acknowledged in one term.  The rules
of the code are each sound for it.  `maybeAdvanceCommitIndex` counts
acknowledgements that were given in the term of the round, and only stops at an
entry of that term (`justified_advance`), even if the node has been deposed
before it reads the answer; a follower follows no further than what it shares
with the sender's log (`CommitNode.followed`).

All of it needs that batches are cut from the log of the leader that sends them.
`sendHeartbeats` reads the log after it has released the lock and does not look
at role and term again; the run at the end of the file shows a deposed leader
sending its successor's log as its own.
-/
import CoreX.Raft.LogMatching
import CoreX.Raft.Rounds

namespace Raft

open Consensus StepSystem TermLog

/-! ### Collecting what to apply -/

namespace RaftNode

variable {n : RaftNode}

omit n in
theorem filterMap_range_getElem? (l : List LogEntry) (j m : Nat) :
    (List.range m).filterMap (fun k => l[j + k]?) = (l.drop j).take m := by
  induction m with
  | zero => simp
  | succ m ih =>
    rw [List.range_succ, List.filterMap_append, ih, List.take_add_one, List.getElem?_drop]
    rcases hx : l[j + m]? with - | x <;> simp [hx]

theorem collectApply_take (h : Indexed LogEntry.index 0 n.log) (h0 : 0 ≤ n.lastApplied)
    (hle : n.lastApplied ≤ n.commitIndex) :
    n.collectApply.1 = { n with lastApplied := n.commitIndex } ∧
      n.log.take n.lastApplied.toNat ++ n.collectApply.2 = n.log.take n.commitIndex.toNat := by
  unfold collectApply
  split
  · next hc =>
    have heq : n.commitIndex = n.lastApplied := by omega
    refine ⟨?_, by rw [heq, List.append_nil]⟩
    cases n
    cases heq
    rfl
  · next hc =>
    refine ⟨rfl, ?_⟩
    have hat : ∀ k : Nat, n.entryAt (n.lastApplied + 1 + k) = n.log[n.lastApplied.toNat + k]? := by
      intro k
      have hpos : (n.lastApplied + 1 + k - 0 - 1).toNat = n.lastApplied.toNat + k := by omega
      rw [entryAt_eq h le_rfl, if_pos (by omega), hpos]
    have hsum : n.commitIndex.toNat
        = n.lastApplied.toNat + (n.commitIndex - n.lastApplied).toNat := by omega
    simp only [hat]
    rw [filterMap_range_getElem?, hsum, List.take_add]

end RaftNode

/-! ### Justified commit indices -/

variable (C : Cluster)

/-- The first `c` entries of `l` are known to be committed. -/
abbrev Cluster.Justified (s : Abs) (u : Prop) (b : Int) (l : List LogEntry) (c : Int) : Prop :=
  s.Justified C.quorums LogEntry.term u b l c

/-- Some member has compacted its log. -/
def Compacted (past : Past) : Prop := ∃ b ∈ C.members, past b ≠ []

/-- The first `c` entries of `l` are committed, and `K` is known of them. -/
structure Knows (C : Cluster) (K : List LogEntry → Prop) (s : Abs) (u : Prop) (b : Int)
    (l : List LogEntry) (c : Int) : Prop where
  justified : C.Justified s u b l c
  known : K (l.take c.toNat)

/-- What may be known of committed entries: it holds of a part if it holds of the whole. -/
structure Knowledge (K : List LogEntry → Prop) : Prop where
  nil : K []
  restrict : ∀ p q, q <+: p → K p → K q

/-- The commit index that a request carries is justified by the log it was cut
from. -/
def Announces (K : List LogEntry → Prop) (s : Abs) (u : Prop) (args : AppendEntriesArgs) : Prop :=
  ∃ src, Valid LogEntry.term s.leaderLog src ∧ Cut src args ∧
    Knows C K s u args.term src args.leaderCommit

/-- What node `a` knows to be committed, and what it says about it. -/
structure CommitNode (C : Cluster) (K : List LogEntry → Prop) (s : Abs) (u : Prop) (x : Node)
    (p : List LogEntry) : Prop where
  commit : Knows C K s u x.raft.currentTerm (p ++ x.raft.log) x.raft.commitIndex
  sent : ∀ c ∈ x.sent, ∀ args, c.req = .append args → Announces C K s u args
  offers : ∀ c ∈ x.sent, ∀ args, c.req = .install args →
    Knows C K s u args.term (s.leaderLog args.term) args.lastIncludedIndex
  installs : ∀ t ∈ x.installs,
    Knows C K s u t.args.term (s.leaderLog t.args.term) t.args.lastIncludedIndex
  wired : x.Wired
  rounds : x.loop.Requested
  /-- A match index is an acknowledgement in the term of the loop, or that of a snapshot. -/
  pointers : ∀ t, x.loop.leadTerm = some t → ∀ b, 0 < x.raft.matchOf b →
    s.Acked b t (x.raft.matchOf b) ∨ x.raft.matchOf b ≤ x.raft.commitIndex
  transfers : ∀ b i, .send b i ∈ x.transfers → i ≤ x.raft.commitIndex

/-- The cluster and what is known to be committed. -/
structure Committed (C : Cluster) (K : List LogEntry → Prop) (x : World × Past) (s : Abs) :
    Prop where
  tracks : Tracks C True x s
  acks : AckInv LogEntry.term s
  node : ∀ a, CommitNode C K s (Compacted C x.2) (x.1 a) (x.2 a)

section

variable {C : Cluster} {K K' : List LogEntry → Prop} {w w' : World} {past : Past} {s s' : Abs}
variable {a : Addr} {u u' : Prop} {b b' : Int} {l l' : List LogEntry} {c c' : Int}

theorem take_eq_of_justified (hi : C.LogInv s) (h : AckInv LogEntry.term s)
    (hl : C.Justified s u b l c) (hl' : C.Justified s u' b' l' c') {k : Int} (hk : k ≤ c)
    (hk' : k ≤ c') : l.take k.toNat = l'.take k.toNat := by
  apply List.ext_getElem?
  intro i
  rcases Nat.lt_or_ge i k.toNat with hlt | hge
  · rw [List.getElem?_take_of_lt hlt, List.getElem?_take_of_lt hlt]
    exact (justified_agree hi h hl hl' (by omega) (by omega)).1
  · rw [List.getElem?_eq_none (by rw [List.length_take]; omega),
      List.getElem?_eq_none (by rw [List.length_take]; omega)]

theorem Knows.le (hK : Knowledge K) (h : Knows C K s u b l c) (hc : c' ≤ c) :
    Knows C K s u b l c' :=
  ⟨h.justified.le hc, hK.restrict _ _ (List.take_prefix_take_left (Int.toNat_le_toNat hc)) h.known⟩

theorem Knows.trans (h : Knows C K s u b l c) (hl : l <+: l') : Knows C K s u b l' c := by
  refine ⟨h.justified.trans hl, ?_⟩
  have hlen := h.justified.le_length
  obtain ⟨t, rfl⟩ := hl
  rw [List.take_append_of_le_length (by omega)]
  exact h.known

theorem Knows.of_justified (hi : C.LogInv s) (ha : AckInv LogEntry.term s)
    (h : Knows C K s u b l c) (hj : C.Justified s u' b' l' c) : Knows C K s u' b' l' c :=
  ⟨hj, take_eq_of_justified hi ha h.justified hj le_rfl le_rfl ▸ h.known⟩

/-- From one state to a later one: what was known is known. -/
structure Later (C : Cluster) (K K' : List LogEntry → Prop) (s s' : Abs) (u u' : Prop) : Prop where
  grows : Grows s s'
  justified : ∀ u b l c, C.Justified s u b l c → C.Justified s' u b l c
  compacted : u → u'
  known : ∀ q, K q → K' q

theorem Knows.mono (h : Knows C K s u b l c) (hs : Later C K K' s s' u u') :
    Knows C K' s' u' b l c :=
  ⟨(hs.justified _ _ _ _ h.justified).weaken hs.compacted le_rfl, hs.known _ h.known⟩

theorem Announces.mono {args : AppendEntriesArgs} (h : Announces C K s u args)
    (hs : Later C K K' s s' u u') : Announces C K' s' u' args := by
  obtain ⟨src, hv, hc, hk⟩ := h
  exact ⟨src, hv.mono hs.grows.logs, hc, hk.mono hs⟩

theorem CommitNode.mono {x : Node} {p : List LogEntry} (h : CommitNode C K s u x p)
    (hs : Later C K K' s s' u u') : CommitNode C K' s' u' x p where
  commit := h.commit.mono hs
  sent c hc args hreq := (h.sent c hc args hreq).mono hs
  offers c hc args hreq := ((h.offers c hc args hreq).mono hs).trans (hs.grows.logs _)
  installs t ht := ((h.installs t ht).mono hs).trans (hs.grows.logs _)
  wired := h.wired
  rounds := h.rounds
  pointers t ht b hb := (h.pointers t ht b hb).imp_left (acked_mono hs.grows)
  transfers := h.transfers

theorem justified_advance (ht : Tracks C True (w, past) s) {n' : RaftNode} {term : Int}
    {cfg : ClusterConfig} (hadv : RaftNode.Advances (w a).raft n' term cfg)
    (hlt : (w a).raft.commitIndex < n'.commitIndex)
    (hmaj : C.majority (a :: C.members.filter fun b => n'.commitIndex ≤ n'.matchOf b) = true)
    (hwon : s.Won a term)
    (hptr : ∀ b, 0 < n'.matchOf b →
      s.Acked b term (n'.matchOf b) ∨ n'.matchOf b ≤ (w a).raft.commitIndex) :
    C.Justified s u b (past a ++ (w a).raft.log) n'.commitIndex := by
  obtain ⟨_, e, he, hterm, _⟩ := hadv.resolve_left (by omega)
  obtain ⟨hpos, hget⟩ := (ht.sim.node a).covers.getElem?_of_entryAt he
  have hvalid : Valid LogEntry.term s.leaderLog (past a ++ (w a).raft.log) := ht.valid a
  generalize past a ++ (w a).raft.log = l at hget hvalid ⊢
  generalize n'.commitIndex = N at *
  have hlen := (List.getElem?_eq_some_iff.mp hget).1
  have htake : l.take N.toNat = l.take (N - 1).toNat ++ [e] := by
    have hsucc : N.toNat = (N - 1).toNat + 1 := by omega
    rw [hsucc, List.take_add_one, hget]
    rfl
  have hlen' : (l.take N.toNat).length = N.toNat := by
    rw [List.length_take]
    omega
  have hP : l.take N.toNat <+: s.leaderLog term := by
    rw [htake, ← hterm]
    exact hvalid _ _ (htake ▸ List.take_prefix _ _)
  refine .inr ⟨term, l.take N.toNat, ⟨hP, ?_, _, C.isQuorum_of_majority hmaj, ?_⟩, ?_,
    .inl (List.take_prefix _ _)⟩
  · rw [htake, lastTerm_concat, hterm]
  · intro v hv
    have hack : s.Acked v term N := by
      have hv := of_decide_eq_true (List.mem_filter.mp (List.mem_toFinset.mp hv)).2
      rcases List.mem_cons.mp hv with rfl | hv
      · -- the leader has acknowledged all of its own log
        obtain ⟨x, hx, rfl, rfl⟩ := hwon
        obtain ⟨k, hk, hkn, hkt, hkl⟩ := ht.sim.selfAcked x hx
        have := hP.length_le
        exact ⟨k, hk, hkn, hkt, by omega⟩
      · have hreach : N ≤ n'.matchOf v := of_decide_eq_true (List.mem_filter.mp hv).2
        obtain ⟨k, hk, hkn, hkt, hkl⟩ := (hptr v (by omega)).resolve_right (by omega)
        exact ⟨k, hk, hkn, hkt, hreach.trans hkl⟩
    obtain ⟨k, hk, hkn, hkt, hkl⟩ := hack
    exact ⟨k, hk, hkn, hkt, by omega⟩
  · exact ⟨_, hlen', List.prefix_rfl, List.take_prefix _ _⟩

end

/-! ### One section -/

/-- The match indices that move a commit index are those of a majority of the members. -/
def countsFairly [Codec] (w : World) (e : Addr × Act) : Bool :=
  !e.2.counts ||
    match (w e.1).step e.2 with
    | none => true
    | some x' => decide (x'.raft.commitIndex ≤ (w e.1).raft.commitIndex) ||
        C.majority (e.1 :: C.members.filter fun b => x'.raft.commitIndex ≤ x'.raft.matchOf b)

/-- Once a log is compacted, `confirmLeadership` builds its requests in the term of the
read. -/
def confirmsOwn (w : World) (a : Addr) : Act → Bool
  | .confirm i => C.members.all (fun b => (w b).raft.snapshotIndex == 0) ||
      (w a).reads[i]? == some (w a).raft.currentTerm
  | _ => true

section

variable {C : Cluster} {K K' : List LogEntry → Prop} {w : World} {past : Past} {s s' : Abs}
variable {a : Addr} {act : Act} {x' : Node} {u u' : Prop} {p : List LogEntry}
  {args : AppendEntriesArgs}

theorem Committed.announces (h : Committed C K (w, past) s)
    (hcut : Cut (past a ++ (w a).raft.log) args) (hc : args.leaderCommit = (w a).raft.commitIndex)
    (hterm : ¬Compacted C past ∨ args.term = (w a).raft.currentTerm) :
    Announces C K s (Compacted C past) args := by
  have hk := (h.node a).commit
  refine ⟨_, h.tracks.valid a, hcut, hc ▸ ⟨?_, hk.known⟩⟩
  rcases hterm with hnone | hterm
  · rcases hk.justified with hj | ⟨T, P, hP, hcom, hPl⟩
    · exact .inl hj
    · exact .inr ⟨T, P, hP, hcom, .inl (hPl.resolve_right fun hu => hnone hu.1)⟩
  · rw [hterm]
    exact hk.justified

theorem Committed.sends [Codec] (h : Committed C K (w, past) s) (hs : Node.Section (w a) act x')
    (hcut : sendsCut (w a) act = true) (hbuild : buildsAsLeader (w a) act = true)
    (hconfirm : confirmsOwn C w a act = true) {c : Call} (hc : c ∈ x'.sent)
    (hreq : c.req = .append args) :
    Announces C K s (Compacted C past) args := by
  have hcov : (w a).raft.Covers (past a) := (h.tracks.sim.node a).covers
  rcases hs.sends hc with hc | ⟨_, hsends⟩
  · exact (h.node a).sent c hc args hreq
  rw [hreq] at hsends
  have hfrom := hcov.cut_sends hcut hsends
  generalize c.dst = dst at hsends
  cases hsends with
  | batch term peers p hl hp =>
    have hlead : (w a).raft.role = .leader ∧ (w a).raft.currentTerm = term := by
      simpa [buildsAsLeader, hl] using hbuild
    obtain ⟨addr, _, rfl⟩ := List.mem_map.mp hp
    exact h.announces hfrom rfl (.inr hlead.2.symm)
  | confirm i term b hi =>
    refine h.announces hfrom rfl ?_
    rcases Bool.or_eq_true_iff.mp hconfirm with hnone | hterm
    · left
      rintro ⟨b, hb, hne⟩
      have hzero := beq_iff_eq.mp (List.all_eq_true.mp hnone b hb)
      exact hne ((h.tracks.sim.node b).covers.past_eq_nil hzero)
    · right
      rw [hi, beq_iff_eq] at hterm
      exact Option.some.inj hterm

theorem Committed.followed [Codec] (h : Committed C K (w, past) s) (hK' : Knowledge K')
    (hlater : Later C K K' s s' (Compacted C past) u') {c : Call} {f : Faults}
    (hsent : c ∈ (w c.src).sent) (hreq : c.req = .append args)
    (hfit : (w a).raft.snapshotIndex = 0 ∨ (w a).raft.placeFits args = true)
    (hkept : Knows C K' s' u' ((w a).raft.handleAppendEntries args f).1.currentTerm
      (past a ++ ((w a).raft.handleAppendEntries args f).1.log) (w a).raft.commitIndex) :
    Knows C K' s' u' ((w a).raft.handleAppendEntries args f).1.currentTerm
        (past a ++ ((w a).raft.handleAppendEntries args f).1.log)
        ((w a).raft.handleAppendEntries args f).1.commitIndex ∧
      (w a).raft.commitIndex ≤ ((w a).raft.handleAppendEntries args f).1.commitIndex := by
  have hsim := h.tracks.sim
  have hi := h.tracks.inv
  obtain ⟨src, hvalid, hcut, hk⟩ := (h.node c.src).sent c hsent args hreq
  have hcov₀ : (w a).raft.Covers (past a) := (hsim.node a).covers
  obtain ⟨_, hcov, hsucc⟩ := hcov₀.handleAppendEntries_merge f hfit (hsim.term_pos hi)
    (hi.numbered_of_valid hvalid) hcut (hsim.matches hi hvalid)
  rcases RaftNode.handleAppendEntries_commit (w a).raft args f with heq | ⟨hok, hlt, heq⟩
  · rw [heq]
    exact ⟨hkept, le_rfl⟩
  · have hlen := hkept.justified.le_length
    rw [hcov.lastEntry_eq] at heq
    refine ⟨?_, by omega⟩
    have hterm : ((w a).raft.handleAppendEntries args f).1.currentTerm = args.term := by
      refine RaftNode.currentTerm_handleAppendEntries ?_
      by_contra hstale
      rw [RaftNode.Covers.handleAppendEntries_refused f (.inl (Int.not_le.mp hstale))] at hok
      cases hok
    rw [hterm]
    exact ((hk.mono hlater).trans (hsucc hok)).le hK' (by omega)

theorem Committed.installed (h : Committed C K (w, past) s)
    (hlater : Later C K K' s s' (Compacted C past) u') (hu' : u') {t : Install} {b : Addr}
    (hmem : t ∈ (w a).installs)
    (hb : termIn (historyOf (w, past) b) t.args.lastIncludedIndex = some t.args.lastIncludedTerm) :
    Knows C K' s' u' t.args.term
      ((historyOf (w, past) b).take t.args.lastIncludedIndex.toNat) t.args.lastIncludedIndex := by
  have hi := h.tracks.inv
  obtain ⟨_, _, ⟨x, hx, _, hxt⟩, hoffered⟩ := (h.tracks.sim.node a).installs t hmem
  have htake := take_eq_of_termIn (h.tracks.valid b) (hi.valid_leader _) hb hoffered
  have hk := ((h.node a).installs t hmem).mono hlater
  rw [htake]
  refine ⟨?_, ?_⟩
  · have hpart := hk.justified
    refine State.Justified.part hu' hpart (hi.leaderLog_le _) ?_ ?_
    · exact hxt ▸ (hi.led_pos ⟨x, hx, rfl⟩).le
    · refine ⟨_, ?_, List.take_prefix _ _, List.prefix_rfl⟩
      rw [List.length_take]
      obtain ⟨_, hlen'⟩ := length_of_termIn hoffered
      omega
  · rw [List.take_take, Nat.min_self]
    exact hk.known


theorem Committed.recount [Codec] (h : Committed C K (w, past) s)
    (havail : w.available a act = true) (hs : Node.Section (w a) act x') {t : Int} {b : Addr}
    (ht : x'.loop.leadTerm = some t) (hpos : 0 < x'.raft.matchOf b) :
    (w a).loop.leadTerm = some t ∧ x'.raft.matchOf b = (w a).raft.matchOf b ∨
      s.Acked b t (x'.raft.matchOf b) ∨
      ∃ i, act = .transferDone i ∧ (w a).transfers[i]? = some (.send b (x'.raft.matchOf b)) := by
  have hn := h.node a
  obtain ⟨hold, hrec⟩ := hs.counted hn.wired ht hpos
  cases hrec with
  | same heq => exact .inl ⟨hold, heq⟩
  | acked r cfg p res hact hl hp hok heq =>
    subst hact
    have hreq : r.Requested := by
      have hrounds := hn.rounds
      rwa [show ((w, past).1 a).loop = _ from hl] at hrounds
    obtain ⟨hterm, hlast⟩ := hreq p (List.mem_of_find?_eq_some hp)
    have hreply : (⟨a, r.call, b, .append p.args⟩, .append res) ∈ (w b).replies := by
      simpa [World.available, hl, hp] using havail
    rw [heq, hlast] at hpos ⊢
    rcases he : p.args.entries.getLast? with - | e
    · simp [AppendEntriesArgs.lastIndex, he] at hpos
    · have hack := (h.tracks.sim.node b).replies _ hreply trivial hok p.args e rfl he
      rw [hl] at hold
      rw [hterm, Option.some.inj hold] at hack
      exact .inr (.inl (by simpa [AppendEntriesArgs.lastIndex, he] using hack))
  | sent i index hact htr hlt heq => exact .inr (.inr ⟨i, hact, heq ▸ htr⟩)

theorem Committed.pointers [Codec] (h : Committed C K (w, past) s)
    (havail : w.available a act = true) (hs : Node.Section (w a) act x') {t : Int} {b : Addr}
    (ht : x'.loop.leadTerm = some t) (hpos : 0 < x'.raft.matchOf b) :
    s.Acked b t (x'.raft.matchOf b) ∨ x'.raft.matchOf b ≤ (w a).raft.commitIndex := by
  rcases h.recount havail hs ht hpos with ⟨hold, heq⟩ | hack | ⟨i, _, htr⟩
  · rw [heq] at hpos ⊢
    exact (h.node a).pointers t hold b hpos
  · exact .inl hack
  · exact .inr ((h.node a).transfers b _ (List.mem_of_getElem? htr))

theorem follow_of_counts [Codec] (h : act.counts = true) :
    past.follow C w (a, act) a = past a := by
  have hother : (w a).recordEvent act = .other := by
    cases act with
    | build | ackResult => rfl
    | _ => cases h
  simp [Past.follow, hother, Past.next, Node.compacted]

theorem Committed.commits [Codec] (h : Committed C K (w, past) s)
    (havail : w.available a act = true) (hs : Node.Section (w a) act x')
    (hx : (w a).step act = some x')
    (htest : followTest C (w, past) a ((w a).recordEvent act) = true)
    (hfits : discardFits (w, past) a ((w a).recordEvent act) = true)
    (hfair : countsFairly C w (a, act) = true) (hK' : Knowledge K')
    (hlater : Later C K K' s s' (Compacted C past) u')
    (hu' : past.follow C w (a, act) a ≠ [] → u')
    (hkept : C.Justified s' u' x'.raft.currentTerm
      (past.follow C w (a, act) a ++ x'.raft.log) (w a).raft.commitIndex)
    (hi' : C.LogInv s') (hacks' : AckInv LogEntry.term s')
    (hnew : act.counts = true → (w a).raft.commitIndex < x'.raft.commitIndex →
      K' ((past a ++ (w a).raft.log).take x'.raft.commitIndex.toNat)) :
    Knows C K' s' u' x'.raft.currentTerm (past.follow C w (a, act) a ++ x'.raft.log)
        x'.raft.commitIndex ∧
      (act ≠ .restart → (w a).raft.commitIndex ≤ x'.raft.commitIndex) := by
  -- what was committed is in the new history as well
  have hkept := ((h.node a).commit.mono hlater).of_justified hi' hacks' hkept
  rcases hs.recommit with heq | ⟨term, cfg, hact, hl, hl', honly, hadv⟩ | ⟨c, args, f, rfl, hreq,
    hr⟩
    | ⟨i, t, data, ht, hev, hr⟩ | ⟨hact, heq⟩
  · rw [heq]
    exact ⟨hkept, fun _ => le_rfl⟩
  · rcases Int.lt_or_le (w a).raft.commitIndex x'.raft.commitIndex with hlt | hge
    · have hmaj : C.majority (a :: C.members.filter fun b =>
          x'.raft.commitIndex ≤ x'.raft.matchOf b) = true := by
        simpa [countsFairly, hact, hx, Int.not_le.mpr hlt] using hfair
      have hwon : s.Won a term := by
        have hloop := (h.tracks.sim.node a).loop
        rcases hl with ⟨hl, _⟩ | ⟨r, hl, rfl⟩ <;>
          rw [show ((w, past).1 a).loop = _ from hl] at hloop <;>
          exact hloop
      have hj := justified_advance h.tracks (u := u') (b := x'.raft.currentTerm) hadv hlt hmaj hwon
        fun b => h.pointers havail hs hl'
      rw [follow_of_counts hact, honly.log]
      exact ⟨⟨hlater.justified _ _ _ _ hj, hnew hact hlt⟩, fun _ => hlt.le⟩
    · have heq : x'.raft.commitIndex = (w a).raft.commitIndex := by
        rcases hadv with heq | ⟨hlt, _⟩
        · exact heq
        · omega
      rw [heq]
      exact ⟨hkept, fun _ => le_rfl⟩
  · have hsent : c ∈ (w c.src).sent := by simpa [World.available] using havail
    have hev : (w a).recordEvent (.deliver c f) = .batch args := by simp [Node.recordEvent, hreq]
    have hpast : past.follow C w (a, .deliver c f) a = past a := by
      simp [Past.follow, hev, Past.next, Node.compacted]
    have hfit : (w a).raft.snapshotIndex = 0 ∨ (w a).raft.placeFits args = true := by
      simpa [hev, followTest, historyTest] using htest
    rw [hpast, hr] at hkept ⊢
    obtain ⟨hk, hle⟩ := h.followed hK' hlater hsent hreq hfit hkept
    exact ⟨hk, fun _ => hle⟩
  · obtain ⟨_, b, hb, hpast⟩ := follow_discard hev htest
    simp only [hev, discardFits, Bool.and_eq_true, beq_iff_eq] at hfits
    have hinst := h.installed hlater (hu' ?_) (List.mem_of_getElem? ht) hb
    · have hlog : x'.raft.log = [] := by rw [hr]; rfl
      have hterm : x'.raft.currentTerm = (w a).raft.currentTerm := by rw [hr]; rfl
      have hcommit : x'.raft.commitIndex = if (w a).raft.commitIndex < t.args.lastIncludedIndex then
          t.args.lastIncludedIndex else (w a).raft.commitIndex := by rw [hr]; rfl
      rw [hcommit]
      split
      · next hlt =>
        rw [hlog, List.append_nil, hpast, hterm, hfits.1]
        exact ⟨hinst, fun _ => hlt.le⟩
      · exact ⟨hkept, fun _ => le_rfl⟩
    · obtain ⟨hpos, hlen⟩ := length_of_termIn hb
      rw [hpast, ← List.length_pos_iff, List.length_take]
      omega
  · rw [heq]
    exact ⟨⟨.inl le_rfl, hK'.nil⟩, fun hne => absurd hact hne⟩

/-- The tests on a section that the commit index relies on. -/
def commitTest [Codec] (C : Cluster) (x : World × Past) (e : Addr × Act) : Bool :=
  simTest C x e && buildsAsLeader (x.1 e.1) e.2 && confirmsOwn C x.1 e.1 e.2 && countsFairly C x.1 e

theorem Committed.section [Codec] {p' : List LogEntry} (h : Committed C K (w, past) s)
    (havail : w.available a act = true) (hs : Node.Section (w a) act x')
    (hok : commitTest C (w, past) (a, act) = true)
    (hlater : Later C K K' s s' (Compacted C past) u')
    (hcommit : Knows C K' s' u' x'.raft.currentTerm (p' ++ x'.raft.log) x'.raft.commitIndex)
    (hle : act ≠ .restart → (w a).raft.commitIndex ≤ x'.raft.commitIndex) (hK : Knowledge K) :
    CommitNode C K' s' u' x' p' := by
  have hn := h.node a
  simp only [commitTest, simTest, Bool.and_eq_true] at hok
  obtain ⟨⟨⟨⟨⟨⟨⟨⟨hcut, _⟩, _⟩, hown⟩, _⟩, _⟩, hbuild⟩, hconfirm⟩, _⟩ := hok
  -- the snapshot that a transfer sends is committed
  have hsnap : ∀ {i addr snapshot}, act = .transferStart i →
      (w a).transfers[i]? = some (.start addr) → (w a).raft.snapshotToSend = some snapshot →
      (w a).raft.role = .leader ∧ snapshot.snapMeta.index ≤ (w a).raft.commitIndex := by
    intro i addr snapshot hact hstart hsnap
    subst hact
    simp only [offersOwn, hstart, hsnap, Bool.and_eq_true, beq_iff_eq, decide_eq_true_eq] at hown
    exact ⟨hown.1.1, hown.2⟩
  refine ⟨hcommit, fun c hc args hreq => ?_, fun c hc args hreq => ?_, fun t ht => ?_,
    hs.wired hn.wired, hs.requested hn.rounds, fun t ht b hb => ?_, fun b i hb => ?_⟩
  · exact (h.sends hs hcut hbuild hconfirm hc hreq).mono hlater
  · rcases hs.sends hc with hc | ⟨_, hsends⟩
    · exact ((hn.offers c hc args hreq).mono hlater).trans (hlater.grows.logs _)
    rw [hreq] at hsends
    generalize c.dst = dst at hsends
    cases hsends with
    | install i addr snapshot args hstart hsome hargs =>
      obtain ⟨hrole, hindex⟩ := hsnap rfl hstart hsome
      obtain ⟨hterm, hidx, _⟩ := RaftNode.snapshotRequests_frame hargs
      have hk := hn.commit.le hK hindex
      rw [← h.tracks.sim.leaderLog_eq h.tracks.inv hrole] at hk
      rw [hterm, hidx]
      exact (hk.mono hlater).trans (hlater.grows.logs _)
  · rcases hs.receiving ht with ⟨v, hv, hargs, _⟩ | ⟨f, hact, hreq, _⟩
    · rw [← hargs]
      exact ((hn.installs v hv).mono hlater).trans (hlater.grows.logs _)
    · subst hact
      have hsent : t.call ∈ (w t.call.src).sent := by simpa [World.available] using havail
      exact (((h.node _).offers _ hsent _ hreq).mono hlater).trans (hlater.grows.logs _)
  · refine (h.pointers havail hs ht hb).imp (acked_mono hlater.grows) fun hold =>
      hold.trans (hle ?_)
    rintro rfl
    cases hs
    cases ht
  · have hne : act ≠ .restart := by
      rintro rfl
      cases hs
      cases hb
    rcases hs.sending hb with hb | ⟨j, snapshot, hact, hstart, hsome, rfl⟩
    · exact (hn.transfers b i hb).trans (hle hne)
    · exact (hsnap hact hstart hsome).2.trans (hle hne)

theorem Committed.track [Codec] {w' : World} (h : Committed C K (w, past) s) (hK : Knowledge K)
    (hstep : World.step C w (a, act) = some w') (hok : commitTest C (w, past) (a, act) = true)
    (hterm : (w a).raft.currentTerm ≤ (w' a).raft.currentTerm) (hadm : Admissible C True w' s) :
    ∃ s', C.Moves True s s' ∧ Tracks C True (w', past.follow C w (a, act)) s' ∧
      NewWins C w' s s' ∧ ∀ K', Knowledge K' → (∀ q, K q → K' q) →
        (act.counts = true → (w a).raft.commitIndex < (w' a).raft.commitIndex →
          K' ((historyOf (w, past) a).take (w' a).raft.commitIndex.toNat)) →
        Committed C K' (w', past.follow C w (a, act)) s' ∧
          (act ≠ .restart → (w a).raft.commitIndex ≤ (w' a).raft.commitIndex) := by
  have hi := h.tracks.inv
  have htests := hok
  simp only [commitTest, simTest, Bool.and_eq_true] at htests
  obtain ⟨⟨⟨hsim, hbuild⟩, _⟩, hfair⟩ := htests
  have hsim' : simTest C (w, past) (a, act) = true := by simp [simTest, hsim]
  obtain ⟨s', hmoves, ht', hwins⟩ := h.tracks.step hstep hsim' hterm (fun _ => hbuild) hadm
  refine ⟨s', hmoves, ht', hwins, fun K' hK' hKK' hnew => ?_⟩
  have hacks' := h.acks.moves hi hmoves ht'.unique
  obtain ⟨x', ha, havail, hx, rfl⟩ := World.step_some hstep
  have hs := Node.step_section hx
  have hn' : NodeSim True s' a x' (past.follow C w (a, act) a) := by
    have hn := ht'.sim.node a
    dsimp only at hn
    rwa [Function.update_self] at hn
  rw [Function.update_self] at hnew ⊢
  have hlater : Later C K K' s s' (Compacted C past) (Compacted C (past.follow C w (a, act))) := by
    refine ⟨hmoves.grows hi ht'.unique, fun _ _ _ _ => justified_moves hi h.acks hmoves ht'.unique,
      ?_, hKK'⟩
    rintro ⟨b, hb, hne⟩
    exact ⟨b, hb, follow_ne_nil hne⟩
  have hkept : C.Justified s' (Compacted C (past.follow C w (a, act))) x'.raft.currentTerm
      (past.follow C w (a, act) a ++ x'.raft.log) (w a).raft.commitIndex := by
    rw [← hn'.log, ← hn'.term]
    refine justified_log_moves hi h.acks hmoves ht'.unique ?_
    rw [(h.tracks.sim.node a).log, (h.tracks.sim.node a).term]
    exact (h.node a).commit.justified.weaken hlater.compacted le_rfl
  obtain ⟨hcommit, hle⟩ := h.commits havail hs hx hsim.1.2 hsim.2 hfair hK' hlater
    (fun hne => ⟨a, ha, hne⟩) hkept ht'.inv hacks' hnew
  refine ⟨⟨ht', hacks', fun b => ?_⟩, hle⟩
  dsimp only
  rcases eq_or_ne b a with rfl | hne
  · rw [Function.update_self]
    exact h.section havail hs hok hlater hcommit hle hK
  · have hpast : past.follow C w (a, act) b = past b := by
      rw [follow_eq_update, Function.update_of_ne hne]
    rw [Function.update_of_ne hne, hpast]
    exact (h.node b).mono hlater

end

/-! ### A static cluster without snapshots -/

theorem Node.Section.output [Codec] {x x' : Node} {act : Act} (h : Section x act x')
    (hcollect : act ≠ .collect) (hrestart : act ≠ .restart) :
    x'.emitted ++ x'.toApply = x.emitted ++ x.toApply := by
  cases h with
  | collect => exact absurd rfl hcollect
  | restart => exact absurd rfl hrestart
  | emit e rest htoApply =>
    rw [htoApply, List.append_assoc]
    rfl
  | _ => rfl

/-- What a node has collected are the first of its committed entries. -/
structure Node.Collected (x : Node) : Prop where
  nonneg : 0 ≤ x.raft.lastApplied
  le : x.raft.lastApplied ≤ x.raft.commitIndex
  eq : x.emitted ++ x.toApply = x.raft.log.take x.raft.lastApplied.toNat

theorem Node.Collected.section [Codec] {x x' : Node} {act : Act} (h : x.Collected)
    (hs : Section x act x') (hplain : act.plain) (hidx : Indexed LogEntry.index 0 x.raft.log)
    (hle : x.raft.commitIndex ≤ x'.raft.commitIndex)
    (hkept : x'.raft.log.take x.raft.commitIndex.toNat = x.raft.log.take x.raft.commitIndex.toNat) :
    x'.Collected := by
  have hrestart : act ≠ .restart := by
    rintro rfl
    cases hplain
  by_cases hcollect : act = .collect
  · subst hcollect
    obtain ⟨hempty, rfl⟩ := Node.collect_section hs
    obtain ⟨hraft, htake⟩ := RaftNode.collectApply_take hidx h.nonneg h.le
    have hout := h.eq
    rw [hempty, List.append_nil] at hout
    rw [← hout] at htake
    refine ⟨?_, ?_, ?_⟩ <;> simp only [hraft]
    · exact h.nonneg.trans h.le
    · exact le_rfl
    · exact htake
  · have hlast : x'.raft.lastApplied = x.raft.lastApplied := by
      refine Node.lastApplied_section hs hcollect hrestart fun i t data hact => ?_
      rw [hact] at hplain
      cases hplain
    have htake : x'.raft.log.take x.raft.lastApplied.toNat
        = x.raft.log.take x.raft.lastApplied.toNat := by
      have hmin :
          x.raft.lastApplied.toNat = min x.raft.lastApplied.toNat x.raft.commitIndex.toNat := by
        have := h.le
        omega
      rw [hmin, ← List.take_take, hkept, List.take_take]
    refine ⟨hlast ▸ h.nonneg, hlast ▸ h.le.trans hle, ?_⟩
    rw [hs.output hcollect hrestart, h.eq, hlast, htake]

/-- The condition of state machine safety: static sections, terms that do not go
back, and heartbeats that are built while the node leads their term. -/
def commitOk [Codec] (w : World) (e : Addr × Act) : Bool :=
  e.2.plain && termsKept C w e && buildsAsLeader (w e.1) e.2

theorem Static.commitTest [Codec] {C : Cluster} {w w' : World} {a : Addr} {act : Act}
    (h : Static C w) (hstep : World.step C w (a, act) = some w') (hplain : act.plain)
    (hbuild : buildsAsLeader (w a) act = true) :
    commitTest C (w, fun _ => []) (a, act) = true := by
  have hsim := h.simTest hstep hplain
  have hconfirm : confirmsOwn C w a act = true := by
    cases act with
    | confirm i => simp [confirmsOwn, (h _).snapshotIndex]
    | _ => rfl
  have hfair : countsFairly C w (a, act) = true := by
    obtain ⟨x', ha, havail, hx, rfl⟩ := World.step_some hstep
    have hst := h a
    rcases Int.lt_or_le (w a).raft.commitIndex x'.raft.commitIndex with hlt | hge
    · by_cases hcounts : act.counts = true
      · have hmaj : C.majority (a :: C.members.filter fun b =>
            x'.raft.commitIndex ≤ x'.raft.matchOf b) = true := by
          rcases (Node.step_section hx).recommit with heq | ⟨term, cfg, _, hl, _, _, hadv⟩
            | ⟨c, args, f, rfl, _⟩ | ⟨i, t, data, _, hev, _⟩ | ⟨rfl, _⟩
          · omega
          · have hcfg : cfg = C.config a := by
              rcases hl with ⟨_, rfl⟩ | ⟨r, hl, _⟩
              · exact hst.config
              · have hloop : (Loop.collecting r cfg).Static C a := hl ▸ hst.loop
                exact hloop.2
            obtain ⟨_, _, _, _, hq⟩ := hadv.resolve_left (by omega)
            refine C.majority_of_quorumFor ha (hcfg ▸ hq) (List.mem_cons_self ..) fun b hb
              hack => ?_
            exact List.mem_cons_of_mem _ (List.mem_filter.mpr ⟨((C.mem_peersOf ha).mp hb).2, hack⟩)
          · cases hcounts
          · cases act with
            | build | ackResult => cases hev
            | _ => cases hcounts
          · cases hcounts
        simp [countsFairly, hx, hmaj]
      · simp [countsFairly, hcounts]
    · simp [countsFairly, hx, hge]
  simp [Raft.commitTest, hsim, hbuild, hconfirm, hfair]

/-- The cluster, what is known to be committed, and what was handed over. -/
structure PlainCommitted (C : Cluster) (w : World) (s : Abs) : Prop where
  static : Static C w
  committed : Committed C (fun _ => True) (w, fun _ => []) s
  collected : ∀ a, (w a).Collected

theorem Committed.init [Codec] {stores : Addr → Stores} {K : List LogEntry → Prop}
    (hK : Knowledge K) : Committed C K (World.start C stores, fun _ => []) State.init where
  tracks := tracks_init C True
  acks := ackInv_init
  node a := by
    constructor <;> simp only [World.start, Node.raft_fresh, Node.Wired]
    · exact ⟨.inl le_rfl, hK.nil⟩
    · simp [Node.fresh]
    · simp [Node.fresh]
    · simp [Node.fresh]
    · exact ⟨rfl, rfl⟩
    · exact trivial
    · exact fun t ht => by cases ht
    · simp [Node.fresh]

theorem PlainCommitted.step [Codec] {C : Cluster} {w w' : World} {s : Abs} {e : Addr × Act}
    (h : PlainCommitted C w s) (hok : commitOk C w e = true) (hstep : World.step C w e = some w')
    (hv : VotesOnce C w') : ∃ s', PlainCommitted C w' s' := by
  obtain ⟨a, act⟩ := e
  simp only [commitOk, Bool.and_eq_true] at hok
  obtain ⟨⟨hplain, hkept⟩, hbuild⟩ := hok
  have hterm : (w a).raft.currentTerm ≤ (w' a).raft.currentTerm := by
    simpa [termsKept, hstep] using hkept
  have ht := h.committed.tracks
  obtain ⟨s', hmoves, ht', _, hafter⟩ := h.committed.track ⟨trivial, fun _ _ _ _ => trivial⟩ hstep
    (h.static.commitTest hstep hplain hbuild) hterm (hv.admissible ht.inv ht.unique)
  obtain ⟨hcom, hle⟩ := hafter (fun _ => True) ⟨trivial, fun _ _ _ _ => trivial⟩
    (fun _ _ => trivial) fun _ _ => trivial
  rw [follow_plain hplain] at hcom ht'
  refine ⟨s', h.static.step hstep hplain, hcom, fun b => ?_⟩
  obtain ⟨_, _, x', hs, rfl⟩ := World.step_cases hstep
  rcases eq_or_ne b a with rfl | hne
  · have hle : (w b).raft.commitIndex ≤ x'.raft.commitIndex := by
      rw [Function.update_self] at hle
      refine hle ?_
      rintro rfl
      cases hplain
    have hold := justified_moves ht.inv h.committed.acks hmoves ht'.unique
      (h.committed.node b).commit.justified
    have hnew := (hcom.node b).commit.justified
    dsimp only at hnew
    rw [Function.update_self] at hnew ⊢
    exact (h.collected b).section hs hplain (ht.indexed b) hle
      (take_eq_of_justified hcom.tracks.inv hcom.acks hnew hold hle le_rfl)
  · rw [Function.update_of_ne hne]
    exact h.collected b

theorem plainCommitted_of_runs [Codec] {C : Cluster} {w : World}
    (hrun : Runs (World.step C) (fun w e => commitOk C w e) (World.init C) w)
    (hv : VotesOnce C w) : ∃ s, PlainCommitted C w s := by
  revert hv
  refine hrun.invariant (P := fun w => VotesOnce C w → ∃ s, PlainCommitted C w s) ?_ fun _ =>
    ⟨_, static_init C, Committed.init C ⟨trivial, fun _ _ _ _ => trivial⟩, fun a => ?_⟩
  · intro u e u' hP hstep hok hv
    obtain ⟨s, hs⟩ := hP (hv.before hstep)
    exact hs.step hok hstep hv
  · constructor <;> simp only [World.init, World.start, Node.raft_fresh]
    · exact le_rfl
    · exact le_rfl
    · rfl

/-- **State machine safety.**  Two nodes hold the same entry at every index both
know to be committed, and every node has delivered the first of its committed
entries, in order, each once. -/
theorem state_machine_safety [Codec] {C : Cluster} {w : World}
    (hrun : Runs (World.step C) (fun w e => commitOk C w e) (World.init C) w)
    (hv : VotesOnce C w) :
    (∀ a b i, 1 ≤ i → i ≤ (w a).raft.commitIndex → i ≤ (w b).raft.commitIndex →
      ∃ e, (w a).raft.entryAt i = some e ∧ (w b).raft.entryAt i = some e) ∧
    ∀ a, ((w a).emitted.length : Int) ≤ (w a).raft.commitIndex ∧
      (w a).emitted = (w a).raft.log.take (w a).emitted.length ∧
      (w a).emitted.map LogEntry.index
        = (List.range (w a).emitted.length).map (fun i : Nat => (i : Int) + 1) := by
  obtain ⟨s, hstatic, h, hcollected⟩ := plainCommitted_of_runs hrun hv
  have hidx : ∀ a, Indexed LogEntry.index 0 (w a).raft.log := h.tracks.indexed
  refine ⟨?_, fun a => ?_⟩
  · intro a b i hi ha hb
    obtain ⟨k, rfl⟩ : ∃ k : Nat, i = k + 1 := ⟨(i - 1).toNat, by omega⟩
    have hpos : ((k : Int) + 1 - 0 - 1).toNat = k := by omega
    have hagree : (w a).raft.log[k]? = (w b).raft.log[k]? ∧ k < (w a).raft.log.length :=
      justified_agree h.tracks.inv h.acks (h.node a).commit.justified (h.node b).commit.justified
        (Int.lt_of_add_one_le ha) (Int.lt_of_add_one_le hb)
    obtain ⟨heq, hlt⟩ := hagree
    rw [RaftNode.entryAt_eq (hidx a) le_rfl, RaftNode.entryAt_eq (hidx b) le_rfl,
      if_pos (by omega), if_pos (by omega), hpos, ← heq]
    exact ⟨_, List.getElem?_eq_getElem hlt, List.getElem?_eq_getElem hlt⟩
  · -- what was delivered is the beginning of what was collected
    have hx := hcollected a
    have hprefix : (w a).emitted <+: (w a).raft.log :=
      (List.prefix_append _ _).trans (hx.eq ▸ List.take_prefix _ _)
    have hlen : (w a).emitted.length ≤ (w a).raft.lastApplied.toNat := by
      have := congrArg List.length hx.eq
      rw [List.length_append, List.length_take] at this
      omega
    have h0 := hx.nonneg
    have hle := hx.le
    exact ⟨by omega, List.prefix_iff_eq_take.mp hprefix, by
      simpa using ((hidx a).restrict hprefix).map_num⟩

/-! ### A deposed leader sends another leader's log -/

section

local instance : Codec := Codec.silent

/-- Five members. -/
def quintet : Cluster where
  members := ["a", "b", "c", "d", "e"]
  nodup := by decide
  idOf a := a
  idOf_inj _ _ _ _ h := h
  idOf_ne := by decide
  peersOf a := ["a", "b", "c", "d", "e"].erase a
  peers_perm _ _ := List.Perm.refl _
  storesOf _ := ⟨true, true, false, none⟩

/-- `a` wins `term` with the votes of `v` and `v'`, all with empty logs. -/
def elect (a : Addr) (term : Int) (v v' : Addr) : List (Addr × Act) :=
  campaign a ++ [requestVote a 0 term v, requestVote a 0 term v',
    (a, .voteResult v (some (term, true))), (a, .voteResult v' (some (term, true))),
    (a, .dispatch), (a, .enterLeader)]

/-- `a` proposes an entry and sends its heartbeats. -/
def proposeAndSend (a : Addr) (data : Bytes) : List (Addr × Act) :=
  [(a, .propose data Faults.none), (a, .tick), (a, .build), (a, .readConfig)]

def entryX : LogEntry := ⟨1, 1, entryTypeCommand, [120]⟩
def entryY : LogEntry := ⟨1, 2, entryTypeCommand, [121]⟩

/-- `a` leads term 1 and sends `x`, which does not arrive; its next heartbeat finds
it still leading.  Before the requests are built, `c` leads term 2 and commits `y`
with the help of `a`.  Now `a` builds its requests of term 1, from a log that holds
`y`; `b` takes them, and after them the late batch with `x`. -/
def staleHeartbeatRun : List (Addr × Act) :=
  elect "a" 1 "b" "c" ++ proposeAndSend "a" [120] ++
    ["b", "c", "d", "e"].map (fun b => ("a", .ackResult b none)) ++ [("a", .tick)] ++
    elect "c" 2 "d" "e" ++ proposeAndSend "c" [121] ++
    [appendEntries "c" 1 "a" ⟨2, "c", 0, 0, [entryY.toPb], 0⟩,
      appendEntries "c" 1 "d" ⟨2, "c", 0, 0, [entryY.toPb], 0⟩,
      acked "c" 2 "a", acked "c" 2 "d"] ++
    ["b", "e"].map (fun b => ("c", .ackResult b none)) ++ [("c", .tick), ("c", .build),
      appendEntries "c" 2 "a" ⟨2, "c", 1, 2, [], 1⟩, ("a", .build),
      appendEntries "a" 2 "b" ⟨1, "a", 0, 0, [entryY.toPb], 1⟩,
      appendEntries "a" 1 "b" ⟨1, "a", 0, 0, [entryX.toPb], 0⟩]

/-- **Two nodes commit different entries at index 1**, although nobody voted twice
and no term went back. -/
theorem stale_heartbeat_splits_commit :
    ∃ w, exec (World.step quintet) (fun w e => e.2.plain && termsKept quintet w e)
        (World.init quintet) staleHeartbeatRun = some w ∧ VotesOnce quintet w ∧
      (w "b").raft.commitIndex = 1 ∧ (w "c").raft.commitIndex = 1 ∧
      (w "b").raft.entryAt 1 = some entryX ∧ (w "c").raft.entryAt 1 = some entryY := by
  exact exists_of_any (by decide +kernel)

/-- `a` leads term 1, commits `x` with `b` and `c`, and tells `b`, which applies
it. -/
def committedRun : List (Addr × Act) :=
  elect "a" 1 "b" "c" ++ proposeAndSend "a" [120] ++
    [appendEntries "a" 1 "b" ⟨1, "a", 0, 0, [entryX.toPb], 0⟩,
      appendEntries "a" 1 "c" ⟨1, "a", 0, 0, [entryX.toPb], 0⟩, acked "a" 1 "b", acked "a" 1 "c"] ++
    ["d", "e"].map (fun b => ("a", .ackResult b none)) ++ [("a", .tick), ("a", .build),
      appendEntries "a" 2 "b" ⟨1, "a", 1, 1, [], 1⟩, ("b", .collect), ("b", .emit)]

theorem state_machine_safety_committed :
    ∃ w, Runs (World.step quintet) (fun w e => commitOk quintet w e) (World.init quintet) w ∧
      (VotesOnce quintet w ∧ (w "b").emitted = [entryX] ∧ (w "a").raft.commitIndex = 1 ∧
        (w "b").raft.commitIndex = 1) ∧
      (∃ e, (w "a").raft.entryAt 1 = some e ∧ (w "b").raft.entryAt 1 = some e) ∧
      (w "b").emitted = (w "b").raft.log.take 1 := by
  refine Runs.exists_and_of_exec committedRun (by decide +kernel) ?_
  rintro w hrun ⟨hv, hem, hca, hcb⟩
  obtain ⟨hsame, hout⟩ := state_machine_safety hrun hv
  have htake := (hout "b").2.1
  rw [hem] at htake
  exact ⟨hsame "a" "b" 1 le_rfl hca.ge hcb.ge, hem.trans htake⟩

end

end Raft
