/-
CoreX/Raft/Counted.lean

What a leader believes about its peers.  `matchIndex[p] = m` says that the log of `p`,
with its snapshot, agrees with the leader's up to `m`, and commit decisions rest on it.
Two goroutines write it.  `sendHeartbeats` writes what `p` has acknowledged.
`sendSnapshot` writes the index of the snapshot it has sent, whatever the peer has made
of it, and whatever has become of the leader in the meantime: a snapshot that the peer
refuses is counted (`refused_snapshot_counted`).

If it looked at the term of the answer, and if every payload could be read, a snapshot
would be counted only when the peer has what it stands for.  All of that is committed,
and a node never loses what it knows to be committed, so it does not matter when the
snapshot is counted, and by the leader of which term.  What a peer has acknowledged it
keeps until it hears of a later leader that does not have it.  So the belief is true as
long as the peer has heard of no later term, and of what is committed it is true for
ever (`match_index_sound`).
-/
import CoreX.Raft.Commit
import CoreX.Raft.Replicate

namespace Raft

open Consensus StepSystem TermLog

/-! ### What the answers mean -/

/-- `b` has what is committed up to `i`. -/
def Has (C : Cluster) (past : Past) (s : Abs) (b : Addr) (i : Int) : Prop :=
  C.Justified s (Compacted C past) (s.term b) (s.log b) i

/-- The cluster and what the peers have told each other about snapshots. -/
structure Counting (C : Cluster) (x : World × Past) (s : Abs) : Prop where
  committed : Committed C (fun _ => True) x s
  counted : ∀ a t, (x.1 a).loop.leadTerm = some t → ∀ b, 0 < (x.1 a).raft.matchOf b →
    s.Acked b t ((x.1 a).raft.matchOf b) ∨ Has C x.2 s b ((x.1 a).raft.matchOf b)
  asked : ∀ b, ∀ v ∈ (x.1 b).installs,
    v.call.req = .install v.args ∧ v.args.term ≤ (x.1 b).raft.currentTerm
  saving : ∀ b, ∀ v ∈ (x.1 b).installs, ∀ data, v.phase = .save data →
    Has C x.2 s b v.args.lastIncludedIndex
  answered : ∀ b c args term, (c, .install term) ∈ (x.1 b).replies → c.req = .install args →
    args.done = true → term ≤ args.term → Has C x.2 s b args.lastIncludedIndex

/-- A snapshot counts if the peer has answered its last request in no later term than the
request's.  (`sendSnapshot` does not see the answer.) -/
def countsAnswered (w : World) (a : Addr) : Act → Bool
  | .transferDone i =>
      match (w a).transfers[i]? with
      | some (.send addr index) => (w addr).replies.any fun p =>
          match p.1.req, p.2 with
          | .install args, .install term => p.1.src == a && args.lastIncludedIndex == index &&
              args.done && decide (term ≤ args.term)
          | _, _ => false
      | _ => true
  | _ => true

/-- The payload of a snapshot that has come to its end can be read. -/
def readsPayload [Codec] (x : Node) : Act → Bool
  | .installNext i =>
      match x.installs[i]? with
      | some v =>
          match v.phase with
          | .take => (RaftNode.installDecode v.args x.raft.snapBuf).isSome
          | _ => true
      | none => true
  | _ => true

/-- The conditions on the sections, apart from what is counted. -/
def transferTest [Codec] (C : Cluster) (x : World × Past) (e : Addr × Act) : Bool :=
  termsKept C x.1 e && commitTest C x e && readsPayload (x.1 e.1) e.2

/-! ### One section -/

section

variable [Codec] {C : Cluster} {w w' : World} {past : Past} {s s' : Abs} {a : Addr} {act : Act}
variable {x' : Node}

omit [Codec] in
theorem Has.moves {past' : Past} {b : Addr} {i : Int} (h : Has C past s b i) (hi : C.LogInv s)
    (ha : AckInv LogEntry.term s) (hmoves : C.Moves True s s') (hu : s'.WinsUnique)
    (hp : Compacted C past → Compacted C past') : Has C past' s' b i :=
  (justified_log_moves hi ha hmoves hu h).weaken hp le_rfl

omit [Codec] in
theorem Counting.sent (h : Counting C (w, past) s) {i : Nat} {b : Addr} {index : Int}
    (hcount : countsAnswered w a (.transferDone i) = true)
    (ht : (w a).transfers[i]? = some (.send b index)) : Has C past s b index := by
  simp only [countsAnswered, ht, List.any_eq_true] at hcount
  obtain ⟨⟨c, res⟩, hmem, hp⟩ := hcount
  dsimp only at hp
  split at hp
  · next args term hreq =>
    simp only [Bool.and_eq_true, beq_iff_eq, decide_eq_true_eq] at hp
    obtain ⟨⟨⟨_, rfl⟩, hdone⟩, hle⟩ := hp
    exact h.answered b c args term hmem hreq hdone hle
  · cases hp

theorem Counting.fast (h : Counting C (w, past) s) (hs : Node.Section (w a) act x') {v : Install}
    (hv : v ∈ (w a).installs) (hev : (w a).recordEvent act = .fast v.args) {past' : Past}
    (ha : a ∈ C.members) (hcov' : x'.raft.Covers (past' a)) :
    C.Justified s (Compacted C past') (s.term a) (s.log a) v.args.lastIncludedIndex := by
  have hrec := Node.record_step hs
  rw [hev] at hrec
  cases hrec with
  | fast _ hf hr =>
    have hcov : (w a).raft.Covers (past a) := (h.committed.tracks.sim.node a).covers
    obtain ⟨e, _, he, het, _⟩ := RaftNode.installFast_iff.mp hf
    obtain ⟨hpos, hget⟩ := hcov.getElem?_of_entryAt he
    have hb : termIn (historyOf (w, past) a) v.args.lastIncludedIndex
        = some v.args.lastIncludedTerm := termIn_eq_some.mpr ⟨hpos, e, hget, het⟩
    have hcompacted : Compacted C past' := by
      refine ⟨a, ha, fun hnil => ?_⟩
      have hlen := hcov'.length
      rw [hnil, hr] at hlen
      exact absurd hlen.symm hpos.ne'
    have hlater : Later C (fun _ => True) (fun _ => True) s s (Compacted C past)
        (Compacted C past') :=
      ⟨Grows.refl s, fun _ _ _ _ hj => hj, fun _ => hcompacted, fun _ h => h⟩
    have hk := (h.committed.installed hlater hcompacted hv hb).trans (List.take_prefix _ _)
    rw [(h.committed.tracks.sim.node a).log, (h.committed.tracks.sim.node a).term]
    exact hk.justified.weaken (fun h => h) (h.asked a v hv).2

theorem Counting.step (h : Counting C (w, past) s) (hstep : World.step C w (a, act) = some w')
    (hok : transferTest C (w, past) (a, act) = true) (hcount : countsAnswered w a act = true)
    (hadm : Admissible C True w' s) :
    ∃ s', NewWins C w' s s' ∧ Counting C (w', past.follow C w (a, act)) s' := by
  simp only [transferTest, Bool.and_eq_true] at hok
  obtain ⟨⟨hkept, htest⟩, hreads⟩ := hok
  have hterm : (w a).raft.currentTerm ≤ (w' a).raft.currentTerm := by
    simpa [termsKept, hstep] using hkept
  have htrue : Knowledge fun _ => True := ⟨trivial, fun _ _ _ _ => trivial⟩
  have hi := h.committed.tracks.inv
  obtain ⟨s', hmoves, ht', hwins, hafter⟩ := h.committed.track htrue hstep htest hterm hadm
  obtain ⟨hcom, _⟩ := hafter _ htrue (fun _ h => h) fun _ _ => trivial
  have hg := hmoves.grows hi ht'.unique
  obtain ⟨ha, havail, x', hs, rfl⟩ := World.step_cases hstep
  have hn' : NodeSim True s' a x' (past.follow C w (a, act) a) := by
    have hn := ht'.sim.node a
    dsimp only at hn
    rwa [Function.update_self] at hn
  have hhas : ∀ {b i}, Has C past s b i → Has C (past.follow C w (a, act)) s' b i := by
    intro b i hb
    refine hb.moves hi h.committed.acks hmoves ht'.unique ?_
    rintro ⟨c, hc, hne⟩
    exact ⟨c, hc, follow_ne_nil hne⟩
  refine ⟨s', hwins, hcom, fun c t ht b hpos => ?_, fun b v hv => ?_, fun b v hv data hp => ?_,
    fun b c args term hc hreq hdone hle => ?_⟩
  · dsimp only at ht hpos ⊢
    rcases eq_or_ne c a with rfl | hne
    · rw [Function.update_self] at ht hpos ⊢
      rcases h.committed.recount havail hs ht hpos with ⟨hold, heq⟩ | hack | ⟨i, rfl, htr⟩
      · rw [heq] at hpos ⊢
        exact (h.counted c t hold b hpos).imp (acked_mono hg) hhas
      · exact .inl (acked_mono hg hack)
      · exact .inr (hhas (h.sent hcount htr))
    · rw [Function.update_of_ne hne] at ht hpos ⊢
      exact (h.counted c t ht b hpos).imp (acked_mono hg) hhas
  · dsimp only at hv ⊢
    rcases eq_or_ne b a with rfl | hne
    · rw [Function.update_self] at hv hterm ⊢
      rcases hs.receiving hv with ⟨v', hv', hargs, hcall⟩ | ⟨f, _, hreq, hle⟩
      · obtain ⟨hreq, hle⟩ := h.asked b v' hv'
        rw [← hargs, ← hcall]
        exact ⟨hreq, hle.trans hterm⟩
      · exact ⟨hreq, hle⟩
    · rw [Function.update_of_ne hne] at hv ⊢
      exact h.asked b v hv
  · dsimp only at hv
    rcases eq_or_ne b a with rfl | hne
    · rw [Function.update_self] at hv
      rcases hs.saving hv hp with hold | ⟨data', hev⟩
      · exact hhas (h.saving b v hold data hp)
      · -- the commit index has reached the snapshot
        have hk := (hcom.node b).commit.justified
        dsimp only at hk
        rw [Function.update_self, ← hn'.log, ← hn'.term] at hk
        refine hk.le ?_
        obtain ⟨i, t, _, hargs, rfl⟩ := hs.of_discard hev
        show v.args.lastIncludedIndex ≤ (if (w b).raft.commitIndex < t.args.lastIncludedIndex then
          t.args.lastIncludedIndex else (w b).raft.commitIndex)
        rw [hargs]
        split <;> omega
    · rw [Function.update_of_ne hne] at hv
      exact hhas (h.saving b v hv data hp)
  · dsimp only at hc
    rcases eq_or_ne b a with rfl | hne
    · rw [Function.update_self] at hc
      rcases hs.answered hc with hold | ⟨args', hreq', hlt⟩ | ⟨i, v, rfl, hv, rfl, hwhy⟩
      · exact hhas (h.answered b c args term hold hreq hdone hle)
      · cases hreq.symm.trans hreq'
        omega
      · have hmem := List.mem_of_getElem? hv
        cases hreq.symm.trans (h.asked b v hmem).1
        rcases hwhy with hmore | ⟨hphase, hnone⟩ | hev | ⟨data, hp⟩
        · rw [hdone] at hmore
          cases hmore
        · simp [readsPayload, hv, hphase, hnone] at hreads
        · exact justified_log_moves hi h.committed.acks hmoves ht'.unique
            (h.fast hs hmem hev ha hn'.covers)
        · exact hhas (h.saving b v hmem data hp)
    · rw [Function.update_of_ne hne] at hc
      exact hhas (h.answered b c args term hc hreq hdone hle)

end

theorem counting_init [Codec] (C : Cluster) :
    Counting C (World.init C, fun _ => []) State.init where
  committed := Committed.init C ⟨trivial, fun _ _ _ _ => trivial⟩
  counted a t ht := by cases ht
  asked b v hv := by cases hv
  saving b v hv := by cases hv
  answered b c args term hc := by cases hc

/-! ### Match indices -/

section

variable {C : Cluster} {x : World × Past} {s : Abs} {a p : Addr} {t m : Int}

theorem Counting.acked (h : Counting C x s) (hrole : (x.1 a).raft.role = .leader)
    (hterm : (x.1 a).raft.currentTerm = t) (hack : s.Acked p t m)
    (hwhen : (x.1 p).raft.currentTerm ≤ t ∨ m ≤ (x.1 a).raft.commitIndex) :
    (historyOf x a).take m.toNat <+: historyOf x p := by
  have hi := h.committed.tracks.inv
  have hacks := h.committed.acks
  obtain ⟨k, hk, rfl, rfl, hlen⟩ := hack
  have hlead : s.leaderLog k.term = historyOf x a := by
    rw [← hterm]
    exact h.committed.tracks.sim.leaderLog_eq hi hrole
  have hcovers : s.Covers k ((historyOf x a).take m.toNat) := by
    refine ⟨hlead ▸ List.take_prefix _ _, ?_⟩
    rw [List.length_take]
    omega
  rw [h.committed.tracks.history_eq k.node]
  refine (hacks.kept k hk _ hcovers).resolve_right ?_
  rintro ⟨U, hlt, hle, hled, hnot⟩
  rw [(h.committed.tracks.sim.node k.node).term] at hle
  rcases hwhen with hold | hcom
  · omega
  · -- a later leader has what is committed
    refine hnot ?_
    rcases (h.committed.node a).commit.justified with hzero | ⟨T, P, hP, hcommon, hwhy⟩
    · rw [Int.toNat_eq_zero.mpr (hcom.trans hzero), List.take_zero]
      exact List.nil_prefix
    · have hT : T ≤ k.term := by
        rw [← hterm]
        rcases hwhy with hPl | ⟨_, hle⟩
        · rw [← hP.2.1, ← (h.committed.tracks.sim.node a).term]
          refine lastTerm_le (hi.term_nonneg a) fun e he => hacks.term_bound a e ?_
          rw [(h.committed.tracks.sim.node a).log]
          exact hPl.subset he
        · exact hle
      obtain ⟨q, hq, hqP, hql⟩ := hcommon.le (Int.toNat_le_toNat hcom)
      have htake : (historyOf x a).take m.toNat = q := by
        rw [List.prefix_iff_eq_take.mp hql, hq]
        rfl
      rw [htake]
      exact hqP.trans (hacks.chosen_le hi hP (hT.trans hlt.le) hled)

end

theorem RaftNode.AgreeUpTo.of_take {l l' : List LogEntry} {m : Int} (hlen : m ≤ l.length)
    (h : l.take m.toNat <+: l') : AgreeUpTo l l' m := by
  intro k hk
  have hlt : k < (l.take m.toNat).length := by
    rw [List.length_take]
    omega
  refine ⟨_, List.getElem?_eq_getElem (by omega), ?_⟩
  rw [getElem?_of_prefix_of_lt h hlt, List.getElem?_take_of_lt (by omega)]
  exact List.getElem?_eq_getElem (by omega)

section

variable [Codec] {C : Cluster}

theorem counting_of_visits {xs : List (World × Past)}
    (hrun : Visits (withHistory (World.step C) (Past.follow C))
      (fun x e => transferTest C x e && countsAnswered x.1 e.1 e.2) (World.init C, fun _ => []) xs)
    (hu : OneLeaderPerTerm C (xs.map Prod.fst)) :
    ∃ x us s, xs = x :: us ∧ Counting C x s ∧ Seen C (xs.map Prod.fst) s := by
  induction hrun with
  | start => exact ⟨_, _, State.init, rfl, counting_init C, by simp [Seen, State.init]⟩
  | @next U V us e h hstep hok ih =>
    obtain ⟨_, _, s, heq, hinv, hseen⟩ := ih hu.tail
    cases heq
    obtain ⟨htest, hcount⟩ := Bool.and_eq_true_iff.mp hok
    obtain ⟨w', hw', rfl⟩ := Option.map_eq_some_iff.mp hstep
    obtain ⟨s', hnew, hinv'⟩ := hinv.step hw' htest hcount (hseen.admissible hu)
    exact ⟨_, U :: us, s', rfl, hinv', hseen.next hnew⟩

/-- **The match indices of a leader are right.**  Once `runLeader` has set up its
pointers, the history of a peer, its log with the entries that its snapshot covers,
agrees with the leader's on every index up to `matchIndex`, if the peer has heard of no
later term or the leader has committed that index. -/
theorem match_index_sound {x : World × Past} {us : List (World × Past)}
    (hrun : Visits (withHistory (World.step C) (Past.follow C))
      (fun x e => transferTest C x e && countsAnswered x.1 e.1 e.2) (World.init C, fun _ => [])
      (x :: us)) (hu : OneLeaderPerTerm C ((x :: us).map Prod.fst)) {a p : Addr} {t m : Int}
    (hl : Leads C x.1 a t) (hset : (x.1 a).loop.leadTerm = some t)
    (hm : (x.1 a).raft.matchOf p = m)
    (hwhen : (x.1 p).raft.currentTerm ≤ t ∨ m ≤ (x.1 a).raft.commitIndex) :
    ((x.2 a).length = (x.1 a).raft.snapshotIndex ∧ (x.2 p).length = (x.1 p).raft.snapshotIndex) ∧
      RaftNode.AgreeUpTo (historyOf x a) (historyOf x p) m := by
  obtain ⟨_, _, s, heq, h, _⟩ := counting_of_visits hrun hu
  cases heq
  have hsim := h.committed.tracks.sim
  refine ⟨⟨(hsim.node a).covers.length, (hsim.node p).covers.length⟩, ?_⟩
  rcases Int.lt_or_le 0 m with hpos | hneg
  · subst hm
    by_cases hack : s.Acked p t ((x.1 a).raft.matchOf p)
    · have htake := h.acked hl.2.1 hl.2.2 hack hwhen
      refine .of_take ?_ htake
      obtain ⟨k, hk, _, rfl, hle⟩ := hack
      have hlen := h.committed.acks.ack_len k hk
      rw [← hl.2.2, hsim.leaderLog_eq h.committed.tracks.inv hl.2.1] at hlen
      exact hle.trans (Int.ofNat_le.mpr hlen)
    · -- a snapshot, which both have
      have hcom := ((h.committed.node a).pointers t hset p hpos).resolve_left hack
      have hhas := (h.counted a t hset p hpos).resolve_left hack
      have hj := (h.committed.node a).commit.justified.le hcom
      unfold Has at hhas
      rw [(hsim.node p).log] at hhas
      have heq := take_eq_of_justified h.committed.tracks.inv h.committed.acks hj hhas le_rfl le_rfl
      refine .of_take hj.le_length ?_
      rw [show historyOf x a = x.2 a ++ (x.1 a).raft.log from rfl, heq]
      exact List.take_prefix _ _
  · intro k hk
    omega

end

/-! ### A snapshot that is refused -/

section

local instance countedCodec : Codec := Codec.oneByte

/-- `a` leads term 1, commits an entry with `b` and takes a snapshot of it.  In the next
round `c`, which has not been heard of, is due for the snapshot. -/
def summarisedRun : List (Addr × Act) :=
  electedRun ++ [("a", .dispatch), ("a", .enterLeader), ("a", .propose (goString setA) Faults.none),
    ("a", .tick), ("a", .build), ("a", .readConfig),
    appendEntries "a" 1 "b" ⟨1, "a", 0, 0, [entryA.toPb], 0⟩, acked "a" 1 "b",
    ("a", .ackResult "c" none), ("a", .collect), ("a", .emit), ("a", .apply false),
    ("a", .snapTake), ("a", .snapCapture), ("a", .snapSave false), ("a", .snapTruncate),
    ("a", .tick), ("a", .build)]

/-- `a` sends the snapshot, and `c` gets it. -/
def snapshotShipped : List (Addr × Act) :=
  [("a", .transferStart 0),
    ("c", .deliver ⟨"a", 3, "c", .install ⟨1, "a", 1, 1, 0, [1], true⟩⟩ Faults.none)]

/-- The snapshot is installed, and counted. -/
def installedRun : List (Addr × Act) :=
  summarisedRun ++ snapshotShipped ++ List.replicate 6 ("c", .installNext 0) ++
    [("a", .transferDone 0)]

/-- `c` has moved on to term 2 on its own and refuses the snapshot, which is counted
nevertheless. -/
def refusedSnapshotRun : List (Addr × Act) :=
  summarisedRun ++ campaign "c" ++ recampaign "c" ++ snapshotShipped ++ [("a", .transferDone 0)]

theorem match_index_sound_installed :
    ∃ x us, Visits (withHistory (World.step snapshotTrio) (Past.follow snapshotTrio))
        (fun x e => transferTest snapshotTrio x e && countsAnswered x.1 e.1 e.2)
        (World.init snapshotTrio, fun _ => []) (x :: us) ∧
      OneLeaderPerTerm snapshotTrio ((x :: us).map Prod.fst) ∧
      (Leads snapshotTrio x.1 "a" 1 ∧ (x.1 "a").loop.leadTerm = some 1 ∧
        (x.1 "a").raft.commitIndex = 1 ∧ (x.1 "a").raft.matchOf "c" = 1 ∧
        (x.1 "c").raft.snapshotIndex = 1) ∧
      RaftNode.AgreeUpTo (historyOf x "a") (historyOf x "c") 1 := by
  refine exists_and_led (fun _ => "a") installedRun (by decide +kernel) ?_
  rintro x us hrun hu ⟨hlead, hset, hcommit, hm, _⟩
  exact (match_index_sound hrun hu hlead hset hm (.inr hcommit.ge)).2

/-- **A snapshot that the peer has refused is counted.** -/
theorem refused_snapshot_counted :
    ∃ x us, Visits (withHistory (World.step snapshotTrio) (Past.follow snapshotTrio))
        (fun x e => transferTest snapshotTrio x e) (World.init snapshotTrio, fun _ => [])
        (x :: us) ∧
      OneLeaderPerTerm snapshotTrio ((x :: us).map Prod.fst) ∧
      (Leads snapshotTrio x.1 "a" 1 ∧ (x.1 "a").loop.leadTerm = some 1 ∧
        (x.1 "a").raft.commitIndex = 1 ∧ (x.1 "a").raft.matchOf "c" = 1 ∧
        (x.1 "c").raft.snapshotIndex = 0 ∧ historyOf x "c" = []) ∧
      ¬RaftNode.AgreeUpTo (historyOf x "a") (historyOf x "c") 1 := by
  refine exists_and_led (fun _ => "a") refusedSnapshotRun (by decide +kernel) ?_
  rintro x us _ _ ⟨_, _, _, _, _, hnone⟩ hagree
  obtain ⟨e, _, he⟩ := hagree 0 (by decide)
  rw [hnone] at he
  cases he

end

end Raft
