/-
CoreX/Raft/Past.lean

The history of a node: what it would have in its log if nothing had been compacted.
The record `Past` keeps the entries that a node's snapshot covers, and a section leaves
the history alone, adds an entry that a leader proposes, or merges a batch into it
(`history_step`).

`HandleInstallSnapshot` discards the log and keeps an index and a term: that of the last
entry the snapshot covers.  One entry determines all that precede it, so the snapshot
stands for the history, up to this entry, of any node that has the entry
(`Past.follow`).
-/
import CoreX.Raft.Whole

namespace Raft

open TermLog

/-! ### The batches that are sent -/

variable (s : Node) {l : List LogEntry}

/-- Every peer that gets entries gets them from above the snapshot.  With a
snapshot store this always holds: the other peers get a snapshot. -/
def sendsAbove : Act → Bool
  | .build =>
      match s.loop with
      | .sending _ peers => peers.all fun a =>
          s.raft.needsSnapshot a || decide (s.raft.snapshotIndex < s.raft.nextOf a)
      | _ => true
  | _ => true

/-- The same, unless nothing is compacted. -/
def sendsCut (act : Act) : Bool := s.raft.snapshotIndex == 0 || sendsAbove s act

theorem RaftNode.Covers.cut_sends [Codec] {s : Node} {p : List LogEntry} {act : Act} {b : Addr}
    {args : AppendEntriesArgs} (h : s.raft.Covers p) (hcut : sendsCut s act = true)
    (hs : s.Sends act b (.append args)) : Cut (p ++ s.raft.log) args := by
  cases hs with
  | batch term peers q hl hq =>
    obtain ⟨addr, haddr, rfl⟩ := List.mem_map.mp hq
    obtain ⟨hmem, hneeds⟩ := List.mem_filter.mp haddr
    rw [Bool.not_eq_true'] at hneeds
    refine h.cut_peerArgs ?_ term
    refine (Bool.or_eq_true_iff.mp hcut).imp beq_iff_eq.mp fun habove => ?_
    simp only [sendsAbove, hl, List.all_eq_true] at habove
    simpa [hneeds] using habove addr hmem
  | confirm i term => exact h.cut_confirmArgs term

/-! ### What a section does to a history -/

/-- The entry that a section proposes, if the node leads: its type and data. -/
def Node.proposal [Codec] : Act → Option (EntryType × Bytes)
  | .propose data _ => some (entryTypeCommand, data)
  | .proposeConfigChange newVoters _ =>
      if s.raft.clusterConfig.isJoint then none
      else
        some (entryTypeConfig,
          Codec.marshalConfig ⟨"joint", s.raft.clusterConfig.voters, newVoters⟩)
  | .changeNext i _ =>
      match s.changes[i]? with
      | some (.proposeStable newVoters) =>
          some (entryTypeConfig, Codec.marshalConfig ⟨"stable", newVoters, []⟩)
      | _ => none
  | _ => none

/-- Only these sections propose. -/
def Act.proposes : Act → Bool
  | .propose _ _ | .proposeConfigChange _ _ | .changeNext _ _ => true
  | _ => false

/-- The entries of the log that a section lets the snapshot cover. -/
def Node.compacted [Codec] : RecordEvent → List LogEntry
  | .fast args => s.raft.log.takeWhile fun e => e.index ≤ args.snapMeta.index
  | .truncate m => s.raft.log.takeWhile fun e => e.index ≤ m.index
  | .restart => s.raft.log.takeWhile fun e => e.index ≤ s.restart.raft.snapshotIndex
  | _ => []

/-- A restart that finds the log, from the boundary on that it finds. -/
def Node.restartKept [Codec] : Bool :=
  decide (s.restart.raft.log =
      s.raft.log.dropWhile fun e => e.index ≤ s.restart.raft.snapshotIndex) &&
    (decide (s.restart.raft.boundary = s.raft.boundary) ||
      decide (s.raft.termAt s.restart.raft.snapshotIndex = some s.restart.raft.snapshotTerm))

/-- The tests that the code does not make. -/
def historyTest [Codec] : RecordEvent → Bool
  | .batch args => s.raft.snapshotIndex == 0 || s.raft.placeFits args
  | .discard _ _ => false
  | .truncate m => decide (s.raft.termAt m.index = some m.term)
  | .restart => s.restartKept
  | _ => true

/-- The outcomes of a section for the history `past ++ log`. -/
inductive HistoryStep [Codec] (s s' : Node) (act : Act) (past past' : List LogEntry) : Prop
  | same (hc : s'.raft.Covers past') (h : past' ++ s'.raft.log = past ++ s.raft.log)
  | proposed (type : EntryType) (data : Bytes) (hp : s.proposal act = some (type, data))
      (hlead : s.raft.role = .leader) (hrole : s'.raft.role = s.raft.role)
      (hterm : s'.raft.currentTerm = s.raft.currentTerm) (hc : s'.raft.Covers past')
      (h : past' ++ s'.raft.log = past ++ s.raft.log ++ [s.raft.entryOf type data])
  | batch (c : Call) (args : AppendEntriesArgs) (f : Faults) (ha : ∃ f, act = .deliver c f)
      (hreq : c.req = .append args)
      (hfit : s.raft.snapshotIndex = 0 ∨ s.raft.placeFits args = true) (hpast : past' = past)
      (hr : s'.raft = (s.raft.handleAppendEntries args f).1)

namespace Node

variable [Codec] {s s' : Node} {act : Act} {past : List LogEntry}

theorem log_proposeEntry (n : RaftNode) (type : EntryType) (data : Bytes) (f : Faults) :
    (n.proposeEntry type data f).1.log = n.log ∨ n.role = .leader ∧
      (n.proposeEntry type data f).1.log = n.log ++ [n.entryOf type data] := by
  rcases n.proposeEntry_outcome type data f with heq | ⟨hlead, heq⟩
  · exact .inl (by rw [heq])
  · exact .inr ⟨hlead, by rw [heq, RaftNode.appendEntry_log]⟩

theorem log_of_section (h : Section s act s') (hev : s.recordEvent act = .other)
    (hact : act.proposes = false) : s'.raft.log = s.raft.log := by
  cases h with
  | electionAborted f | electionStarted f => exact (RaftNode.electionOnly_startElection _ f).log
  | electAlone | voteWon => exact (RaftNode.electionOnly_becomeLeader _ _).log
  | ackStepDown => exact (RaftNode.electionOnly_leaderStepDown _ _).log
  | buildSolo term => exact (RaftNode.pointersOnly_soloCommit _ term).log
  | ackSuccess => exact (RaftNode.pointersOnly_handleAck _ _ _ _ _ _).log
  | deliverVote c args f => exact (RaftNode.electionOnly_handleRequestVote _ args f).log
  | deliverAppend c args f hd hreq => simp [recordEvent, hreq] at hev
  | installAdmit c args f n hd hreq hn =>
    exact (RaftNode.electionOnly_installAdmit hn).log
  | installFast i t data hi hp hf => simp [recordEvent, installEvent, hi, hp, hf] at hev
  | installDiscard i t data hi hp =>
    rcases hp with hp | ⟨hp, hf, hsm⟩
    · simp [recordEvent, installEvent, hi, hp] at hev
    · simp [recordEvent, installEvent, hi, hp, hf, hsm] at hev
  | collect => exact (RaftNode.sameRecord_collectApply _).log
  | transferDone i addr index => exact (RaftNode.sameRecord_snapshotSent _ addr index).log
  | snapTruncate m hs => simp [recordEvent, hs] at hev
  | restart => cases hev
  | _ => first | rfl | cases hact

theorem log_of_other (h : s.step act = some s') (hev : s.recordEvent act = .other) :
    s'.raft.log = s.raft.log ∨ ∃ type data, s.proposal act = some (type, data) ∧
      s.raft.role = .leader ∧ s'.raft.log = s.raft.log ++ [s.raft.entryOf type data] := by
  have hprop : ∀ {type data f}, s.proposal act = some (type, data) →
      s'.raft = (s.raft.proposeEntry type data f).1 → s'.raft.log = s.raft.log ∨
        ∃ type data, s.proposal act = some (type, data) ∧ s.raft.role = .leader ∧
          s'.raft.log = s.raft.log ++ [s.raft.entryOf type data] := by
    intro type data f hp hr
    rw [hr]
    exact (log_proposeEntry s.raft type data f).imp id fun ⟨hlead, hlog⟩ =>
      ⟨type, data, hp, hlead, hlog⟩
  cases act with
  | propose data f =>
    obtain rfl : s.propose data f = s' := Option.some.inj h
    exact hprop rfl rfl
  | proposeConfigChange newVoters f =>
    obtain rfl : s.proposeConfigChange newVoters f = s' := Option.some.inj h
    by_cases hjoint : s.raft.clusterConfig.isJoint
    · left
      simp [proposeConfigChange, RaftNode.proposeConfigChange, hjoint]
    · by_cases hr : s.raft.role = .leader
      · refine hprop (f := f) (if_neg hjoint) ?_
        simp [proposeConfigChange, RaftNode.proposeConfigChange, hjoint, hr]
      · left
        simp [proposeConfigChange, RaftNode.proposeConfigChange, hr]
  | changeNext i f =>
    have h' : s.changeNext i f = some s' := h
    unfold changeNext at h'
    split at h'
    · cases h'
    · split at h' <;> cases h'
      exact .inl rfl
    · next newVoters hc =>
      cases h'
      exact hprop (by simp [proposal, hc]) rfl
    · split at h' <;> cases h'
      exact .inl rfl
    · cases h'
      left
      unfold RaftNode.stepDownIfRemoved
      split <;> rfl
  | _ => exact .inl (log_of_section (step_section h) hev rfl)

theorem HistoryStep.compact {past' : List LogEntry} {i t : Int} (hc : s.raft.Covers past)
    (ht : s.raft.termAt i = some t)
    (hpast : past' = past ++ s.raft.log.takeWhile fun e => e.index ≤ i)
    (hlog : s'.raft.log = s.raft.log.dropWhile fun e => e.index ≤ i)
    (hsi : s'.raft.snapshotIndex = i) (hst : s'.raft.snapshotTerm = t) :
    HistoryStep s s' act past past' := by
  subst hpast
  refine .same (hc.compact ht hlog hsi hst) ?_
  rw [hlog, List.append_assoc, List.takeWhile_append_dropWhile]

theorem history_step (hc : s.raft.Covers past) (h : s.step act = some s')
    (hok : historyTest s (s.recordEvent act) = true) :
    HistoryStep s s' act past (past ++ s.compacted (s.recordEvent act)) := by
  have hrec := record_step (step_section h)
  generalize hev : s.recordEvent act = ev at hrec hok
  have hkeep : s.compacted ev = [] → s'.raft.log = s.raft.log →
      s'.raft.snapshotIndex = s.raft.snapshotIndex → s'.raft.snapshotTerm = s.raft.snapshotTerm →
      HistoryStep s s' act past (past ++ s.compacted ev) := by
    intro hnil hlog hsi hst
    rw [hnil, List.append_nil]
    exact .same (hc.of_eq hlog hsi hst) (by rw [hlog])
  cases hrec with
  | keep hr => exact hkeep rfl hr.log hr.snapshotIndex hr.snapshotTerm
  | extend e he hr =>
    rcases log_of_other h hev with hlog | ⟨type, data, hp, hlead, hlog⟩
    · -- an entry was appended
      rw [hr, RaftNode.appendEntry_log] at hlog
      simp at hlog
    · have hnil : s.compacted .other = [] := rfl
      have hhist : past ++ s.compacted .other ++ s'.raft.log
          = past ++ s.raft.log ++ [s.raft.entryOf type data] := by
        rw [hlog, hnil, List.append_nil, List.append_assoc]
      obtain ⟨_, _, _, _, _, _, _, heq⟩ := RaftNode.logOnly_appendEntry (n := s.raft) e
      refine .proposed type data hp hlead (by rw [hr, heq]) (by rw [hr, heq]) ⟨?_, ?_, ?_⟩ hhist
      · rw [hhist]
        refine hc.indexed.concat ?_
        show s.raft.lastEntry.1 + 1 = _
        rw [RaftNode.lastEntry_index hc.contiguous, ← hc.length, List.length_append]
        omega
      · rw [hnil, List.append_nil, hr, heq]
        exact hc.length
      · rw [hnil, List.append_nil, hr, heq]
        exact hc.term
  | take sm k _ hr | giveUp _ hr | capture sm k snapshot _ _ hr =>
    exact hkeep rfl (by rw [hr]) (by rw [hr]) (by rw [hr])
  | compact k _ hr | saveInstalled snapshot hr | save snapshot _ hr =>
    exact hkeep rfl (by rw [hr]; rfl) (by rw [hr]; rfl) (by rw [hr]; rfl)
  | batch args f hr =>
    obtain ⟨c, f', hact, hreq⟩ := deliver_of_batch hev
    exact .batch c args f ⟨f', hact⟩ hreq (by simpa [historyTest] using hok)
      (List.append_nil past) hr
  | fast args hf hr =>
    obtain ⟨e, sm, he, hterm, _⟩ := RaftNode.installFast_iff.mp hf
    have hpos := (RaftNode.lt_of_entryAt hc.contiguous hc.nonneg he).1
    have hb := hc.nonneg
    refine HistoryStep.compact hc (i := args.snapMeta.index) (t := args.snapMeta.term) ?_ rfl
      (by rw [hr]; rfl) (by rw [hr]; rfl) (by rw [hr]; rfl)
    show s.raft.termAt args.lastIncludedIndex = some args.lastIncludedTerm
    rw [RaftNode.termAt, if_neg (by omega), he, ← hterm]
  | discard args data => cases hok
  | truncate m _ hr =>
    exact HistoryStep.compact hc (of_decide_eq_true hok) rfl (by rw [hr]; rfl) (by rw [hr]; rfl)
      (by rw [hr]; rfl)
  | restart hr =>
    subst hr
    obtain ⟨hlog, hbd⟩ := Bool.and_eq_true_iff.mp hok
    have hlog := of_decide_eq_true hlog
    rcases Bool.or_eq_true_iff.mp hbd with hbd | hbd
    · -- nothing more is covered
      have hbd := of_decide_eq_true hbd
      have hsi : s.restart.raft.snapshotIndex = s.raft.snapshotIndex :=
        congrArg SnapshotMeta.index hbd
      have hdrop : s.raft.log.dropWhile (fun e => e.index ≤ s.restart.raft.snapshotIndex)
          = s.raft.log := by
        rw [hsi, hc.contiguous.dropWhile_le, Int.sub_self]
        rfl
      have hsplit := List.takeWhile_append_dropWhile (l := s.raft.log)
        (p := fun e : LogEntry => decide (e.index ≤ s.restart.raft.snapshotIndex))
      rw [hdrop] at hsplit
      exact hkeep (List.append_left_eq_self.mp hsplit) (hlog.trans hdrop) hsi
        (congrArg SnapshotMeta.term hbd)
    · exact HistoryStep.compact hc (of_decide_eq_true hbd) rfl hlog rfl rfl

end Node

/-- The entries that the snapshots of the nodes cover. -/
abbrev Past := Addr → List LogEntry

def Past.next [Codec] (w : World) (e : Addr × Act) (past : Past) : Past :=
  Function.update past e.1 (past e.1 ++ (w e.1).compacted ((w e.1).recordEvent e.2))

/-! ### Histories and the entries in them -/

/-- The log of a node, with the entries that its snapshot covers. -/
def historyOf (x : World × Past) (a : Addr) : List LogEntry := x.2 a ++ (x.1 a).raft.log

/-- The term of the entry of index `i`. -/
def termIn (l : List LogEntry) (i : Int) : Option Int :=
  if 0 < i then (l[(i - 1).toNat]?).map LogEntry.term else none

theorem termIn_eq_some {i t : Int} :
    termIn l i = some t ↔ 0 < i ∧ ∃ e, l[(i - 1).toNat]? = some e ∧ e.term = t := by
  unfold termIn
  split
  · next hi => simp [hi]
  · next hi => simp [hi]

theorem length_of_termIn {i t : Int} (h : termIn l i = some t) :
    0 < i ∧ i.toNat ≤ l.length := by
  obtain ⟨hpos, e, he, _⟩ := termIn_eq_some.mp h
  have hlt := (List.getElem?_eq_some_iff.mp he).1
  exact ⟨hpos, by omega⟩

theorem termIn_mono {l' : List LogEntry} {i t : Int} (h : termIn l i = some t) (hl : l <+: l') :
    termIn l' i = some t := by
  obtain ⟨hpos, e, he, het⟩ := termIn_eq_some.mp h
  have hlt := (List.getElem?_eq_some_iff.mp he).1
  exact termIn_eq_some.mpr ⟨hpos, e, (getElem?_of_prefix_of_lt hl hlt).trans he, het⟩

theorem take_eq_of_termIn {L : Int → List LogEntry} {l' : List LogEntry} {i t : Int}
    (hl : Valid LogEntry.term L l) (hl' : Valid LogEntry.term L l') (h : termIn l i = some t)
    (h' : termIn l' i = some t) : l.take i.toNat = l'.take i.toNat := by
  obtain ⟨hpos, e, he, het⟩ := termIn_eq_some.mp h
  obtain ⟨_, e', he', het'⟩ := termIn_eq_some.mp h'
  have hi : i.toNat = (i - 1).toNat + 1 := by omega
  rw [hi]
  exact hl.take_eq hl' he he' (het.trans het'.symm)

/-! ### Snapshots that replace a log -/

/-- A member whose history has the entry that a snapshot ends with. -/
def historian (C : Cluster) (x : World × Past) (m : SnapshotMeta) : Option Addr :=
  C.members.find? fun b => decide (termIn (historyOf x b) m.index = some m.term)

theorem termIn_historian {C : Cluster} {x : World × Past} {m : SnapshotMeta} {b : Addr}
    (h : historian C x m = some b) : termIn (historyOf x b) m.index = some m.term := by
  have hb := List.find?_some h
  exact of_decide_eq_true hb

/-- The entries that the snapshots cover, received ones included. -/
def Past.follow [Codec] (C : Cluster) (w : World) (e : Addr × Act) (past : Past) : Past :=
  match (w e.1).recordEvent e.2 with
  | .discard args _ =>
      Function.update past e.1 (((historian C (w, past) args.snapMeta).map fun b =>
        (historyOf (w, past) b).take args.snapMeta.index.toNat).getD (past e.1))
  | _ => past.next w e

theorem follow_eq_update [Codec] (C : Cluster) (w : World) (e : Addr × Act) (past : Past) :
    past.follow C w e = Function.update past e.1 (past.follow C w e e.1) := by
  obtain ⟨p, hp⟩ : ∃ p, past.follow C w e = Function.update past e.1 p := by
    unfold Past.follow
    split
    · exact ⟨_, rfl⟩
    · exact ⟨_, rfl⟩
  rw [hp, Function.update_self]

theorem follow_ne_nil [Codec] {C : Cluster} {w : World} {e : Addr × Act} {past : Past} {b : Addr}
    (h : past b ≠ []) : past.follow C w e b ≠ [] := by
  rcases eq_or_ne b e.1 with rfl | hne
  · cases hev : (w e.1).recordEvent e.2 with
    | discard args data =>
      simp only [Past.follow, hev, Function.update_self]
      rcases hb : historian C (w, past) args.snapMeta with - | b
      · exact h
      · obtain ⟨hpos, hlen⟩ := length_of_termIn (termIn_historian hb)
        show (historyOf (w, past) b).take args.snapMeta.index.toNat ≠ []
        rw [← List.length_pos_iff, List.length_take]
        omega
    | _ =>
      simp only [Past.follow, hev, Past.next, Function.update_self]
      exact List.append_ne_nil_of_left_ne_nil h _
  · rw [follow_eq_update, Function.update_of_ne hne]
    exact h

/-- The tests that the code does not make. -/
def followTest [Codec] (C : Cluster) (x : World × Past) (a : Addr) : RecordEvent → Bool
  | .discard args _ =>
      decide ((x.1 a).raft.role ≠ .leader) && (historian C x args.snapMeta).isSome
  | ev => historyTest (x.1 a) ev

section

variable [Codec] {C : Cluster} {w : World} {past : Past} {a : Addr} {act : Act} {x' : Node}

/-- The outcomes of a section of `a` for its history: as without received snapshots, or
the history of a member up to some entry takes its place. -/
inductive FollowStep (C : Cluster) (w : World) (past : Past) (a : Addr) (act : Act) (x' : Node) :
    List LogEntry → Prop
  | history (past' : List LogEntry) (h : HistoryStep (w a) x' act (past a) past') :
      FollowStep C w past a act x' past'
  | replaced (args : InstallSnapshotArgs) (data : SnapshotData) (b : Addr)
      (hev : (w a).recordEvent act = .discard args data) (hrole : (w a).raft.role ≠ .leader)
      (hb : termIn (historyOf (w, past) b) args.lastIncludedIndex = some args.lastIncludedTerm)
      (hr : x'.raft = (w a).raft.installDiscard args data) :
      FollowStep C w past a act x'
        ((historyOf (w, past) b).take args.lastIncludedIndex.toNat)

theorem follow_discard {args : InstallSnapshotArgs} {data : SnapshotData}
    (hev : (w a).recordEvent act = .discard args data)
    (hok : followTest C (w, past) a ((w a).recordEvent act) = true) :
    (w a).raft.role ≠ .leader ∧ ∃ b,
      termIn (historyOf (w, past) b) args.lastIncludedIndex = some args.lastIncludedTerm ∧
      past.follow C w (a, act) a
        = (historyOf (w, past) b).take args.lastIncludedIndex.toNat := by
  rw [hev] at hok
  obtain ⟨hrole, hsome⟩ := Bool.and_eq_true_iff.mp hok
  obtain ⟨b, hb⟩ := Option.isSome_iff_exists.mp hsome
  refine ⟨of_decide_eq_true hrole, b, termIn_historian hb, ?_⟩
  simp only [Past.follow, hev, Function.update_self, hb]
  rfl

theorem follow_step (hc : (w a).raft.Covers (past a)) (h : (w a).step act = some x')
    (hok : followTest C (w, past) a ((w a).recordEvent act) = true) :
    FollowStep C w past a act x' (past.follow C w (a, act) a) := by
  have hrec := Node.record_step (Node.step_section h)
  by_cases hev : ∃ args data, (w a).recordEvent act = .discard args data
  · obtain ⟨args, data, hev⟩ := hev
    obtain ⟨hrole, b, hb, hpast⟩ := follow_discard hev hok
    rw [hpast]
    rw [hev] at hrec
    cases hrec with
    | discard _ _ hr => exact .replaced args data b hev hrole hb hr
  · -- every other section, as without received snapshots
    have hpast : past.follow C w (a, act) = past.next w (a, act) := by
      unfold Past.follow
      split
      · next args data hd => exact absurd ⟨args, data, hd⟩ hev
      · rfl
    have htest : historyTest (w a) ((w a).recordEvent act) = true := by
      unfold followTest at hok
      split at hok
      · next args data hd => exact absurd ⟨args, data, hd⟩ hev
      · exact hok
    rw [hpast, Past.next, Function.update_self]
    exact .history _ (Node.history_step hc h htest)

omit [Codec] in
theorem covers_installDiscard {l : List LogEntry} {n : RaftNode} {args : InstallSnapshotArgs}
    (data : SnapshotData) (hl : Indexed LogEntry.index 0 l)
    (h : termIn l args.lastIncludedIndex = some args.lastIncludedTerm) :
    (n.installDiscard args data).Covers (l.take args.lastIncludedIndex.toNat) := by
  obtain ⟨hpos, hlen⟩ := length_of_termIn h
  obtain ⟨_, e, he, het⟩ := termIn_eq_some.mp h
  have hlog : (n.installDiscard args data).log = [] := rfl
  refine ⟨?_, ?_, ?_⟩
  · rw [hlog, List.append_nil]
    exact hl.restrict (List.take_prefix _ _)
  · show ((l.take args.lastIncludedIndex.toNat).length : Int) = args.lastIncludedIndex
    rw [List.length_take]
    omega
  · show lastTerm LogEntry.term (l.take args.lastIncludedIndex.toNat) = args.lastIncludedTerm
    have hi : args.lastIncludedIndex.toNat = (args.lastIncludedIndex - 1).toNat + 1 := by omega
    rw [hi, List.take_add_one, he, ← het]
    exact lastTerm_concat LogEntry.term _ e

end

end Raft
