/-
CoreX/Raft/CommitLedger.lean

A cluster of processes, and what it has committed.

No process can tell by itself what is committed: its commit index is what it
believes.  The ledger is kept for the whole cluster, and no section reads it.  An
entry gets into it when a leader that counts its match indices moves its commit
index over it.  On the conditions of state machine safety the ledger has one entry
for each index (`Ledgered.unique`), a majority of the members holds each of them
(`Ledgered.held`), and every entry that a process takes for committed is among
them (`Ledgered.seen`).
-/
import CoreX.Raft.Process
import CoreX.Raft.Commit

namespace Raft

open Consensus StepSystem TermLog

abbrev Deployment := Addr → Process

/-- The section of the node behind a section of the process. -/
def ProcessAct.act? : ProcessAct → Option Act
  | .node act => some act
  | .request _ data f => some (.propose data f)
  | .crash _ _ => some .restart
  | _ => none

namespace Deployment

/-- The processes of a cluster before they are first started. -/
def init [Codec] (C : Cluster) (cfg : Addr → SnapshotConfig) : Deployment := fun a =>
  Process.fresh a (C.idOf a) (some (C.peersOf a)) (cfg a)

/-- The nodes of the processes. -/
def nodes (D : Deployment) : World := fun a => (D a).node

theorem nodes_update (D : Deployment) (a : Addr) (p : Process) :
    nodes (Function.update D a p) = Function.update D.nodes a p.node := by
  funext b
  rcases eq_or_ne b a with rfl | hne
  · rw [nodes, Function.update_self, Function.update_self]
  · rw [nodes, Function.update_of_ne hne, Function.update_of_ne hne, nodes]

/-- The network delivers what was sent. -/
def available (D : Deployment) (a : Addr) : ProcessAct → Bool
  | .node act => D.nodes.available a act
  | _ => true

/-- One section at one member. -/
def step [Codec] (C : Cluster) (D : Deployment) (e : Addr × ProcessAct) : Option Deployment :=
  if e.1 ∈ C.members ∧ D.available e.1 e.2 then
    ((D e.1).step e.2).map (Function.update D e.1)
  else none

theorem step_cases [Codec] {C : Cluster} {D D' : Deployment} {a : Addr} {act : ProcessAct}
    (h : D.step C (a, act) = some D') :
    ∃ p, a ∈ C.members ∧ D.available a act = true ∧ (D a).step act = some p ∧
      D' = Function.update D a p := by
  unfold step at h
  split at h
  · next hc =>
    obtain ⟨p, hp, rfl⟩ := Option.map_eq_some_iff.mp h
    exact ⟨p, hc.1, hc.2, hp, rfl⟩
  · cases h

end Deployment

/-! ### The ledger -/

/-- What the snapshots cover, and what has been committed. -/
structure CommitLedger where
  past : Past
  commits : List LogEntry

def CommitLedger.empty : CommitLedger := ⟨fun _ => [], []⟩

section

variable [Codec]

/-- The entries that a section commits: the history of a leader up to the commit index for
which it has counted a majority. -/
def newlyCommitted (x : World × Past) (a : Addr) (act : Act) : List LogEntry :=
  match (x.1 a).step act with
  | some y =>
      if act.counts = true ∧ (x.1 a).raft.commitIndex < y.raft.commitIndex then
        (historyOf x a).take y.raft.commitIndex.toNat
      else []
  | none => []

/-- The ledger after a section. -/
def CommitLedger.follow (C : Cluster) (D : Deployment) (e : Addr × ProcessAct) (L : CommitLedger) :
    CommitLedger :=
  match e.2.act? with
  | some act =>
      ⟨L.past.follow C D.nodes (e.1, act), L.commits ++ newlyCommitted (D.nodes, L.past) e.1 act⟩
  | none => L

/-- The conditions of state machine safety on a section. -/
def ledgerTest (C : Cluster) (x : Deployment × CommitLedger) (e : Addr × ProcessAct) : Bool :=
  match e.2.act? with
  | some act =>
      termsKept C x.1.nodes (e.1, act) && commitTest C (x.1.nodes, x.2.past) (e.1, act)
  | none => true

/-- The cluster with its ledger. -/
abbrev Deployment.record (C : Cluster) :
    Deployment × CommitLedger → Addr × ProcessAct → Option (Deployment × CommitLedger) :=
  withHistory (Deployment.step C) (CommitLedger.follow C)

theorem newlyCommitted_eq {C : Cluster} {w w' : World} (past : Past) {a : Addr} {act : Act}
    (h : World.step C w (a, act) = some w') :
    newlyCommitted (w, past) a act =
      if act.counts = true ∧ (w a).raft.commitIndex < (w' a).raft.commitIndex then
        (historyOf (w, past) a).take (w' a).raft.commitIndex.toNat
      else [] := by
  obtain ⟨y, _, _, hy, rfl⟩ := World.step_some h
  rw [newlyCommitted, show ((w, past).1 a).step act = some y from hy, Function.update_self]

theorem newlyCommitted_history {C : Cluster} {w w' : World} (past : Past) {a : Addr} {act : Act}
    (h : World.step C w (a, act) = some w') (hcounts : act.counts = true)
    (hlt : (w a).raft.commitIndex < (w' a).raft.commitIndex) :
    historyOf (w', past.follow C w (a, act)) a = historyOf (w, past) a := by
  obtain ⟨y, _, _, hy, rfl⟩ := World.step_some h
  rw [Function.update_self] at hlt
  show past.follow C w (a, act) a ++ (Function.update w a y a).raft.log = _
  rw [follow_of_counts hcounts, Function.update_self]
  rcases (Node.step_section hy).recommit with heq | ⟨_, _, _, _, _, honly, _⟩
    | ⟨c, args, f, rfl, _⟩ | ⟨i, t, data, _, hev, _⟩ | ⟨rfl, _⟩
  · omega
  · rw [honly.log]
    rfl
  · cases hcounts
  · cases act with
    | build | ackResult => cases hev
    | _ => cases hcounts
  · cases hcounts

theorem CommitLedger.subset_follow {C : Cluster} {D : Deployment} {e : Addr × ProcessAct}
    {L : CommitLedger} :
    ∀ x ∈ L.commits, x ∈ (L.follow C D e).commits := by
  intro x hx
  unfold CommitLedger.follow
  split
  · exact List.mem_append_left _ hx
  · exact hx

end

/-! ### What the protocol does not look at -/

/-- `y` is the node `x` with another map, or with another reader of its channel. -/
def Node.Alike (x y : Node) : Prop :=
  ∃ sm consumed, y = { x with raft := { x.raft with sm := sm }, consumed := consumed }

theorem Node.Alike.refl (x : Node) : x.Alike x := ⟨_, _, rfl⟩

theorem Signed.alike {C : Cluster} {a : Addr} {x y : Node} (h : Signed C a x) (hxy : x.Alike y) :
    Signed C a y := by
  obtain ⟨sm, consumed, rfl⟩ := hxy
  exact ⟨h.addr, h.id, h.standing, h.sent⟩

theorem NodeSim.alike {strict : Prop} {s : Abs} {a : Addr} {x y : Node} {p : List LogEntry}
    (h : NodeSim strict s a x p) (hxy : x.Alike y) : NodeSim strict s a y p := by
  obtain ⟨sm, consumed, rfl⟩ := hxy
  exact ⟨⟨h.leader, h.loop, h.sent, h.replies, h.reads, h.installs⟩, h.term, h.log,
    h.covers.of_eq rfl rfl rfl⟩

theorem CommitNode.alike {C : Cluster} {K : List LogEntry → Prop} {s : Abs} {u : Prop} {x y : Node}
    {p : List LogEntry} (h : CommitNode C K s u x p) (hxy : x.Alike y) :
    CommitNode C K s u y p := by
  obtain ⟨sm, consumed, rfl⟩ := hxy
  exact ⟨h.commit, h.sent, h.offers, h.installs, h.wired, h.rounds, h.pointers, h.transfers⟩

theorem Node.Alike.votes {x y : Node} (h : x.Alike y) : y.votes = x.votes := by
  obtain ⟨_, _, rfl⟩ := h
  rfl

theorem Committed.alike {C : Cluster} {K : List LogEntry → Prop} {w w' : World} {past : Past}
    {s : Abs} (h : Committed C K (w, past) s) (hw : ∀ a, (w a).Alike (w' a)) :
    Committed C K (w', past) s := by
  refine ⟨⟨⟨fun a => ?_, fun a => ?_, ?_, h.tracks.sim.selfAcked⟩, h.tracks.inv, h.tracks.unique⟩,
    h.acks, fun a => (h.node a).alike (hw a)⟩
  · exact (h.tracks.sim.signed a).alike (hw a)
  · exact (h.tracks.sim.node a).alike (hw a)
  · intro v hv
    obtain ⟨hvoter, hcand, hmem⟩ := h.tracks.sim.votes v hv
    refine ⟨hvoter, hcand, ?_⟩
    rw [show ((w', past).1 v.voter).votes = (w v.voter).votes from (hw v.voter).votes]
    exact hmem

theorem Process.step_node [Codec] {p p' : Process} {a : ProcessAct} (h : p.step a = some p') :
    a.act? = none ∧ p.node.Alike p'.node ∨
      ∃ act x, a.act? = some act ∧ p.node.step act = some x ∧ x.Alike p'.node := by
  obtain ⟨q, hq, rfl⟩ := Option.map_eq_some_iff.mp h
  cases a with
  | node act =>
    obtain ⟨x, hx, _, _, hp⟩ := nodeAct_cases hq
    refine .inr ⟨act, x, rfl, hx, ?_⟩
    rcases hp with ⟨_, rfl⟩ | ⟨_, _, _, rfl⟩ <;> exact Node.Alike.refl x
  | fanKv =>
    obtain ⟨e, _, _, rfl⟩ := fanKv_some hq
    exact .inl ⟨rfl, _, _, rfl⟩
  | fanMvcc =>
    obtain ⟨e, _, rfl⟩ := fanMvcc_some hq
    exact .inl ⟨rfl, Node.Alike.refl _⟩
  | kvWrite r =>
    obtain ⟨e, rest, _, _, hp⟩ := kvWrite_cases hq
    refine .inl ⟨rfl, ?_⟩
    rcases hp with ⟨_, rfl⟩ | ⟨_, rfl⟩ | ⟨_, _, rfl⟩
    · exact Node.Alike.refl _
    · exact Node.Alike.refl _
    · exact ⟨_, _, rfl⟩
  | kvStore =>
    obtain ⟨e, _, rfl⟩ := kvStore_some hq
    exact .inl ⟨rfl, _, _, rfl⟩
  | mvccApply =>
    obtain ⟨e, rest, _, rfl⟩ := mvccApply_some hq
    exact .inl ⟨rfl, Node.Alike.refl _⟩
  | request backend data f =>
    refine .inr ⟨.propose data f, p.node.propose data f, rfl, rfl, ?_⟩
    obtain ⟨_, ⟨_, rfl⟩ | ⟨_, rfl⟩⟩ := request_cases hq <;> exact Node.Alike.refl _
  | handlerNext j =>
    rw [handlerNext_frame hq]
    exact .inl ⟨rfl, Node.Alike.refl _⟩
  | handlerTimeout j =>
    rw [handlerTimeout_some hq]
    exact .inl ⟨rfl, Node.Alike.refl _⟩
  | crash keep results =>
    obtain ⟨y, _, rfl⟩ := Option.map_eq_some_iff.mp hq
    exact .inr ⟨.restart, p.node.restart, rfl, rfl, _, _, rfl⟩

theorem Deployment.step_world [Codec] {C : Cluster} {D D' : Deployment} {a : Addr}
    {act : ProcessAct} (h : D.step C (a, act) = some D') :
    ∃ w, (act.act? = none ∧ w = D.nodes ∨
        ∃ act', act.act? = some act' ∧ World.step C D.nodes (a, act') = some w) ∧
      ∀ b, (w b).Alike (D'.nodes b) := by
  obtain ⟨p, ha, havail, hp, rfl⟩ := step_cases h
  have halike : ∀ {y : Node}, y.Alike p.node →
      ∀ b, (Function.update D.nodes a y b).Alike (nodes (Function.update D a p) b) := by
    intro y hy b
    rw [nodes_update]
    rcases eq_or_ne b a with rfl | hne
    · rw [Function.update_self, Function.update_self]
      exact hy
    · rw [Function.update_of_ne hne, Function.update_of_ne hne]
      exact Node.Alike.refl _
  rcases Process.step_node hp with ⟨hnone, hsame⟩ | ⟨act', y, hact, hy, hsame⟩
  · have hself : Function.update D.nodes a (D a).node = D.nodes := Function.update_eq_self a D.nodes
    exact ⟨D.nodes, .inl ⟨hnone, rfl⟩, hself ▸ halike hsame⟩
  · refine ⟨_, .inr ⟨act', hact, ?_⟩, halike hsame⟩
    have hav : D.nodes.available a act' = true := by
      cases act with
      | node act =>
        cases hact
        exact havail
      | request | crash =>
        cases hact
        rfl
      | _ => cases hact
    rw [World.step, if_pos ⟨ha, hav⟩]
    exact Option.map_eq_some_iff.mpr ⟨y, hy, rfl⟩

/-! ### What is in the ledger -/

/-- All of `p` is in the ledger. -/
def Entered (commits : List LogEntry) (p : List LogEntry) : Prop := ∀ e ∈ p, e ∈ commits

theorem entered_knowledge (commits : List LogEntry) : Knowledge (Entered commits) :=
  ⟨fun _ he => absurd he List.not_mem_nil, fun _ _ hq hp e he => hp e (hq.subset he)⟩

/-- The cluster and its ledger. -/
structure Ledgered (C : Cluster) (x : Deployment × CommitLedger) (s : Abs) : Prop where
  committed : Committed C (Entered x.2.commits) (x.1.nodes, x.2.past) s
  /-- What a process has taken for committed. -/
  seen : ∀ a, ∀ e ∈ (x.1 a).committed, e ∈ x.2.commits
  chosen : ∀ e ∈ x.2.commits, ∃ T P, s.Chosen C.quorums LogEntry.term T P ∧ e ∈ P

section

variable {C : Cluster} {x : Deployment × CommitLedger} {s : Abs}

theorem Committed.entered {w : World} {past : Past} {commits : List LogEntry}
    (h : Committed C (Entered commits) (w, past) s) {a : Addr} {e : LogEntry}
    (he : e ∈ (w a).raft.log) (hle : e.index ≤ (w a).raft.commitIndex) : e ∈ commits := by
  have hcov : (w a).raft.Covers (past a) := (h.tracks.sim.node a).covers
  obtain ⟨i, hi⟩ := List.getElem?_of_mem (List.mem_append_right (past a) he)
  have hidx := hcov.indexed i e hi
  have hlt : i < (w a).raft.commitIndex.toNat := by omega
  refine (h.node a).commit.known e (List.mem_of_getElem? (i := i) ?_)
  rw [List.getElem?_take_of_lt hlt]
  exact hi

theorem Ledgered.numbered (h : Ledgered C x s) {T : Int} {P : List LogEntry}
    (hP : s.Chosen C.quorums LogEntry.term T P) : Indexed LogEntry.index 0 P :=
  (h.committed.tracks.inv.numbered_of_valid (h.committed.tracks.inv.valid_leader T)).restrict hP.1

theorem Ledgered.unique (h : Ledgered C x s) {e e' : LogEntry} (he : e ∈ x.2.commits)
    (he' : e' ∈ x.2.commits) (hidx : e.index = e'.index) : e = e' := by
  obtain ⟨T, P, hP, hmem⟩ := h.chosen e he
  obtain ⟨T', P', hP', hmem'⟩ := h.chosen e' he'
  obtain ⟨i, hi⟩ := List.getElem?_of_mem hmem
  obtain ⟨j, hj⟩ := List.getElem?_of_mem hmem'
  have hnum := h.numbered hP i e hi
  have hnum' := h.numbered hP' j e' hj
  obtain rfl : i = j := by omega
  have hsame : P[i]? = P'[i]? := by
    rcases h.committed.acks.chosen_agree h.committed.tracks.inv hP hP' with hpp | hpp
    · exact (getElem?_of_prefix_of_lt hpp (List.getElem?_eq_some_iff.mp hi).1).symm
    · exact getElem?_of_prefix_of_lt hpp (List.getElem?_eq_some_iff.mp hj).1
  exact Option.some.inj (hi.symm.trans (hsame.trans hj))

theorem Ledgered.held (h : Ledgered C x s) {e : LogEntry} (he : e ∈ x.2.commits) :
    ∃ A, C.quorums.isQuorum A ∧ ∀ b ∈ A, e ∈ historyOf (x.1.nodes, x.2.past) b := by
  obtain ⟨T, P, hP, hmem⟩ := h.chosen e he
  obtain ⟨A, hA, hkept⟩ := h.committed.acks.chosen_held h.committed.tracks.inv hP
  refine ⟨A, hA, fun b hb => ?_⟩
  rw [h.committed.tracks.history_eq b]
  exact (hkept b hb).subset hmem

end

section

variable [Codec] {C : Cluster} {x x' : Deployment × CommitLedger} {s : Abs}

theorem Ledgered.seen_step {D D' : Deployment} {L L' : CommitLedger} (h : Ledgered C (D, L) s)
    {a : Addr}
    {act : ProcessAct} (hstep : D.step C (a, act) = some D') {s' : Abs}
    (hcom : Committed C (Entered L'.commits) (D'.nodes, L'.past) s')
    (hsub : ∀ e ∈ L.commits, e ∈ L'.commits) : ∀ b, ∀ e ∈ (D' b).committed, e ∈ L'.commits := by
  intro b e he
  obtain ⟨p, _, _, hp, rfl⟩ := Deployment.step_cases hstep
  rcases eq_or_ne b a with rfl | hne
  · rw [Function.update_self, Process.committed_step hp] at he
    rcases List.mem_append.mp he with he | he
    · exact hsub e (h.seen b e he)
    · obtain ⟨hlog, hle⟩ := List.mem_filter.mp he
      rw [Deployment.nodes_update] at hcom
      refine hcom.entered (a := b) ?_ ?_ <;> rw [Function.update_self]
      · exact hlog
      · exact (of_decide_eq_true hle).1
  · rw [Function.update_of_ne hne] at he
    exact hsub e (h.seen b e he)

theorem Ledgered.step (h : Ledgered C x s) {e : Addr × ProcessAct}
    (hstep : Deployment.record C x e = some x') (hok : ledgerTest C x e = true)
    (hv : VotesOnce C x'.1.nodes) : ∃ s', Ledgered C x' s' := by
  obtain ⟨D, L⟩ := x
  obtain ⟨a, act⟩ := e
  obtain ⟨D', hD', rfl⟩ := Option.map_eq_some_iff.mp hstep
  obtain ⟨w', hw, halike⟩ := Deployment.step_world hD'
  have hi := h.committed.tracks.inv
  rcases hw with ⟨hnone, rfl⟩ | ⟨act', hact, hw⟩
  · have hL : L.follow C D (a, act) = L := by rw [CommitLedger.follow, hnone]
    have hcom := h.committed.alike halike
    rw [hL]
    exact ⟨s, hcom, h.seen_step hD' hcom fun _ he => he, h.chosen⟩
  · have hL : L.follow C D (a, act) = ⟨L.past.follow C D.nodes (a, act'),
        L.commits ++ newlyCommitted (D.nodes, L.past) a act'⟩ := by rw [CommitLedger.follow, hact]
    simp only [ledgerTest, hact, Bool.and_eq_true] at hok
    obtain ⟨hkept, htest⟩ := hok
    have hterm : (D.nodes a).raft.currentTerm ≤ (w' a).raft.currentTerm := by
      simpa [termsKept, hw] using hkept
    have hvotes : VotesOnce C w' := fun b hb => (halike b).votes ▸ hv b hb
    obtain ⟨s', hmoves, ht', _, hafter⟩ := h.committed.track (entered_knowledge _) hw htest hterm
      (hvotes.admissible hi h.committed.tracks.unique)
    have hnew := newlyCommitted_eq L.past hw
    obtain ⟨hcom, _⟩ := hafter (Entered (L.commits ++ newlyCommitted (D.nodes, L.past) a act'))
      (entered_knowledge _) (fun q hq e he => List.mem_append_left _ (hq e he))
      fun hcounts hlt e he => List.mem_append_right _ (by rwa [hnew, if_pos ⟨hcounts, hlt⟩])
    have hcom' := hcom.alike halike
    rw [hL]
    refine ⟨s', hcom', h.seen_step hD' hcom' fun _ => List.mem_append_left _,
      fun e he => ?_⟩
    rcases List.mem_append.mp he with he | he
    · obtain ⟨T, P, hP, hmem⟩ := h.chosen e he
      exact ⟨T, P, chosen_moves hi h.committed.acks hmoves ht'.unique hP, hmem⟩
    · -- what is new is part of what justifies the new commit index
      rw [hnew] at he
      split at he
      · next hc =>
        have hj := (hcom.node a).commit.justified
        rw [← newlyCommitted_history L.past hw hc.1 hc.2] at he
        obtain ⟨T, P, hP, ⟨q, hq, hqP, hql⟩, _⟩ := hj.resolve_left fun hneg => by
          rw [Int.toNat_eq_zero.mpr hneg, List.take_zero] at he
          cases he
        refine ⟨T, P, hP, hqP.subset ?_⟩
        rw [List.prefix_iff_eq_take.mp hql, hq]
        exact he
      · cases he

theorem ledgered_of_runs {cfg : Addr → SnapshotConfig}
    {ok : Deployment × CommitLedger → Addr × ProcessAct → Prop}
    {P : Deployment × CommitLedger → Prop}
    (hrun : Runs (Deployment.record C) ok (Deployment.init C cfg, CommitLedger.empty) x)
    (hok : ∀ x e, ok x e → ledgerTest C x e = true)
    (hstart : P (Deployment.init C cfg, CommitLedger.empty))
    (hstep : ∀ x s x' s' e, Ledgered C x s → Ledgered C x' s' → ok x e →
      Deployment.record C x e = some x' → P x → P x')
    (hv : VotesOnce C x.1.nodes) : (∃ s, Ledgered C x s) ∧ P x := by
  revert hv
  refine hrun.invariant (P := fun x => VotesOnce C x.1.nodes → (∃ s, Ledgered C x s) ∧ P x) ?_
    fun _ => ⟨⟨State.init, ?_, ?_, ?_⟩, hstart⟩
  · intro x e x' hP hs hoke hv
    have hbefore : VotesOnce C x.1.nodes := by
      obtain ⟨D', hD', rfl⟩ := Option.map_eq_some_iff.mp hs
      obtain ⟨w', hw, halike⟩ := Deployment.step_world hD'
      have hv' : VotesOnce C w' := fun b hb => (halike b).votes ▸ hv b hb
      rcases hw with ⟨_, rfl⟩ | ⟨_, _, hw⟩
      · exact hv'
      · exact hv'.before hw
    obtain ⟨⟨s, h⟩, hx⟩ := hP hbefore
    obtain ⟨s', h'⟩ := h.step hs (hok x e hoke) hv
    exact ⟨⟨s', h'⟩, hstep x s x' s' e h h' hoke hs hx⟩
  · have hinit : (Deployment.init C cfg).nodes =
        World.start C fun a => ⟨true, true, true, some (cfg a)⟩ := rfl
    rw [hinit]
    exact Committed.init C (entered_knowledge _)
  · intro a e he
    cases he
  · intro e he
    cases he

end

end Raft
