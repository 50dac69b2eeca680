/-
CoreX/Raft/ReadIndex.lean

`ReadIndex`: a leader notes its commit index, asks a quorum whether its term is
still the latest, and returns what it noted.  `ReadWorld` adds the calls in
progress to the cluster, and a record of the highest commit index that any member
has had.
-/
import CoreX.Raft.Frontier

namespace Raft

open Consensus StepSystem TermLog

/-! ### The calls -/

/-- A call of `ReadIndex` on a leader. -/
structure ReadCall where
  term : Int
  capturedCommitIndex : Int
  /-- The highest commit index of any member when the call started. -/
  reached : Int
  deriving DecidableEq, Repr

/-- `confirmLeadership` after its heartbeats are sent: the peers whose answer is still
to come, and those that count. -/
structure Confirmation where
  read : ReadCall
  cfg : ClusterConfig
  args : AppendEntriesArgs
  call : Nat
  awaiting : List Addr
  ackMap : List Addr
  deriving DecidableEq, Repr

namespace Confirmation

/-- The answers so far are a quorum. -/
def confirmed (q : Confirmation) : Bool := quorumFor q.cfg fun a => a ∈ q.ackMap

/-- An answer has come, or the call has failed.  The term is all that is looked at. -/
def count (q : Confirmation) (addr : Addr) (res : Option AppendEntriesResult) : Confirmation :=
  { q with
    awaiting := q.awaiting.erase addr
    ackMap :=
      match res with
      | some res => if res.term ≤ q.args.term then addr :: q.ackMap else q.ackMap
      | none => q.ackMap }

end Confirmation

/-- The calls in progress at a node: before the heartbeats, with the configuration
once it is read, in the order of `Node.reads`; and waiting for answers. -/
structure Reader where
  started : List (ReadCall × Option ClusterConfig)
  confirming : List Confirmation

/-- The cluster with its calls; `reached` is the highest commit index of any member so
far, `answers` are the calls that returned without an error. -/
structure ReadWorld where
  nodes : World
  readers : Addr → Reader
  reached : Int
  answers : List (Addr × ReadCall)

inductive ReadAct
  | node (act : Act)
  | readIndex
  | readConfig (i : Nat)
  | alone (i : Nat)
  | confirm (i : Nat)
  | answer (j : Nat) (addr : Addr) (res : Option AppendEntriesResult)
  | expire (j : Nat)

namespace ReadWorld

variable [Codec] (C : Cluster) (R : ReadWorld) (a : Addr)

/-- A section of the node `a` has led to `w`. -/
def enter (w : World) : ReadWorld :=
  { R with nodes := w, reached := max R.reached (w a).raft.commitIndex }

def setReader (r : Reader) : ReadWorld := { R with readers := Function.update R.readers a r }

/-- The other sections.  A crash ends the calls. -/
def nodeAct (act : Act) : Option ReadWorld :=
  match act with
  | .readIndex => none
  | .confirm _ => none
  | .restart =>
      (World.step C R.nodes (a, .restart)).map fun w => (R.enter a w).setReader a ⟨[], []⟩
  | act => (World.step C R.nodes (a, act)).map (R.enter a)

/-- `ReadIndex` notes the commit index and the term. -/
def readIndex : Option ReadWorld :=
  (World.step C R.nodes (a, .readIndex)).map fun w =>
    (R.enter a w).setReader a { R.readers a with
      started := (⟨(R.nodes a).raft.currentTerm, (R.nodes a).raft.commitIndex, R.reached⟩, none) ::
        (R.readers a).started }

/-- `confirmLeadership` reads the configuration. -/
def readConfig (i : Nat) : Option ReadWorld :=
  match (R.readers a).started[i]? with
  | some (q, none) =>
      if (R.nodes a).raft.allClients = [] then none
      else
        some (R.setReader a { R.readers a with
          started := (R.readers a).started.set i (q, some (R.nodes a).raft.clusterConfig) })
  | _ => none

/-- `confirmLeadership` without peers. -/
def alone (i : Nat) : Option ReadWorld :=
  match (R.readers a).started[i]? with
  | some (q, none) =>
      if (R.nodes a).raft.allClients = [] then
        (World.step C R.nodes (a, .confirm i)).map fun w =>
          { (R.enter a w).setReader a { R.readers a with
              started := (R.readers a).started.eraseIdx i } with
            answers := (a, q) :: R.answers }
      else none
  | _ => none

/-- `confirmLeadership` sends its heartbeats. -/
def confirm (i : Nat) : Option ReadWorld :=
  match (R.readers a).started[i]? with
  | some (q, some cfg) =>
      (World.step C R.nodes (a, .confirm i)).map fun w =>
        (R.enter a w).setReader a
          { started := (R.readers a).started.eraseIdx i
            confirming := (R.readers a).confirming ++ [⟨q, cfg, (R.nodes a).raft.confirmArgs q.term,
              (R.nodes a).calls, (R.nodes a).raft.allClients, []⟩] }
  | _ => none

omit [Codec] in
/-- `confirmLeadership` returns: the call does so without an error, or times out. -/
def finish (j : Nat) (q : Confirmation) : ReadWorld :=
  { R.setReader a { R.readers a with confirming := (R.readers a).confirming.eraseIdx j } with
    answers := if q.confirmed then (a, q.read) :: R.answers else R.answers }

/-- The answer, if there is one, has been given. -/
def answered (q : Confirmation) (addr : Addr) (res : Option AppendEntriesResult) : Bool :=
  res.all fun res => (R.nodes addr).replies.contains
    (⟨a, q.call, addr, .append q.args⟩, .append res)

/-- `confirmLeadership` takes an answer. -/
def answer (j : Nat) (addr : Addr) (res : Option AppendEntriesResult) : Option ReadWorld :=
  match (R.readers a).confirming[j]? with
  | some q =>
      if addr ∈ q.awaiting ∧ R.answered a q addr res then
        let q' := q.count addr res
        if q'.confirmed ∨ q'.awaiting = [] then some (R.finish a j q')
        else
          some (R.setReader a { R.readers a with
            confirming := (R.readers a).confirming.set j q' })
      else none
  | none => none

/-- The context of the call is done. -/
def expire (j : Nat) : Option ReadWorld :=
  ((R.readers a).confirming[j]?).map (R.finish a j)

/-- **One section.** -/
def step (e : Addr × ReadAct) : Option ReadWorld :=
  if e.1 ∈ C.members then
    match e.2 with
    | .node act => R.nodeAct C e.1 act
    | .readIndex => R.readIndex C e.1
    | .readConfig i => R.readConfig e.1 i
    | .alone i => R.alone C e.1 i
    | .confirm i => R.confirm C e.1 i
    | .answer j addr res => R.answer e.1 j addr res
    | .expire j => R.expire e.1 j
  else none

def init : ReadWorld := ⟨World.init C, fun _ => ⟨[], []⟩, 0, []⟩

end ReadWorld

/-- The section of the node. -/
def ReadAct.act? : ReadAct → Option Act
  | .node act => some act
  | .readIndex => some .readIndex
  | .alone i | .confirm i => some (.confirm i)
  | .readConfig _ | .answer _ _ _ | .expire _ => none

variable (C : Cluster)

/-- What the snapshots cover. -/
def ReadWorld.follow [Codec] (R : ReadWorld) (e : Addr × ReadAct) (past : Past) :
    Past :=
  match e.2.act? with
  | some act => past.follow C R.nodes (e.1, act)
  | none => past

/-- A quorum that confirms a leader is a majority of the members. -/
def Confirmation.fair (a : Addr) (q : Confirmation) : Bool :=
  !q.confirmed || C.majority (a :: q.ackMap)

/-- Leaders are confirmed by majorities of the members. -/
def ReadWorld.confirmsFairly (R : ReadWorld) (e : Addr × ReadAct) : Bool :=
  match e.2 with
  | .alone _ => C.majority [e.1]
  | .answer j addr res =>
      ((R.readers e.1).confirming[j]?).all fun q => (q.count addr res).fair C e.1
  | .expire j => ((R.readers e.1).confirming[j]?).all fun q => q.fair C e.1
  | _ => true

/-- The condition on the run: no term goes back, the nodes pass the tests of
`commitTest`, and leaders are confirmed by majorities. -/
def readTest [Codec] (x : ReadWorld × Past) (e : Addr × ReadAct) : Bool :=
  x.1.confirmsFairly C e &&
    match e.2.act? with
    | some act => termsKept C x.1.nodes (e.1, act) && commitTest C (x.1.nodes, x.2) (e.1, act)
    | none => true

/-- `ReadIndex` is called on a leader only when its entries above the commit index are all
of its own term. -/
def readsOwnTerm (R : ReadWorld) (e : Addr × ReadAct) : Bool :=
  match e.2 with
  | .readIndex => (R.nodes e.1).raft.ownAbove
  | _ => true

/-! ### What holds of the calls -/

/-- The call will return enough, or a later leader has been elected, not with the
help of `a`. -/
def Pending (s : Abs) (a : Addr) (q : ReadCall) : Prop :=
  q.reached ≤ q.capturedCommitIndex ∨ ∃ y ∈ s.wins, q.term < y.term ∧ a ∉ y.quorum

/-- The same while answers come in: whoever elected the later leader does not count. -/
structure Confirming (w : World) (s : Abs) (a : Addr) (q : Confirmation) : Prop where
  term : q.args.term = q.read.term
  sound : q.read.reached ≤ q.read.capturedCommitIndex ∨
    ∃ y ∈ s.wins, q.read.term < y.term ∧ a ∉ y.quorum ∧ (∀ v ∈ q.ackMap, v ∉ y.quorum) ∧
      ∀ v ∈ y.quorum, ∀ c res, (c, .append res) ∈ (w v).replies → c.src = a → c.id = q.call →
        y.term ≤ res.term

/-- The calls in progress at `a`. -/
structure Reading (w : World) (s : Abs) (a : Addr) (r : Reader) : Prop where
  started : ∀ q ∈ r.started, Pending s a q.1
  confirming : ∀ q ∈ r.confirming, Confirming w s a q

/-- The cluster and its calls. -/
structure ReadInv (C : Cluster) (x : ReadWorld × Past) (s : Abs) : Prop where
  frontier : Frontier C (x.1.nodes, x.2) s
  reached : ∃ u b l, Knows C (Heard C x.1.nodes s) s u b l x.1.reached
  readers : ∀ a, Reading x.1.nodes s a (x.1.readers a)
  answers : ∀ p ∈ x.1.answers, p.2.reached ≤ p.2.capturedCommitIndex

section

variable {C : Cluster} {R R' : ReadWorld} {past past' : Past} {w w' : World} {s s' : Abs} {a : Addr}
variable {q : Confirmation}

theorem Pending.mono {q : ReadCall} (h : Pending s a q) (hg : Grows s s') : Pending s' a q := by
  rcases h with h | ⟨y, hy, hrest⟩
  · exact .inl h
  · exact .inr ⟨y, hg.wins hy, hrest⟩

theorem Confirming.carry [Codec] {e : Addr × Act} (h : Confirming w s a q) (hg : Grows s s')
    (ht' : Tracks C True (w', past') s') (hstep : World.step C w e = some w') :
    Confirming w' s' a q where
  term := h.term
  sound := by
    rcases h.sound with hle | ⟨y, hy, hlt, hout, hacks, hold⟩
    · exact .inl hle
    · refine .inr ⟨y, hg.wins hy, hlt, hout, hacks, fun v hv c res hc hsrc hid => ?_⟩
      rcases World.replied_term hstep hc with hc | hnew
      · exact hold v hv c res hc hsrc hid
      · rw [hnew, ← show s'.term v = (w' v).raft.currentTerm from (ht'.sim.node v).term]
        exact ht'.inv.quorum_le (hg.wins hy) hv

theorem Confirming.count (h : Confirming R.nodes s a q) {addr : Addr}
    {res : Option AppendEntriesResult} (hans : R.answered a q addr res = true) :
    Confirming R.nodes s a (q.count addr res) where
  term := h.term
  sound := by
    rcases h.sound with hle | ⟨y, hy, hlt, hout, hacks, hold⟩
    · exact .inl hle
    · refine .inr ⟨y, hy, hlt, hout, fun v hv hin => ?_, hold⟩
      rcases res with - | res
      · exact hacks v hv hin
      · by_cases hok : res.term ≤ q.args.term
        · have hv' : v ∈ addr :: q.ackMap := by
            simpa [Confirmation.count, hok] using hv
          rcases List.mem_cons.mp hv' with rfl | hv'
          · -- its term was too low for a voter of the later leader
            have hmem : (⟨a, q.call, v, .append q.args⟩, .append res) ∈ (R.nodes v).replies := by
              simpa [ReadWorld.answered] using hans
            have hge := hold v hin _ res hmem rfl rfl
            have hterm := h.term
            omega
          · exact hacks v hv' hin
        · exact hacks v (by simpa [Confirmation.count, hok] using hv) hin

theorem Cluster.meets_winner (hi : C.LogInv s) {y : Win Addr} (hy : y ∈ s.wins) {l : List Addr}
    (hmaj : C.majority l = true) : ∃ v ∈ l, v ∈ y.quorum := by
  obtain ⟨v, hv, hvy⟩ := C.quorums.meet _ _ (C.isQuorum_of_majority hmaj) (hi.win_quorum y hy)
  exact ⟨v, of_decide_eq_true (List.mem_filter.mp (List.mem_toFinset.mp hv)).2, hvy⟩

theorem Confirming.le_captured (h : Confirming w s a q) (hi : C.LogInv s)
    (hfair : q.fair C a = true)
    (hq : q.confirmed = true) : q.read.reached ≤ q.read.capturedCommitIndex := by
  rcases h.sound with hle | ⟨y, hy, _, hout, hacks, _⟩
  · exact hle
  · exfalso
    obtain ⟨v, hv, hvy⟩ := C.meets_winner hi hy (by simpa [Confirmation.fair, hq] using hfair)
    rcases List.mem_cons.mp hv with rfl | hv
    · exact hout hvy
    · exact hacks v hv hvy

theorem Pending.alone {q : ReadCall} (h : Pending s a q) (hi : C.LogInv s)
    (hmaj : C.majority [a] = true) : q.reached ≤ q.capturedCommitIndex := by
  rcases h with hle | ⟨y, hy, _, hout⟩
  · exact hle
  · obtain ⟨v, hv, hvy⟩ := C.meets_winner hi hy hmaj
    obtain rfl := List.mem_singleton.mp hv
    exact absurd hvy hout

/-! ### The sections -/

theorem ReadInv.enter [Codec] (h : ReadInv C (R, past) s) {act : Act}
    (hkept : termsKept C R.nodes (a, act) = true)
    (hok : commitTest C (R.nodes, past) (a, act) = true)
    (hstep : World.step C R.nodes (a, act) = some w') (hadm : Admissible C True w' s) :
    ∃ s', C.Moves True s s' ∧ NewWins C w' s s' ∧
      ReadInv C (R.enter a w', past.follow C R.nodes (a, act)) s' := by
  have hterm : (R.nodes a).raft.currentTerm ≤ (w' a).raft.currentTerm := by
    simpa [termsKept, hstep] using hkept
  have hi := h.frontier.committed.tracks.inv
  obtain ⟨s', hmoves, hwins, hf', hheard⟩ := h.frontier.step hstep hok hterm hadm
  have ht' := hf'.committed.tracks
  have hg := hmoves.grows hi ht'.unique
  refine ⟨s', hmoves, hwins, hf', ?_, fun b => ⟨fun q hq => ?_, fun q hq => ?_⟩, h.answers⟩
  · -- the new commit index is known, and so was the old maximum
    show ∃ u b l, Knows C (Heard C w' s') s' u b l (max R.reached (w' a).raft.commitIndex)
    rcases max_cases R.reached (w' a).raft.commitIndex with ⟨heq, _⟩ | ⟨heq, _⟩
    · obtain ⟨u, b, l, hl⟩ := h.reached
      rw [heq]
      exact ⟨u, b, l, justified_moves hi h.frontier.committed.acks hmoves ht'.unique hl.justified,
        hheard _ hl.known⟩
    · rw [heq]
      exact ⟨_, _, _, (hf'.committed.node a).commit⟩
  · exact ((h.readers b).started q hq).mono hg
  · exact ((h.readers b).confirming q hq).carry hg ht' hstep

theorem ReadInv.setReader (h : ReadInv C (R, past) s) {r : Reader} (hr : Reading R.nodes s a r) :
    ReadInv C (R.setReader a r, past) s where
  frontier := h.frontier
  reached := h.reached
  readers := (Function.forall_update_iff R.readers fun b r => Reading R.nodes s b r).mpr
    ⟨hr, fun b _ => h.readers b⟩
  answers := h.answers

theorem ReadInv.addAnswer (h : ReadInv C (R, past) s) {q : ReadCall}
    (hq : q.reached ≤ q.capturedCommitIndex) :
    ReadInv C ({ R with answers := (a, q) :: R.answers }, past) s where
  frontier := h.frontier
  reached := h.reached
  readers := h.readers
  answers := List.forall_mem_cons.mpr ⟨hq, h.answers⟩

theorem ReadInv.finish (h : ReadInv C (R, past) s) (hq : Confirming R.nodes s a q)
    (hfair : q.fair C a = true) (j : Nat) : ReadInv C (R.finish a j q, past) s := by
  have hset : ReadInv C (R.setReader a { R.readers a with
      confirming := (R.readers a).confirming.eraseIdx j }, past) s :=
    h.setReader ⟨(h.readers a).started,
      fun x hx => (h.readers a).confirming x (List.mem_of_mem_eraseIdx hx)⟩
  unfold ReadWorld.finish
  split
  · next hquorum =>
    exact hset.addAnswer (hq.le_captured h.frontier.committed.tracks.inv hfair hquorum)
  · exact hset

theorem ReadInv.pending [Codec] (h : ReadInv C (R, past) s)
    (hstep : World.step C R.nodes (a, .readIndex) = some w')
    (hown : (R.nodes a).raft.ownAbove = true) :
    Pending s a ⟨(R.nodes a).raft.currentTerm, (R.nodes a).raft.commitIndex, R.reached⟩ := by
  have hcom := h.frontier.committed
  obtain ⟨ha, _, x', hs, _⟩ := World.step_cases hstep
  have hrole : (R.nodes a).raft.role = .leader := by
    cases hs with
    | readIndex hr => exact hr
  obtain ⟨u, b, l, hl⟩ := h.reached
  rcases hl.le_or_overtaken hcom ha hrole hown with hle | ⟨y, hy, hlt⟩
  · exact .inl hle
  · refine .inr ⟨y, hy, hlt, fun hin => ?_⟩
    have hle := hcom.tracks.inv.quorum_le hy hin
    rw [show s.term a = (R.nodes a).raft.currentTerm from (hcom.tracks.sim.node a).term] at hle
    exact absurd hle (Int.not_le.mpr hlt)

theorem ReadInv.confirm (h : ReadInv C (R, past) s) {x : ReadCall} {cfg : ClusterConfig}
    (hx : (x, some cfg) ∈ (R.readers a).started) (awaiting : List Addr) :
    Confirming R.nodes s a ⟨x, cfg, (R.nodes a).raft.confirmArgs x.term, (R.nodes a).calls,
      awaiting, []⟩ where
  term := rfl
  sound := by
    rcases (h.readers a).started _ hx with hle | ⟨y, hy, hlt, hout⟩
    · exact .inl hle
    · refine .inr ⟨y, hy, hlt, hout, by simp, fun v _ c res hc hsrc hid => ?_⟩
      -- the number of the call is a new one
      have hasked := h.frontier.calls _ _ (h.frontier.asked v c res hc)
      rw [hsrc] at hasked
      dsimp only at hid hasked
      omega

theorem ReadWorld.nodeAct_cases [Codec] {act : Act} (h : R.nodeAct C a act = some R') :
    ∃ w', World.step C R.nodes (a, act) = some w' ∧
      (R' = R.enter a w' ∨ R' = (R.enter a w').setReader a ⟨[], []⟩) := by
  unfold ReadWorld.nodeAct at h
  split at h
  · cases h
  · cases h
  · obtain ⟨w', hw, rfl⟩ := Option.map_eq_some_iff.mp h
    exact ⟨w', hw, .inr rfl⟩
  · obtain ⟨w', hw, rfl⟩ := Option.map_eq_some_iff.mp h
    exact ⟨w', hw, .inl rfl⟩

theorem ReadInv.step [Codec] {e : Addr × ReadAct} (h : ReadInv C (R, past) s)
    (hok : readTest C (R, past) e = true) (hown : readsOwnTerm R e = true)
    (hstep : R.step C e = some R') (hadm : Admissible C True R'.nodes s) :
    ∃ s', C.Moves True s s' ∧ NewWins C R'.nodes s s' ∧
      ReadInv C (R', R.follow C e past) s' := by
  obtain ⟨a, act⟩ := e
  have hstay : ∀ {R₁ : ReadWorld}, ReadInv C (R₁, past) s →
      ∃ s', C.Moves True s s' ∧ NewWins C R₁.nodes s s' ∧ ReadInv C (R₁, past) s' :=
    fun h₁ => ⟨s, Relation.ReflTransGen.refl, fun x hx => .inl hx, h₁⟩
  simp only [readTest, Bool.and_eq_true] at hok
  obtain ⟨hfair, hnode⟩ := hok
  simp only [ReadWorld.step] at hstep
  split at hstep
  case isFalse => cases hstep
  have hi := h.frontier.committed.tracks.inv
  cases act with
  | node act =>
    obtain ⟨hkept, hok⟩ := Bool.and_eq_true_iff.mp hnode
    obtain ⟨w', hw, rfl | rfl⟩ := ReadWorld.nodeAct_cases hstep
    · exact h.enter hkept hok hw hadm
    · obtain ⟨s', hmoves, hwins, h'⟩ := h.enter hkept hok hw hadm
      exact ⟨s', hmoves, hwins, h'.setReader ⟨by simp, by simp⟩⟩
  | readIndex =>
    obtain ⟨hkept, hok⟩ := Bool.and_eq_true_iff.mp hnode
    obtain ⟨w', hw, rfl⟩ := Option.map_eq_some_iff.mp hstep
    have hnew := h.setReader (a := a) (r := { R.readers a with started :=
        (⟨(R.nodes a).raft.currentTerm, (R.nodes a).raft.commitIndex, R.reached⟩, none) ::
          (R.readers a).started })
      ⟨List.forall_mem_cons.mpr ⟨h.pending hw hown, (h.readers a).started⟩,
        (h.readers a).confirming⟩
    exact hnew.enter hkept hok hw hadm
  | readConfig i =>
    simp only [ReadWorld.readConfig] at hstep
    split at hstep
    case h_2 => cases hstep
    next q hq =>
      split at hstep
      · cases hstep
      · cases hstep
        refine hstay (h.setReader ⟨fun x hx => ?_, (h.readers a).confirming⟩)
        rcases List.mem_or_eq_of_mem_set hx with hx | rfl
        · exact (h.readers a).started x hx
        · exact (h.readers a).started (q, none) (List.mem_of_getElem? hq)
  | alone i =>
    obtain ⟨hkept, hok⟩ := Bool.and_eq_true_iff.mp hnode
    simp only [ReadWorld.alone] at hstep
    split at hstep
    case h_2 => cases hstep
    next q hq =>
      split at hstep
      case isFalse => cases hstep
      obtain ⟨w', hw, rfl⟩ := Option.map_eq_some_iff.mp hstep
      have hle := ((h.readers a).started _ (List.mem_of_getElem? hq)).alone hi hfair
      have hnew := (h.setReader (a := a) (r := { R.readers a with
          started := (R.readers a).started.eraseIdx i })
        ⟨fun x hx => (h.readers a).started x (List.mem_of_mem_eraseIdx hx),
          (h.readers a).confirming⟩).addAnswer (a := a) hle
      exact hnew.enter hkept hok hw hadm
  | confirm i =>
    obtain ⟨hkept, hok⟩ := Bool.and_eq_true_iff.mp hnode
    simp only [ReadWorld.confirm] at hstep
    split at hstep
    case h_2 => cases hstep
    next q cfg hq =>
      obtain ⟨w', hw, rfl⟩ := Option.map_eq_some_iff.mp hstep
      have hnew := h.setReader (a := a) (r := {
          started := (R.readers a).started.eraseIdx i
          confirming := (R.readers a).confirming ++
            [⟨q, cfg, (R.nodes a).raft.confirmArgs q.term, (R.nodes a).calls,
              (R.nodes a).raft.allClients, []⟩] })
        ⟨fun x hx => (h.readers a).started x (List.mem_of_mem_eraseIdx hx),
          List.forall_mem_append.mpr ⟨(h.readers a).confirming,
            List.forall_mem_singleton.mpr (h.confirm (List.mem_of_getElem? hq) _)⟩⟩
      exact hnew.enter hkept hok hw hadm
  | answer j addr res =>
    simp only [ReadWorld.answer] at hstep
    split at hstep
    case h_2 => cases hstep
    next q hq =>
      have hfair' : (q.count addr res).fair C a = true := by
        simpa [ReadWorld.confirmsFairly, hq] using hfair
      split at hstep
      case isFalse => cases hstep
      next hans =>
        have hcount := ((h.readers a).confirming q (List.mem_of_getElem? hq)).count hans.2
        split at hstep
        · cases hstep
          exact hstay (h.finish hcount hfair' j)
        · cases hstep
          refine hstay (h.setReader ⟨(h.readers a).started, fun x hx => ?_⟩)
          rcases List.mem_or_eq_of_mem_set hx with hx | rfl
          · exact (h.readers a).confirming x hx
          · exact hcount
  | expire j =>
    obtain ⟨q, hq, rfl⟩ := Option.map_eq_some_iff.mp hstep
    have hfair' : q.fair C a = true := by simpa [ReadWorld.confirmsFairly, hq] using hfair
    exact hstay (h.finish ((h.readers a).confirming q (List.mem_of_getElem? hq)) hfair' j)

end

theorem readInv_init [Codec] :
    ReadInv C (ReadWorld.init C, fun _ => []) State.init where
  frontier := frontier_init C
  reached := ⟨True, 0, [], .inl le_rfl, (heard_knowledge _ _ _).nil⟩
  readers a := ⟨by simp [ReadWorld.init], by simp [ReadWorld.init]⟩
  answers := by simp [ReadWorld.init]

/-! ### Linearizable reads -/

/-- The cluster with its calls, and what the snapshots cover. -/
abbrev ReadWorld.record [Codec] :
    ReadWorld × Past → Addr × ReadAct → Option (ReadWorld × Past) :=
  withHistory (ReadWorld.step C) (ReadWorld.follow C)

theorem readInv_of_visits [Codec] {C : Cluster} {xs : List (ReadWorld × Past)}
    (hrun : Visits (ReadWorld.record C) (fun x e => readTest C x e && readsOwnTerm x.1 e)
      (ReadWorld.init C, fun _ => []) xs)
    (hu : OneLeaderPerTerm C (xs.map fun x => x.1.nodes)) :
    ∃ x us s, xs = x :: us ∧ ReadInv C x s ∧ Seen C (xs.map fun x => x.1.nodes) s := by
  induction hrun with
  | start => exact ⟨_, _, State.init, rfl, readInv_init C, by simp [Seen, State.init]⟩
  | @next U V us e h hstep hok ih =>
    obtain ⟨_, _, s, heq, hinv, hseen⟩ := ih hu.tail
    cases heq
    obtain ⟨hnodes, hown⟩ := Bool.and_eq_true_iff.mp hok
    obtain ⟨R', hR', rfl⟩ := Option.map_eq_some_iff.mp hstep
    obtain ⟨s', _, hnew, hinv'⟩ := hinv.step hnodes hown hR' (hseen.admissible hu)
    exact ⟨_, U :: us, s', rfl, hinv', hseen.next hnew⟩

theorem ReadWorld.step_nodes [Codec] {C : Cluster} {R R' : ReadWorld} {e : Addr × ReadAct}
    (h : R.step C e = some R') :
    (R'.nodes = R.nodes ∧ R'.reached = R.reached) ∨
      ∃ act, World.step C R.nodes (e.1, act) = some R'.nodes ∧
        R'.reached = max R.reached (R'.nodes e.1).raft.commitIndex := by
  obtain ⟨a, act⟩ := e
  simp only [ReadWorld.step] at h
  split at h
  case isFalse => cases h
  cases act with
  | node act =>
    obtain ⟨w', hw, rfl | rfl⟩ := ReadWorld.nodeAct_cases h <;> exact .inr ⟨act, hw, rfl⟩
  | readIndex =>
    obtain ⟨w', hw, rfl⟩ := Option.map_eq_some_iff.mp h
    exact .inr ⟨.readIndex, hw, rfl⟩
  | readConfig i =>
    simp only [ReadWorld.readConfig] at h
    split at h
    · split at h <;> cases h
      exact .inl ⟨rfl, rfl⟩
    · cases h
  | alone i =>
    simp only [ReadWorld.alone] at h
    split at h
    · split at h
      · obtain ⟨w', hw, rfl⟩ := Option.map_eq_some_iff.mp h
        exact .inr ⟨.confirm i, hw, rfl⟩
      · cases h
    · cases h
  | confirm i =>
    simp only [ReadWorld.confirm] at h
    split at h
    · obtain ⟨w', hw, rfl⟩ := Option.map_eq_some_iff.mp h
      exact .inr ⟨.confirm i, hw, rfl⟩
    · cases h
  | answer j addr res =>
    simp only [ReadWorld.answer] at h
    split at h
    · split at h
      · split at h <;> cases h <;> exact .inl ⟨rfl, rfl⟩
      · cases h
    · cases h
  | expire j =>
    obtain ⟨q, _, rfl⟩ := Option.map_eq_some_iff.mp h
    exact .inl ⟨rfl, rfl⟩

theorem commitIndex_le_reached [Codec] {C : Cluster} {ok : ReadWorld × Past → Addr × ReadAct → Prop}
    {xs : List (ReadWorld × Past)}
    (hrun : Visits (ReadWorld.record C) ok (ReadWorld.init C, fun _ => []) xs) :
    ∃ x us, xs = x :: us ∧ ∀ y ∈ xs, ∀ a, (y.1.nodes a).raft.commitIndex ≤ x.1.reached := by
  induction hrun with
  | start =>
    refine ⟨_, _, rfl, List.forall_mem_singleton.mpr fun a => ?_⟩
    simp only [ReadWorld.init, World.init, World.start, Node.raft_fresh]
    exact le_rfl
  | @next U V us e h hstep hok ih =>
    obtain ⟨_, _, heq, hbound⟩ := ih
    cases heq
    refine ⟨V, U :: us, rfl, ?_⟩
    obtain ⟨R', hR', rfl⟩ := Option.map_eq_some_iff.mp hstep
    rcases ReadWorld.step_nodes hR' with ⟨hnodes, hreached⟩ | ⟨act, hw, hreached⟩
    · dsimp only
      rw [hreached]
      refine List.forall_mem_cons.mpr ⟨fun a => ?_, hbound⟩
      rw [hnodes]
      exact hbound U (List.mem_cons_self ..) a
    · dsimp only
      rw [hreached]
      refine List.forall_mem_cons.mpr ⟨fun a => ?_, fun X hX a =>
        (hbound X hX a).trans (le_max_left _ _)⟩
      rcases eq_or_ne a e.1 with rfl | hne
      · exact le_max_right _ _
      · -- the others are as they were
        obtain ⟨_, _, x', _, hx'⟩ := World.step_cases hw
        have hsame : R'.nodes a = U.1.nodes a := by rw [hx', Function.update_of_ne hne]
        rw [hsame]
        exact (hbound U (List.mem_cons_self ..) a).trans (le_max_left _ _)

/-- **Reads are linearizable.**  `reached` bounds the commit index of every member in
every state so far, and in every run with one leader in a term a call of `ReadIndex`
that returns without an error returns no less than what `reached` was when it started. -/
theorem read_index_linearizable [Codec] {C : Cluster} {x : ReadWorld × Past}
    {us : List (ReadWorld × Past)}
    (hrun : Visits (ReadWorld.record C) (fun x e => readTest C x e && readsOwnTerm x.1 e)
      (ReadWorld.init C, fun _ => []) (x :: us))
    (hu : OneLeaderPerTerm C ((x :: us).map fun x => x.1.nodes)) :
    (∀ y ∈ x :: us, ∀ a, (y.1.nodes a).raft.commitIndex ≤ x.1.reached) ∧
      ∀ p ∈ x.1.answers, p.2.reached ≤ p.2.capturedCommitIndex := by
  obtain ⟨_, _, heq, hbound⟩ := commitIndex_le_reached hrun
  cases heq
  obtain ⟨_, _, s, heq, hinv, _⟩ := readInv_of_visits hrun hu
  cases heq
  exact ⟨hbound, hinv.answers⟩

/-! ### A new leader does not know what was committed -/

section

local instance readIndexCodec : Codec := Codec.twoKeys

/-- Sections of the nodes. -/
def nodeActs (l : List (Addr × Act)) : List (Addr × ReadAct) := l.map fun x => (x.1, .node x.2)

/-- `a` leads term 1 and commits its entry with the help of `b`. -/
def committedByA : List (Addr × ReadAct) :=
  nodeActs (electedRun ++ [("a", .dispatch), ("a", .enterLeader),
    ("a", .propose (goString setA) Faults.none), ("a", .tick), ("a", .build), ("a", .readConfig),
    appendEntries "a" 1 "b" ⟨1, "a", 0, 0, [entryA.toPb], 0⟩, acked "a" 1 "b"])

/-- `ReadIndex` at `a`, with an answer of `b` to its heartbeats. -/
def readAt (a b : Addr) (call : Nat) (args : AppendEntriesArgs) (res : AppendEntriesResult) :
    List (Addr × ReadAct) :=
  [(a, .readIndex), (a, .readConfig 0), (a, .confirm 0)] ++
    nodeActs [appendEntries a call b args] ++ [(a, .answer 0 b (some res))]

/-- `b` has the entry and is elected for term 2 by `c`, before it has heard that the
entry is committed. -/
def newLeaderRun : List (Addr × ReadAct) :=
  committedByA ++
    nodeActs (campaign "b" ++ [("c", .deliver ⟨"b", 0, "c", .vote ⟨2, "b", 1, 1⟩⟩ Faults.none),
      ("b", .voteResult "c" (some (2, true))), ("b", .dispatch), ("b", .enterLeader)]) ++
    readAt "b" "c" 1 ⟨2, "b", 1, 1, [], 0⟩ ⟨2, false, 1, 0⟩

/-- **A read misses a committed entry.**  Index 1 is committed, `b` leads a later term
and is confirmed by a quorum, and `ReadIndex` returns 0. -/
theorem read_misses_commit :
    ∃ x us, Visits (ReadWorld.record trio) (fun x e => readTest trio x e)
        (ReadWorld.init trio, fun _ => []) (x :: us) ∧
      OneLeaderPerTerm trio ((x :: us).map fun x => x.1.nodes) ∧
      x.1.answers = [("b", ⟨2, 0, 1⟩)] ∧ (x.1.nodes "a").raft.commitIndex = 1 :=
  exists_led (fun t => if t = 1 then "a" else "b") newLeaderRun (by decide +kernel)

/-- The first leader is asked before anything is committed.  It commits its entry, applies
it and compacts its log, `c` crashes and comes back, and it is asked again. -/
def sameLeaderRun : List (Addr × ReadAct) :=
  nodeActs (electedRun ++ [("a", .dispatch), ("a", .enterLeader)]) ++
    readAt "a" "c" 1 ⟨1, "a", 0, 0, [], 0⟩ ⟨1, true, 0, 0⟩ ++
    nodeActs ([("a", .propose (goString setA) Faults.none), ("a", .tick), ("a", .build),
      ("a", .readConfig),
      appendEntries "a" 2 "b" ⟨1, "a", 0, 0, [entryA.toPb], 0⟩, acked "a" 1 "b",
      ("a", .collect), ("a", .emit), ("a", .apply false), ("a", .snapTake), ("a", .snapCapture),
      ("a", .snapSave false), ("a", .snapTruncate), ("a", .snapCompact), ("c", .restart)]) ++
    readAt "a" "c" 3 ⟨1, "a", 1, 1, [], 1⟩ ⟨1, false, 1, 0⟩

theorem read_index_linearizable_compacted :
    ∃ x us, Visits (ReadWorld.record snapshotTrio)
        (fun x e => readTest snapshotTrio x e && readsOwnTerm x.1 e)
        (ReadWorld.init snapshotTrio, fun _ => []) (x :: us) ∧
      OneLeaderPerTerm snapshotTrio ((x :: us).map fun x => x.1.nodes) ∧
      (x.1.answers = [("a", ⟨1, 1, 1⟩), ("a", ⟨1, 0, 0⟩)] ∧ x.2 "a" = [entryA]) ∧
      (∀ y ∈ x :: us, ∀ a, (y.1.nodes a).raft.commitIndex ≤ x.1.reached) ∧
      ∀ p ∈ x.1.answers, p.2.reached ≤ p.2.capturedCommitIndex :=
  exists_and_led (fun _ => "a") sameLeaderRun (by decide +kernel) fun _ _ hrun hu _ =>
    read_index_linearizable hrun hu

end

end Raft
