/-
CoreX/Raft/ConfigRequests.lean

`POST /raft/config` on one leader, several requests at a time.  A request computes the
new voters in one critical section and proposes them in a later one; its goroutine then
waits for the joint entry, proposes the stable one, waits again, and steps down if the
node is not listed.  A request that has run into its timeout leaves its goroutine
behind, and `runLeader` starts one of its own when it finds a joint configuration.

`ProposeConfigChange` only checks that no other change is in its joint phase.  A change
that completes after the new voters were computed is overwritten (`stale_request_wins`).

`timely` says that this does not happen, and that no goroutine proposes the stable entry
of a change that is not the current one (`overtaken_goroutine_reverts`).  Then the voters
are always the first ones with the requested changes applied, in the order of the joint
entries (`config_requests_compose`).
-/
import CoreX.Raft.Membership
import CoreX.Raft.StepDown
import Mathlib.Data.Finset.Dedup
import Mathlib.Data.List.Range

namespace Raft

open StepSystem

/-! ### Requests -/

/-- `configChangeRequest`, the body of `POST /raft/config`. -/
structure ConfigRequest where
  action : String
  nodes : List Addr
  deriving DecidableEq, Repr

namespace ConfigRequest

/-- What the handler answers with 400. -/
def bad (req : ConfigRequest) : Bool :=
  (req.action ≠ "add" && req.action ≠ "remove") || req.nodes = []

/-- What is asked for, on sets of voters. -/
def change (req : ConfigRequest) (voters : Finset Addr) : Finset Addr :=
  if req.action = "add" then voters ∪ req.nodes.toFinset else voters \ req.nodes.toFinset

end ConfigRequest

theorem RaftNode.toFinset_computeNewVoters {n : RaftNode} {req : ConfigRequest}
    {newVoters : List Addr} (h : n.computeNewVoters req.action req.nodes = some newVoters) :
    newVoters.toFinset = req.change n.clusterConfig.voters.toFinset := by
  ext v
  rw [List.mem_toFinset, ConfigRequest.change]
  rcases (computeNewVoters_some h).2 with ⟨hadd, hmem⟩ | ⟨hremove, hmem⟩
  · rw [if_pos hadd, hmem, Finset.mem_union, List.mem_toFinset, List.mem_toFinset]
  · rw [if_neg (by rw [hremove]; decide), hmem, Finset.mem_sdiff, List.mem_toFinset,
      List.mem_toFinset]

/-! ### The goroutine of a change -/

/-- What a section of the goroutine ends with. -/
inductive TaskStep
  | next (task : ConfigTask)
  /-- `done <- stableIndex` -/
  | done
  /-- `close(done)` -/
  | closed
  deriving DecidableEq, Repr

/-- The next section of the goroutine. -/
def ConfigTask.next [Codec] (n : RaftNode) (f : Faults) : ConfigTask → Option (RaftNode × TaskStep)
  | .waitJoint newVoters jointIndex =>
      if jointIndex ≤ n.commitIndex then some (n, .next (.proposeStable newVoters)) else none
  | .proposeStable newVoters =>
      let r := n.proposeStableConfig newVoters f
      some (r.1, if r.2.2.2 then .next (.waitStable newVoters r.2.1) else .closed)
  | .waitStable newVoters stableIndex =>
      if stableIndex ≤ n.commitIndex then some (n, .next (.finish newVoters)) else none
  | .finish newVoters => some (n.stepDownIfRemoved newVoters, .done)

/-- It waits for a commit, and may give up. -/
def ConfigTask.waits : ConfigTask → Bool
  | .waitJoint _ _ | .waitStable _ _ => true
  | .proposeStable _ | .finish _ => false

theorem Node.changeNext_eq [Codec] (s : Node) (i : Nat) (f : Faults) :
    s.changeNext i f = (s.changes[i]?).bind fun task => (task.next s.raft f).map fun r =>
      { s with
        raft := r.1
        changes :=
          match r.2 with
          | .next task' => s.changes.set i task'
          | _ => s.changes.eraseIdx i } := by
  unfold changeNext
  rcases htask : s.changes[i]? with - | task
  · rfl
  · cases task with
    | waitJoint newVoters jointIndex =>
      simp only [Option.bind_some, ConfigTask.next]
      split <;> rfl
    | proposeStable newVoters =>
      simp only [Option.bind_some, ConfigTask.next, Option.map_some]
      split <;> rfl
    | waitStable newVoters stableIndex =>
      simp only [Option.bind_some, ConfigTask.next]
      split <;> rfl
    | finish newVoters => rfl

/-! ### The leader and its requests -/

/-- Where a request stands. -/
inductive RequestStage
  | called
  | computed (newVoters : List Addr)
  | running (task : ConfigTask)
  /-- 204. -/
  | succeeded
  /-- Any other answer. -/
  | failed
  deriving DecidableEq, Repr

namespace RequestStage

/-- The joint entry has not been proposed. -/
def before : RequestStage → Bool
  | called | computed _ => true
  | _ => false

/-- The joint entry has been proposed, and the request has not failed. -/
def after : RequestStage → Bool
  | running _ | succeeded => true
  | _ => false

/-- The stable entry has not been proposed by the goroutine of the request. -/
def unsettled : RequestStage → Bool
  | running (.waitJoint _ _) | running (.proposeStable _) | failed => true
  | _ => false

end RequestStage

structure ConfigServer where
  raft : RaftNode
  stage : Nat → RequestStage
  /-- The goroutines that nobody waits for. -/
  orphans : List ConfigTask
  /-- The requests whose joint entry has been proposed, a history that no section reads. -/
  order : List Nat

inductive ConfigAct
  /-- The handler up to `ComputeNewVoters`. -/
  | compute (j : Nat)
  /-- `ProposeConfigChange`. -/
  | propose (j : Nat) (f : Faults)
  | next (j : Nat) (f : Faults)
  /-- The context of the goroutine expires. -/
  | expire (j : Nat)
  /-- The handler stops waiting. -/
  | giveUp (j : Nat)
  | orphanNext (i : Nat) (f : Faults)
  | orphanExpire (i : Nat)
  /-- `runLeader` finds a joint configuration. -/
  | resume
  /-- A section that has nothing to do with the configuration. -/
  | other (g : RaftNode → RaftNode)

namespace ConfigServer

def init (n : RaftNode) : ConfigServer := ⟨n, fun _ => .called, [], []⟩

section

variable (w : ConfigServer)

def setStage (j : Nat) (stage : RequestStage) : ConfigServer :=
  { w with stage := Function.update w.stage j stage }

variable (reqs : List ConfigRequest)

def compute (j : Nat) : Option ConfigServer :=
  match w.stage j, reqs[j]? with
  | .called, some req =>
      -- 400, before the node is asked
      if req.bad then some (w.setStage j .failed)
      else
        -- 409 if a change is in its joint phase
        match w.raft.computeNewVoters req.action req.nodes with
        | none => some (w.setStage j .failed)
        | some newVoters => some (w.setStage j (.computed newVoters))
  | _, _ => none

variable [Codec]

def propose (j : Nat) (f : Faults) : Option ConfigServer :=
  match w.stage j, reqs[j]? with
  | .computed newVoters, some _ =>
      let r := w.raft.proposeConfigChange newVoters f
      if r.2.2.2 then
        some { w.setStage j (.running (.waitJoint newVoters r.2.1)) with
          raft := r.1, order := w.order ++ [j] }
      -- 409 in a joint phase, 307 or 503 if the node does not lead or cannot append
      else some { w.setStage j .failed with raft := r.1 }
  | _, _ => none

/-- Where a request is after a section of its goroutine. -/
def stageOf : TaskStep → RequestStage
  | .next task => .running task
  | .done => .succeeded
  | .closed => .failed

def next (j : Nat) (f : Faults) : Option ConfigServer :=
  match w.stage j with
  | .running task =>
      (task.next w.raft f).map fun r => { w.setStage j (stageOf r.2) with raft := r.1 }
  | _ => none

def orphanNext (i : Nat) (f : Faults) : Option ConfigServer :=
  (w.orphans[i]?).bind fun task => (task.next w.raft f).map fun r =>
    { w with
      raft := r.1
      orphans :=
        match r.2 with
        | .next task' => w.orphans.set i task'
        | _ => w.orphans.eraseIdx i }

/-- **One section.** -/
def step : ConfigAct → Option ConfigServer
  | .compute j => w.compute reqs j
  | .propose j f => w.propose reqs j f
  | .next j f => w.next j f
  | .expire j =>
      -- `doneCh` is closed, which the handler answers with 500
      match w.stage j with
      | .running task => if task.waits then some (w.setStage j .failed) else none
      | _ => none
  | .giveUp j =>
      -- 504; a goroutine that is past its wait does not look at the context any more
      match w.stage j with
      | .running task => some { w.setStage j .failed with orphans := w.orphans ++ [task] }
      | _ => none
  | .orphanNext i f => w.orphanNext i f
  | .orphanExpire i =>
      match w.orphans[i]? with
      | some task => if task.waits then some { w with orphans := w.orphans.eraseIdx i } else none
      | none => none
  | .resume =>
      let cfg := w.raft.clusterConfig
      if w.raft.role = .leader ∧ cfg.isJoint = true ∧ cfg.newVoters ≠ [] then
        some { w with orphans := w.orphans ++ [.proposeStable cfg.newVoters] }
      else none
  | .other g =>
      if (g w.raft).clusterConfig = w.raft.clusterConfig then some { w with raft := g w.raft }
      else none

end

/-! ### When nothing is overwritten -/

/-- The stable entry that the goroutine proposes, if it does so now, is that of the
change which is in its joint phase. -/
def ownChange (n : RaftNode) : ConfigTask → Bool
  | .proposeStable newVoters =>
      n.role ≠ .leader || (n.clusterConfig.isJoint && n.clusterConfig.newVoters = newVoters)
  | _ => true

/-- No section overwrites a change: `ComputeNewVoters`, called once more by the section
that proposes, would give the same voters, and stable entries are proposed for the
current change only. -/
def timely (reqs : List ConfigRequest) (w : ConfigServer) : ConfigAct → Bool
  | .propose j _ =>
      match w.stage j, reqs[j]? with
      | .computed newVoters, some req =>
          w.raft.clusterConfig.isJoint ||
            (w.raft.computeNewVoters req.action req.nodes).map List.toFinset =
              some newVoters.toFinset
      | _, _ => true
  | .next j _ =>
      match w.stage j with
      | .running task => ownChange w.raft task
      | _ => true
  | .orphanNext i _ =>
      match w.orphans[i]? with
      | some task => ownChange w.raft task
      | none => true
  | _ => true

/-- The requested changes, in the order of the joint entries. -/
def applied (reqs : List ConfigRequest) (order : List Nat) (voters : Finset Addr) : Finset Addr :=
  (order.filterMap fun j => reqs[j]?).foldl (fun voters req => req.change voters) voters

end ConfigServer

/-! ### What the entries do to the configuration -/

namespace RaftNode

variable [JsonCodec]

theorem configOf_marshalConfig (i term : Int) (p : ConfigChangePayload) :
    configOf ⟨i, term, entryTypeConfig, Codec.marshalConfig p⟩ =
      if p.phase = "joint" then some ⟨.joint, p.voters, p.newVoters⟩
      else if p.phase = "stable" then some ⟨.stable, p.voters, []⟩
      else none := by
  rw [configOf, if_pos rfl, unmarshalConfig_marshalConfig]

theorem proposeEntry_config (n : RaftNode) (p : ConfigChangePayload) (f : Faults) :
    ((n.proposeEntry entryTypeConfig (Codec.marshalConfig p) f).2.2.2 = false ∧
        (n.proposeEntry entryTypeConfig (Codec.marshalConfig p) f).1 = n) ∨
      ((n.proposeEntry entryTypeConfig (Codec.marshalConfig p) f).2.2.2 = true ∧
        n.role = .leader ∧
        (n.proposeEntry entryTypeConfig (Codec.marshalConfig p) f).1.clusterConfig =
          (if p.phase = "joint" then some ⟨.joint, p.voters, p.newVoters⟩
            else if p.phase = "stable" then some ⟨.stable, p.voters, []⟩
            else none).getD n.clusterConfig) := by
  rcases n.proposeEntry_outcome entryTypeConfig (Codec.marshalConfig p) f with heq | ⟨hlead, heq⟩
  · rw [heq]
    exact .inl ⟨rfl, rfl⟩
  · rw [heq, appendEntry_clusterConfig, entryOf, configOf_marshalConfig]
    exact .inr ⟨rfl, hlead, rfl⟩

theorem proposeConfigChange_config (n : RaftNode) (newVoters : List Addr) (f : Faults) :
    ((n.proposeConfigChange newVoters f).2.2.2 = false ∧
        (n.proposeConfigChange newVoters f).1 = n) ∨
      ((n.proposeConfigChange newVoters f).2.2.2 = true ∧ n.clusterConfig.isJoint = false ∧
        (n.proposeConfigChange newVoters f).1.clusterConfig =
          ⟨.joint, n.clusterConfig.voters, newVoters⟩) := by
  unfold proposeConfigChange
  split
  · exact .inl ⟨rfl, rfl⟩
  · next hok =>
    have hstable : n.clusterConfig.isJoint = false := by simp at hok; exact hok.2
    rcases proposeEntry_config n ⟨"joint", n.clusterConfig.voters, newVoters⟩ f with
      hno | ⟨hyes, _, hcfg⟩
    · exact .inl hno
    · refine .inr ⟨hyes, hstable, hcfg.trans ?_⟩
      rfl

theorem proposeStableConfig_config (n : RaftNode) (newVoters : List Addr) (f : Faults) :
    ((n.proposeStableConfig newVoters f).2.2.2 = false ∧
        (n.proposeStableConfig newVoters f).1 = n) ∨
      ((n.proposeStableConfig newVoters f).2.2.2 = true ∧ n.role = .leader ∧
        (n.proposeStableConfig newVoters f).1.clusterConfig = ⟨.stable, newVoters, []⟩) := by
  rcases proposeEntry_config n ⟨"stable", newVoters, []⟩ f with hno | ⟨hyes, hlead, hcfg⟩
  · exact .inl hno
  · refine .inr ⟨hyes, hlead, hcfg.trans ?_⟩
    rfl

end RaftNode

theorem ConfigTask.next_cases [JsonCodec] {n n' : RaftNode} {f : Faults} {task : ConfigTask}
    {r : TaskStep} (h : task.next n f = some (n', r)) :
    (n'.clusterConfig = n.clusterConfig ∧ ((RequestStage.running task).unsettled = true →
        (ConfigServer.stageOf r).unsettled = true)) ∨
      ∃ newVoters, task = .proposeStable newVoters ∧ n.role = .leader ∧
        n'.clusterConfig = ⟨.stable, newVoters, []⟩ := by
  cases task with
  | waitJoint newVoters i =>
    rw [ConfigTask.next] at h
    split at h
    · cases h
      exact .inl ⟨rfl, fun _ => rfl⟩
    · cases h
  | proposeStable newVoters =>
    obtain ⟨rfl, rfl⟩ := Prod.mk.inj (Option.some.inj h)
    rcases RaftNode.proposeStableConfig_config n newVoters f with
      ⟨hno, hsame⟩ | ⟨_, hlead, hcfg⟩
    · rw [hsame, hno]
      exact .inl ⟨rfl, fun _ => rfl⟩
    · exact .inr ⟨newVoters, rfl, hlead, hcfg⟩
  | waitStable newVoters i =>
    rw [ConfigTask.next] at h
    split at h
    · cases h
      exact .inl ⟨rfl, nofun⟩
    · cases h
  | finish newVoters =>
    cases h
    refine .inl ⟨?_, nofun⟩
    unfold RaftNode.stepDownIfRemoved
    split <;> rfl

/-! ### What a section can do -/

namespace ConfigServer

variable {reqs : List ConfigRequest} {voters : Finset Addr} {w w' : ConfigServer} {j : Nat}
  {st : RequestStage}

/-- Requests have moved on, without a new joint entry. -/
structure Moves (w w' : ConfigServer) : Prop where
  order : w'.order = w.order
  before : ∀ k, (w'.stage k).before = true → (w.stage k).before = true
  after : ∀ k, (w'.stage k).after = true → (w.stage k).after = true

/-- The effect of a section on the requests and on the configuration. -/
inductive Effect (reqs : List ConfigRequest) (w w' : ConfigServer) : Prop
  | keep (moves : Moves w w') (config : w'.raft.clusterConfig = w.raft.clusterConfig)
      (unsettled : ∀ k, (w.stage k).unsettled = true → (w'.stage k).unsettled = true)
  /-- The stable entry of the current change. -/
  | settle (moves : Moves w w') (joint : w.raft.clusterConfig.isJoint = true)
      (config : w'.raft.clusterConfig = ⟨.stable, w.raft.clusterConfig.newVoters, []⟩)
  /-- The joint entry of a request that has computed its voters from the current ones. -/
  | start (j : Nat) (req : ConfigRequest) (newVoters : List Addr) (i : Int)
      (hreq : reqs[j]? = some req) (before : (w.stage j).before = true)
      (stable : w.raft.clusterConfig.isJoint = false)
      (hnew : newVoters.toFinset = req.change w.raft.clusterConfig.voters.toFinset)
      (config : w'.raft.clusterConfig = ⟨.joint, w.raft.clusterConfig.voters, newVoters⟩)
      (order : w'.order = w.order ++ [j])
      (stage : w'.stage = Function.update w.stage j (.running (.waitJoint newVoters i)))

theorem forall_setStage {P : Nat → RequestStage → Prop} (hj : P j st)
    (h : ∀ k, k ≠ j → P k (w.stage k)) (k : Nat) : P k ((w.setStage j st).stage k) := by
  show P k (Function.update w.stage j st k)
  by_cases hkj : k = j
  · rw [hkj, Function.update_self]
    exact hj
  · rw [Function.update_of_ne hkj]
    exact h k hkj

theorem Moves.setStage (hbefore : st.before = true → (w.stage j).before = true)
    (hafter : st.after = true → (w.stage j).after = true) : Moves w (w.setStage j st) where
  order := rfl
  before := forall_setStage (P := fun k s => s.before = true → (w.stage k).before = true) hbefore
    fun _ _ => id
  after := forall_setStage (P := fun k s => s.after = true → (w.stage k).after = true) hafter
    fun _ _ => id

variable {orphans : List ConfigTask}

theorem Effect.setStage {n : RaftNode} (hbefore : st.before = true → (w.stage j).before = true)
    (hafter : st.after = true → (w.stage j).after = true)
    (hsettled : (w.stage j).unsettled = true → st.unsettled = true)
    (hcfg : n.clusterConfig = w.raft.clusterConfig) :
    Effect reqs w { w.setStage j st with raft := n, orphans := orphans } := by
  have hmoves : Moves w (w.setStage j st) := .setStage hbefore hafter
  refine .keep ⟨rfl, hmoves.before, hmoves.after⟩ hcfg ?_
  exact forall_setStage (P := fun k s => (w.stage k).unsettled = true → s.unsettled = true) hsettled
    fun _ _ => id

theorem Effect.idle {n : RaftNode} (hcfg : n.clusterConfig = w.raft.clusterConfig) :
    Effect reqs w { w with raft := n, orphans := orphans } :=
  .keep ⟨rfl, fun _ => id, fun _ => id⟩ hcfg fun _ => id

theorem Effect.fail {n : RaftNode} (hcfg : n.clusterConfig = w.raft.clusterConfig) :
    Effect reqs w { w.setStage j .failed with raft := n, orphans := orphans } :=
  .setStage nofun nofun (fun _ => rfl) hcfg

theorem effect_compute (h : w.compute reqs j = some w') : Effect reqs w w' := by
  unfold compute at h
  split at h
  · next hcalled hreq =>
    split at h
    · obtain rfl := Option.some.inj h
      exact .fail rfl
    · split at h
      · obtain rfl := Option.some.inj h
        exact .fail rfl
      · obtain rfl := Option.some.inj h
        refine .setStage (fun _ => ?_) nofun (fun hu => ?_) rfl
        · rw [hcalled]
          rfl
        · rw [hcalled] at hu
          cases hu
  · cases h

section

variable [JsonCodec] {f : Faults}

theorem effect_propose (h : w.propose reqs j f = some w')
    (hok : timely reqs w (.propose j f) = true) : Effect reqs w w' := by
  unfold propose at h
  split at h
  · next newVoters req hcomputed hreq =>
    rcases RaftNode.proposeConfigChange_config w.raft newVoters f with
      ⟨hno, hsame⟩ | ⟨hyes, hstable, hcfg⟩
    · rw [if_neg (by rw [hno]; decide), hsame] at h
      obtain rfl := Option.some.inj h
      exact .fail rfl
    · rw [if_pos hyes] at h
      obtain rfl := Option.some.inj h
      -- the voters may have been computed long ago, but they would be the same now
      have hnew : newVoters.toFinset = req.change w.raft.clusterConfig.voters.toFinset := by
        simp only [timely, hcomputed, hreq, hstable, Bool.false_or, decide_eq_true_eq] at hok
        obtain ⟨current, hcurrent, hsame⟩ := Option.map_eq_some_iff.mp hok
        rw [← hsame, RaftNode.toFinset_computeNewVoters hcurrent]
      exact .start j req newVoters _ hreq (by rw [hcomputed]; rfl) hstable hnew hcfg rfl rfl
  · cases h

theorem effect_task {task : ConfigTask} {n : RaftNode} {r : TaskStep}
    (hnext : task.next w.raft f = some (n, r)) (hown : ownChange w.raft task = true)
    (hraft : w'.raft = n) (hmoves : Moves w w')
    (hkeep : ((RequestStage.running task).unsettled = true → (stageOf r).unsettled = true) →
      ∀ k, (w.stage k).unsettled = true → (w'.stage k).unsettled = true) : Effect reqs w w' := by
  rcases ConfigTask.next_cases hnext with ⟨hcfg, hsettled⟩ | ⟨newVoters, rfl, hlead, hcfg⟩
  · exact .keep hmoves (hraft ▸ hcfg) (hkeep hsettled)
  · -- the stable entry, and by `hown` that of the current change
    rw [ownChange, hlead] at hown
    simp only [ne_eq, not_true_eq_false, decide_false, Bool.false_or, Bool.and_eq_true,
      decide_eq_true_eq] at hown
    exact .settle hmoves hown.1 (by rw [hraft, hcfg, hown.2])

theorem effect_next (h : w.next j f = some w') (hok : timely reqs w (.next j f) = true) :
    Effect reqs w w' := by
  unfold next at h
  split at h
  · next task hrunning =>
    obtain ⟨⟨n, r⟩, hnext, rfl⟩ := Option.map_eq_some_iff.mp h
    rw [timely, hrunning] at hok
    have hbefore : (stageOf r).before = true → (w.stage j).before = true := by
      cases r <;> nofun
    have hmoves : Moves w (w.setStage j (stageOf r)) :=
      .setStage hbefore fun _ => by rw [hrunning]; rfl
    refine effect_task hnext hok rfl ⟨rfl, hmoves.before, hmoves.after⟩ fun hsettled => ?_
    rw [← hrunning] at hsettled
    exact forall_setStage (P := fun k s => (w.stage k).unsettled = true → s.unsettled = true)
      hsettled fun _ _ => id
  · cases h

theorem effect_orphanNext {i : Nat} (h : w.orphanNext i f = some w')
    (hok : timely reqs w (.orphanNext i f) = true) : Effect reqs w w' := by
  obtain ⟨task, htask, h⟩ := Option.bind_eq_some_iff.mp h
  obtain ⟨⟨n, r⟩, hnext, rfl⟩ := Option.map_eq_some_iff.mp h
  rw [timely, htask] at hok
  exact effect_task hnext hok rfl ⟨rfl, fun _ => id, fun _ => id⟩ fun _ _ => id

theorem effect_step {act : ConfigAct} (h : w.step reqs act = some w')
    (hok : timely reqs w act = true) : Effect reqs w w' := by
  cases act with
  | compute j => exact effect_compute h
  | propose j f => exact effect_propose h hok
  | next j f => exact effect_next h hok
  | orphanNext i f => exact effect_orphanNext h hok
  | expire j =>
    simp only [step] at h
    split at h
    · split at h
      · obtain rfl := Option.some.inj h
        exact .fail rfl
      · cases h
    · cases h
  | giveUp j =>
    simp only [step] at h
    split at h
    · obtain rfl := Option.some.inj h
      exact .fail rfl
    · cases h
  | orphanExpire i =>
    simp only [step] at h
    split at h
    · split at h
      · obtain rfl := Option.some.inj h
        exact .idle rfl
      · cases h
    · cases h
  | resume =>
    simp only [step] at h
    split at h
    · obtain rfl := Option.some.inj h
      exact .idle rfl
    · cases h
  | other g =>
    simp only [step] at h
    split at h
    · next hcfg =>
      obtain rfl := Option.some.inj h
      exact .idle hcfg
    · cases h

end

/-! ### The order of the changes -/

/-- `order` lists what has been proposed, each request once. -/
structure Ordered (reqs : List ConfigRequest) (w : ConfigServer) : Prop where
  nodup : w.order.Nodup
  bound : ∀ j ∈ w.order, j < reqs.length
  before : ∀ j, (w.stage j).before = true → j ∉ w.order
  after : ∀ j, (w.stage j).after = true → j ∈ w.order

/-- The configuration has the changes in `order`; in the joint phase of the last one,
its new voters have them. -/
structure Composed (reqs : List ConfigRequest) (voters : Finset Addr) (w : ConfigServer) :
    Prop where
  stable : w.raft.clusterConfig.isJoint = false →
    w.raft.clusterConfig.voters.toFinset = applied reqs w.order voters
  joint : w.raft.clusterConfig.isJoint = true →
    w.raft.clusterConfig.newVoters.toFinset = applied reqs w.order voters ∧
      ∃ j, w.order.getLast? = some j ∧ (w.stage j).unsettled = true

theorem Ordered.moves (h : Ordered reqs w) (hm : Moves w w') : Ordered reqs w' where
  nodup := hm.order ▸ h.nodup
  bound := hm.order ▸ h.bound
  before k hk := hm.order ▸ h.before k (hm.before k hk)
  after k hk := hm.order ▸ h.after k (hm.after k hk)

theorem Ordered.concat (h : Ordered reqs w) (hj : j < reqs.length)
    (hbefore : (w.stage j).before = true) (hw : w'.order = w.order ++ [j])
    (hstage : w'.stage = Function.update w.stage j st) (hst : st.before = false) :
    Ordered reqs w' := by
  have hnew : j ∉ w.order := h.before j hbefore
  refine ⟨?_, ?_, fun k hk => ?_, fun k hk => ?_⟩
  · rw [hw, ← List.concat_eq_append]
    exact h.nodup.concat hnew
  · rw [hw]
    intro k hk
    rcases List.mem_append.mp hk with hk | hk
    · exact h.bound k hk
    · rwa [List.mem_singleton.mp hk]
  · -- a request that has not been proposed is another one
    have hkj : k ≠ j := by
      rintro rfl
      rw [hstage, Function.update_self, hst] at hk
      cases hk
    rw [hstage, Function.update_of_ne hkj] at hk
    rw [hw, List.mem_append, List.mem_singleton, not_or]
    exact ⟨h.before k hk, hkj⟩
  · rw [hw, List.mem_append, List.mem_singleton]
    by_cases hkj : k = j
    · exact .inr hkj
    · rw [hstage, Function.update_of_ne hkj] at hk
      exact .inl (h.after k hk)

theorem Ordered.effect (h : Ordered reqs w) (he : Effect reqs w w') : Ordered reqs w' := by
  cases he with
  | keep moves => exact h.moves moves
  | settle moves => exact h.moves moves
  | start j req newVoters i hreq before stable hnew config order stage =>
    exact h.concat (List.getElem?_eq_some_iff.mp hreq).1 before order stage rfl

theorem applied_concat {req : ConfigRequest} {order : List Nat} (hreq : reqs[j]? = some req) :
    applied reqs (order ++ [j]) voters = req.change (applied reqs order voters) := by
  have hlast : [j].filterMap (fun j => reqs[j]?) = [req] := by
    rw [List.filterMap_cons, hreq, List.filterMap_nil]
  rw [applied, List.filterMap_append, hlast, List.foldl_append]
  rfl

theorem Composed.effect (h : Composed reqs voters w) (he : Effect reqs w w') :
    Composed reqs voters w' := by
  cases he with
  | keep moves config unsettled =>
    refine ⟨fun hs => ?_, fun hj => ?_⟩
    · rw [config] at hs ⊢
      rw [moves.order]
      exact h.stable hs
    · rw [config] at hj ⊢
      rw [moves.order]
      obtain ⟨hnew, k, hlast, hk⟩ := h.joint hj
      exact ⟨hnew, k, hlast, unsettled k hk⟩
  | settle moves joint config =>
    refine ⟨fun _ => ?_, fun hj => ?_⟩
    · rw [config, moves.order]
      exact (h.joint joint).1
    · rw [config] at hj
      cases hj
  | start j req newVoters i hreq before stable hnew config order stage =>
    refine ⟨fun hs => ?_, fun _ => ⟨?_, j, ?_, ?_⟩⟩
    · rw [config] at hs
      cases hs
    · -- the old voters have every change before this one
      rw [config, order, applied_concat hreq, ← h.stable stable]
      exact hnew
    · rw [order, List.getLast?_concat]
    · rw [stage, Function.update_self]
      rfl

theorem Composed.all_succeeded (h : Composed reqs voters w) (ho : Ordered reqs w)
    (hall : ∀ j < reqs.length, w.stage j = .succeeded) :
    w.raft.clusterConfig.isJoint = false ∧ w.order.Perm (List.range reqs.length) := by
  constructor
  · -- in a joint phase the last request would not have succeeded
    by_contra hjoint
    obtain ⟨-, j, hlast, hj⟩ := h.joint (by simpa using hjoint)
    rw [hall j (ho.bound j (List.mem_of_getLast? hlast))] at hj
    cases hj
  · rw [List.perm_ext_iff_of_nodup ho.nodup List.nodup_range]
    intro j
    rw [List.mem_range]
    exact ⟨ho.bound j, fun hj => ho.after j (by rw [hall j hj]; rfl)⟩

/-- **Requests compose.**  In a run whose sections are all timely, the voters of a stable
configuration are the first ones with the changes applied in the order of their joint
entries; and once every request has succeeded, the configuration is stable and no change
is missing. -/
theorem config_requests_compose [JsonCodec] (reqs : List ConfigRequest) (n : RaftNode)
    (hstable : n.clusterConfig.isJoint = false) {w : ConfigServer}
    (h : Runs (fun w a => step w reqs a) (fun w a => timely reqs w a = true) (init n) w) :
    (w.raft.clusterConfig.isJoint = false →
      w.raft.clusterConfig.voters.toFinset =
        applied reqs w.order n.clusterConfig.voters.toFinset) ∧
    ((∀ j < reqs.length, w.stage j = .succeeded) →
      w.raft.clusterConfig.isJoint = false ∧ w.order.Perm (List.range reqs.length)) := by
  have hinit : Ordered reqs (init n) ∧ Composed reqs n.clusterConfig.voters.toFinset (init n) := by
    refine ⟨⟨List.nodup_nil, nofun, fun _ _ => List.not_mem_nil, nofun⟩, fun _ => rfl, fun hj => ?_⟩
    rw [show (init n).raft.clusterConfig.isJoint = false from hstable] at hj
    cases hj
  obtain ⟨ho, hc⟩ := h.invariant
    (P := fun w => Ordered reqs w ∧ Composed reqs n.clusterConfig.voters.toFinset w)
    (fun _ _ _ hinv hstep hok =>
      ⟨hinv.1.effect (effect_step hstep hok), hinv.2.effect (effect_step hstep hok)⟩) hinit
  exact ⟨hc.stable, hc.all_succeeded ho⟩

end ConfigServer

/-! ### Two requests -/

section

local instance requestsCodec : JsonCodec := JsonCodec.plain

/-- `c` and `d` are added. -/
def twoRequests : List ConfigRequest := [⟨"add", ["c"]⟩, ⟨"add", ["d"]⟩]

/-- The leader `a` of term 1, with the voters `["b"]`. -/
def leaderOfB : RaftNode :=
  { RaftNode.newRaftNode "a" (some ["b"]) none none with
    role := .leader, currentTerm := 1 }.initLeader

/-- A peer acknowledges the whole log. -/
def ackBy (addr : Addr) : ConfigAct :=
  .other fun n => n.handleAck 1 n.lastEntry.1 n.clusterConfig addr n.lastEntry.1

/-- Request `j` proposes, and its goroutine goes on to the stable entry. -/
def changed (j : Nat) : List ConfigAct :=
  [.propose j Faults.none, ackBy "b", ackBy "c", .next j Faults.none, .next j Faults.none,
    ackBy "b", ackBy "c"]

/-- The goroutine of request `j` finds the stable entry committed and ends. -/
def ended (j : Nat) : List ConfigAct := [.next j Faults.none, .next j Faults.none]

/-- One request after the other: both are in the voters. -/
theorem config_requests_compose_two :
    ∃ w, Runs (fun w a => ConfigServer.step w twoRequests a)
        (fun w a => ConfigServer.timely twoRequests w a = true) (.init leaderOfB) w ∧
      (w.order = [0, 1] ∧ w.stage 0 = .succeeded ∧ w.stage 1 = .succeeded) ∧
      w.raft.clusterConfig.voters.toFinset = {"b", "c", "d"} := by
  refine Runs.exists_and_of_exec
    ([.compute 0] ++ changed 0 ++ [.compute 1] ++ changed 1 ++ ended 0 ++ ended 1)
    (by decide +kernel) ?_
  rintro w hrun ⟨horder, hboth⟩
  have hall : ∀ j < twoRequests.length, w.stage j = .succeeded := by
    intro j hj
    match j, hj with
    | 0, _ => exact hboth.1
    | 1, _ => exact hboth.2
  obtain ⟨hvoters, hstable⟩ :=
    ConfigServer.config_requests_compose twoRequests leaderOfB (by decide +kernel) hrun
  rw [hvoters (hstable hall).1, horder]
  decide +kernel

/-- Both compute first: the second request proposes voters without `c`, and both are
told that they have succeeded. -/
theorem stale_request_wins :
    ∃ w, Runs (fun w a => ConfigServer.step w twoRequests a) (fun _ _ => True) (.init leaderOfB) w ∧
      (w.stage 0 = .succeeded ∧ w.stage 1 = .succeeded) ∧ w.order = [0, 1] ∧
      w.raft.clusterConfig = ⟨.stable, ["b", "d"], []⟩ ∧
      ConfigServer.applied twoRequests w.order leaderOfB.clusterConfig.voters.toFinset =
        {"b", "c", "d"} :=
  Runs.exists_of_exec ([.compute 0, .compute 1] ++ changed 0 ++ changed 1 ++ ended 0 ++ ended 1)
    (by decide +kernel)

theorem overtaken_goroutine_reverts :
    ∃ w, Runs (fun w a => ConfigServer.step w twoRequests a) (fun _ _ => True) (.init leaderOfB) w ∧
      (w.stage 0 = .succeeded ∧ w.stage 1 = .succeeded) ∧
      w.raft.clusterConfig = ⟨.stable, ["b", "c"], []⟩ := by
  obtain ⟨w, hw, hall⟩ := exists_of_any
    (o := exec (fun w a => ConfigServer.step w twoRequests a) (fun _ _ => True) (.init leaderOfB)
      ([.compute 0, .propose 0 Faults.none, ackBy "b", ackBy "c", .next 0 Faults.none, .resume,
          .orphanNext 0 Faults.none, .compute 1] ++ changed 1 ++
        [.next 0 Faults.none, ackBy "b", ackBy "c"] ++ ended 0 ++ ended 1))
    (P := fun w => (w.stage 0 = .succeeded ∧ w.stage 1 = .succeeded) ∧
      w.raft.clusterConfig = ⟨.stable, ["b", "c"], []⟩) (by decide +kernel)
  exact ⟨w, .of_exec hw, hall⟩

end

end Raft
