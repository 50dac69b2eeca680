/-
CoreX/Raft/StepDown.lean

A leader steps down at the end of a membership change if the new voters do not contain
it.  `containsSelf` looks for the id of the node in a list of addresses, and by the
convention of `ClusterConfig` the node itself is in no such list.  So a leader that adds
or removes somebody else keeps its role just if its configuration listed it before,
against the convention (`step_down_iff`).
-/
import CoreX.Lib.Run
import CoreX.Raft.Ballot
import CoreX.Raft.CommandJson

namespace Raft

open StepSystem

/-! ### The new voters -/

namespace RaftNode

/-- `ComputeNewVoters`; `none` is `ErrConfigChangeInProgress`, also for an unknown
action. -/
def computeNewVoters (n : RaftNode) (action : String) (nodes : List Addr) : Option (List Addr) :=
  if n.clusterConfig.isJoint then none
  else
    let current := n.clusterConfig.voters
    if action = "add" then
      -- the current voters and then the nodes, each of them once
      some ((current ++ nodes).foldl
        (fun result addr => if addr ∈ result then result else result ++ [addr]) [])
    else if action = "remove" then some (current.filter fun addr => addr ∉ nodes)
    else none

variable {n : RaftNode} {action : String} {nodes newVoters : List Addr} {v : Addr}

theorem computeNewVoters_some (h : n.computeNewVoters action nodes = some newVoters) :
    n.clusterConfig.isJoint = false ∧
      (action = "add" ∧ (∀ v, v ∈ newVoters ↔ v ∈ n.clusterConfig.voters ∨ v ∈ nodes) ∨
        action = "remove" ∧ ∀ v, v ∈ newVoters ↔ v ∈ n.clusterConfig.voters ∧ v ∉ nodes) := by
  unfold computeNewVoters at h
  split at h
  · cases h
  · next hstable =>
    refine ⟨Bool.not_eq_true _ ▸ hstable, ?_⟩
    split at h
    · next hadd =>
      refine .inl ⟨hadd, fun v => ?_⟩
      rw [← Option.some.inj h, mem_ensureConnected, List.mem_append]
      exact or_iff_right List.not_mem_nil
    · split at h
      · next hremove =>
        refine .inr ⟨hremove, fun v => ?_⟩
        rw [← Option.some.inj h, List.mem_filter, decide_eq_true_eq]
      · cases h

theorem mem_computeNewVoters (h : n.computeNewVoters action nodes = some newVoters)
    (hv : v ∉ nodes) : v ∈ newVoters ↔ v ∈ n.clusterConfig.voters := by
  rcases (computeNewVoters_some h).2 with ⟨_, hadd⟩ | ⟨_, hremove⟩
  · rw [hadd, or_iff_left hv]
  · rw [hremove, and_iff_left hv]

end RaftNode

/-! ### The end of a change -/

namespace Node

variable [Codec] {s s' x x' x'' : Node} {act : Act} {i : Nat} {newVoters : List Addr} {f : Faults}

theorem id_of_runs (h : Runs Node.step (fun _ _ => True) x x') : x'.raft.id = x.raft.id :=
  h.invariant (P := fun y => y.raft.id = x.raft.id)
    (fun _ _ _ hid hstep _ => (step_section hstep).ballotChange.id.trans hid) rfl

theorem role_finish (htask : x.changes[i]? = some (.finish newVoters))
    (hlead : x.raft.role = .leader) (hstep : x.step (.changeNext i f) = some x') :
    x'.raft.role = .leader ↔ x.raft.id ∈ newVoters := by
  have hnext : x.changeNext i f = some { x with
      raft := x.raft.stepDownIfRemoved newVoters, changes := x.changes.eraseIdx i } := by
    rw [changeNext, htask]
  obtain rfl : _ = x' := Option.some.inj (hnext.symm.trans hstep)
  unfold RaftNode.stepDownIfRemoved
  split
  · next hin => exact iff_of_true hlead hin
  · next hout => exact iff_of_false nofun hout

/-- **Who steps down after a change.**  A leader computes the new voters for a request
that does not name it.  Whatever happens until a change to them has committed its stable
entry, if the node leads then, it still does so afterwards just if its configuration
listed its own id at the time of the request. -/
theorem step_down_iff {action : String} {nodes : List Addr}
    (hcompute : x.raft.computeNewVoters action nodes = some newVoters)
    (hother : x.raft.id ∉ nodes) (hrun : Runs Node.step (fun _ _ => True) x x')
    (htask : x'.changes[i]? = some (.finish newVoters)) (hlead : x'.raft.role = .leader)
    (hstep : x'.step (.changeNext i f) = some x'') :
    x''.raft.role = .leader ↔ x.raft.id ∈ x.raft.clusterConfig.voters := by
  rw [role_finish htask hlead hstep, id_of_runs hrun, RaftNode.mem_computeNewVoters hcompute hother]

end Node

/-! ### Leaders that change their voters -/

section

local instance stepDownCodec : JsonCodec := JsonCodec.plain

/-- `a` is elected by the given voters. -/
def electedBy (voters : List Addr) : List Act :=
  [.dispatch, .timeout, .dispatch, .startElection Faults.none, .openCampaign] ++
    voters.map (fun v => .voteResult v (some (1, true))) ++ [.dispatch, .enterLeader]

/-- One round of heartbeats, answered by the given voters; a call to `a` itself fails. -/
def ackedBy (voters : List Addr) : List Act :=
  [.tick, .build, .readConfig] ++
    voters.map fun v => .ackResult v (if v = "a" then none else some ⟨1, true, 0, 0⟩)

/-- A change to the voters `newVoters`, up to the commit of the stable entry. -/
def changedRun (voters newVoters : List Addr) : List Act :=
  [.proposeConfigChange newVoters Faults.none] ++ ackedBy voters ++
    [.changeNext 0 Faults.none, .changeNext 0 Faults.none] ++ ackedBy voters ++
    [.changeNext 0 Faults.none]

/-- A leader that has its own id among the voters removes `c` and keeps its role. -/
theorem step_down_iff_listed :
    ∃ x x' x'' : Node, Runs Node.step (fun _ _ => True)
        (.fresh "a" "a" (some ["a", "b", "c"]) true true true none) x ∧
      Runs Node.step (fun _ _ => True) x x' ∧ x'.changes = [.finish ["a", "b"]] ∧
      x'.step (.changeNext 0 Faults.none) = some x'' ∧ x''.raft.role = .leader := by
  have h : ∃ x x' : Node, Runs Node.step (fun _ _ => True)
        (.fresh "a" "a" (some ["a", "b", "c"]) true true true none) x ∧
      Runs Node.step (fun _ _ => True) x x' ∧
      x.raft.computeNewVoters "remove" ["c"] = some ["a", "b"] ∧ x.raft.id ∉ ["c"] ∧
      x'.raft.role = .leader ∧ x'.changes = [.finish ["a", "b"]] ∧
      (x'.step (.changeNext 0 Faults.none)).isSome = true ∧
      x.raft.id ∈ x.raft.clusterConfig.voters :=
    Runs.exists_of_execs (electedBy ["b", "c"]) (changedRun ["a", "b", "c"] ["a", "b"])
      (by decide +kernel)
  obtain ⟨x, x', hx, hx', hremove, hother, hlead, hchanges, hsome, hlisted⟩ := h
  obtain ⟨x'', hx''⟩ := Option.isSome_iff_exists.mp hsome
  have htask : x'.changes[0]? = some (.finish ["a", "b"]) := by rw [hchanges]; rfl
  exact ⟨x, x', x'', hx, hx', hchanges, hx'',
    (Node.step_down_iff hremove hother hx' htask hlead hx'').mpr hlisted⟩

/-- The leader `a` with the voters `["b"]` adds `c`.  Both entries commit, nothing else
happens, and `a` steps down. -/
theorem adding_deposes_leader :
    ∃ x x' x'' : Node,
      Runs Node.step (fun _ _ => True) (.fresh "a" "a" (some ["b"]) true true true none) x ∧
      (x.raft.role = .leader ∧ x.raft.currentTerm = 1 ∧
        x.raft.clusterConfig = ⟨.stable, ["b"], []⟩ ∧
        x.raft.computeNewVoters "add" ["c"] = some ["b", "c"]) ∧
      Runs Node.step (fun _ _ => True) x x' ∧
      (x'.raft.role = .leader ∧ x'.raft.currentTerm = 1 ∧ x'.changes = [.finish ["b", "c"]]) ∧
      x'.step (.changeNext 0 Faults.none) = some x'' ∧ x''.raft.role = .follower := by
  have h : ∃ x x' : Node,
      Runs Node.step (fun _ _ => True) (.fresh "a" "a" (some ["b"]) true true true none) x ∧
      Runs Node.step (fun _ _ => True) x x' ∧
      (x.raft.role = .leader ∧ x.raft.currentTerm = 1 ∧
        x.raft.clusterConfig = ⟨.stable, ["b"], []⟩ ∧
        x.raft.computeNewVoters "add" ["c"] = some ["b", "c"]) ∧
      (x'.raft.role = .leader ∧ x'.raft.currentTerm = 1 ∧ x'.changes = [.finish ["b", "c"]]) ∧
      ((x'.step (.changeNext 0 Faults.none)).any fun x'' =>
        decide (x''.raft.role = .follower)) = true :=
    Runs.exists_of_execs (electedBy ["b"]) (changedRun ["b"] ["b", "c"]) (by decide +kernel)
  obtain ⟨x, x', hx, hx', hlead, hcommitted, hfinish⟩ := h
  obtain ⟨x'', hx'', hfollower⟩ := exists_of_any hfinish
  exact ⟨x, x', x'', hx, hlead, hx', hcommitted, hx'', hfollower⟩

end

end Raft
