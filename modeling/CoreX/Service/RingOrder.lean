/-
CoreX/Service/RingOrder.lean

Rings that were built in different orders.  Every process registers itself first and its
peers afterwards, so no two rings have the same history.
-/
import CoreX.Lib.Circle
import CoreX.Lib.Run
import CoreX.Service.Ring

namespace Service

open StepSystem Circle

/-- The calls that change a ring. -/
inductive RingChange
  | add (n : RingNode)
  | remove (nodeID : String)
  deriving DecidableEq, Repr

namespace Ring

variable {r r' : Ring} {key : String} (nodeID : String)

/-! ### The operations -/

@[simp] theorem vnodeCount_removeNode :
    (r.removeNode nodeID).vnodeCount = r.vnodeCount := by
  unfold removeNode
  split <;> rfl

@[simp] theorem vnodes_removeNode (other : String) :
    (r.removeNode nodeID).vnodes other = r.vnodes other := by
  rw [vnodes, vnodes, vnodeCount_removeNode]

@[simp] theorem nodes_removeNode :
    (r.removeNode nodeID).nodes = Function.update r.nodes nodeID none := by
  unfold removeNode
  split
  · next h => rw [← h, Function.update_eq_self]
  · rfl

theorem nodeByHash_removeNode (h : UInt32) :
    (r.removeNode nodeID).nodeByHash h =
      if (r.nodes nodeID).isSome ∧ h ∈ r.vnodes nodeID then none else r.nodeByHash h := by
  unfold removeNode
  split
  · next hnone => simp [hnone]
  · next m hsome => simp [hsome]

theorem mem_points_removeNode (h : UInt32) :
    h ∈ (r.removeNode nodeID).points ↔
      h ∈ r.points ∧ ((r.removeNode nodeID).nodeByHash h).isSome = true := by
  unfold removeNode
  split
  · exact ⟨fun hp => ⟨hp, r.covered h hp⟩, fun hp => hp.1⟩
  · exact List.mem_filter

@[simp] theorem vnodes_addNode (n : RingNode) (other : String) :
    (r.addNode n).vnodes other = r.vnodes other :=
  vnodes_removeNode n.id other

@[simp] theorem nodes_addNode (n : RingNode) :
    (r.addNode n).nodes = Function.update r.nodes n.id (some n) := by
  show Function.update (r.removeNode n.id).nodes n.id (some n) = _
  rw [nodes_removeNode, Function.update_idem]

theorem nodeByHash_addNode (n : RingNode) (h : UInt32) :
    (r.addNode n).nodeByHash h =
      if h ∈ r.vnodes n.id then some n else (r.removeNode n.id).nodeByHash h := by
  rw [← vnodes_removeNode n.id]
  rfl

theorem mem_points_addNode (n : RingNode) (h : UInt32) :
    h ∈ (r.addNode n).points ↔ h ∈ (r.removeNode n.id).points ∨ h ∈ r.vnodes n.id := by
  rw [← vnodes_removeNode n.id]
  exact (List.mem_insertionSort _).trans List.mem_append

theorem lookup_eq : r.lookup key = (firstFrom r.points (keyHash key)).bind r.nodeByHash := by
  unfold lookup firstFrom
  split
  · next hnil => rw [hnil]; rfl
  · next first rest hcons =>
    rw [hcons]
    rcases (first :: rest).find? fun p => decide (keyHash key ≤ p) with - | p <;> rfl

/-! ### Rings without collisions -/

/-- Each registered node holds its hashes, and nothing else is held. -/
structure Tidy (r : Ring) : Prop where
  named : ∀ nodeID n, r.nodes nodeID = some n → n.id = nodeID
  held : ∀ h n, r.nodeByHash h = some n ↔ r.nodes n.id = some n ∧ h ∈ r.vnodes n.id
  pointed : ∀ h, h ∈ r.points ↔ (r.nodeByHash h).isSome = true

theorem tidy_newRing (vnodeCount : Int) : (newRing vnodeCount).Tidy where
  named := by
    intro nodeID n h
    cases h
  held := by
    simp [newRing]
  pointed := by
    simp [newRing]

namespace Tidy

theorem not_mem (t : r.Tidy) {h : UInt32} {n m : RingNode} {nodeID : String}
    (hn : r.nodeByHash h = some n) (hm : r.nodes nodeID = some m) (hne : n.id ≠ nodeID) :
    h ∉ r.vnodes nodeID := by
  intro hmem
  have hid := t.named nodeID m hm
  have hheld := (t.held h m).mpr ⟨hid ▸ hm, hid ▸ hmem⟩
  rw [hn] at hheld
  exact hne (Option.some.inj hheld ▸ hid)

theorem removeNode (t : r.Tidy) (nodeID : String) : (r.removeNode nodeID).Tidy := by
  constructor
  · intro other n hn
    rw [nodes_removeNode] at hn
    rcases eq_or_ne other nodeID with rfl | hne
    · rw [Function.update_self] at hn
      cases hn
    · rw [Function.update_of_ne hne] at hn
      exact t.named other n hn
  · intro h n
    rw [nodeByHash_removeNode, nodes_removeNode, vnodes_removeNode]
    rcases eq_or_ne n.id nodeID with rfl | hne
    · -- what the node held is cleared
      rw [Function.update_self]
      simp only [Option.ite_none_left_eq_some, reduceCtorEq, false_and, iff_false, not_and]
      intro hnot hn
      obtain ⟨hreg, hmem⟩ := (t.held h n).mp hn
      exact hnot (by rw [hreg]; rfl) hmem
    · rw [Function.update_of_ne hne, ← t.held]
      simp only [Option.ite_none_left_eq_some, and_iff_right_iff_imp]
      rintro hn ⟨hsome, hmem⟩
      obtain ⟨m, hm⟩ := Option.isSome_iff_exists.mp hsome
      exact t.not_mem hn hm hne hmem
  · intro h
    rw [mem_points_removeNode, t.pointed]
    refine ⟨fun hp => hp.2, fun hp => ⟨?_, hp⟩⟩
    rw [nodeByHash_removeNode] at hp
    split at hp
    · cases hp
    · exact hp

theorem map_id_nodeByHash (t : r.Tidy) (t' : r'.Tidy) (hcount : r.vnodeCount = r'.vnodeCount)
    (hids : ∀ nodeID, (r.nodes nodeID).isSome = (r'.nodes nodeID).isSome) (h : UInt32) :
    (r.nodeByHash h).map RingNode.id = (r'.nodeByHash h).map RingNode.id := by
  have hsub : ∀ {q q' : Ring}, q.Tidy → q'.Tidy → q.vnodeCount = q'.vnodeCount →
      (∀ nodeID, (q.nodes nodeID).isSome = (q'.nodes nodeID).isSome) → ∀ nodeID,
      (q.nodeByHash h).map RingNode.id = some nodeID →
      (q'.nodeByHash h).map RingNode.id = some nodeID := by
    intro q q' u u' hc hi nodeID hq
    obtain ⟨n, hn, rfl⟩ := Option.map_eq_some_iff.mp hq
    obtain ⟨hreg, hmem⟩ := (u.held h n).mp hn
    have hsome := hi n.id
    rw [hreg] at hsome
    obtain ⟨m, hm⟩ := Option.isSome_iff_exists.mp hsome.symm
    have hid := u'.named n.id m hm
    have hmem' : h ∈ q'.vnodes m.id := by
      rw [hid, vnodes, ← hc]
      exact hmem
    rw [(u'.held h m).mpr ⟨hid.symm ▸ hm, hmem'⟩, Option.map_some, hid]
  apply Option.ext
  intro nodeID
  exact ⟨hsub t t' hcount hids nodeID, hsub t' t hcount.symm (fun i => (hids i).symm) nodeID⟩

theorem lookup_congr (t : r.Tidy) (t' : r'.Tidy) (hcount : r.vnodeCount = r'.vnodeCount)
    (hids : ∀ nodeID, (r.nodes nodeID).isSome = (r'.nodes nodeID).isSome) (key : String) :
    (r.lookup key).map RingNode.id = (r'.lookup key).map RingNode.id := by
  have hby := t.map_id_nodeByHash t' hcount hids
  have hpoints : ∀ h, h ∈ r.points ↔ h ∈ r'.points := by
    intro h
    rw [t.pointed, t'.pointed, ← Option.isSome_map (f := RingNode.id), hby, Option.isSome_map]
  rw [lookup_eq, lookup_eq, firstFrom_congr r.sorted r'.sorted hpoints]
  cases firstFrom r'.points (keyHash key) with
  | none => rfl
  | some h => exact hby h

end Tidy

/-! ### Any sequence of calls -/

def step (r : Ring) : RingChange → Option Ring
  | .add n => some (r.addNode n)
  | .remove nodeID => some (r.removeNode nodeID)

/-- No hash of the node to be added is held by another. -/
def free (r : Ring) : RingChange → Bool
  | .add n => (r.vnodes n.id).all fun h => (r.nodeByHash h).all fun m => m.id == n.id
  | .remove _ => true

theorem Tidy.addNode (t : r.Tidy) {n : RingNode} (hfree : r.free (.add n) = true) :
    (r.addNode n).Tidy := by
  have t' := t.removeNode n.id
  -- the places are empty when the node is inserted
  have hempty : ∀ h ∈ r.vnodes n.id, (r.removeNode n.id).nodeByHash h = none := by
    intro h hh
    rw [nodeByHash_removeNode]
    split
    · rfl
    · next hnot =>
      rcases hm : r.nodeByHash h with - | m
      · rfl
      · have hid : m.id = n.id := by simpa [hm] using List.all_eq_true.mp hfree h hh
        have hreg := ((t.held h m).mp hm).1
        exact absurd ⟨by rw [← hid, hreg]; rfl, hh⟩ hnot
  constructor
  · intro nodeID m hm
    rw [nodes_addNode] at hm
    rcases eq_or_ne nodeID n.id with rfl | hne
    · rw [Function.update_self] at hm
      rw [← Option.some.inj hm]
    · rw [Function.update_of_ne hne] at hm
      exact t.named nodeID m hm
  · intro h m
    rw [nodeByHash_addNode, nodes_addNode, vnodes_addNode]
    rcases eq_or_ne m.id n.id with hid | hne
    · rw [hid, Function.update_self]
      split
      · next hmem => simp [hmem]
      · next hmem =>
        simp only [hmem, and_false, iff_false]
        intro hm
        have hreg := ((t'.held h m).mp hm).1
        rw [hid, nodes_removeNode, Function.update_self] at hreg
        cases hreg
    · have hold : (r.removeNode n.id).nodeByHash h = some m ↔
          r.nodes m.id = some m ∧ h ∈ r.vnodes m.id := by
        rw [t'.held, nodes_removeNode, Function.update_of_ne hne, vnodes_removeNode]
      rw [Function.update_of_ne hne, ← hold]
      split
      · next hmem =>
        rw [hempty h hmem]
        simp only [Option.some.injEq, reduceCtorEq, iff_false]
        exact fun heq => hne (congrArg RingNode.id heq.symm)
      · exact Iff.rfl
  · intro h
    rw [mem_points_addNode, nodeByHash_addNode, t'.pointed]
    split
    · next hmem => simp [hmem]
    · next hmem => simp [hmem]

theorem Tidy.step {c : RingChange} (t : r.Tidy) (hstep : r.step c = some r')
    (hfree : r.free c = true) : r'.Tidy ∧ r'.vnodeCount = r.vnodeCount := by
  cases c with
  | add n =>
    obtain rfl := Option.some.inj hstep
    exact ⟨t.addNode hfree, vnodeCount_removeNode n.id⟩
  | remove nodeID =>
    obtain rfl := Option.some.inj hstep
    exact ⟨t.removeNode nodeID, vnodeCount_removeNode nodeID⟩

theorem tidy_of_runs {vnodeCount : Int}
    (hrun : Runs step (fun r c => r.free c) (newRing vnodeCount) r) :
    r.Tidy ∧ r.vnodeCount = (newRing vnodeCount).vnodeCount := by
  refine hrun.invariant (P := fun r => r.Tidy ∧ r.vnodeCount = (newRing vnodeCount).vnodeCount) ?_
    ⟨tidy_newRing vnodeCount, rfl⟩
  intro r c r' h hstep hfree
  obtain ⟨t, hcount⟩ := h.1.step hstep hfree
  exact ⟨t, hcount.trans h.2⟩

/-! ### Colliding nodes -/

theorem lookup_addNode {n : RingNode} (h : keyHash key ∈ r.vnodes n.id) :
    (r.addNode n).lookup key = some n := by
  have hmem : keyHash key ∈ (r.addNode n).points := (mem_points_addNode n _).mpr (.inr h)
  rw [lookup_eq, firstFrom_of_mem (r.addNode n).sorted hmem, Option.bind_some, nodeByHash_addNode,
    if_pos h]

theorem addNode_comm_fails {n m : RingNode} (hne : n.id ≠ m.id) {h : UInt32}
    (hn : h ∈ r.vnodes n.id) (hm : h ∈ r.vnodes m.id) :
    (∀ nodeID, (((r.addNode n).addNode m).nodes nodeID).isSome =
      (((r.addNode m).addNode n).nodes nodeID).isSome) ∧
    ∃ key, (((r.addNode n).addNode m).lookup key).map RingNode.id ≠
      (((r.addNode m).addNode n).lookup key).map RingNode.id := by
  constructor
  · intro nodeID
    rw [nodes_addNode, nodes_addNode, nodes_addNode, nodes_addNode, Function.update_comm hne]
  · -- the string that is hashed for the point is a key
    obtain ⟨i, _, rfl⟩ := List.mem_map.mp hn
    refine ⟨n.id ++ "#" ++ toString i, ?_⟩
    have hkey : keyHash (n.id ++ "#" ++ toString i) = vnodeHash n.id i := rfl
    rw [lookup_addNode (by rw [hkey, vnodes_addNode]; exact hm),
      lookup_addNode (by rw [hkey, vnodes_addNode]; exact hn)]
    exact fun heq => hne (Option.some.inj heq).symm

/-- **All nodes route alike**, if no node is added whose hashes are held by another: two
rings with the same IDs then send every key to the same ID.  And the condition is needed
for any two IDs with a common hash. -/
theorem routes_alike (vnodeCount : Int) :
    (∀ r r', Runs step (fun r c => r.free c) (newRing vnodeCount) r →
      Runs step (fun r c => r.free c) (newRing vnodeCount) r' →
      (∀ nodeID, (r.nodes nodeID).isSome = (r'.nodes nodeID).isSome) →
      ∀ key, (r.lookup key).map RingNode.id = (r'.lookup key).map RingNode.id) ∧
    ∀ (r : Ring) (n m : RingNode), n.id ≠ m.id → (∃ h ∈ r.vnodes n.id, h ∈ r.vnodes m.id) →
      (∀ nodeID, (((r.addNode n).addNode m).nodes nodeID).isSome =
        (((r.addNode m).addNode n).nodes nodeID).isSome) ∧
      ∃ key, (((r.addNode n).addNode m).lookup key).map RingNode.id ≠
        (((r.addNode m).addNode n).lookup key).map RingNode.id := by
  constructor
  · intro r r' hrun hrun' hids key
    obtain ⟨t, hcount⟩ := tidy_of_runs hrun
    obtain ⟨t', hcount'⟩ := tidy_of_runs hrun'
    exact t.lookup_congr t' (hcount.trans hcount'.symm) hids key
  · rintro r n m hne ⟨h, hn, hm⟩
    exact addNode_comm_fails hne hn hm

/-- One process adds `a`, `b`, `c`; another `b`, `a`, `c`, and `a` again at a new address,
after it was removed. -/
theorem routes_alike_readded :
    ∃ r r', Runs step (fun r c => r.free c) (newRing 3) r ∧
      Runs step (fun r c => r.free c) (newRing 3) r' ∧
      r.nodes "a" = some ⟨"a", "host-1"⟩ ∧ r'.nodes "a" = some ⟨"a", "host-4"⟩ ∧
      ∀ key, (r.lookup key).map RingNode.id = (r'.lookup key).map RingNode.id := by
  have hadd : ∀ {r : Ring} (n : RingNode), Runs step (fun r c => r.free c) (newRing 3) r →
      r.free (.add n) = true → Runs step (fun r c => r.free c) (newRing 3) (r.addNode n) :=
    fun n hr hfree => hr.tail (a := RingChange.add n) rfl hfree
  have hremove : ∀ {r : Ring} (nodeID : String), Runs step (fun r c => r.free c) (newRing 3) r →
      Runs step (fun r c => r.free c) (newRing 3) (r.removeNode nodeID) :=
    fun nodeID hr => hr.tail (a := RingChange.remove nodeID) rfl rfl
  have hrun := hadd ⟨"c", "host-3"⟩ (hadd ⟨"b", "host-2"⟩ (hadd ⟨"a", "host-1"⟩ (Runs.refl _)
    (by decide +kernel)) (by decide +kernel)) (by decide +kernel)
  have hrun' := hadd ⟨"a", "host-4"⟩ (hremove "a" (hadd ⟨"c", "host-3"⟩ (hadd ⟨"a", "host-1"⟩
    (hadd ⟨"b", "host-2"⟩ (Runs.refl _) (by decide +kernel)) (by decide +kernel))
      (by decide +kernel))) (by decide +kernel)
  refine ⟨_, _, hrun, hrun', by simp, by simp, (routes_alike 3).1 _ _ hrun hrun' fun nodeID => ?_⟩
  simp only [nodes_addNode, nodes_removeNode, Function.update_apply]
  split_ifs <;> rfl

/-- **Two IDs with the same points.**  `costarring` and `liquid` have the same hash, so
all their points coincide; of two processes with the default number of points, which know
the same nodes, each sends the key to the node that it registered last. -/
theorem colliding_ids_route_apart :
    (∀ nodeID,
      ((((newRing 0).addNode ⟨"costarring", "x"⟩).addNode ⟨"liquid", "y"⟩).nodes nodeID).isSome =
        ((((newRing 0).addNode ⟨"liquid", "y"⟩).addNode ⟨"costarring", "x"⟩).nodes nodeID).isSome) ∧
    (((newRing 0).addNode ⟨"costarring", "x"⟩).addNode ⟨"liquid", "y"⟩).lookup "liquid#7" =
      some ⟨"liquid", "y"⟩ ∧
    (((newRing 0).addNode ⟨"liquid", "y"⟩).addNode ⟨"costarring", "x"⟩).lookup "liquid#7" =
      some ⟨"costarring", "x"⟩ := by
  have hmem : ∀ r : Ring, r.vnodeCount = 150 → ∀ nodeID, vnodeHash nodeID 7 = keyHash "liquid#7" →
      keyHash "liquid#7" ∈ r.vnodes nodeID := by
    intro r hr nodeID h
    rw [vnodes, hr]
    exact List.mem_map.mpr ⟨7, by simp, h⟩
  refine ⟨fun nodeID => ?_, lookup_addNode (hmem _ ?_ _ (by decide +kernel)),
    lookup_addNode (hmem _ ?_ _ (by decide +kernel))⟩
  · rw [nodes_addNode, nodes_addNode, nodes_addNode, nodes_addNode,
      Function.update_comm (by decide)]
  · exact vnodeCount_removeNode _
  · exact vnodeCount_removeNode _

end Ring

end Service
