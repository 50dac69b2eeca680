/-
CoreX/Service/RingMoves.lean

What a change of the ring moves.  `AddNode` takes keys for the new node only, and
`RemoveNode` moves the keys of the removed node only, provided that none of its hashes is
one of another node.  Both rest on the same fact about the circle: if points come or go, a
key whose first point was there before and after keeps it.
-/
import CoreX.Service.RingOrder

namespace Service

open StepSystem Circle

namespace Ring

variable {r r' : Ring} {key : String}

/-- `Lookup` as it is computed: `sort.Search` over the points, and the first one behind
the last. -/
theorem lookup_search (r : Ring) (key : String) : r.lookup key =
    let idx := search (fun i => (r.points[i]?).all fun p => keyHash key ≤ p) 0 r.points.length
    (r.points[if idx = r.points.length then 0 else idx]?).bind r.nodeByHash := by
  rw [lookup_eq, firstFrom_eq_search r.sorted]

/-! ### Who holds a hash -/

/-- Whoever holds a hash is registered and has it. -/
def Placed (r : Ring) : Prop :=
  ∀ h n, r.nodeByHash h = some n → r.nodes n.id = some n ∧ h ∈ r.vnodes n.id

theorem placed_newRing (vnodeCount : Int) : (newRing vnodeCount).Placed := by
  rintro h n ⟨⟩

theorem Placed.removeNode (hr : r.Placed) (nodeID : String) : (r.removeNode nodeID).Placed := by
  intro h n hn
  rw [nodeByHash_removeNode] at hn
  split at hn
  · cases hn
  · next hkept =>
    obtain ⟨hreg, hmem⟩ := hr h n hn
    have hne : n.id ≠ nodeID := by
      rintro rfl
      exact hkept ⟨by rw [hreg]; rfl, hmem⟩
    rw [nodes_removeNode, Function.update_of_ne hne, vnodes_removeNode]
    exact ⟨hreg, hmem⟩

theorem Placed.addNode (hr : r.Placed) (n : RingNode) : (r.addNode n).Placed := by
  intro h m hm
  rw [nodeByHash_addNode] at hm
  rw [nodes_addNode, vnodes_addNode]
  split at hm
  · next hmem =>
    obtain rfl := Option.some.inj hm
    exact ⟨Function.update_self .., hmem⟩
  · obtain ⟨hreg, hmem⟩ := hr.removeNode n.id h m hm
    rw [nodes_removeNode] at hreg
    rw [vnodes_removeNode] at hmem
    rcases eq_or_ne m.id n.id with heq | hne
    · rw [heq, Function.update_self] at hreg
      cases hreg
    · rw [Function.update_of_ne hne] at hreg ⊢
      exact ⟨hreg, hmem⟩

theorem placed_of_runs {vnodeCount : Int}
    (h : Runs step (fun _ _ => True) (newRing vnodeCount) r) : r.Placed := by
  refine h.invariant ?_ (placed_newRing vnodeCount)
  intro r c r' hr hstep _
  cases c with
  | add n =>
    obtain rfl := Option.some.inj hstep
    exact hr.addNode n
  | remove nodeID =>
    obtain rfl := Option.some.inj hstep
    exact hr.removeNode nodeID

theorem Placed.lookup (hr : r.Placed) {n : RingNode} (h : r.lookup key = some n) :
    r.nodes n.id = some n := by
  rw [lookup_eq] at h
  obtain ⟨p, -, hn⟩ := Option.bind_eq_some_iff.mp h
  exact (hr p n hn).1

theorem Placed.lookup_ne (hr : r.Placed) {nodeID : String} (h : r.nodes nodeID = none) :
    (r.lookup key).map RingNode.id ≠ some nodeID := by
  intro howner
  obtain ⟨n, hn, rfl⟩ := Option.map_eq_some_iff.mp howner
  have hreg := hr.lookup hn
  rw [h] at hreg
  cases hreg

/-! ### What moves -/

theorem lookup_of_subset (hsub : r'.points ⊆ r.points) {p : UInt32} (hp : p ∈ r'.points)
    (h : firstFrom r.points (keyHash key) = some p) (hheld : r'.nodeByHash p = r.nodeByHash p) :
    r'.lookup key = r.lookup key := by
  rw [lookup_eq, lookup_eq, h, firstFrom_of_subset r.sorted r'.sorted hsub hp h, Option.bind_some,
    Option.bind_some, hheld]

theorem nodeByHash_removeNode_of_not_mem {nodeID : String} {h : UInt32}
    (hh : h ∉ r.vnodes nodeID) : (r.removeNode nodeID).nodeByHash h = r.nodeByHash h := by
  rw [nodeByHash_removeNode, if_neg fun hc => hh hc.2]

theorem points_subset_addNode (r : Ring) (n : RingNode) : r.points ⊆ (r.addNode n).points := by
  intro h hh
  rw [mem_points_addNode, mem_points_removeNode]
  by_cases hmem : h ∈ r.vnodes n.id
  · exact .inr hmem
  · refine .inl ⟨hh, ?_⟩
    rw [nodeByHash_removeNode_of_not_mem hmem]
    exact r.covered h hh

theorem lookup_addNode_cases (r : Ring) (n : RingNode) (key : String) :
    (r.addNode n).lookup key = r.lookup key ∨ (r.addNode n).lookup key = some n := by
  rcases hfirst : firstFrom (r.addNode n).points (keyHash key) with - | p
  · -- no points, before and after
    have hnil : r.points = [] := by
      have hsub := points_subset_addNode r n
      rw [firstFrom_eq_none.mp hfirst] at hsub
      exact List.subset_nil.mp hsub
    rw [lookup_eq, lookup_eq, hfirst, firstFrom_eq_none.mpr hnil]
    exact .inl rfl
  · by_cases hmem : p ∈ r.vnodes n.id
    · rw [lookup_eq, hfirst, Option.bind_some, nodeByHash_addNode, if_pos hmem]
      exact .inr rfl
    · have hp := mem_of_firstFrom hfirst
      rw [mem_points_addNode, mem_points_removeNode] at hp
      refine .inl (lookup_of_subset (points_subset_addNode r n) ?_ hfirst ?_).symm
      · exact (hp.resolve_right hmem).1
      · rw [nodeByHash_addNode, if_neg hmem, nodeByHash_removeNode_of_not_mem hmem]

/-- No hash of the node is one of another registered node. -/
def Apart (r : Ring) (nodeID : String) : Prop :=
  ∀ other, other ≠ nodeID → (r.nodes other).isSome = true → ∀ h ∈ r.vnodes nodeID,
    h ∉ r.vnodes other

theorem Placed.lookup_removeNode (hr : r.Placed) {nodeID : String} (hapart : r.Apart nodeID)
    (hkey : (r.lookup key).map RingNode.id ≠ some nodeID) :
    (r.removeNode nodeID).lookup key = r.lookup key := by
  have hsub : (r.removeNode nodeID).points ⊆ r.points :=
    fun h hh => ((mem_points_removeNode nodeID h).mp hh).1
  rcases hfirst : firstFrom r.points (keyHash key) with - | p
  · have hnil : (r.removeNode nodeID).points = [] := by
      rw [firstFrom_eq_none.mp hfirst] at hsub
      exact List.subset_nil.mp hsub
    rw [lookup_eq, lookup_eq, hfirst, firstFrom_eq_none.mpr hnil]
    rfl
  · have hp := mem_of_firstFrom hfirst
    obtain ⟨m, hm⟩ := Option.isSome_iff_exists.mp (r.covered p hp)
    obtain ⟨hreg, hmem⟩ := hr p m hm
    have hne : m.id ≠ nodeID := by
      rintro rfl
      rw [lookup_eq, hfirst, Option.bind_some, hm] at hkey
      exact hkey rfl
    -- so the point is none of the removed node
    have hnot : p ∉ r.vnodes nodeID :=
      fun hin => hapart m.id hne (by rw [hreg]; rfl) p hin hmem
    have hheld := nodeByHash_removeNode_of_not_mem hnot
    refine lookup_of_subset hsub ?_ hfirst hheld
    rw [mem_points_removeNode, hheld]
    exact ⟨hp, r.covered p hp⟩

/-- **Consistent hashing.**  On every ring that calls of `AddNode` and `RemoveNode` have
left, whatever the hashes: the owner of a key is registered; `AddNode` leaves a key where
it is or gives it to the new node; `RemoveNode` leaves no key with its node, and if the node
has no collisions, every key that was not the node's stays. -/
theorem moves_only_its_keys {vnodeCount : Int}
    (hrun : Runs step (fun _ _ => True) (newRing vnodeCount) r) (key : String) :
    (r.points ≠ [] → ∃ n, r.lookup key = some n ∧ r.nodes n.id = some n) ∧
    (∀ n : RingNode, ((r.addNode n).lookup key).map RingNode.id = (r.lookup key).map RingNode.id ∨
      ((r.addNode n).lookup key).map RingNode.id = some n.id) ∧
    ∀ nodeID, ((r.removeNode nodeID).lookup key).map RingNode.id ≠ some nodeID ∧
      (r.Apart nodeID → (r.lookup key).map RingNode.id ≠ some nodeID →
        (r.removeNode nodeID).lookup key = r.lookup key) := by
  have hr := placed_of_runs hrun
  refine ⟨fun hpoints => ?_, fun n => ?_, fun nodeID => ⟨?_, hr.lookup_removeNode⟩⟩
  · obtain ⟨n, hn⟩ := Option.isSome_iff_exists.mp (r.lookup_isSome hpoints key)
    exact ⟨n, hn, hr.lookup hn⟩
  · rcases lookup_addNode_cases r n key with heq | heq
    · exact .inl (congrArg _ heq)
    · exact .inr (congrArg _ heq)
  · exact (hr.removeNode nodeID).lookup_ne (by rw [nodes_removeNode, Function.update_self])

/-- Two nodes that share all their hashes, and a third one. -/
def threeNodes : Ring :=
  (((newRing 2).addNode ⟨"costarring", "x"⟩).addNode ⟨"liquid", "y"⟩).addNode ⟨"c", "z"⟩

/-- The third node is removed: it loses its key, and another stays with the node that was
added second. -/
theorem moves_only_its_keys_third :
    Runs step (fun _ _ => True) (newRing 2) threeNodes ∧ threeNodes.points ≠ [] ∧
      threeNodes.lookup "liquid#1" = some ⟨"liquid", "y"⟩ ∧
      (threeNodes.removeNode "c").lookup "liquid#1" = some ⟨"liquid", "y"⟩ ∧
      threeNodes.lookup "c#1" = some ⟨"c", "z"⟩ ∧
      ((threeNodes.removeNode "c").lookup "c#1").map RingNode.id ≠ some "c" := by
  have hrun : Runs step (fun _ _ => True) (newRing 2) threeNodes :=
    (((Runs.refl _).tail (a := .add ⟨"costarring", "x"⟩) rfl trivial).tail
      (a := .add ⟨"liquid", "y"⟩) rfl trivial).tail (a := .add ⟨"c", "z"⟩) rfl trivial
  have hlookup : threeNodes.lookup "liquid#1" = some ⟨"liquid", "y"⟩ := by decide +kernel
  have hapart : threeNodes.Apart "c" := by
    intro other hne hreg
    have hcases : other = "liquid" ∨ other = "costarring" := by
      rw [threeNodes, nodes_addNode, Function.update_of_ne hne, nodes_addNode,
        nodes_addNode] at hreg
      by_contra hno
      obtain ⟨hl, hc⟩ := not_or.mp hno
      rw [Function.update_of_ne hl, Function.update_of_ne hc] at hreg
      cases hreg
    have hall : ((threeNodes.vnodes "c").all fun h => !(threeNodes.vnodes other).contains h) =
        true := by
      rcases hcases with rfl | rfl <;> decide +kernel
    intro h hc hother
    have hnot := List.all_eq_true.mp hall h hc
    rw [List.contains_iff_mem.mpr hother] at hnot
    cases hnot
  refine ⟨hrun, by decide +kernel, hlookup, ?_, by decide +kernel,
    ((moves_only_its_keys hrun "c#1").2.2 "c").1⟩
  rw [((moves_only_its_keys hrun "liquid#1").2.2 "c").2 hapart (by rw [hlookup]; decide), hlookup]

end Ring

end Service
