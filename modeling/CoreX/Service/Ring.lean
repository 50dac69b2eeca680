/-
CoreX/Service/Ring.lean

The hash ring.  A node has `vnodeCount` points among the 32-bit words, and a key
belongs to the node of the first point at or after the hash of the key, or of the
first of all if there is none.
-/
import Mathlib.Data.List.Sort

namespace Service

/-- The bytes of a string. -/
def bytes (s : String) : List UInt8 := s.toByteArray.data.toList

/-! ### Hashes -/

/-- `hash/fnv`, `New32a`. -/
def fnv32a (data : List UInt8) : UInt32 :=
  data.foldl (fun h b => (h ^^^ b.toUInt32) * 16777619) 2166136261

def vnodeHash (nodeID : String) (i : Nat) : UInt32 := fnv32a (bytes (nodeID ++ "#" ++ toString i))

def keyHash (key : String) : UInt32 := fnv32a (bytes key)

/-! ### The ring -/

/-- `cluster.Node`. -/
structure RingNode where
  id : String
  addr : String
  deriving DecidableEq, Repr

structure Ring where
  vnodeCount : Nat
  points : List UInt32
  nodeByHash : UInt32 → Option RingNode
  nodes : String → Option RingNode
  sorted : points.Pairwise (· ≤ ·)
  covered : ∀ p ∈ points, (nodeByHash p).isSome = true

namespace Ring

/-- `NewRing`. -/
def newRing (vnodeCount : Int) : Ring where
  vnodeCount := if vnodeCount ≤ 0 then 150 else vnodeCount.toNat
  points := []
  nodeByHash _ := none
  nodes _ := none
  sorted := List.Pairwise.nil
  covered _ h := absurd h List.not_mem_nil

variable (r : Ring)

/-- The points of a node. -/
def vnodes (nodeID : String) : List UInt32 := (List.range r.vnodeCount).map (vnodeHash nodeID)

/-- `removeNodeLocked`. -/
def removeNode (nodeID : String) : Ring :=
  match r.nodes nodeID with
  | none => r
  | some _ =>
      let nodeByHash := fun h => if h ∈ r.vnodes nodeID then none else r.nodeByHash h
      { r with
        nodes := Function.update r.nodes nodeID none
        nodeByHash := nodeByHash
        points := r.points.filter fun p => (nodeByHash p).isSome
        sorted := r.sorted.filter _
        covered := fun _ hp => (List.mem_filter.mp hp).2 }

/-- `AddNode` of a node that is not there. -/
def insertNode (n : RingNode) : Ring :=
  { r with
    nodes := Function.update r.nodes n.id (some n)
    nodeByHash := fun h => if h ∈ r.vnodes n.id then some n else r.nodeByHash h
    points := (r.points ++ r.vnodes n.id).insertionSort (· ≤ ·)
    sorted := List.pairwise_insertionSort _ _
    covered := by
      intro p hp
      split
      · rfl
      · next hnew =>
          rcases List.mem_append.mp ((List.mem_insertionSort _).mp hp) with hp | hp
          · exact r.covered p hp
          · exact absurd hp hnew }

/-- `AddNode`. -/
def addNode (n : RingNode) : Ring := (r.removeNode n.id).insertNode n

/-- `Lookup`.  The points are in order, so that the search finds the first that is not
below the hash. -/
def lookup (key : String) : Option RingNode :=
  match r.points with
  | [] => none
  | first :: _ => r.nodeByHash ((r.points.find? fun p => keyHash key ≤ p).getD first)

theorem lookup_isSome (h : r.points ≠ []) (key : String) : (r.lookup key).isSome = true := by
  unfold lookup
  split
  · next hnil => exact absurd hnil h
  · next first rest hcons =>
    rcases hfind : r.points.find? fun p => keyHash key ≤ p with - | p
    · exact r.covered first (hcons ▸ List.mem_cons_self)
    · exact r.covered p (List.mem_of_find?_eq_some hfind)

end Ring

end Service
