/-
CoreX/Raft/Cluster.lean

A cluster of running nodes.  The network is what the nodes have ever sent and
answered: a request can be delivered as soon as it is among the sender's `sent`,
and a response can be read by the goroutine that waits for it as soon as it is
among the receiver's `replies`.  Both histories only grow, so a message may come
late, in any order, more than once (for requests) or not at all.
-/
import CoreX.Lib.Run
import CoreX.Raft.System

namespace Raft

/-- Which stores a node is started with. -/
structure Stores where
  metaStore : Bool
  logStore : Bool
  sm : Bool
  snapshots : Option SnapshotConfig

/-- A cluster as it is configured: every member knows the addresses of the
others, node ids are distinct, and none is the empty string (which stands for
"no vote"). -/
structure Cluster where
  members : List Addr
  nodup : members.Nodup
  idOf : Addr → NodeID
  idOf_inj : ∀ a ∈ members, ∀ b ∈ members, idOf a = idOf b → a = b
  idOf_ne : ∀ a ∈ members, idOf a ≠ ""
  peersOf : Addr → List Addr
  peers_perm : ∀ a ∈ members, (peersOf a).Perm (members.erase a)
  storesOf : Addr → Stores

abbrev World := Addr → Node

namespace World

/-- All nodes freshly started, with the given stores. -/
def start [Codec] (C : Cluster) (stores : Addr → Stores) : World := fun a =>
  Node.fresh a (C.idOf a) (some (C.peersOf a)) (stores a).metaStore (stores a).logStore
    (stores a).sm (stores a).snapshots

/-- All nodes freshly started. -/
def init [Codec] (C : Cluster) : World := start C C.storesOf

/-- The input of a section at `a` is something the network can deliver: a
request that was sent, or the response to a request of the goroutine that reads
it. -/
def available (w : World) (a : Addr) : Act → Bool
  | .deliver c _ => decide (c ∈ (w c.src).sent)
  | .voteResult addr (some (term, granted)) =>
      match (w a).loop with
      | .campaign c =>
          decide ((⟨a, c.call, addr, .vote c.args⟩, .vote term granted) ∈ (w addr).replies)
      | _ => false
  | .ackResult addr (some res) =>
      match (w a).loop with
      | .collecting r _ =>
          match r.awaiting.find? fun p => p.addr == addr with
          | some p =>
              decide ((⟨a, r.call, addr, .append p.args⟩, .append res) ∈ (w addr).replies)
          | none => false
      | _ => false
  | .transferDone i =>
      match (w a).transfers[i]? with
      | some (.send addr index) => (w addr).replies.any fun p =>
          match p.1.req with
          | .install args => p.1.src == a && args.lastIncludedIndex == index && args.done
          | _ => false
      | _ => false
  | _ => true

/-- One section at one member. -/
def step [Codec] (C : Cluster) (w : World) (e : Addr × Act) : Option World :=
  if e.1 ∈ C.members ∧ w.available e.1 e.2 then
    ((w e.1).step e.2).map (Function.update w e.1)
  else none

end World

end Raft
