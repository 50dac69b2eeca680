/-
CoreX/Raft/Reassembly.lean

Snapshot chunks on a follower.  Every transfer is a stream of chunks that
`RaftServer.InstallSnapshot` hands to `HandleInstallSnapshot` one by one; any number of
streams are open at a time, and all of them write into the one buffer of the node, which
a chunk of offset 0 starts anew and which no other chunk checks.
-/
import CoreX.Raft.Install
import CoreX.Raft.SnapshotFormat

namespace Raft

open StepSystem

/-! ### The chunks of a transfer -/

/-- One call of `RaftClient.InstallSnapshot`: its arguments, and the bytes that marshalling
gave this time. -/
structure SentSnapshot where
  term : Int
  leaderID : NodeID
  snapMeta : SnapshotMeta
  raw : Bytes
  deriving DecidableEq, Repr

/-- The chunks, in the order in which they are sent. -/
def SentSnapshot.requests (t : SentSnapshot) : List InstallSnapshotArgs :=
  RaftNode.transferChunks t.term t.leaderID t.snapMeta.index t.snapMeta.term
    RaftNode.snapshotChunkSize t.raw

namespace RaftNode

variable {mk : Int → Bytes → Bool → InstallSnapshotArgs} {size k offset : Nat} {raw : Bytes}

theorem offset_snapshotChunks (hmk : ∀ o d b, (mk o d b).offset = o) {j : Nat}
    {c : InstallSnapshotArgs} (hc : (snapshotChunks mk size k offset raw)[j]? = some c) :
    c.offset = offset + j * size := by
  induction k generalizing offset raw j with
  | zero => cases hc
  | succ k ih =>
    cases raw with
    | nil => cases hc
    | cons b bs =>
      cases j with
      | zero =>
        obtain rfl := Option.some.inj hc
        rw [hmk]
        simp
      | succ j =>
        rw [ih hc]
        push_cast
        ring

theorem done_snapshotChunks (hmk : ∀ o d b, (mk o d b).done = b) {j : Nat}
    {c : InstallSnapshotArgs} (hc : (snapshotChunks mk size k offset raw)[j]? = some c)
    (hdone : c.done = true) : j + 1 = (snapshotChunks mk size k offset raw).length := by
  induction k generalizing offset raw j with
  | zero => cases hc
  | succ k ih =>
    cases raw with
    | nil => cases hc
    | cons b bs =>
      rw [snapshotChunks_cons] at hc ⊢
      cases j with
      | zero =>
        obtain rfl := Option.some.inj hc
        rw [hmk, decide_eq_true_eq] at hdone
        have hnil : (b :: bs).drop size = [] := List.drop_of_length_le hdone
        rw [hnil]
        cases k <;> rfl
      | succ j =>
        rw [List.length_cons, ih hc]

theorem flatten_snapshotChunks (hmk : ∀ o d b, (mk o d b).data = d) (hsize : 0 < size)
    (hk : raw.length ≤ k) :
    ((snapshotChunks mk size k offset raw).map InstallSnapshotArgs.data).flatten = raw := by
  induction k generalizing offset raw with
  | zero =>
    obtain rfl := List.length_eq_zero_iff.mp (Nat.le_zero.mp hk)
    rfl
  | succ k ih =>
    cases raw with
    | nil => rfl
    | cons b bs =>
      have hlen : ((b :: bs).drop size).length ≤ k := by
        rw [List.length_drop]
        omega
      rw [snapshotChunks_cons, List.map_cons, List.flatten_cons, hmk, ih hlen,
        List.take_append_drop]

end RaftNode

namespace SentSnapshot

variable {t : SentSnapshot} {j : Nat} {c : InstallSnapshotArgs}

theorem eq_zero_of_offset (hc : t.requests[j]? = some c) (h : c.offset = 0) : j = 0 := by
  have hoff := RaftNode.offset_snapshotChunks (fun _ _ _ => rfl) hc
  simp only [RaftNode.snapshotChunkSize] at hoff
  omega

theorem length_of_done (hc : t.requests[j]? = some c) (h : c.done = true) :
    j + 1 = t.requests.length :=
  RaftNode.done_snapshotChunks (fun _ _ _ => rfl) hc h

theorem flatten_requests : (t.requests.map InstallSnapshotArgs.data).flatten = t.raw :=
  RaftNode.flatten_snapshotChunks (fun _ _ _ => rfl) (by decide) le_rfl

/-- The first `j` chunks together. -/
def upTo (t : SentSnapshot) (j : Nat) : Bytes :=
  ((t.requests.take j).map InstallSnapshotArgs.data).flatten

theorem upTo_succ (hc : t.requests[j]? = some c) : t.upTo (j + 1) = t.upTo j ++ c.data := by
  rw [upTo, upTo, List.take_add_one, hc]
  simp

end SentSnapshot

/-! ### The streams of a follower -/

/-- Where the handler of a stream stands: it waits for the next chunk; a chunk has been
admitted; the last chunk is in the buffer. -/
inductive StreamPhase
  | recv
  | buffer
  | take
  deriving DecidableEq, Repr

/-- One stream: `next` is the chunk that is handled, or waited for. -/
structure Stream where
  transfer : SentSnapshot
  next : Nat
  phase : StreamPhase
  deriving DecidableEq, Repr

def Stream.chunk (s : Stream) : Option InstallSnapshotArgs := s.transfer.requests[s.next]?

/-- The follower and its streams. -/
structure Receiver where
  node : RaftNode
  streams : List Stream

inductive ReceiverAct
  /-- A sender opens a stream. -/
  | opened (t : SentSnapshot)
  /-- `Recv`, and the first section of `HandleInstallSnapshot`. -/
  | recv (i : Nat) (f : Faults)
  /-- The chunk goes into the buffer. -/
  | buffer (i : Nat)
  /-- The buffer is taken and handed to `unmarshalSnapshotData`. -/
  | take (i : Nat)
  /-- Any other section of the node: none of them touches the buffer. -/
  | elsewhere (n : RaftNode)
  /-- A crash, which ends all streams. -/
  | restart (boot : Option (List Addr))

namespace Receiver

/-- The stream at position `i`, if its handler stands there. -/
def at? (x : Receiver) (i : Nat) (phase : StreamPhase) : Option (Stream × InstallSnapshotArgs) :=
  (x.streams[i]?).bind fun s =>
    if s.phase = phase then s.chunk.map fun c => (s, c) else none

/-- The handler of the stream at position `i` has come to `phase`, and the node to `n`. -/
def advance (x : Receiver) (i : Nat) (s : Stream) (n : RaftNode) (phase : StreamPhase) : Receiver :=
  ⟨n, x.streams.set i { s with phase := phase }⟩

/-- The handler returns, and the stream goes on with the next chunk. -/
def ended (x : Receiver) (i : Nat) (s : Stream) (n : RaftNode) : Receiver :=
  ⟨n, x.streams.set i ⟨s.transfer, s.next + 1, .recv⟩⟩

def step [Codec] (x : Receiver) : ReceiverAct → Option Receiver
  | .opened t => some { x with streams := x.streams ++ [⟨t, 0, .recv⟩] }
  | .recv i f =>
      (x.at? i .recv).map fun (s, c) =>
        match x.node.installAdmit c f with
        | none => x.ended i s x.node
        | some n => x.advance i s n .buffer
  | .buffer i =>
      (x.at? i .buffer).map fun (s, c) =>
        if c.done then x.advance i s (x.node.installBuffer c) .take
        else x.ended i s (x.node.installBuffer c)
  | .take i => (x.at? i .take).map fun (s, _) => x.ended i s x.node.installTake.1
  | .elsewhere n => some { x with node := { n with snapBuf := x.node.snapBuf } }
  | .restart boot => some ⟨x.node.restart boot, []⟩

/-- Which chunk went into the buffer last: the stream, and how many of its chunks had come
with it. -/
abbrev Written := Option (Nat × Nat)

/-- How a section changes that. -/
def wrote (x : Receiver) (act : ReceiverAct) (last : Written) : Written :=
  match act with
  | .buffer i => (x.streams[i]?).elim last fun s => some (i, s.next + 1)
  | .take _ | .restart _ => none
  | _ => last

/-- The condition: a chunk that is not the first of its transfer comes right after the one
before it, and the buffer is taken while the last chunk of the transfer is what was put in
last. -/
def undisturbed (x : Receiver × Written) : ReceiverAct → Bool
  | .buffer i =>
      (x.1.at? i .buffer).all fun (s, c) => c.offset == 0 || x.2 == some (i, s.next)
  | .take i => (x.1.at? i .take).all fun (s, _) => x.2 == some (i, s.next + 1)
  | _ => true

/-! ### What the buffer holds -/

variable {x x' : Receiver} {last : Written} {act : ReceiverAct} {i : Nat} {s : Stream}
variable {c : InstallSnapshotArgs} {phase : StreamPhase}

/-- The transfers of the streams. -/
def transfers (x : Receiver) : List SentSnapshot := x.streams.map Stream.transfer

theorem at?_some : x.at? i phase = some (s, c) ↔
    x.streams[i]? = some s ∧ s.phase = phase ∧ s.chunk = some c := by
  unfold at?
  rcases x.streams[i]? with - | s'
  · simp
  · simp only [Option.bind_some, Option.some.injEq]
    constructor
    · intro h
      split at h
      · next hp =>
        obtain ⟨c', hc', heq⟩ := Option.map_eq_some_iff.mp h
        obtain ⟨rfl, rfl⟩ := Prod.mk.inj heq
        exact ⟨rfl, hp, hc'⟩
      · cases h
    · rintro ⟨rfl, hp, hc⟩
      rw [if_pos hp, hc]
      rfl

theorem map_transfer_set {l : List Stream} {s' : Stream} (hs : l[i]? = some s)
    (ht : s'.transfer = s.transfer) :
    (l.set i s').map Stream.transfer = l.map Stream.transfer := by
  apply List.ext_getElem?
  intro j
  rw [List.getElem?_map, List.getElem?_map, List.getElem?_set]
  split
  · next hij =>
    subst hij
    have hlt := (List.getElem?_eq_some_iff.mp hs).1
    rw [if_pos hlt, hs, Option.map_some, Option.map_some, ht]
  · rfl

/-- What is known of the buffer: `last` tells which chunks it holds; and only a stream
whose last chunk is in takes it. -/
structure Holds (x : Receiver × Written) : Prop where
  buffer : ∀ i k, x.2 = some (i, k) →
    ∃ t, x.1.transfers[i]? = some t ∧ x.1.node.snapBuf = t.upTo k
  take : ∀ s ∈ x.1.streams, s.phase = .take → ∃ c, s.chunk = some c ∧ c.done = true

theorem Holds.frame (h : Holds (x, last)) {n : RaftNode} {s' : Stream}
    (hs : x.streams[i]? = some s) (ht : s'.transfer = s.transfer)
    (hbuf : n.snapBuf = x.node.snapBuf) (hphase : s'.phase ≠ .take) :
    Holds (⟨n, x.streams.set i s'⟩, last) := by
  constructor
  · intro j k hj
    obtain ⟨t, htr, hb⟩ := h.buffer j k hj
    exact ⟨t, by rw [transfers, map_transfer_set hs ht]; exact htr, hbuf.trans hb⟩
  · intro r hr hp
    rcases List.mem_or_eq_of_mem_set hr with hr | rfl
    · exact h.take r hr hp
    · exact absurd hp hphase

theorem snapBuf_installAdmit {n n' : RaftNode} {f : Faults} (h : n.installAdmit c f = some n') :
    n'.snapBuf = n.snapBuf := by
  obtain ⟨_, _, _, _, _, _, heq⟩ := RaftNode.electionOnly_installAdmit h
  rw [heq]

theorem Holds.put (h : Holds (x, last)) (hs : x.streams[i]? = some s) (hc : s.chunk = some c)
    (hok : c.offset = 0 ∨ last = some (i, s.next)) {s' : Stream} (ht : s'.transfer = s.transfer)
    (htake : s'.phase = .take → s'.chunk = some c ∧ c.done = true) :
    Holds (⟨x.node.installBuffer c, x.streams.set i s'⟩, some (i, s.next + 1)) := by
  constructor
  · intro j k hj
    obtain ⟨rfl, rfl⟩ := Prod.mk.inj (Option.some.inj hj)
    refine ⟨s.transfer, ?_, ?_⟩
    · rw [transfers, map_transfer_set hs ht, List.getElem?_map, hs]
      rfl
    · show (if c.offset = 0 then [] else x.node.snapBuf) ++ c.data = _
      rw [SentSnapshot.upTo_succ hc]
      congr 1
      split
      · next hzero =>
        -- the first chunk starts the buffer anew
        rw [SentSnapshot.eq_zero_of_offset hc hzero]
        rfl
      · next hpos =>
        -- the predecessor was put in last
        obtain ⟨t, htr, hb⟩ := h.buffer i s.next (hok.resolve_left hpos)
        rw [transfers, List.getElem?_map, hs] at htr
        obtain rfl := Option.some.inj htr
        exact hb
  · intro r hr hp
    rcases List.mem_or_eq_of_mem_set hr with hr | rfl
    · exact h.take r hr hp
    · exact ⟨c, htake hp⟩

theorem Holds.step [Codec] (h : Holds (x, last)) (hstep : x.step act = some x')
    (hok : undisturbed (x, last) act = true) : Holds (x', x.wrote act last) := by
  cases act with
  | opened t =>
    -- the positions of the other streams stay
    obtain rfl := Option.some.inj hstep
    constructor
    · intro i k hi
      obtain ⟨t', htr, hb⟩ := h.buffer i k hi
      refine ⟨t', ?_, hb⟩
      have hlt := (List.getElem?_eq_some_iff.mp htr).1
      have hsplit : transfers { x with streams := x.streams ++ [⟨t, 0, .recv⟩] } =
          x.transfers ++ [t] := List.map_append
      rw [hsplit, List.getElem?_append_left hlt]
      exact htr
    · intro s hs hp
      rcases List.mem_append.mp hs with hs | hs
      · exact h.take s hs hp
      · rw [List.mem_singleton.mp hs] at hp
        cases hp
  | recv i f =>
    obtain ⟨⟨s, c⟩, hat, rfl⟩ := Option.map_eq_some_iff.mp hstep
    obtain ⟨hs, _, _⟩ := at?_some.mp hat
    dsimp only
    split
    · exact h.frame hs rfl rfl (by simp)
    · next n hn => exact h.frame hs rfl (snapBuf_installAdmit hn) (by simp)
  | buffer i =>
    obtain ⟨⟨s, c⟩, hat, rfl⟩ := Option.map_eq_some_iff.mp hstep
    obtain ⟨hs, _, hc⟩ := at?_some.mp hat
    have hput : c.offset = 0 ∨ last = some (i, s.next) := by
      simpa [undisturbed, hat] using hok
    have hwrote : x.wrote (.buffer i) last = some (i, s.next + 1) := by
      simp [wrote, hs]
    rw [hwrote]
    dsimp only
    split
    · next hdone => exact h.put hs hc hput rfl fun _ => ⟨hc, hdone⟩
    · exact h.put hs hc hput rfl fun hp => by cases hp
  | take i =>
    -- nothing is known of the buffer afterwards
    obtain ⟨⟨s, c⟩, hat, rfl⟩ := Option.map_eq_some_iff.mp hstep
    refine Holds.mk (fun j k hj => by cases hj) fun r hr hp => ?_
    rcases List.mem_or_eq_of_mem_set hr with hr | rfl
    · exact h.take r hr hp
    · cases hp
  | elsewhere n =>
    obtain rfl := Option.some.inj hstep
    exact ⟨h.buffer, h.take⟩
  | restart boot =>
    obtain rfl := Option.some.inj hstep
    exact ⟨fun j k hj => (by cases hj), fun r hr => (by cases hr)⟩

theorem holds_of_runs [Codec] {n₀ : RaftNode} {y : Receiver × Written}
    (hrun : Runs (withHistory step wrote) (fun y a => undisturbed y a) (⟨n₀, []⟩, none) y) :
    Holds y := by
  refine hrun.invariant (P := Holds) ?_ ⟨fun i k h => (by cases h), fun s hs => (by cases hs)⟩
  rintro ⟨x, last⟩ act y h hstep hok
  obtain ⟨x', hx', rfl⟩ := Option.map_eq_some_iff.mp hstep
  exact h.step hx' hok

/-- **Chunks are reassembled per transfer**, if a chunk that is not the first comes right
after its predecessor and the buffer is taken before anything else is put in: what is
handed to `unmarshalSnapshotData` are the chunks of the transfer, which are the bytes that
were sent. -/
theorem chunks_reassembled [Codec] {n₀ : RaftNode} {y : Receiver × Written}
    (hrun : Runs (withHistory step wrote) (fun y a => undisturbed y a) (⟨n₀, []⟩, none) y)
    {i : Nat} {s : Stream} (hs : y.1.streams[i]? = some s) (hphase : s.phase = .take)
    (hok : undisturbed y (.take i) = true) :
    y.1.node.installTake.2 = (s.transfer.requests.map InstallSnapshotArgs.data).flatten ∧
      y.1.node.installTake.2 = s.transfer.raw := by
  have h := holds_of_runs hrun
  obtain ⟨c, hc, hdone⟩ := h.take s (List.mem_of_getElem? hs) hphase
  have hat : y.1.at? i .take = some (s, c) := at?_some.mpr ⟨hs, hphase, hc⟩
  have hlast : y.2 = some (i, s.next + 1) := by
    simpa [undisturbed, hat] using hok
  obtain ⟨t, ht, hbuf⟩ := h.buffer i (s.next + 1) hlast
  rw [transfers, List.getElem?_map, hs] at ht
  obtain rfl := Option.some.inj ht
  have hall : s.transfer.upTo (s.next + 1) =
      (s.transfer.requests.map InstallSnapshotArgs.data).flatten := by
    rw [SentSnapshot.upTo, SentSnapshot.length_of_done hc hdone, List.take_length]
  have hbytes : y.1.node.installTake.2 =
      (s.transfer.requests.map InstallSnapshotArgs.data).flatten := hbuf.trans hall
  exact ⟨hbytes, hbytes.trans SentSnapshot.flatten_requests⟩

/-! ### Runs of whole chunks -/

variable [Codec]

theorem runs_chunk (b : Bool) {y₀ : Receiver × Written} {t : SentSnapshot} {j : Nat}
    (hrun : Runs (withHistory step wrote) (fun y a => b || undisturbed y a) y₀ (x, last))
    (hs : x.streams[i]? = some ⟨t, j, .recv⟩) (hc : t.requests[j]? = some c)
    (hterm : x.node.currentTerm ≤ c.term)
    (hok : b = true ∨ c.offset = 0 ∨ last = some (i, j)) :
    ∃ n, Runs (withHistory step wrote) (fun y a => b || undisturbed y a) y₀
        (⟨n, x.streams.set i (if c.done then ⟨t, j, .take⟩ else ⟨t, j + 1, .recv⟩)⟩,
          some (i, j + 1)) ∧
      n.currentTerm = c.term ∧
      n.snapBuf = (if c.offset = 0 then [] else x.node.snapBuf) ++ c.data := by
  obtain ⟨m, hm, _, hmt⟩ := RaftNode.installAdmit_some Faults.none hterm
  have hlt := (List.getElem?_eq_some_iff.mp hs).1
  have hat : x.at? i .recv = some (⟨t, j, .recv⟩, c) := at?_some.mpr ⟨hs, rfl, hc⟩
  have hadmit : Runs (withHistory step wrote) (fun y a => b || undisturbed y a) y₀
      (⟨m, x.streams.set i ⟨t, j, .buffer⟩⟩, last) := by
    refine hrun.tail (a := .recv i Faults.none) ?_ (by simp [undisturbed])
    simp only [withHistory, step, hat, Option.map_some, hm]
    rfl
  have hs' : (x.streams.set i ⟨t, j, .buffer⟩)[i]? = some ⟨t, j, .buffer⟩ :=
    List.getElem?_set_self hlt
  have hat' : (⟨m, x.streams.set i ⟨t, j, .buffer⟩⟩ : Receiver).at? i .buffer =
      some (⟨t, j, .buffer⟩, c) := at?_some.mpr ⟨hs', rfl, hc⟩
  refine ⟨m.installBuffer c, hadmit.tail (a := .buffer i) ?_ ?_, hmt, ?_⟩
  · simp only [withHistory, step, hat', Option.map_some, wrote, hs', Option.elim_some]
    cases c.done <;> simp [advance, ended]
  · simpa [undisturbed, hat'] using hok
  · show (if c.offset = 0 then [] else m.snapBuf) ++ c.data = _
    rw [snapBuf_installAdmit hm]

theorem runs_opened (b : Bool) {y₀ : Receiver × Written} (t : SentSnapshot)
    (hrun : Runs (withHistory step wrote) (fun y a => b || undisturbed y a) y₀ (x, last)) :
    Runs (withHistory step wrote) (fun y a => b || undisturbed y a) y₀
      ({ x with streams := x.streams ++ [⟨t, 0, .recv⟩] }, last) :=
  hrun.tail (a := .opened t) rfl (by simp [undisturbed])

end Receiver

namespace RaftNode

theorem snapshotChunks_two (mk : Int → Bytes → Bool → InstallSnapshotArgs) {size k : Nat}
    (offset : Nat) {raw : Bytes} (hlo : size < raw.length) (hhi : raw.length ≤ 2 * size)
    (hk : 2 ≤ k) :
    snapshotChunks mk size k offset raw =
      [mk offset (raw.take size) false, mk (offset + size : Nat) (raw.drop size) true] := by
  obtain ⟨k, rfl⟩ : ∃ j, k = j + 2 := ⟨k - 2, by omega⟩
  obtain ⟨b, bs, hraw⟩ := List.exists_cons_of_length_pos (by omega : 0 < raw.length)
  have hlen : (raw.drop size).length = raw.length - size := List.length_drop
  obtain ⟨b', bs', hrest⟩ :=
    List.exists_cons_of_length_pos (by omega : 0 < (raw.drop size).length)
  rw [hraw, snapshotChunks_cons, ← hraw, hrest, snapshotChunks_cons, ← hrest,
    List.drop_of_length_le (by omega : (raw.drop size).length ≤ size),
    List.take_of_length_le (by omega : (raw.drop size).length ≤ size),
    decide_eq_false (by omega), decide_eq_true (by omega)]
  cases k <;> rfl

end RaftNode

/-! ### Two transfers that take turns -/

section

open Bytes Replay
open Wal (Crc32)

local instance reassemblyCodec : Codec := Codec.silent
local instance reassemblyCrc32 : Crc32 := Crc32.ieee

local instance reassemblyJson : ConfigJson where
  marshal c := if c = soleVoter then some soleVoterJson else none
  unmarshal json := if json = soleVoterJson then soleVoter else ⟨.stable, [], []⟩

/-- A value of 1 MiB. -/
def largeValue : Bytes := List.replicate 1048576 97

/-- A map with such a value, and the configuration. -/
def largeEntries : List (Bytes × Bytes) :=
  [(goString "x", largeValue), (snapshotConfigKey, soleVoterJson)]

def largeContents : SnapshotContents :=
  ⟨run write (fun _ => none) [(goString "x", largeValue)], soleVoter⟩

theorem large_snapshot (index : Int) :
    ∃ raw csum, encodeSnapshot (fun _ => largeEntries) index 1 largeContents = .ok (raw, csum) ∧
      RaftNode.snapshotChunkSize < raw.length ∧ raw.length ≤ 2 * RaftNode.snapshotChunkSize ∧
      slice (raw.take RaftNode.snapshotChunkSize) 6 14 = putIntBE 8 index := by
  have hkey : (goString "x").length = 1 := by decide +kernel
  have hval : largeValue.length = 1048576 := List.length_replicate
  have hckey : snapshotConfigKey.length = 24 := by decide +kernel
  have hjson : soleVoterJson.length = 45 := by decide +kernel
  obtain ⟨rest, csum, henc, hlen⟩ := @encodeSnapshot_of_fits _ _ (fun _ => largeEntries) index 1
    largeContents soleVoterJson rfl (by
      intro p hp
      rcases List.mem_cons.mp hp with rfl | hp
      · simp [hkey, hval]
      · rw [List.mem_singleton.mp hp]
        simp [hckey, hjson])
  have hsize : bodySize largeEntries = 1048658 := by
    simp [bodySize, largeEntries, hkey, hval, hckey, hjson]
  rw [hsize] at hlen
  have hhead := length_snapshotHeader index 1 largeEntries.length
  refine ⟨_, csum, henc, ?_, ?_, ?_⟩
  · rw [List.length_append, hhead, hlen]
    decide
  · rw [List.length_append, hhead, hlen]
    decide
  · rw [List.take_append, List.take_of_length_le (by rw [hhead]; decide)]
    exact (header_fields index 1 largeEntries.length _).2.1

/-- The leader `l` of term 1 sends the snapshot of an index. -/
def largeTransfer (index : Int) (raw : Bytes) : SentSnapshot := ⟨1, "l", ⟨index, 1⟩, raw⟩

theorem requests_largeTransfer (index : Int) {raw : Bytes}
    (hlo : RaftNode.snapshotChunkSize < raw.length)
    (hhi : raw.length ≤ 2 * RaftNode.snapshotChunkSize) :
    (largeTransfer index raw).requests[0]? =
        some ⟨1, "l", index, 1, 0, raw.take RaftNode.snapshotChunkSize, false⟩ ∧
      (largeTransfer index raw).requests[1]? =
        some ⟨1, "l", index, 1, RaftNode.snapshotChunkSize, raw.drop RaftNode.snapshotChunkSize,
          true⟩ := by
  have hk : 2 ≤ raw.length := by
    omega
  have h : (largeTransfer index raw).requests = _ := RaftNode.snapshotChunks_two
    (fun offset data done => ⟨1, "l", index, 1, offset, data, done⟩) 0 hlo hhi hk
  rw [h, Nat.zero_add]
  exact ⟨rfl, rfl⟩

/-- A node that has just been started. -/
def newFollower : RaftNode := RaftNode.newRaftNode "f" none none none

/-- A transfer that is left alone after another one was broken off. -/
theorem chunks_reassembled_second :
    ∃ raw csum y s, encodeSnapshot (fun _ => largeEntries) 5 1 largeContents = .ok (raw, csum) ∧
      Runs (withHistory Receiver.step Receiver.wrote) (fun y a => Receiver.undisturbed y a)
        (⟨newFollower, []⟩, none) y ∧
      y.1.streams[1]? = some s ∧ s.transfer = largeTransfer 5 raw ∧
      y.1.node.installTake.2 = raw := by
  obtain ⟨raw, csum, henc, hlo, hhi, _⟩ := large_snapshot 5
  obtain ⟨hc, hc'⟩ := requests_largeTransfer 5 hlo hhi
  have hopen := Receiver.runs_opened false (largeTransfer 5 raw)
    (Receiver.runs_opened false (largeTransfer 5 raw) (Runs.refl (⟨newFollower, []⟩, none)))
  have hterm : newFollower.currentTerm ≤ 1 := by decide
  obtain ⟨n₁, h₁, ht₁, -⟩ := Receiver.runs_chunk false (i := 0) hopen rfl hc hterm (.inr (.inl rfl))
  obtain ⟨n₂, h₂, ht₂, -⟩ := Receiver.runs_chunk false (i := 1) h₁ rfl hc ht₁.le (.inr (.inl rfl))
  obtain ⟨n₃, h₃, -, -⟩ := Receiver.runs_chunk false (i := 1) h₂ rfl hc' ht₂.le (.inr (.inr rfl))
  have hrun : Runs (withHistory Receiver.step Receiver.wrote)
      (fun y a => Receiver.undisturbed y a) (⟨newFollower, []⟩, none) _ :=
    h₃.weaken fun y a h => by simpa using h
  refine ⟨raw, csum, _, ⟨largeTransfer 5 raw, 1, .take⟩, henc, hrun, rfl, rfl, ?_⟩
  refine (Receiver.chunks_reassembled (s := ⟨largeTransfer 5 raw, 1, .take⟩) (i := 1) hrun rfl rfl
    ?_).2
  simp [Receiver.undisturbed, Receiver.at?, Stream.chunk, hc']

/-- **Two transfers that take turns.**  The first chunk of the snapshot of index 6 comes
between the two chunks of the snapshot of index 5: what is decoded in the end begins with
the one and ends with the other. -/
theorem interleaved_transfers_mix :
    ∃ raw raw' csum csum' y s,
      encodeSnapshot (fun _ => largeEntries) 5 1 largeContents = .ok (raw, csum) ∧
      encodeSnapshot (fun _ => largeEntries) 6 1 largeContents = .ok (raw', csum') ∧
      Runs (withHistory Receiver.step Receiver.wrote) (fun _ _ => True)
        (⟨newFollower, []⟩, none) y ∧
      y.1.transfers = [largeTransfer 5 raw, largeTransfer 6 raw'] ∧
      y.1.streams[0]? = some s ∧ s.phase = .take ∧
      y.1.node.installTake.2 ≠ (s.transfer.requests.map InstallSnapshotArgs.data).flatten := by
  obtain ⟨raw, csum, henc, hlo, hhi, hindex⟩ := large_snapshot 5
  obtain ⟨raw', csum', henc', hlo', hhi', hindex'⟩ := large_snapshot 6
  obtain ⟨hc₀, hc₁⟩ := requests_largeTransfer 5 hlo hhi
  obtain ⟨hc₀', -⟩ := requests_largeTransfer 6 hlo' hhi'
  have hopen := Receiver.runs_opened true (largeTransfer 6 raw')
    (Receiver.runs_opened true (largeTransfer 5 raw) (Runs.refl (⟨newFollower, []⟩, none)))
  have hterm : newFollower.currentTerm ≤ 1 := by decide
  obtain ⟨n₁, h₁, ht₁, -⟩ := Receiver.runs_chunk true (i := 0) hopen rfl hc₀ hterm (.inl rfl)
  obtain ⟨n₂, h₂, ht₂, hb₂⟩ := Receiver.runs_chunk true (i := 1) h₁ rfl hc₀' ht₁.le (.inl rfl)
  obtain ⟨n₃, h₃, -, hb₃⟩ := Receiver.runs_chunk true (i := 0) h₂ rfl hc₁ ht₂.le (.inl rfl)
  refine ⟨raw, raw', csum, csum', _, _, henc, henc', h₃.weaken fun _ _ _ => trivial, rfl, rfl, rfl,
    fun heq => ?_⟩
  have hmixed : n₃.snapBuf = raw'.take RaftNode.snapshotChunkSize ++
      raw.drop RaftNode.snapshotChunkSize := by
    rw [hb₃, if_neg (by simp [RaftNode.snapshotChunkSize])]
    rw [hb₂]
    rfl
  have hraw : n₃.snapBuf = raw := heq.trans SentSnapshot.flatten_requests
  -- the beginnings would have to be the same
  have htake : raw.take RaftNode.snapshotChunkSize = raw'.take RaftNode.snapshotChunkSize := by
    rw [← hraw, hmixed, List.take_append_of_le_length (by rw [List.length_take]; omega),
      List.take_take, Nat.min_self]
  rw [htake, hindex'] at hindex
  exact absurd hindex (by decide)

end

end Raft
