/-
CoreX/Service/Site.lean

The cluster behind `POST /ingest` and `GET /kv/{key}`.  Every node has the hash ring, and
a request for a source that another node owns is forwarded there by gRPC.
-/
import CoreX.Raft.Retained
import CoreX.Raft.ReadIndex
import CoreX.Storage.Writers
import CoreX.Service.Ring

namespace Service

open Raft Kv StepSystem
open Wal (Crc32)

/-! ### The configuration -/

/-- A Raft group whose nodes share a ring with at least one of them in it. -/
structure Topology where
  cluster : Cluster
  ring : Ring
  nonempty : ring.points ≠ []
  /-- `JobBufferSize` of the worker pools. -/
  bufferDepth : Nat
  /-- The bound of the event stores' indexes. -/
  maxKeys : Nat

/-- The node that a handler at `a` forwards to, if it does. -/
def Topology.target (T : Topology) (a : Addr) (key : String) : Option RingNode :=
  match T.ring.lookup key with
  | some target => if target.id ≠ T.cluster.idOf a then some target else none
  | none => none

/-! ### The state -/

/-- How far `Ingest` has come with a forwarded event.  `n` is its place among all the
events of the store, `offset` that in the file. -/
inductive IngestStage
  | received
  /-- `WriteEvent`, between its two sections. -/
  | appended (n offset : Nat)
  /-- `WriteEvent` has returned `nil`. -/
  | indexed (n offset : Nat)
  deriving DecidableEq, Repr

/-- A call of `Forward`: the handler's node and the owner, who runs `Ingest`. -/
structure IngestCall where
  src : Addr
  owner : Addr
  source : String
  payload : String
  stage : IngestStage
  /-- The handler has not given up. -/
  awaited : Bool
  deriving DecidableEq, Repr

/-- The event of a call; the time is set when it is written. -/
def IngestCall.event (c : IngestCall) : Event := ⟨0, bytes c.source, bytes c.payload⟩

/-- What the call still has to set in the index of `b`. -/
def IngestCall.pendingAt (b : Addr) (c : IngestCall) : Option (List UInt8 × Nat) :=
  match c.stage with
  | .appended _ offset => if c.owner = b then some (bytes c.source, offset) else none
  | _ => none

/-- Where a handler of `GET` stands. -/
inductive GetStage
  /-- In `ForwardGet`. -/
  | forwarded (owner : Addr)
  /-- In `ReadIndex`. -/
  | reading (call : ReadCall)
  /-- Before `WaitForIndex`. -/
  | checking (readIndex : Int)
  /-- `lastApplied` was below the index. -/
  | registering (readIndex : Int)
  | waiting (readIndex : Int)
  /-- `WaitForIndex` has returned `nil`. -/
  | ready
  deriving DecidableEq, Repr

/-- The node that serves a forwarded request. -/
def GetStage.owner : GetStage → Option Addr
  | .forwarded owner => some owner
  | _ => none

structure GetCall where
  node : Addr
  key : String
  stage : GetStage
  deriving DecidableEq, Repr

/-- `WaitForIndex` returns if it waits at `a` for one of these indices. -/
def GetCall.wake (a : Addr) (woken : Int → Bool) (g : GetCall) : GetCall :=
  match g.stage with
  | .waiting i => if g.node = a ∧ woken i then { g with stage := .ready } else g
  | _ => g

/-- Where a write has gone: a log entry, or an event of the owner. -/
inductive Landing
  | log (e : LogEntry)
  | event (owner : Addr) (n : Nat)
  deriving DecidableEq, Repr

/-- A `POST /ingest` at a node. -/
structure Post where
  node : Addr
  source : String
  payload : String
  landing : Landing
  deriving DecidableEq, Repr

/-- The event of a forwarded post. -/
def Post.event (post : Post) : Event := ⟨0, bytes post.source, bytes post.payload⟩

/-- What `GET` answers. -/
inductive GetResponse
  /-- 200 from the state machine. -/
  | value (key value : String)
  /-- 200 from the owner. -/
  | event (source payload : List UInt8)
  | notFound
  | badRequest
  /-- 503. -/
  | unavailable
  /-- 307 to the leader, or 503. -/
  | notLeader
  /-- 504. -/
  | timeout
  deriving DecidableEq, Repr

namespace GetResponse

/-- The request has been served: the key was looked up. -/
def served : GetResponse → Bool
  | value _ _ => true
  | event _ _ => true
  | notFound => true
  | _ => false

/-- The payload in the answer. -/
def payload : GetResponse → Option (List UInt8)
  | value _ v => some (bytes v)
  | event _ p => some p
  | _ => none

end GetResponse

structure Site where
  deployment : Deployment
  /-- `ReadIndex` calls, as in `ReadWorld`. -/
  readers : Addr → Reader
  /-- Those that have returned without an error. -/
  returned : List (Addr × ReadCall)
  stores : Addr → EventStore
  /-- The events of each store in the order of their appends. -/
  appended : Addr → List Event
  /-- How many events are in the channel of the worker pool. -/
  jobs : Addr → Nat
  ingests : List IngestCall
  gets : List GetCall
  /-- The posts that a node has proposed to Raft itself. -/
  proposed : List Post
  /-- The forwarded posts that were answered with 202. -/
  accepted : List Post

inductive SiteAct
  /-- A section of the process; `crash` and `ReadIndex` have their own. -/
  | process (act : ProcessAct)
  /-- The first `size` bytes of the event file are left. -/
  | crash (keep : Nat) (results : LogEntry → StoreResult) (size : Nat)
  /-- `data` is the JSON of the command. -/
  | post (source payload : String) (healthy : Bool) (data : Bytes) (f : Faults)
  | append (j : Nat) (now : UInt64)
  | setIndex (j : Nat)
  | submit (j : Nat)
  | giveUp (j : Nat)
  | work
  | get (key : String) (healthy : Bool)
  | read (act : ReadAct)
  | getNext (j : Nat)
  | getTimeout (j : Nat)

/-- The section of the node that belongs to one of `ReadIndex`. -/
def readNodeAct : ReadAct → Option Act
  | .readIndex => some .readIndex
  | .alone i => some (.confirm i)
  | .confirm i => some (.confirm i)
  | _ => none

/-- The sections that a process takes by itself. -/
def ownSection : ProcessAct → Bool
  | .node .readIndex => false
  | .node (.confirm _) => false
  | .crash _ _ => false
  | _ => true

/-- `notifyWaiters` of the key-value machine: the indices whose waiters a section
wakes. -/
def notified [Codec] (p : Process) : ProcessAct → Int → Bool
  | .node act, i =>
      match p.restoring act with
      | some (args, _) => decide (i ≤ args.lastIncludedIndex)
      | none => false
  | .kvWrite _, i =>
      match p.storing, p.kvCh with
      | none, e :: _ => !wellFormed e && decide (i = e.index)
      | _, _ => false
  | .kvStore, i => p.storing.any fun e => decide (i = e.index)
  | _, _ => false

/-- Of the event file the first `size` bytes are left. -/
def cutFile (s : EventStore) (size : Nat) : EventStore :=
  { s with inodes := Function.update s.inodes s.path (s.wal.take size) }

namespace Site

/-- The event store of `b` as its writers see it. -/
def writers (S : Site) (b : Addr) : Writers :=
  ⟨S.stores b, S.ingests.filterMap (IngestCall.pendingAt b), S.appended b⟩

/-- The cluster as `ReadIndex` sees it. -/
def readWorld (S : Site) : ReadWorld := ⟨fun a => (S.deployment a).node, S.readers, 0, S.returned⟩

section

variable [Codec] (T : Topology) (S : Site) (a : Addr)

/-! ### Sections of the process -/

/-- A section of the process at `a`; it may wake handlers of `GET`. -/
def advance (act : ProcessAct) : Option Site :=
  (Deployment.step T.cluster S.deployment (a, act)).map fun D =>
    { S with
      deployment := D
      gets := S.gets.map (GetCall.wake a (notified (S.deployment a) act)) }

/-- A section of `ReadIndex` at `a`. -/
def read (act : ReadAct) : Option Site :=
  match act with
  | .node _ => none
  | act =>
      (ReadWorld.step T.cluster S.readWorld (a, act)).bind fun R =>
        match readNodeAct act with
        | some nodeAct =>
            (Deployment.step T.cluster S.deployment (a, .node nodeAct)).map fun D =>
              { S with deployment := D, readers := R.readers, returned := R.answers }
        | none => some { S with readers := R.readers, returned := R.answers }

/-- A crash ends the calls at the node, and those to it.  Then `main` recovers the event
store, whose error is fatal, and hands its events to the worker pool. -/
def crash [Crc32] (keep : Nat) (results : LogEntry → StoreResult) (size : Nat) : Option Site :=
  (Deployment.step T.cluster S.deployment (a, .crash keep results)).bind fun D =>
    match (cutFile (S.stores a) size).reopen with
    | (store, count, none) =>
        some { S with
          deployment := D
          readers := Function.update S.readers a ⟨[], []⟩
          returned := S.returned.filter fun q => q.1 ≠ a
          stores := Function.update S.stores a store
          jobs := Function.update S.jobs a (min count T.bufferDepth)
          ingests := (S.ingests.filter fun c => c.owner ≠ a).map fun c =>
            if c.src = a then { c with awaited := false } else c
          gets := S.gets.filter fun g => g.node ≠ a }
    | (_, _, some _) => none

/-! ### `POST /ingest` -/

/-- `HTTPHandler.ServeHTTP`, after the body has been parsed.  An empty field is answered
with 422, an unhealthy owner with 503. -/
def post (source payload : String) (healthy : Bool) (data : Bytes) (f : Faults) : Option Site :=
  if source = "" ∨ payload = "" then some S
  else
    match T.target a source with
    | some target =>
        if healthy then
          some { S with
            ingests := S.ingests ++ [⟨a, target.addr, source, payload, .received, true⟩] }
        else some S
    | none =>
        -- `serveUnifiedIngest`
        if Codec.unmarshalCommand data = some ⟨"set", source, payload, 0⟩ then
          let r := (S.deployment a).node.raft.propose data f
          (S.advance T a (.request .kv data f)).map fun S' =>
            if r.2.2.2 then
              { S' with
                proposed := S.proposed ++
                  [⟨a, source, payload, .log ⟨r.2.1, r.2.2.1, entryTypeCommand, data⟩⟩] }
            else S'
        else none

end

section

variable (T : Topology) (S : Site) (a : Addr) (j : Nat)

/-- The `j`th call has come to another stage. -/
def moveIngest (c : IngestCall) : Site := { S with ingests := S.ingests.eraseIdx j ++ [c] }

/-- The `j`th call has returned. -/
def dropIngest : Site := { S with ingests := S.ingests.eraseIdx j }

/-- `Ingest` at its owner `a`: the append. -/
def append [Crc32] (now : UInt64) : Option Site :=
  match S.ingests[j]? with
  | some c =>
      if c.owner = a ∧ c.stage = .received then
        let (offset, store) := (S.stores a).writeEventOffset now c.event
        some { S.moveIngest j { c with stage := .appended (S.appended a).length offset } with
          stores := Function.update S.stores a store
          appended := Function.update S.appended a (S.appended a ++ [c.event]) }
      else none
  | none => none

/-- `Ingest`: the index.  If it is full, the caller is told so and answers 503. -/
def setIndex : Option Site :=
  match S.ingests[j]? with
  | some c =>
      match c.stage with
      | .appended n offset =>
          if c.owner = a then
            match (S.stores a).setIndex (bytes c.source) offset with
            | (store, none) =>
                some { S.moveIngest j { c with stage := .indexed n offset } with
                  stores := Function.update S.stores a store }
            | (_, some _) => some (S.dropIngest j)
          else none
      | _ => none
  | none => none

/-- `Ingest`: `Submit` puts the event into the channel of the worker pool, and the caller
answers 202; if the channel is full, 503. -/
def submit : Option Site :=
  match S.ingests[j]? with
  | some c =>
      match c.stage with
      | .indexed n _ =>
          if c.owner = a then
            if S.jobs a < T.bufferDepth then
              some { S.dropIngest j with
                jobs := Function.update S.jobs a (S.jobs a + 1)
                accepted :=
                  if c.awaited then
                    S.accepted ++ [⟨c.src, c.source, c.payload, .event a n⟩]
                  else S.accepted }
            else some (S.dropIngest j)
          else none
      | _ => none
  | none => none

/-- The context of the handler at `a` is done: it answers 503, and `Ingest` goes on. -/
def giveUp : Option Site :=
  match S.ingests[j]? with
  | some c =>
      if c.src = a then
        some { S with ingests := S.ingests.set j { c with awaited := false } }
      else none
  | none => none

/-- A worker takes an event from the channel. -/
def work : Option Site :=
  if 0 < S.jobs a then some { S with jobs := Function.update S.jobs a (S.jobs a - 1) } else none

/-! ### `GET /kv/{key}` -/

def setGet (g : GetCall) (stage : GetStage) : Site :=
  { S with gets := S.gets.set j { g with stage := stage } }

def dropGet : Site := { S with gets := S.gets.eraseIdx j }

/-- `UnifiedKVHandler.ServeHTTP`, up to `ForwardGet` or the start of `ReadIndex`. -/
def get [Codec] (key : String) (healthy : Bool) : Option Site :=
  if key = "" then some S
  else
    match T.target a key with
    | some target =>
        if healthy then
          some { S with gets := S.gets ++ [⟨a, key, .forwarded target.addr⟩] }
        else some S
    | none =>
        let n := (S.deployment a).node.raft
        if n.role = .leader then
          (S.read T a .readIndex).map fun S' =>
            { S' with
              gets := S.gets ++ [⟨a, key, .reading ⟨n.currentTerm, n.commitIndex, 0⟩⟩] }
        else some S

/-- The next section of the `j`th handler. -/
def getNext : Option Site :=
  match S.gets[j]? with
  | some g =>
      if g.node = a then
        match g.stage with
        | .forwarded _ => some (S.dropGet j)
        | .reading q =>
            if (a, q) ∈ S.returned then
              some { S.setGet j g (.checking q.capturedCommitIndex) with
                returned := S.returned.erase (a, q) }
            else none
        | .checking i =>
            some (S.setGet j g
              (if i ≤ (S.deployment a).kvApplied then .ready else .registering i))
        | .registering i => some (S.setGet j g (.waiting i))
        | .waiting _ => none
        | .ready => some (S.dropGet j)
      else none
  | none => none

/-- The context of the `j`th handler is done. -/
def getTimeout : Option Site :=
  match S.gets[j]? with
  | some ⟨b, _, .forwarded _⟩ | some ⟨b, _, .reading _⟩ | some ⟨b, _, .waiting _⟩ =>
      if b = a then some (S.dropGet j) else none
  | _ => none

/-- What `sm.Get` returns. -/
def readMap (key : String) : GetResponse :=
  match (S.deployment a).kvData key with
  | some value => .value key value
  | none => .notFound

/-- What `GRPCKVServer.Get` of the owner returns. -/
def readStore [Crc32] (owner : Addr) (key : String) : GetResponse :=
  match (S.stores owner).get (bytes key) with
  | .ok e => .event e.source e.payload
  | .error .errKeyNotFound => .notFound
  | .error _ => .unavailable

/-- **The answer to a `GET`** that a section gives, with its key. -/
def answer [Crc32] (e : Addr × SiteAct) : Option (String × GetResponse) :=
  match e.2 with
  | .get key healthy =>
      if key = "" then some (key, .badRequest)
      else
        match T.target e.1 key with
        | some _ => if healthy then none else some (key, .unavailable)
        | none =>
            if (S.deployment e.1).node.raft.role = .leader then none else some (key, .notLeader)
  | .getNext j =>
      match S.gets[j]? with
      | some ⟨b, key, .forwarded owner⟩ =>
          if b = e.1 then some (key, S.readStore owner key) else none
      | some ⟨b, key, .ready⟩ => if b = e.1 then some (key, S.readMap b key) else none
      | _ => none
  | .getTimeout j =>
      match S.gets[j]? with
      | some ⟨b, key, .waiting _⟩ => if b = e.1 then some (key, .timeout) else none
      | some ⟨b, key, .forwarded _⟩ | some ⟨b, key, .reading _⟩ =>
          if b = e.1 then some (key, .unavailable) else none
      | _ => none
  | _ => none

end

/-! ### The step -/

section

variable [Codec] [Crc32] (T : Topology)

/-- **One section at one member.** -/
def step (S : Site) (e : Addr × SiteAct) : Option Site :=
  if e.1 ∈ T.cluster.members then
    match e.2 with
    | .process act => if ownSection act then S.advance T e.1 act else none
    | .crash keep results size => S.crash T e.1 keep results size
    | .post source payload healthy data f => S.post T e.1 source payload healthy data f
    | .append j now => S.append e.1 j now
    | .setIndex j => S.setIndex e.1 j
    | .submit j => S.submit T e.1 j
    | .giveUp j => S.giveUp e.1 j
    | .work => S.work e.1
    | .get key healthy => S.get T e.1 key healthy
    | .read act => S.read T e.1 act
    | .getNext j => S.getNext e.1 j
    | .getTimeout j => S.getTimeout e.1 j
  else none

/-- All nodes freshly started. -/
def init (cfg : Addr → SnapshotConfig) : Site where
  deployment := Deployment.init T.cluster cfg
  readers _ := ⟨[], []⟩
  returned := []
  stores _ := .newStore T.maxKeys
  appended _ := []
  jobs _ := 0
  ingests := []
  gets := []
  proposed := []
  accepted := []

end

/-! ### What the sections do -/

section

variable {T : Topology} {S S' : Site} {a : Addr} {j : Nat}

theorem advance_some [Codec] {act : ProcessAct} (h : S.advance T a act = some S') :
    ∃ D, Deployment.step T.cluster S.deployment (a, act) = some D ∧
      S' = { S with
        deployment := D
        gets := S.gets.map (GetCall.wake a (notified (S.deployment a) act)) } := by
  obtain ⟨D, hD, rfl⟩ := Option.map_eq_some_iff.mp h
  exact ⟨D, hD, rfl⟩

theorem read_some [Codec] {act : ReadAct} (h : S.read T a act = some S') :
    ∃ D readers returned,
      S' = { S with deployment := D, readers := readers, returned := returned } ∧
      (D = S.deployment ∨ ∃ nodeAct, (nodeAct = .readIndex ∨ ∃ i, nodeAct = .confirm i) ∧
        Deployment.step T.cluster S.deployment (a, .node nodeAct) = some D) := by
  unfold read at h
  split at h
  · cases h
  · obtain ⟨R, _, hR⟩ := Option.bind_eq_some_iff.mp h
    split at hR
    · next nodeAct hact =>
      obtain ⟨D, hD, rfl⟩ := Option.map_eq_some_iff.mp hR
      refine ⟨D, R.readers, R.answers, rfl, .inr ⟨nodeAct, ?_, hD⟩⟩
      unfold readNodeAct at hact
      split at hact <;> cases hact
      · exact .inl rfl
      · exact .inr ⟨_, rfl⟩
      · exact .inr ⟨_, rfl⟩
    · cases hR
      exact ⟨_, _, _, rfl, .inl rfl⟩

theorem crash_some [Codec] [Crc32] {keep : Nat} {results : LogEntry → StoreResult} {size : Nat}
    (h : S.crash T a keep results size = some S') :
    ∃ D store count, Deployment.step T.cluster S.deployment (a, .crash keep results) = some D ∧
      (cutFile (S.stores a) size).reopen = (store, count, none) ∧
      S' = { S with
        deployment := D
        readers := Function.update S.readers a ⟨[], []⟩
        returned := S.returned.filter fun q => q.1 ≠ a
        stores := Function.update S.stores a store
        jobs := Function.update S.jobs a (min count T.bufferDepth)
        ingests := (S.ingests.filter fun c => c.owner ≠ a).map fun c =>
          if c.src = a then { c with awaited := false } else c
        gets := S.gets.filter fun g => g.node ≠ a } := by
  obtain ⟨D, hD, hrest⟩ := Option.bind_eq_some_iff.mp h
  split at hrest
  · next store count hreopen =>
    cases hrest
    exact ⟨D, store, count, hD, hreopen, rfl⟩
  · cases hrest

theorem post_cases [Codec] {source payload : String} {healthy : Bool} {data : Bytes} {f : Faults}
    (h : S.post T a source payload healthy data f = some S') :
    S' = S ∨
    (∃ target, T.target a source = some target ∧
      S' = { S with
        ingests := S.ingests ++ [⟨a, target.addr, source, payload, .received, true⟩] }) ∨
    T.target a source = none ∧ Codec.unmarshalCommand data = some ⟨"set", source, payload, 0⟩ ∧
      ∃ S₁, S.advance T a (.request .kv data f) = some S₁ ∧
        (S' = S₁ ∨ ∃ i t, S' = { S₁ with
          proposed := S.proposed ++
            [⟨a, source, payload, .log ⟨i, t, entryTypeCommand, data⟩⟩] }) := by
  unfold post at h
  split at h
  · cases h
    exact .inl rfl
  · split at h
    · next target ht =>
      split at h <;> cases h
      · exact .inr (.inl ⟨target, ht, rfl⟩)
      · exact .inl rfl
    · next ht =>
      split at h
      · next hdata =>
        obtain ⟨S₁, hS₁, hS'⟩ := Option.map_eq_some_iff.mp h
        refine .inr (.inr ⟨ht, hdata, S₁, hS₁, ?_⟩)
        split at hS'
        · exact .inr ⟨_, _, hS'.symm⟩
        · exact .inl hS'.symm
      · cases h

theorem append_some [Crc32] {now : UInt64} (h : S.append a j now = some S') :
    ∃ c, S.ingests[j]? = some c ∧ c.owner = a ∧ c.stage = .received ∧
      S' = { S with
        ingests := S.ingests.eraseIdx j ++ [{ c with
          stage := .appended (S.appended a).length ((S.stores a).writeEventOffset now c.event).1 }]
        stores := Function.update S.stores a ((S.stores a).writeEventOffset now c.event).2
        appended := Function.update S.appended a (S.appended a ++ [c.event]) } := by
  unfold append at h
  split at h
  · next c hc =>
    split at h
    · next hown =>
      cases h
      exact ⟨c, hc, hown.1, hown.2, rfl⟩
    · cases h
  · cases h

theorem setIndex_cases (h : S.setIndex a j = some S') :
    ∃ c n offset, S.ingests[j]? = some c ∧ c.owner = a ∧ c.stage = .appended n offset ∧
      ((∃ store, (S.stores a).setIndex (bytes c.source) offset = (store, none) ∧
        S' = { S with
          ingests := S.ingests.eraseIdx j ++ [{ c with stage := .indexed n offset }]
          stores := Function.update S.stores a store }) ∨
      (∃ store err, (S.stores a).setIndex (bytes c.source) offset = (store, some err)) ∧
        S' = { S with ingests := S.ingests.eraseIdx j }) := by
  unfold setIndex at h
  split at h
  · next c hc =>
    split at h
    · next n offset hstage =>
      split at h
      · next hown =>
        refine ⟨c, n, offset, hc, hown, hstage, ?_⟩
        split at h
        · next store hset =>
          cases h
          exact .inl ⟨store, hset, rfl⟩
        · next store err hset =>
          cases h
          exact .inr ⟨⟨store, err, hset⟩, rfl⟩
      · cases h
    · cases h
  · cases h

theorem submit_cases (h : S.submit T a j = some S') :
    ∃ c n offset, S.ingests[j]? = some c ∧ c.owner = a ∧ c.stage = .indexed n offset ∧
      ∃ jobs accepted,
        S' = { S with ingests := S.ingests.eraseIdx j, jobs := jobs, accepted := accepted } ∧
        (accepted = S.accepted ∨
          accepted = S.accepted ++ [⟨c.src, c.source, c.payload, .event a n⟩]) := by
  unfold submit at h
  split at h
  · next c hc =>
    split at h
    · next n offset hstage =>
      split at h
      · next hown =>
        refine ⟨c, n, offset, hc, hown, hstage, ?_⟩
        split at h <;> cases h
        · refine ⟨_, _, rfl, ?_⟩
          split
          · exact .inr rfl
          · exact .inl rfl
        · exact ⟨S.jobs, S.accepted, rfl, .inl rfl⟩
      · cases h
    · cases h
  · cases h

theorem giveUp_some (h : S.giveUp a j = some S') :
    ∃ c, S.ingests[j]? = some c ∧
      S' = { S with ingests := S.ingests.set j { c with awaited := false } } := by
  unfold giveUp at h
  split at h
  · next c hc =>
    split at h <;> cases h
    exact ⟨c, hc, rfl⟩
  · cases h

theorem get_cases [Codec] {key : String} {healthy : Bool} (h : S.get T a key healthy = some S') :
    S' = S ∨
    (∃ target, T.target a key = some target ∧
      S' = { S with gets := S.gets ++ [⟨a, key, .forwarded target.addr⟩] }) ∨
    T.target a key = none ∧ ∃ S₁ q, S.read T a .readIndex = some S₁ ∧
      S' = { S₁ with gets := S.gets ++ [⟨a, key, .reading q⟩] } := by
  unfold get at h
  split at h
  · cases h
    exact .inl rfl
  · split at h
    · next target ht =>
      split at h <;> cases h
      · exact .inr (.inl ⟨target, ht, rfl⟩)
      · exact .inl rfl
    · next ht =>
      dsimp only at h
      split at h
      · obtain ⟨S₁, hS₁, rfl⟩ := Option.map_eq_some_iff.mp h
        exact .inr (.inr ⟨ht, S₁, _, hS₁, rfl⟩)
      · cases h
        exact .inl rfl

theorem getNext_some (h : S.getNext a j = some S') :
    ∃ gets returned, S' = { S with gets := gets, returned := returned } ∧
      ∀ g ∈ gets, ∃ g₀ ∈ S.gets, g.node = g₀.node ∧ g.key = g₀.key ∧
        g.stage.owner = g₀.stage.owner := by
  have hdrop : ∀ g ∈ S.gets.eraseIdx j, ∃ g₀ ∈ S.gets, g.node = g₀.node ∧ g.key = g₀.key ∧
      g.stage.owner = g₀.stage.owner := fun g hg =>
    ⟨g, List.mem_of_mem_eraseIdx hg, rfl, rfl, rfl⟩
  unfold getNext at h
  split at h
  · next g₀ hg₀ =>
    have hset : ∀ stage : GetStage, stage.owner = g₀.stage.owner →
        ∀ g ∈ S.gets.set j { g₀ with stage := stage }, ∃ g₀ ∈ S.gets, g.node = g₀.node ∧
          g.key = g₀.key ∧ g.stage.owner = g₀.stage.owner := by
      intro stage hstage g hg
      rcases List.mem_or_eq_of_mem_set hg with hg | rfl
      · exact ⟨g, hg, rfl, rfl, rfl⟩
      · exact ⟨g₀, List.mem_of_getElem? hg₀, rfl, rfl, hstage⟩
    split at h
    · split at h
      · cases h
        exact ⟨_, _, rfl, hdrop⟩
      · next q hstage =>
        split at h <;> cases h
        exact ⟨_, _, rfl, hset _ (by rw [hstage]; rfl)⟩
      · next i hstage =>
        cases h
        refine ⟨_, _, rfl, hset _ ?_⟩
        rw [hstage]
        split <;> rfl
      · next i hstage =>
        cases h
        exact ⟨_, _, rfl, hset _ (by rw [hstage]; rfl)⟩
      · cases h
      · cases h
        exact ⟨_, _, rfl, hdrop⟩
    · cases h
  · cases h

theorem getTimeout_some (h : S.getTimeout a j = some S') :
    S' = { S with gets := S.gets.eraseIdx j } := by
  unfold getTimeout at h
  split at h
  · split at h <;> cases h
    rfl
  · split at h <;> cases h
    rfl
  · split at h <;> cases h
    rfl
  · cases h

theorem answer_served [Crc32] {e : Addr × SiteAct} {key : String} {response : GetResponse}
    (h : S.answer T e = some (key, response)) (hserved : response.served = true) :
    ∃ g ∈ S.gets, g.node = e.1 ∧ g.key = key ∧
      ((∃ owner, g.stage = .forwarded owner ∧ response = S.readStore owner key) ∨
        g.stage = .ready ∧ response = S.readMap e.1 key) := by
  unfold answer at h
  split at h
  · split at h
    · cases h
      cases hserved
    · split at h <;> split at h <;> cases h <;> cases hserved
  · split at h
    · next hg =>
      split at h <;> cases h
      next hb => exact ⟨_, List.mem_of_getElem? hg, hb, rfl, .inl ⟨_, rfl, rfl⟩⟩
    · next hg =>
      split at h <;> cases h
      next hb => exact ⟨_, List.mem_of_getElem? hg, hb, rfl, .inr ⟨rfl, by rw [hb]⟩⟩
    · cases h
  · split at h
    · split at h <;> cases h
      cases hserved
    · split at h <;> cases h
      cases hserved
    · split at h <;> cases h
      cases hserved
    · cases h
  · cases h

end

/-- **The post was answered with success**: 204 if its node has proposed it itself, 202
if it was forwarded. -/
def Accepted (S : Site) (post : Post) : Prop :=
  match post.landing with
  | .log e => post ∈ S.proposed ∧ ⟨.kv, e, .returned⟩ ∈ (S.deployment post.node).answered
  | .event _ _ => post ∈ S.accepted

/-- **No other write to its source**: neither is there a later entry for it in the log, as
far as the node's map has come, nor a later event of the owner. -/
def Undisturbed [Codec] (C : CommittedLog) (S : Site) (post : Post) : Prop :=
  match post.landing with
  | .log e => ∀ x ∈ C.entries, e.index < x.index → x.index ≤ (S.deployment post.node).reached →
      Replay.Spares kvOp post.source x
  | .event owner n => ∀ m x, n < m → (S.appended owner)[m]? = some x → x.source ≠ bytes post.source

end Site

end Service
