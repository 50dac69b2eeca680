/-
CoreX/Service/Ingestion.lean

The ingestion engine of a process: `IngestionService.Ingest`, the pool that event objects
are taken from, and the workers, with the recovery before and the shutdown after.  (`Site`
only counts what is queued.)
-/
import CoreX.Lib.Calls
import CoreX.Lib.Channel
import CoreX.Lib.Heap
import CoreX.Lib.Run
import CoreX.Storage.EventStore

namespace Ingestion

open Kv StepSystem Heap

/-! ### The parts -/

/-- An event object. -/
abbrev Ptr := Nat

/-- `Reset`, and what the pool's `New` allocates. -/
def zeroEvent : Event := ⟨0, [], []⟩

/-- The port `WALWriter`: the state after a `WriteEvent` at some time, and whether it
returned `nil`. -/
abbrev WALWriter (W : Type*) := W → UInt64 → Event → W × Bool

/-- The event store behind the port. -/
def kvStore [Wal.Crc32] : WALWriter EventStore := fun s now e =>
  let (s, err) := s.writeEvent now e
  (s, err.isNone)

/-- What the engine is made with; `walWriter` may be nil. -/
structure Config (W : Type*) where
  numWorkers : Nat
  jobBufferSize : Nat
  walWriter : Option (WALWriter W)
  /-- A channel without a buffer hands over directly, and is left out. -/
  buffered : 0 < jobBufferSize

/-- The errors of `Ingest`. -/
inductive IngestError
  /-- "wal write failed". -/
  | walWriteFailed
  | errOverloaded
  deriving DecidableEq, Repr

/-- Where a call of `Ingest` or a worker stands, with its object `e`.  The `event` is what
its owner means to be in the object; the code has only the pointer. -/
inductive Goroutine
  | entered (source payload : List UInt8)
  /-- `Acquire` has returned. -/
  | acquired (e : Ptr) (source payload : List UInt8)
  /-- The three fields are set. -/
  | filled (e : Ptr) (event : Event)
  /-- The write is done, or there is no writer. -/
  | stored (e : Ptr) (event : Event)
  /-- A worker at the head of its loop. -/
  | idle
  | received (e : Ptr) (event : Event)
  /-- Before `Release`, of a worker or of a call with an error. -/
  | releasing (e : Ptr) (event : Event) (err : Option IngestError)
  /-- `Release`, between `Reset` and `Put`. -/
  | cleared (e : Ptr) (err : Option IngestError)
  /-- The end of a call. -/
  | returned (err : Option IngestError)
  /-- The end of a worker. -/
  | exited
  deriving DecidableEq, Repr

namespace Goroutine

def cell : Goroutine → Option (Ptr × Event)
  | acquired e _ _ => some (e, zeroEvent)
  | filled e event => some (e, event)
  | stored e event => some (e, event)
  | received e event => some (e, event)
  | releasing e event _ => some (e, event)
  | cleared e _ => some (e, zeroEvent)
  | _ => none

/-- What a worker is about to process. -/
def pending : Goroutine → Option Event
  | received _ event => some event
  | _ => none

end Goroutine

/-- The engine.  The last three fields are histories: what was read from the log at startup
or `WriteEvent` has returned `nil` for, what `Submit` has returned `true` for, by the data
of the caller, and what `Process` was called with. -/
structure Engine (W : Type*) where
  objects : Ptr → Event
  /-- How many objects have been allocated. -/
  allocated : Nat
  /-- What is in the `sync.Pool`, or was until the garbage collector took it. -/
  pool : List Ptr
  jobCh : Channel (Ptr × Event)
  goroutines : List Goroutine
  processedCount : Nat
  wal : W
  logged : List Event
  accepted : List Event
  processed : List Event

inductive Act
  /-- A call of `Ingest`. -/
  | ingest (source payload : List UInt8)
  /-- The next section of the `k`th goroutine, with the object that `sync.Pool` returns, if
  any, and the time. -/
  | go (k : Nat) (pooled : Option Nat) (now : UInt64)
  /-- The callback of `Recover`, with an event of the log. -/
  | recover (event : Event)
  /-- `Shutdown` closes `jobCh`. -/
  | shutdown

/-! ### Sections -/

namespace Engine

variable {W : Type*} (cfg : Config W) (s : Engine W)

/-- `NewWorkerPool`. -/
def start (wal : W) : Engine W where
  objects := fun _ => zeroEvent
  allocated := 0
  pool := []
  jobCh := .make cfg.jobBufferSize
  goroutines := List.replicate cfg.numWorkers .idle
  processedCount := 0
  wal := wal
  logged := []
  accepted := []
  processed := []

/-- The `k`th goroutine goes on. -/
def set (k : Nat) (g : Goroutine) : Engine W := { s with goroutines := s.goroutines.set k g }

/-- A new object with the given contents. -/
def allocate (event : Event) : Engine W :=
  { s with
    objects := Function.update s.objects s.allocated event
    allocated := s.allocated + 1 }

/-- The fields of an object are set. -/
def write (e : Ptr) (event : Event) : Engine W :=
  { s with objects := Function.update s.objects e event }

def send (e : Ptr) (event : Event) : Engine W :=
  { s with
    jobCh := { s.jobCh with buf := s.jobCh.buf ++ [(e, event)] }
    accepted := s.accepted ++ [event] }

/-- `Submit` and what follows `true` and `false`: a `select` with a `default`.  With a
closed channel it panics, and there is no next state. -/
def submit (e : Ptr) (event : Event) (yes no : Engine W → Engine W) : Option (Engine W) :=
  if s.jobCh.closed then none
  else if s.jobCh.buf.length < s.jobCh.cap then some (yes (s.send e event))
  else some (no s)

/-- `Ingest`, `Acquire`. -/
def acquire (k : Nat) (source payload : List UInt8) : Option Nat → Option (Engine W)
  | some i => (s.pool[i]?).map fun e =>
      { s with pool := s.pool.eraseIdx i }.set k (.acquired e source payload)
  | none => some ((s.allocate zeroEvent).set k (.acquired s.allocated source payload))

/-- `Ingest`, the write to the log. -/
def writeEvent (k : Nat) (e : Ptr) (event : Event) (now : UInt64) : Engine W :=
  match cfg.walWriter with
  | none => s.set k (.stored e event)
  | some w =>
      let r := w s.wal now (s.objects e)
      if r.2 then
        { s with wal := r.1, logged := s.logged ++ [s.objects e] }.set k (.stored e event)
      else { s with wal := r.1 }.set k (.releasing e event (some .walWriteFailed))

/-- The `range` of `work`: the next object, or the end when `jobCh` is closed and empty. -/
def receive (k : Nat) : Option (Engine W) :=
  s.jobCh.receive.map fun r =>
    match r.1 with
    | some (e, event) => { s with jobCh := r.2 }.set k (.received e event)
    | none => s.set k .exited

/-- The next section of the `k`th goroutine. -/
def go (k : Nat) (pooled : Option Nat) (now : UInt64) : Goroutine → Option (Engine W)
  | .entered source payload => s.acquire k source payload pooled
  | .acquired e source payload =>
      some ((s.write e ⟨now, source, payload⟩).set k (.filled e ⟨now, source, payload⟩))
  | .filled e event => some (s.writeEvent cfg k e event now)
  | .stored e event =>
      s.submit e event (fun s => s.set k (.returned none))
        fun s => s.set k (.releasing e event (some .errOverloaded))
  | .idle => s.receive k
  | .received e event =>
      some ({ s with
        processed := s.processed ++ [s.objects e]
        processedCount := s.processedCount + 1 }.set k (.releasing e event none))
  | .releasing e _ err => some ((s.write e zeroEvent).set k (.cleared e err))
  | .cleared e err =>
      some ({ s with pool := e :: s.pool }.set k (if err.isNone then .idle else .returned err))
  | .returned _ => none
  | .exited => none

/-- **One section.** -/
def step : Act → Option (Engine W)
  | .ingest source payload =>
      some { s with goroutines := s.goroutines ++ [.entered source payload] }
  | .go k pooled now => (s.goroutines[k]?).bind (s.go cfg k pooled now)
  | .recover event =>
      ({ s with logged := s.logged ++ [event] }.allocate event).submit s.allocated event id id
  | .shutdown => s.jobCh.close.map fun c => { s with jobCh := c }

/-- The objects in the pool and in the channel, and what is in them. -/
def placed : List (Ptr × Event) := s.pool.map (fun e => (e, zeroEvent)) ++ s.jobCh.buf

def cells : List (Ptr × Event) := s.placed ++ s.goroutines.filterMap Goroutine.cell

end Engine

namespace Engine

variable {W : Type*} {cfg : Config W} {s s' : Engine W} {k : Nat}
  {g g' : Goroutine} {e : Ptr} {event : Event}

/-! ### What holds in every state -/

/-- What is accepted is received in this order, and what has been received is processed or
about to be. -/
def Order (buf : List (Ptr × Event)) (accepted processed : List Event) (gs : List Goroutine) :
    Prop :=
  ∃ received, accepted = received ++ buf.map Prod.snd ∧
    received.Perm (processed ++ gs.filterMap Goroutine.pending)

namespace Order

variable {buf : List (Ptr × Event)} {accepted processed : List Event} {gs : List Goroutine}

theorem set (h : Order buf accepted processed gs) (hk : gs[k]? = some g)
    (hp : g'.pending = g.pending) : Order buf accepted processed (gs.set k g') := by
  rwa [Order, Calls.filterMap_set_of_eq hk hp]

theorem send (h : Order buf accepted processed gs) (e : Ptr) (event : Event) :
    Order (buf ++ [(e, event)]) (accepted ++ [event]) processed gs := by
  obtain ⟨received, hacc, hperm⟩ := h
  exact ⟨received, by simp [hacc], hperm⟩

theorem receive (h : Order ((e, event) :: buf) accepted processed gs)
    (hk : gs[k]? = some .idle) : Order buf accepted processed (gs.set k (.received e event)) := by
  obtain ⟨received, hacc, hperm⟩ := h
  have hnow := hperm.cons event
  rw [← List.cons_append] at hnow
  exact ⟨received ++ [event], by simpa using hacc, (List.perm_append_singleton _ _).trans
    (hnow.trans (Calls.perm_set hk (.refl _)))⟩

theorem process (h : Order buf accepted processed gs) (hk : gs[k]? = some (.received e event)) :
    Order buf accepted (processed ++ [event]) (gs.set k (.releasing e event none)) := by
  obtain ⟨received, hacc, hperm⟩ := h
  exact ⟨received, hacc, hperm.trans (Calls.perm_set hk (List.perm_append_singleton _ _).symm)⟩

end Order

/-- A worker exits only when `jobCh` is closed and nothing is left to receive.  With a
writer, what is submitted is in the log. -/
structure Flow (cfg : Config W) (ch : Channel (Ptr × Event)) (logged accepted : List Event)
    (gs : List Goroutine) : Prop where
  exited : .exited ∈ gs → ch.closed = true ∧ ch.buf = []
  stored : cfg.walWriter ≠ none → ∀ e event, .stored e event ∈ gs → event ∈ logged
  accepted : cfg.walWriter ≠ none → accepted ⊆ logged

namespace Flow

variable {logged accepted : List Event} {ch : Channel (Ptr × Event)} {gs : List Goroutine}
  (h : Flow cfg ch logged accepted gs)

include h

theorem set (hexited : g' = .exited → ch.closed = true ∧ ch.buf = [])
    (hstored : ∀ e event, g' = .stored e event → cfg.walWriter ≠ none → event ∈ logged) :
    Flow cfg ch logged accepted (gs.set k g') where
  exited hx := (List.mem_or_eq_of_mem_set hx).elim h.exited fun hx => hexited hx.symm
  stored hw e event hx := by
    rcases List.mem_or_eq_of_mem_set hx with hx | hx
    · exact h.stored hw e event hx
    · exact hstored e event hx.symm hw
  accepted := h.accepted

theorem send (ho : ¬ ch.closed = true) (hevent : cfg.walWriter ≠ none → event ∈ logged)
    (c : Ptr × Event) :
    Flow cfg { ch with buf := ch.buf ++ [c] } logged (accepted ++ [event]) gs :=
  { h with
    exited := fun hx => absurd (h.exited hx).1 ho
    accepted := fun hw => List.append_subset.mpr
      ⟨h.accepted hw, List.cons_subset.mpr ⟨hevent hw, List.nil_subset _⟩⟩ }

theorem log (event : Event) : Flow cfg ch (logged ++ [event]) accepted gs :=
  { h with
    stored := fun hw e x hx => List.mem_append_left _ (h.stored hw e x hx)
    accepted := fun hw => List.subset_append_of_subset_left _ (h.accepted hw) }

end Flow

theorem perm_send (s : Engine W) (e : Ptr) (event : Event) :
    ((e, event) :: s.placed).Perm (s.send e event).placed := by
  simp only [placed, send, ← List.append_assoc]
  exact (List.perm_append_singleton _ _).symm

/-- No object has two owners, and each has in it what its owner put there. -/
structure Sound (cfg : Config W) (s : Engine W) : Prop where
  owns : Owns s.objects s.allocated s.cells
  order : Order s.jobCh.buf s.accepted s.processed s.goroutines
  flow : Flow cfg s.jobCh s.logged s.accepted s.goroutines

namespace Sound

variable (h : s.Sound cfg)

include h

theorem objects_eq (hk : s.goroutines[k]? = some g) (hg : g.cell = some (e, event)) :
    s.objects e = event :=
  h.owns.holds (e, event) (List.mem_append_right _
    (List.mem_filterMap.mpr ⟨g, List.mem_of_getElem? hk, hg⟩))

theorem owns_keep (hk : s.goroutines[k]? = some g) (hc : g'.cell = g.cell) :
    Owns s.objects s.allocated (s.set k g').cells :=
  h.owns.perm (Calls.perm_set hk (hc ▸ .refl _))

theorem owns_write (hk : s.goroutines[k]? = some g) (hg : g.cell = some (e, event)) {v : Event}
    (hg' : g'.cell = some (e, v)) :
    Owns (Function.update s.objects e v) s.allocated (s.set k g').cells := by
  have hk' : (s.goroutines.set k .exited)[k]? = some .exited :=
    List.getElem?_set_self (List.getElem?_eq_some_iff.mp hk).1
  -- the object is taken out of its hands, written to, and put back
  have hopen : s.cells.Perm ((e, event) :: (s.set k .exited).cells) :=
    Calls.perm_set (b := (e, event) :: s.placed) hk (by rw [hg]; exact .refl _)
  have hclose : ((e, v) :: (s.set k .exited).cells).Perm ((s.set k .exited).set k g').cells :=
    Calls.perm_set (a := (e, v) :: s.placed) hk' (by rw [hg']; exact .refl _)
  simp only [Engine.set, List.set_set] at hclose
  exact ((h.owns.perm hopen).write v).perm hclose

theorem acquire {source payload : List UInt8} {pooled : Option Nat}
    (hk : s.goroutines[k]? = some (.entered source payload))
    (hs : s.acquire k source payload pooled = some s') : s'.Sound cfg := by
  cases pooled with
  | some i =>
    obtain ⟨e, hi, rfl⟩ := Option.map_eq_some_iff.mp hs
    obtain ⟨hlt, rfl⟩ := List.getElem?_eq_some_iff.mp hi
    have htake := (List.getElem_cons_eraseIdx_perm hlt).symm.map fun e => (e, zeroEvent)
    exact ⟨h.owns.perm (Calls.perm_set hk (htake.append_right _)), h.order.set hk rfl,
      h.flow.set nofun nofun⟩
  | none =>
    cases hs
    exact ⟨(h.owns.new zeroEvent).perm
      (Calls.perm_set (a := (s.allocated, zeroEvent) :: s.placed) hk (.refl _)),
      h.order.set hk rfl, h.flow.set nofun nofun⟩

theorem writeEvent {now : UInt64} (hk : s.goroutines[k]? = some (.filled e event)) :
    (s.writeEvent cfg k e event now).Sound cfg := by
  unfold Engine.writeEvent
  split
  · next hw =>
    exact ⟨h.owns_keep hk rfl, h.order.set hk rfl,
      h.flow.set nofun fun _ _ _ hne => absurd hw hne⟩
  · dsimp only
    split
    · refine ⟨h.owns_keep hk rfl, h.order.set hk rfl, (h.flow.log _).set nofun ?_⟩
      rintro _ _ ⟨⟩ -
      exact List.mem_append_right _ (List.mem_singleton.mpr (h.objects_eq hk rfl).symm)
    · exact ⟨h.owns_keep hk rfl, h.order.set hk rfl, h.flow.set nofun nofun⟩

theorem submit (hk : s.goroutines[k]? = some (.stored e event))
    (hs : s.submit e event (fun s => s.set k (.returned none))
      (fun s => s.set k (.releasing e event (some .errOverloaded))) = some s') : s'.Sound cfg := by
  unfold Engine.submit at hs
  split at hs
  · cases hs
  · next ho =>
    split at hs <;> cases hs
    · have hevent := fun hw => h.flow.stored hw e event (List.mem_of_getElem? hk)
      exact ⟨h.owns.perm (Calls.perm_set hk (perm_send s e event)),
        (h.order.send e event).set hk rfl, (h.flow.send ho hevent _).set nofun nofun⟩
    · exact ⟨h.owns_keep hk rfl, h.order.set hk rfl, h.flow.set nofun nofun⟩

theorem receive (hk : s.goroutines[k]? = some .idle) (hs : s.receive k = some s') :
    s'.Sound cfg := by
  obtain ⟨⟨r, c⟩, hr, rfl⟩ := Option.map_eq_some_iff.mp hs
  unfold Channel.receive at hr
  split at hr
  · next x buf hbuf =>
    cases hr
    obtain ⟨e, event⟩ := x
    have htake : s.placed.Perm
        ((e, event) :: { s with jobCh := { s.jobCh with buf := buf } }.placed) := by
      simp only [placed, hbuf]
      exact List.perm_middle
    -- as long as there is something to receive, no worker has exited
    have hflow : Flow cfg { s.jobCh with buf := buf } s.logged s.accepted s.goroutines :=
      { h.flow with exited := fun hx => absurd (h.flow.exited hx).2 (by simp [hbuf]) }
    exact ⟨h.owns.perm (Calls.perm_set hk htake), (hbuf ▸ h.order).receive hk,
      hflow.set nofun nofun⟩
  · next hbuf =>
    split at hr <;> cases hr
    next hc =>
    exact ⟨h.owns_keep hk rfl, h.order.set hk rfl, h.flow.set (fun _ => ⟨hc, hbuf⟩) nofun⟩

theorem go {pooled : Option Nat} {now : UInt64} (hk : s.goroutines[k]? = some g)
    (hs : s.go cfg k pooled now g = some s') : s'.Sound cfg := by
  cases g with
  | entered source payload => exact h.acquire hk hs
  | acquired e source payload =>
    cases hs
    exact ⟨h.owns_write hk rfl rfl, h.order.set hk rfl, h.flow.set nofun nofun⟩
  | filled e event =>
    cases hs
    exact h.writeEvent hk
  | stored e event => exact h.submit hk hs
  | idle => exact h.receive hk hs
  | received e event =>
    cases hs
    rw [h.objects_eq hk rfl]
    exact ⟨h.owns_keep hk rfl, h.order.process hk, h.flow.set nofun nofun⟩
  | releasing e event err =>
    cases hs
    exact ⟨h.owns_write hk rfl rfl, h.order.set hk rfl, h.flow.set nofun nofun⟩
  | cleared e err =>
    cases hs
    cases err with
    | none =>
      exact ⟨h.owns.perm (Calls.perm_set hk (.refl _)), h.order.set hk rfl, h.flow.set nofun nofun⟩
    | some err =>
      exact ⟨h.owns.perm (Calls.perm_set hk (.refl _)), h.order.set hk rfl, h.flow.set nofun nofun⟩
  | returned err => cases hs
  | exited => cases hs

theorem recover (event : Event)
    (hs : ({ s with logged := s.logged ++ [event] }.allocate event).submit s.allocated event id id =
      some s') : s'.Sound cfg := by
  have hnew := h.owns.new event
  have hflow := h.flow.log event
  unfold Engine.submit at hs
  split at hs
  · cases hs
  · next ho =>
    split at hs <;> cases hs
    · exact ⟨hnew.perm ((perm_send s s.allocated event).append_right _), h.order.send _ event,
        hflow.send ho (fun _ => by simp) _⟩
    · exact ⟨hnew.drop, h.order, hflow⟩

theorem step {a : Act} (hs : s.step cfg a = some s') : s'.Sound cfg := by
  cases a with
  | ingest source payload =>
    cases hs
    refine ⟨?_, ?_, { h.flow with exited := ?_, stored := ?_ }⟩
    · simpa [cells, placed, List.filterMap_cons, Goroutine.cell] using h.owns
    · simpa [Order, List.filterMap_cons, Goroutine.pending] using h.order
    · simpa using h.flow.exited
    · simpa using h.flow.stored
  | go k pooled now =>
    obtain ⟨g, hk, hg⟩ := Option.bind_eq_some_iff.mp hs
    exact h.go hk hg
  | recover event => exact h.recover event hs
  | shutdown =>
    obtain ⟨c, hc, rfl⟩ := Option.map_eq_some_iff.mp hs
    unfold Channel.close at hc
    split at hc <;> cases hc
    next ho =>
    exact ⟨h.owns, h.order, { h.flow with exited := fun hx => absurd (h.flow.exited hx).1 ho }⟩

end Sound

theorem sound_start (cfg : Config W) (wal : W) : (start cfg wal).Sound cfg := by
  refine ⟨?_, ⟨[], rfl, ?_⟩, fun hx => ?_, fun _ _ _ hx => ?_, fun _ => List.nil_subset _⟩
  · rw [cells, start, List.filterMap_replicate_of_none rfl]
    exact ⟨List.nodup_nil, nofun, nofun⟩
  · rw [start, List.filterMap_replicate_of_none rfl]
    exact .refl _
  · cases List.eq_of_mem_replicate hx
  · cases List.eq_of_mem_replicate hx

section Runs

variable {wal : W} (hrun : Runs (Engine.step cfg) (fun _ _ => True) (start cfg wal) s)

include hrun

theorem sound_of_runs : s.Sound cfg :=
  hrun.invariant (fun _ _ _ h hs _ => h.step hs) (sound_start cfg wal)

/-- **What is accepted is processed, once and as it was meant.**  In every run the events
that `Submit` accepted are those that the workers have received, in this order, and those
that are in the objects in the channel, of which none is left when a worker exits; and what
they have received has been processed, each once and nothing else, or is about to be.  With
a writer it was in the log before. -/
theorem processed_once :
    (∃ received, s.accepted = received ++ s.jobCh.buf.map (fun c => s.objects c.1) ∧
      received.Perm (s.processed ++ s.goroutines.filterMap Goroutine.pending)) ∧
    (.exited ∈ s.goroutines → s.jobCh.closed = true ∧ s.jobCh.buf = []) ∧
    (cfg.walWriter ≠ none → s.accepted ⊆ s.logged) := by
  have h := sound_of_runs hrun
  obtain ⟨received, hacc, hperm⟩ := h.order
  refine ⟨⟨received, hacc.trans ?_, hperm⟩, h.flow.exited, h.flow.accepted⟩
  refine congrArg (received ++ ·) (List.map_congr_left fun c hc => ?_)
  exact (h.owns.holds c (List.mem_append_left _ (List.mem_append_right _ hc))).symm

/-- **Nobody sees the data of another request.**  In every run no object has two owners,
and each owner finds in its object what it has put there; in the pool that is nothing. -/
theorem objects_isolated : (s.cells.map Prod.fst).Nodup ∧ ∀ c ∈ s.cells, s.objects c.1 = c.2 :=
  ⟨(sound_of_runs hrun).owns.nodup, (sound_of_runs hrun).owns.holds⟩

end Runs

end Engine

section

local instance ingestionCrc : Wal.Crc32 := Wal.Crc32.ieee

/-- One worker, room for one event, and the event store. -/
def single : Config EventStore := ⟨1, 1, some kvStore, Nat.one_pos⟩

/-- An event is recovered, and one request comes after the other; the second one gets the
object of the first event.  Then the engine is shut down. -/
def reuseRun : List Act :=
  [.recover ⟨3, [64], [0]⟩, .go 0 none 0, .ingest [65] [1]] ++
    List.replicate 4 (.go 1 none 7) ++ List.replicate 5 (.go 0 none 0) ++
    .ingest [66] [2] :: List.replicate 4 (.go 2 (some 0) 9) ++
    .shutdown :: List.replicate 7 (.go 0 none 0)

/-- The state after the first `n` sections. -/
def reached (n : Nat) : Option (Engine EventStore) :=
  exec (Engine.step single) (fun _ _ => True) (.start single (.newStore 4)) (reuseRun.take n)

theorem processed_once_drained :
    ∃ s, reached 25 = some s ∧ .exited ∈ s.goroutines ∧
      s.processed = [⟨3, [64], [0]⟩, ⟨7, [65], [1]⟩, ⟨9, [66], [2]⟩] ∧
      s.accepted.Perm (s.processed ++ s.goroutines.filterMap Goroutine.pending) ∧
      s.accepted ⊆ s.logged := by
  have h : ∃ s, reached 25 = some s ∧ .exited ∈ s.goroutines ∧
      s.processed = [⟨3, [64], [0]⟩, ⟨7, [65], [1]⟩, ⟨9, [66], [2]⟩] :=
    exists_of_any (by decide +kernel)
  obtain ⟨s, hs, hx, hprocessed⟩ := h
  obtain ⟨⟨received, hacc, hperm⟩, hexited, hlogged⟩ := Engine.processed_once (.of_exec hs)
  rw [(hexited hx).2, List.map_nil, List.append_nil] at hacc
  exact ⟨s, hs, hx, hprocessed, hacc ▸ hperm, hlogged (Option.some_ne_none _)⟩

theorem objects_isolated_reuse :
    ∃ s, reached 15 = some s ∧ (0, ⟨9, [66], [2]⟩) ∈ s.cells ∧
      (s.cells.map Prod.fst).Nodup ∧ ∀ c ∈ s.cells, s.objects c.1 = c.2 := by
  obtain ⟨s, hs, hcell⟩ := exists_of_any (o := reached 15)
    (P := fun s => (0, ⟨9, [66], [2]⟩) ∈ s.cells) (by decide +kernel)
  exact ⟨s, hs, hcell, Engine.objects_isolated (.of_exec hs)⟩

end

end Ingestion
