/-
CoreX/Cdc/Stream.lean

`GET /cdc/stream`: a request with an offset replays the history from there and then
subscribes, in two critical sections.  Three things make the stream differ from the
events it was asked for.  An event that is published between the two sections is in
neither (`stream_misses_event`).  The live part is not filtered, so a request for an
offset that is still to come gets the events before it as well.  And two `Publish`
calls at the same time may send in either order.

`Stream.handedOver` excludes them.  Then what has been written, with what is in the
channel and on its way there, are the events from the offset on, in their order
(`stream_has_no_holes`).
-/
import CoreX.Cdc.ChangeLog

namespace Cdc

open StepSystem

/-! ### The request -/

/-- A number in a request, as `strconv.ParseInt` finds it. -/
inductive Param
  | absent
  | bad
  | num (n : Int)
  deriving DecidableEq, Repr

structure StreamRequest where
  /-- `?offset=` -/
  offset : Param
  /-- The header `Last-Event-ID`. -/
  lastEventID : Param
  deriving DecidableEq, Repr

/-- Where the replay begins, `-1` for no replay; `none` is 400. -/
def StreamRequest.replayOffset (req : StreamRequest) : Option Int :=
  match req.offset with
  | .num off => if off < 0 then none else some off
  | .bad => none
  | .absent =>
      match req.lastEventID with
      | .num off => if 0 ≤ off then some (off + 1) else some (-1)
      | _ => some (-1)

/-! ### The handler -/

inductive StreamPos
  | start
  /-- The events of the replay that are still to be written. -/
  | replaying (rest : List ChangeEvent)
  | live (id : Nat)
  | ended
  deriving DecidableEq, Repr

/-- One request at a hub. -/
structure Stream where
  hub : Hub
  pos : StreamPos
  written : List ChangeEvent
  /-- The events that have been published, a history that no section reads. -/
  published : List ChangeEvent

inductive StreamAct
  | publish (ev : ChangeEvent)
  | send (k j : Nat)
  | replay
  | write
  | subscribe
  | receive
  | disconnect

namespace Stream

def init (historyLimit : Int) : Stream := ⟨.init historyLimit, .start, [], []⟩

variable (s : Stream)

/-- The critical section of `ReplayFrom`. -/
def replay (req : StreamRequest) : Option Stream :=
  match s.pos, req.replayOffset with
  | .start, none => some { s with pos := .ended }
  | .start, some off =>
      if 0 ≤ off then
        match s.hub.log.replayFrom off with
        | none => some { s with pos := .ended }
        | some events => some { s with pos := .replaying events }
      else some { s with pos := .replaying [] }
  | _, _ => none

/-- `writeSSEEvent` for the next event of the replay. -/
def write : Option Stream :=
  match s.pos with
  | .replaying (ev :: rest) => some { s with pos := .replaying rest, written := s.written ++ [ev] }
  | _ => none

/-- `Subscribe`, after the replay. -/
def subscribe : Option Stream :=
  match s.pos with
  | .replaying [] =>
      match s.hub.subscribe defaultSubscriberBufSize with
      | none => some { s with pos := .ended }
      | some (id, hub) => some { s with pos := .live id, hub := hub }
  | _ => none

/-- The live loop takes an event, or finds the channel closed. -/
def receive : Option Stream :=
  match s.pos with
  | .live id =>
      match (s.hub.channels id).receive with
      | none => none
      | some (none, _) => some { s with pos := .ended, hub := s.hub.unsubscribe id }
      | some (some ev, c) =>
          some { s with
            hub := { s.hub with channels := Function.update s.hub.channels id c }
            written := s.written ++ [ev] }
  | _ => none

/-- The client disconnects. -/
def disconnect : Option Stream :=
  match s.pos with
  | .live id => some { s with pos := .ended, hub := s.hub.unsubscribe id }
  | _ => none

/-- One atomic section. -/
def step (req : StreamRequest) (s : Stream) (a : StreamAct) : Option Stream :=
  if s.hub.panic.isSome then none
  else
    match a with
    | .publish ev =>
        some { s with
          hub := s.hub.publish ev
          published := if s.hub.log.closed then s.published else s.published ++ [ev] }
    | .send k j => (s.hub.send k j).map fun hub => { s with hub := hub }
    | .replay => s.replay req
    | .write => s.write
    | .subscribe => s.subscribe
    | .receive => s.receive
    | .disconnect => s.disconnect

/-- The offsets increase, and the buffer of a subscriber is never full. -/
def assumed : StreamAct → Bool
  | .publish ev => s.published.all fun ev' => decide (ev'.offset < ev.offset)
  | .send k j =>
      ((s.hub.publishing[k]?.bind fun d => d.pending[j]?).map s.hub.channels).all fun c =>
        decide (c.buf.length < c.cap)
  | _ => true

/-- An event is published when the one before it has been sent; not between the replay
and the subscription, and after it only from the offset `n` on. -/
def handedOver (n : Int) (s : Stream) : StreamAct → Bool
  | .publish ev =>
      (s.hub.publishing.all fun d => d.pending.isEmpty) &&
        match s.pos with
        | .replaying _ => false
        | .live _ => decide (n ≤ ev.offset)
        | _ => true
  | _ => true

end Stream

/-- The events that are on their way to a subscriber. -/
def Hub.pendingFor (h : Hub) (id : Nat) : List ChangeEvent :=
  h.publishing.filterMap fun d => if id ∈ d.pending then some d.ev else none

/-! ### One event on its way -/

/-- Every `Publish` has sent, except perhaps the last one to the subscriber `id`. -/
inductive OneLeft (id : Nat) : List Fanout → List ChangeEvent → Prop
  | sent {ds : List Fanout} (h : ∀ d ∈ ds, d.pending = []) : OneLeft id ds []
  | last {ds : List Fanout} (h : ∀ d ∈ ds, d.pending = []) (ev : ChangeEvent) :
      OneLeft id (ds ++ [⟨ev, [id]⟩]) [ev]

namespace OneLeft

variable {id : Nat} {ds : List Fanout} {evs : List ChangeEvent}

theorem pendingFor {h : Hub} (ho : OneLeft id h.publishing evs) : h.pendingFor id = evs := by
  unfold Hub.pendingFor
  have hnil : ∀ ds : List Fanout, (∀ d ∈ ds, d.pending = []) →
      (ds.filterMap fun d => if id ∈ d.pending then some d.ev else none) = [] := by
    intro ds hds
    rw [List.filterMap_eq_nil_iff]
    intro d hd
    rw [hds d hd, if_neg List.not_mem_nil]
  generalize h.publishing = ds at ho
  cases ho with
  | sent hds => exact hnil _ hds
  | last hds ev =>
    rw [List.filterMap_append, hnil _ hds]
    simp

theorem eq_nil (ho : OneLeft id ds evs) (hds : ∀ d ∈ ds, d.pending = []) : evs = [] := by
  cases ho with
  | sent => rfl
  | last h ev => exact absurd (hds ⟨ev, [id]⟩ (by simp)) (List.cons_ne_nil id [])

theorem send {k j id' : Nat} {d : Fanout} (ho : OneLeft id ds evs) (hd : ds[k]? = some d)
    (hj : d.pending[j]? = some id') :
    id' = id ∧ evs = [d.ev] ∧
      ∀ d' ∈ ds.set k { d with pending := d.pending.eraseIdx j }, d'.pending = [] := by
  have hsome : d.pending ≠ [] := by
    intro hnil
    rw [hnil] at hj
    cases hj
  cases ho with
  | sent hds => exact absurd (hds d (List.mem_of_getElem? hd)) hsome
  | @last ds hds ev =>
    have hk : k = ds.length := by
      by_contra hne
      rcases Nat.lt_or_ge k ds.length with hlt | hge
      · rw [List.getElem?_append_left hlt] at hd
        exact hsome (hds d (List.mem_of_getElem? hd))
      · rw [List.getElem?_eq_none (by simp; omega)] at hd
        cases hd
    subst hk
    rw [List.getElem?_concat_length] at hd
    obtain rfl := Option.some.inj hd
    have hj0 : j = 0 := by
      have := (List.getElem?_eq_some_iff.mp hj).1
      simpa using this
    subst hj0
    refine ⟨(Option.some.inj hj).symm, rfl, ?_⟩
    intro d' hd'
    rw [List.set_append_right _ _ le_rfl, Nat.sub_self] at hd'
    rcases List.mem_append.mp hd' with hd' | hd'
    · exact hds d' hd'
    · rw [List.mem_singleton.mp hd']
      rfl

end OneLeft

/-! ### The invariant -/

namespace Stream

variable {n : Int} {s s' : Stream} {req : StreamRequest}

/-- The events that the request asks for. -/
def due (n : Int) (s : Stream) : List ChangeEvent := s.published.filter fun ev => n ≤ ev.offset

/-- How far the request has come with the events that are due. -/
def Placed (hub : Hub) (written due : List ChangeEvent) : StreamPos → Prop
  | .start => written = [] ∧ hub.log.subscribers = [] ∧ ∀ d ∈ hub.publishing, d.pending = []
  | .replaying rest =>
      written ++ rest = due ∧ hub.log.subscribers = [] ∧ ∀ d ∈ hub.publishing, d.pending = []
  | .live id =>
      hub.log.subscribers = [id] ∧ ∃ c evs, hub.channels id = c ∧ c.closed = false ∧
        OneLeft id hub.publishing evs ∧ written ++ (c.buf ++ evs) = due
  | .ended => written <+: due

structure Whole (n : Int) (s : Stream) : Prop where
  sorted : s.published.Pairwise fun a b => a.offset < b.offset
  window : s.hub.log.Window s.published
  opened : s.hub.log.closed = false
  placed : Placed s.hub s.written (s.due n) s.pos

theorem whole_init (n historyLimit : Int) : Whole n (init historyLimit) :=
  ⟨List.Pairwise.nil, ChangeLog.Window.new historyLimit, rfl, rfl, rfl,
    fun _ hd => absurd hd List.not_mem_nil⟩

variable {written : List ChangeEvent}

theorem Placed.written_prefix {hub : Hub} {due : List ChangeEvent} {pos : StreamPos}
    (h : Placed hub written due pos) : written <+: due := by
  cases pos with
  | start =>
    rw [h.1]
    exact List.nil_prefix
  | replaying rest => exact ⟨_, h.1⟩
  | live id =>
    obtain ⟨_, c, evs, _, _, _, heq⟩ := h
    exact ⟨_, heq⟩
  | ended => exact h

theorem Placed.publish {hub : Hub} {due : List ChangeEvent} {pos : StreamPos} {ev : ChangeEvent}
    {log : ChangeLog} (h : Placed hub written due pos)
    (hsubs : log.subscribers = hub.log.subscribers) (hidle : ∀ d ∈ hub.publishing, d.pending = [])
    (hreplay : ∀ rest, pos ≠ .replaying rest) (hlive : ∀ id, pos = .live id → n ≤ ev.offset) :
    Placed { hub with log := log, publishing := hub.publishing ++ [⟨ev, hub.log.subscribers⟩] }
      written (due ++ [ev].filter fun ev => n ≤ ev.offset) pos := by
  cases pos with
  | start =>
    -- nobody has subscribed
    obtain ⟨hw, hsub, hsent⟩ := h
    refine ⟨hw, hsubs.trans hsub, fun d hd => ?_⟩
    rcases List.mem_append.mp hd with hd | hd
    · exact hsent d hd
    · rw [List.mem_singleton.mp hd]
      exact hsub
  | replaying rest => exact absurd rfl (hreplay rest)
  | live id =>
    -- the event is on its way to the request
    obtain ⟨hsub, c, evs, hc, hopen, hone, heq⟩ := h
    obtain rfl := hone.eq_nil hidle
    refine ⟨hsubs.trans hsub, c, [ev], hc, hopen, ?_, ?_⟩
    · show OneLeft id (hub.publishing ++ [⟨ev, hub.log.subscribers⟩]) [ev]
      rw [hsub]
      exact .last hidle ev
    · rw [← heq]
      simp [hlive id rfl]
  | ended => exact h.trans (List.prefix_append _ _)

theorem Placed.send {hub hub' : Hub} {due : List ChangeEvent} {pos : StreamPos} {k j : Nat}
    (h : Placed hub written due pos) (hs : hub.send k j = some hub')
    (hroom : ∀ d id, hub.publishing[k]? = some d → d.pending[j]? = some id →
      (hub.channels id).buf.length < (hub.channels id).cap) :
    Placed hub' written due pos := by
  obtain ⟨d, id, hd, hj, hcase⟩ := Hub.send_some hs
  have hsome : ¬∀ d ∈ hub.publishing, d.pending = [] := by
    intro hsent
    rw [hsent d (List.mem_of_getElem? hd)] at hj
    cases hj
  cases pos with
  | start => exact absurd h.2.2 hsome
  | replaying rest => exact absurd h.2.2 hsome
  | live id' =>
    -- the event goes into the channel of the request
    obtain ⟨hsub, c, evs, rfl, hopen, hone, heq⟩ := h
    obtain ⟨rfl, rfl, hsent⟩ := hone.send hd hj
    rcases hcase with ⟨hclosed, _⟩ | ⟨c, hc, rfl⟩
    · rw [hopen] at hclosed
      cases hclosed
    · rw [Channel.trySend_of_room hopen (hroom d id hd hj)] at hc
      obtain rfl := Option.some.inj hc
      refine ⟨hsub, _, [], Function.update_self _ _ _, hopen, .sent hsent, ?_⟩
      rw [List.append_nil]
      exact heq
  | ended => exact h

namespace Whole

theorem move (h : Whole n s) (hpub : s'.published = s.published)
    (hhist : s'.hub.log.history = s.hub.log.history)
    (hlimit : s'.hub.log.historyLimit = s.hub.log.historyLimit)
    (hbase : s'.hub.log.baseOffset = s.hub.log.baseOffset)
    (hopen : s'.hub.log.closed = s.hub.log.closed)
    (hp : Placed s'.hub s'.written (s.due n) s'.pos) : Whole n s' where
  sorted := hpub ▸ h.sorted
  window := ⟨hlimit ▸ h.window.limit, by rw [hhist, hlimit, hpub, h.window.history],
    by rw [hhist, hbase]; exact h.window.base⟩
  opened := hopen.trans h.opened
  placed := by
    rw [due, hpub]
    exact hp

theorem publish (h : Whole n s) {ev : ChangeEvent} (hnew : s.assumed (.publish ev) = true)
    (hok : s.handedOver n (.publish ev) = true) :
    Whole n { s with hub := s.hub.publish ev, published := s.published ++ [ev] } := by
  simp only [assumed, List.all_eq_true, decide_eq_true_eq] at hnew
  simp only [handedOver, Bool.and_eq_true, List.all_eq_true, List.isEmpty_iff] at hok
  obtain ⟨hidle, hpos⟩ := hok
  obtain ⟨history, baseOffset, hrec⟩ := s.hub.log.record_frame ev
  rw [Hub.publish_open h.opened]
  refine ⟨?_, h.window.record ev, ?_, ?_⟩
  · rw [List.pairwise_append]
    refine ⟨h.sorted, List.pairwise_singleton _ _, ?_⟩
    intro a ha b hb
    rw [List.mem_singleton.mp hb]
    exact hnew a ha
  · show (s.hub.log.record ev).closed = false
    rw [hrec]
    exact h.opened
  · have hdue : due n { s with
        hub := { s.hub with
          log := s.hub.log.record ev
          publishing := s.hub.publishing ++ [⟨ev, s.hub.log.subscribers⟩] }
        published := s.published ++ [ev] } =
          s.due n ++ [ev].filter fun ev => n ≤ ev.offset := List.filter_append _ _
    rw [hdue]
    refine h.placed.publish (by rw [hrec]) hidle ?_ ?_
    · intro rest hrest
      rw [hrest] at hpos
      cases hpos
    · intro id hid
      rw [hid] at hpos
      exact of_decide_eq_true hpos

theorem send (h : Whole n s) {k j : Nat} {hub : Hub} (hroom : s.assumed (.send k j) = true)
    (hs : s.hub.send k j = some hub) : Whole n { s with hub := hub } := by
  have hlog : hub.log = s.hub.log := by
    obtain ⟨d, id, _, _, hcase⟩ := Hub.send_some hs
    rcases hcase with ⟨_, rfl⟩ | ⟨_, _, rfl⟩ <;> rfl
  refine h.move rfl (by rw [hlog]) (by rw [hlog]) (by rw [hlog]) (by rw [hlog])
    (h.placed.send hs ?_)
  intro d id hd hj
  simpa [assumed, hd, hj] using hroom

theorem replay (h : Whole n s) (hreq : req.replayOffset = some n) (hn : 0 ≤ n)
    (hs : s.replay req = some s') : Whole n s' := by
  have hp := h.placed
  unfold Stream.replay at hs
  split at hs
  · cases hs
    exact h.move rfl rfl rfl rfl rfl hp.written_prefix
  · next off hpos hoff =>
    rw [hpos] at hp
    obtain ⟨hw, hsub, hsent⟩ := hp
    obtain rfl : n = off := Option.some.inj (hreq.symm.trans hoff)
    rw [if_pos hn] at hs
    split at hs
    · cases hs
      exact h.move rfl rfl rfl rfl rfl h.placed.written_prefix
    · next events hev =>
      cases hs
      refine h.move rfl rfl rfl rfl rfl ⟨?_, hsub, hsent⟩
      rw [hw, h.window.replayFrom h.sorted hev]
      rfl
  · cases hs

theorem write (h : Whole n s) (hs : s.write = some s') : Whole n s' := by
  have hp := h.placed
  unfold Stream.write at hs
  split at hs
  · next ev rest hpos =>
    cases hs
    rw [hpos] at hp
    refine h.move rfl rfl rfl rfl rfl ⟨?_, hp.2⟩
    rw [← hp.1]
    exact List.append_assoc _ _ _
  · cases hs

theorem subscribe (h : Whole n s) (hs : s.subscribe = some s') : Whole n s' := by
  have hp := h.placed
  unfold Stream.subscribe at hs
  split at hs
  · next hpos =>
    rw [hpos] at hp
    obtain ⟨hw, hsub, hsent⟩ := hp
    split at hs
    · cases hs
      exact h.move rfl rfl rfl rfl rfl h.placed.written_prefix
    · next id hub hsubscribe =>
      cases hs
      obtain ⟨_, rfl, cap, rfl⟩ := Hub.subscribe_some hsubscribe
      refine h.move rfl rfl rfl rfl rfl
        ⟨?_, .make cap, [], Function.update_self _ _ _, rfl, .sent hsent, hw⟩
      rw [hsub]
      rfl
  · cases hs

theorem leave (h : Whole n s) (id : Nat) :
    Whole n { s with pos := .ended, hub := s.hub.unsubscribe id } := by
  have hlog : ∃ subscribers, (s.hub.unsubscribe id).log =
      { s.hub.log with subscribers := subscribers } := by
    unfold Hub.unsubscribe
    split
    · dsimp only
      split <;> exact ⟨_, rfl⟩
    · exact ⟨_, rfl⟩
  obtain ⟨subscribers, hlog⟩ := hlog
  exact h.move rfl (by rw [hlog]) (by rw [hlog]) (by rw [hlog]) (by rw [hlog])
    h.placed.written_prefix

theorem receive (h : Whole n s) (hs : s.receive = some s') : Whole n s' := by
  have hp := h.placed
  unfold Stream.receive at hs
  split at hs
  · next id hpos =>
    rw [hpos] at hp
    obtain ⟨hsub, c, evs, rfl, hopen, hone, heq⟩ := hp
    split at hs
    · cases hs
    · cases hs
      exact h.leave id
    · next ev c hr =>
      cases hs
      have hbuf := Channel.receive_some hr
      refine h.move rfl rfl rfl rfl rfl ?_
      rw [hpos]
      refine ⟨hsub, c, evs, Function.update_self _ _ _,
        (Channel.closed_of_receive hr).trans hopen, hone, ?_⟩
      rw [← heq, hbuf]
      simp
  · cases hs

theorem disconnect (h : Whole n s) (hs : s.disconnect = some s') : Whole n s' := by
  unfold Stream.disconnect at hs
  split at hs
  · cases hs
    exact h.leave _
  · cases hs

theorem step (h : Whole n s) (hreq : req.replayOffset = some n) (hn : 0 ≤ n) {a : StreamAct}
    (hassumed : s.assumed a = true) (hok : s.handedOver n a = true)
    (hs : s.step req a = some s') : Whole n s' := by
  unfold Stream.step at hs
  split at hs
  · cases hs
  · cases a with
    | publish ev =>
      cases hs
      rw [if_neg (by simp [h.opened])]
      exact h.publish hassumed hok
    | send k j =>
      obtain ⟨hub, hsend, rfl⟩ := Option.map_eq_some_iff.mp hs
      exact h.send hassumed hsend
    | replay => exact h.replay hreq hn hs
    | write => exact h.write hs
    | subscribe => exact h.subscribe hs
    | receive => exact h.receive hs
    | disconnect => exact h.disconnect hs

end Whole

/-! ### Streams -/

/-- **A stream has no holes.**  What has been written are the events from the offset on,
each once and in their order, and what is missing is on its way. -/
theorem stream_has_no_holes (historyLimit : Int) {req : StreamRequest} {n : Int}
    (hreq : req.replayOffset = some n) (hn : 0 ≤ n) {s : Stream}
    (h : Runs (Stream.step req) (fun s a => s.assumed a = true ∧ s.handedOver n a = true)
      (init historyLimit) s) :
    s.written <+: s.due n ∧ (s.written.Pairwise fun a b => a.offset < b.offset) ∧
      ∀ id, s.pos = .live id →
        s.written ++ ((s.hub.channels id).buf ++ s.hub.pendingFor id) = s.due n := by
  have hw := h.invariant (P := Whole n) (fun _ _ _ hw hs hok => hw.step hreq hn hok.1 hok.2 hs)
    (whole_init n historyLimit)
  have hpre := hw.placed.written_prefix
  refine ⟨hpre, hw.sorted.sublist (hpre.sublist.trans List.filter_sublist), ?_⟩
  intro id hpos
  have hp := hw.placed
  rw [hpos] at hp
  obtain ⟨_, c, evs, rfl, _, hone, heq⟩ := hp
  rw [hone.pendingFor]
  exact heq

/-! ### An event between the sections -/

/-- `?offset=1`. -/
def fromOne : StreamRequest := ⟨.num 1, .absent⟩

/-- The event of an offset. -/
def eventAt (offset : Int) : ChangeEvent := ⟨"set", "k", "v", 1, offset⟩

/-- The second event is published after the replay and before the subscription. -/
def missedRun : List StreamAct :=
  [.publish (eventAt 1), .replay, .write, .publish (eventAt 2), .subscribe, .publish (eventAt 3),
    .send 2 0, .receive]

/-- The request is for an offset that is still to come. -/
def earlyRun : List StreamAct :=
  [.publish (eventAt 1), .replay, .subscribe, .publish (eventAt 2), .send 1 0, .receive]

/-- **A stream misses an event.**  The first client has got the events 1 and 3, and
nothing is on its way; the second has asked for 5 and has got the event 2. -/
theorem stream_misses_event :
    (∃ s, Runs (Stream.step fromOne) (fun s a => s.assumed a = true) (init 0) s ∧
      s.pos = .live 1 ∧ (s.hub.channels 1).buf = [] ∧ s.hub.pendingFor 1 = [] ∧
      s.written = [eventAt 1, eventAt 3] ∧ s.due 1 = [eventAt 1, eventAt 2, eventAt 3]) ∧
    (∃ s, Runs (Stream.step ⟨.num 5, .absent⟩) (fun s a => s.assumed a = true) (init 0) s ∧
      s.written = [eventAt 2] ∧ s.due 5 = []) := by
  constructor
  · exact Runs.exists_of_exec missedRun (by decide +kernel)
  · exact Runs.exists_of_exec earlyRun (by decide +kernel)

/-- The same with both events after the subscription, for a client that comes back. -/
theorem stream_has_no_holes_resumed :
    ∃ s, Runs (Stream.step ⟨.absent, .num 0⟩)
        (fun s a => s.assumed a = true ∧ s.handedOver 1 a = true) (init 0) s ∧
      (s.written = [eventAt 1, eventAt 2] ∧ s.pos = .live 1) ∧
      (s.written <+: s.due 1 ∧ (s.written.Pairwise fun a b => a.offset < b.offset) ∧
        ∀ id, s.pos = .live id →
          s.written ++ ((s.hub.channels id).buf ++ s.hub.pendingFor id) = s.due 1) :=
  Runs.exists_and_of_exec [.publish (eventAt 1), .replay, .write, .subscribe,
      .publish (eventAt 2), .send 1 0, .receive, .publish (eventAt 3)]
    (by decide +kernel) fun _ hrun _ => stream_has_no_holes 0 rfl (by decide) hrun

end Stream

end Cdc
