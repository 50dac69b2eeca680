/-
CoreX/Cdc/ChangeLog.lean

`ChangeLog`, the hub of the change data capture: a bounded history for replays, and
subscribers with a channel each.

`Publish` takes the list of subscribers under the lock and sends outside of it, one
send that does not block for each of them.  `Unsubscribe` and `Close` remove and close
under the lock.  So a channel can be closed between the list and the send, and the
send panics (`publish_panics`).

`Hub.quiet` says that this does not happen: a channel is not closed while some
`Publish` has still to send on it.  Then there is no panic (`hub_never_panics`).  No
channel is ever closed twice.
-/
import CoreX.Lib.Channel
import CoreX.Lib.Outputs
import CoreX.Lib.Run

namespace Cdc

open StepSystem Outputs

/-! ### Events and their history -/

structure ChangeEvent where
  type : String
  key : String
  value : String
  version : Nat
  /-- The index of the log entry. -/
  offset : Int
  deriving DecidableEq, Repr

structure ChangeLog where
  /-- The keys of the map of subscriptions. -/
  subscribers : List Nat
  nextID : Nat
  history : List ChangeEvent
  historyLimit : Nat
  baseOffset : Int
  closed : Bool

def defaultHistoryLimit : Nat := 1000
def defaultSubscriberBufSize : Nat := 256

namespace ChangeLog

/-- `NewChangeLog`. -/
def new (historyLimit : Int) : ChangeLog :=
  ⟨[], 0, [], if historyLimit ≤ 0 then defaultHistoryLimit else historyLimit.toNat, 0, false⟩

variable (cl : ChangeLog)

/-- The part of `Publish` that appends to the history and evicts. -/
def record (ev : ChangeEvent) : ChangeLog :=
  let baseOffset := if cl.history = [] then ev.offset else cl.baseOffset
  let history := cl.history ++ [ev]
  if cl.historyLimit < history.length then
    { cl with
      history := history.tail
      baseOffset := (history.tail.head?.map ChangeEvent.offset).getD baseOffset }
  else { cl with history := history, baseOffset := baseOffset }

/-- `ReplayFrom`; `none` is `ErrOffsetOutOfRange`. -/
def replayFrom (startOffset : Int) : Option (List ChangeEvent) :=
  if cl.history = [] then some []
  else if startOffset < cl.baseOffset then none
  else some (cl.history.filter fun ev => startOffset ≤ ev.offset)

/-- The history holds the newest of the events that were published. -/
structure Window (cl : ChangeLog) (published : List ChangeEvent) : Prop where
  limit : 0 < cl.historyLimit
  history : cl.history = newest cl.historyLimit published
  base : ∀ ev, cl.history.head? = some ev → cl.baseOffset = ev.offset

namespace Window

variable {cl : ChangeLog} {published : List ChangeEvent}

theorem new (historyLimit : Int) : Window (new historyLimit) [] where
  limit := by
    show 0 < if historyLimit ≤ 0 then defaultHistoryLimit else historyLimit.toNat
    split
    · decide
    · omega
  history := newest_nil.symm
  base _ h := by cases h

theorem record (h : Window cl published) (ev : ChangeEvent) :
    Window (cl.record ev) (published ++ [ev]) := by
  have hlen : cl.history.length ≤ cl.historyLimit := by
    rw [h.history]
    exact length_newest_le h.limit
  have hnext : newest cl.historyLimit (published ++ [ev]) =
      (cl.history ++ [ev]).drop (cl.history.length + 1 - cl.historyLimit) := by
    rw [← newest_concat, ← h.history, newest, if_neg (by have := h.limit; omega),
      List.length_append, List.length_singleton]
  unfold ChangeLog.record
  dsimp only
  rw [List.length_append, List.length_singleton]
  split
  · -- the oldest event goes
    next hfull =>
      refine ⟨h.limit, ?_, ?_⟩
      · show (cl.history ++ [ev]).tail = _
        rw [hnext, show cl.history.length + 1 - cl.historyLimit = 1 by omega, List.drop_one]
      · intro x hx
        rw [hx]
        rfl
  · next hroom =>
    refine ⟨h.limit, ?_, ?_⟩
    · show cl.history ++ [ev] = _
      rw [hnext, show cl.history.length + 1 - cl.historyLimit = 0 by omega, List.drop_zero]
    · intro x hx
      rcases hh : cl.history with - | ⟨y, ys⟩
      · rw [hh] at hx
        obtain rfl := Option.some.inj hx
        rfl
      · rw [hh] at hx
        exact h.base x (by rw [hh]; exact hx)

theorem replayFrom (h : Window cl published)
    (hsorted : published.Pairwise fun a b => a.offset < b.offset) {startOffset : Int}
    {events : List ChangeEvent} (hr : cl.replayFrom startOffset = some events) :
    events = published.filter fun ev => startOffset ≤ ev.offset := by
  unfold ChangeLog.replayFrom at hr
  split at hr
  · next hnil =>
    have hlast : published.getLast? = none := by
      rw [← newest_getLast? (r := cl.historyLimit), ← h.history, hnil]
      rfl
    rw [List.getLast?_eq_none_iff.mp hlast]
    exact (Option.some.inj hr).symm
  · next hne =>
    split at hr
    · cases hr
    · next hle =>
      -- what has been evicted lies before the base
      obtain ⟨x, xs, hx⟩ := List.exists_cons_of_ne_nil hne
      have hbase := h.base x (by rw [hx]; rfl)
      obtain ⟨front, hfront⟩ : cl.history <:+ published := h.history ▸ newest_suffix
      rw [← hfront] at hsorted
      have hold : (front.filter fun ev => decide (startOffset ≤ ev.offset)) = [] := by
        rw [List.filter_eq_nil_iff]
        intro a ha
        have hlt := (List.pairwise_append.mp hsorted).2.2 a ha x
          (by rw [hx]; exact List.mem_cons_self)
        simp only [decide_eq_true_eq]
        omega
      rw [← Option.some.inj hr, ← hfront, List.filter_append, hold, List.nil_append]

end Window

end ChangeLog

/-! ### The hub -/

/-- A `Publish` that has left the lock. -/
structure Fanout where
  ev : ChangeEvent
  /-- The subscribers it has still to send to. -/
  pending : List Nat
  deriving DecidableEq, Repr

inductive Panic
  | sendOnClosedChannel
  | closeOfClosedChannel
  deriving DecidableEq, Repr

structure Hub where
  log : ChangeLog
  /-- The channel of a subscriber; an identifier is given away once. -/
  channels : Nat → Channel ChangeEvent
  publishing : List Fanout
  panic : Option Panic

inductive HubAct
  | subscribe (bufSize : Int)
  | unsubscribe (id : Nat)
  | publish (ev : ChangeEvent)
  /-- The `k`-th `Publish` sends to one of the subscribers it has left; the order is
  that of the map. -/
  | send (k j : Nat)
  | close
  | receive (id : Nat)

namespace Hub

def init (historyLimit : Int) : Hub := ⟨.new historyLimit, fun _ => .make 0, [], none⟩

variable (h : Hub)

/-- `Subscribe`; `none` is `ErrChangeLogClosed`. -/
def subscribe (bufSize : Int) : Option (Nat × Hub) :=
  if h.log.closed then none
  else
    let id := h.log.nextID + 1
    let cap := if bufSize ≤ 0 then defaultSubscriberBufSize else bufSize.toNat
    some (id, { h with
      log := { h.log with nextID := id, subscribers := h.log.subscribers ++ [id] }
      channels := Function.update h.channels id (.make cap) })

/-- `Unsubscribe`. -/
def unsubscribe (id : Nat) : Hub :=
  if id ∈ h.log.subscribers then
    let log := { h.log with subscribers := h.log.subscribers.erase id }
    match (h.channels id).close with
    | none => { h with log := log, panic := some .closeOfClosedChannel }
    | some c => { h with log := log, channels := Function.update h.channels id c }
  else h

/-- `Publish`, the section under the lock. -/
def publish (ev : ChangeEvent) : Hub :=
  if h.log.closed then h
  else
    { h with
      log := h.log.record ev
      publishing := h.publishing ++ [⟨ev, h.log.subscribers⟩] }

/-- `Publish`, one send. -/
def send (k j : Nat) : Option Hub :=
  match h.publishing[k]? with
  | none => none
  | some d =>
      match d.pending[j]? with
      | none => none
      | some id =>
          let publishing := h.publishing.set k { d with pending := d.pending.eraseIdx j }
          match (h.channels id).trySend d.ev with
          | none => some { h with publishing := publishing, panic := some .sendOnClosedChannel }
          | some c =>
              some { h with
                publishing := publishing
                channels := Function.update h.channels id c }

/-- `Close`. -/
def close : Hub :=
  if h.log.closed then h
  else
    match Channel.closeAll h.log.subscribers h.channels with
    | none => { h with panic := some .closeOfClosedChannel }
    | some channels =>
        { h with log := { h.log with closed := true, subscribers := [] }, channels := channels }

/-- A consumer takes an event from its channel. -/
def receive (id : Nat) : Option Hub :=
  (h.channels id).receive.map fun r =>
    { h with channels := Function.update h.channels id r.2 }

/-- One atomic section; after a panic there is none. -/
def step (a : HubAct) : Option Hub :=
  if h.panic.isSome then none
  else
    match a with
    | .subscribe bufSize => (h.subscribe bufSize).map Prod.snd
    | .unsubscribe id => some (h.unsubscribe id)
    | .publish ev => some (h.publish ev)
    | .send k j => h.send k j
    | .close => some h.close
    | .receive id => h.receive id

/-- Nobody has still to send on a channel that is going to be closed. -/
def quiet : HubAct → Bool
  | .unsubscribe id =>
      decide (id ∈ h.log.subscribers → ∀ d ∈ h.publishing, id ∉ d.pending)
  | .close => h.log.closed || h.publishing.all fun d => d.pending.isEmpty
  | _ => true

end Hub

/-! ### What the sections do -/

theorem ChangeLog.record_frame (cl : ChangeLog) (ev : ChangeEvent) :
    ∃ history baseOffset, cl.record ev =
      { cl with history := history, baseOffset := baseOffset } := by
  unfold record
  dsimp only
  split <;> exact ⟨_, _, rfl⟩

namespace Hub

variable {h h' : Hub}

theorem subscribe_some {bufSize : Int} {id : Nat} (hs : h.subscribe bufSize = some (id, h')) :
    h.log.closed = false ∧ id = h.log.nextID + 1 ∧ ∃ cap, h' = { h with
      log := { h.log with nextID := id, subscribers := h.log.subscribers ++ [id] }
      channels := Function.update h.channels id (.make cap) } := by
  unfold subscribe at hs
  split at hs
  · cases hs
  · next hc =>
    cases hs
    exact ⟨by simpa using hc, rfl, _, rfl⟩

theorem publish_open {ev : ChangeEvent} (hc : h.log.closed = false) :
    h.publish ev = { h with
      log := h.log.record ev, publishing := h.publishing ++ [⟨ev, h.log.subscribers⟩] } := by
  rw [publish, if_neg (by simp [hc])]

theorem send_some {k j : Nat} (hs : h.send k j = some h') :
    ∃ d id, h.publishing[k]? = some d ∧ d.pending[j]? = some id ∧
      ((h.channels id).closed = true ∧ h' = { h with
          publishing := h.publishing.set k { d with pending := d.pending.eraseIdx j }
          panic := some .sendOnClosedChannel } ∨
        ∃ c, (h.channels id).trySend d.ev = some c ∧ h' = { h with
          publishing := h.publishing.set k { d with pending := d.pending.eraseIdx j }
          channels := Function.update h.channels id c }) := by
  unfold send at hs
  split at hs
  · cases hs
  · next d hd =>
    split at hs
    · cases hs
    · next id hid =>
      refine ⟨d, id, hd, hid, ?_⟩
      split at hs
      · next hc =>
        cases hs
        exact .inl ⟨Channel.trySend_eq_none.mp hc, rfl⟩
      · next c hc =>
        cases hs
        exact .inr ⟨c, hc, rfl⟩

/-! ### No channel is closed twice -/

/-- The channels of the subscribers are open. -/
structure Registered (h : Hub) : Prop where
  nodup : h.log.subscribers.Nodup
  known : ∀ id ∈ h.log.subscribers, id ≤ h.log.nextID
  live : ∀ id ∈ h.log.subscribers, (h.channels id).closed = false

namespace Registered

theorem init (historyLimit : Int) : Registered (Hub.init historyLimit) :=
  ⟨List.nodup_nil, fun _ hid => absurd hid List.not_mem_nil, fun _ hid =>
    absurd hid List.not_mem_nil⟩

theorem update (hr : Registered h) {id : Nat} {c : Channel ChangeEvent}
    (hc : c.closed = (h.channels id).closed) (hlog : h'.log = h.log)
    (hch : h'.channels = Function.update h.channels id c) : Registered h' := by
  refine ⟨hlog ▸ hr.nodup, hlog ▸ hr.known, ?_⟩
  intro id' hid'
  rw [hlog] at hid'
  rw [hch]
  by_cases heq : id' = id
  · rw [heq, Function.update_self, hc]
    exact heq ▸ hr.live id' hid'
  · rw [Function.update_of_ne heq]
    exact hr.live id' hid'

theorem subscribe (hr : Registered h) {bufSize : Int} {id : Nat}
    (hs : h.subscribe bufSize = some (id, h')) : Registered h' ∧ h'.panic = h.panic := by
  obtain ⟨_, rfl, cap, rfl⟩ := subscribe_some hs
  have hnew : h.log.nextID + 1 ∉ h.log.subscribers := by
    intro hmem
    have := hr.known _ hmem
    omega
  refine ⟨⟨List.nodup_append.mpr ⟨hr.nodup, List.nodup_singleton _, ?_⟩, ?_, ?_⟩, rfl⟩
  · rintro id hid _ hid' rfl
    rw [List.mem_singleton.mp hid'] at hid
    exact hnew hid
  · intro id hid
    rcases List.mem_append.mp hid with hid | hid
    · exact (hr.known id hid).trans (Nat.le_succ _)
    · rw [List.mem_singleton.mp hid]
  · intro id hid
    show (Function.update h.channels (h.log.nextID + 1) (.make cap) id).closed = false
    by_cases heq : id = h.log.nextID + 1
    · rw [heq, Function.update_self]
      rfl
    · rw [Function.update_of_ne heq]
      rcases List.mem_append.mp hid with hid | hid
      · exact hr.live id hid
      · exact absurd (List.mem_singleton.mp hid) heq

theorem unsubscribe (hr : Registered h) (id : Nat) :
    Registered (h.unsubscribe id) ∧ (h.unsubscribe id).panic = h.panic := by
  unfold Hub.unsubscribe
  split
  · next hid =>
    have hclose : (h.channels id).close = some { h.channels id with closed := true } := by
      rw [Channel.close, if_neg (by simp [hr.live id hid])]
    rw [hclose]
    refine ⟨⟨hr.nodup.erase id, ?_, ?_⟩, rfl⟩
    · exact fun id' hid' => hr.known id' (List.mem_of_mem_erase hid')
    · intro id' hid'
      obtain ⟨hne, hmem⟩ := (List.Nodup.mem_erase_iff hr.nodup).mp hid'
      show (Function.update h.channels id _ id').closed = false
      rw [Function.update_of_ne hne]
      exact hr.live id' hmem
  · exact ⟨hr, rfl⟩

theorem publish (hr : Registered h) (ev : ChangeEvent) :
    Registered (h.publish ev) ∧ (h.publish ev).panic = h.panic := by
  unfold Hub.publish
  split
  · exact ⟨hr, rfl⟩
  · obtain ⟨history, baseOffset, heq⟩ := h.log.record_frame ev
    rw [heq]
    exact ⟨⟨hr.nodup, hr.known, hr.live⟩, rfl⟩

theorem send (hr : Registered h) {k j : Nat} (hs : h.send k j = some h') :
    Registered h' ∧ (h'.panic = h.panic ∨ h'.panic = some .sendOnClosedChannel) := by
  obtain ⟨d, id, _, _, hcase⟩ := send_some hs
  rcases hcase with ⟨_, rfl⟩ | ⟨c, hc, rfl⟩
  · exact ⟨⟨hr.nodup, hr.known, hr.live⟩, .inr rfl⟩
  · exact ⟨hr.update (Channel.closed_of_trySend hc) rfl rfl, .inl rfl⟩

theorem close (hr : Registered h) : Registered h.close ∧ h.close.panic = h.panic := by
  unfold Hub.close
  split
  · exact ⟨hr, rfl⟩
  · obtain ⟨channels, hall⟩ := Option.isSome_iff_exists.mp
      (Channel.closeAll_isSome hr.nodup hr.live)
    rw [hall]
    exact ⟨⟨List.nodup_nil, fun _ hid => absurd hid List.not_mem_nil,
      fun _ hid => absurd hid List.not_mem_nil⟩, rfl⟩

theorem receive (hr : Registered h) {id : Nat} (hs : h.receive id = some h') :
    Registered h' ∧ h'.panic = h.panic := by
  obtain ⟨⟨r, c⟩, hc, rfl⟩ := Option.map_eq_some_iff.mp hs
  exact ⟨hr.update (Channel.closed_of_receive hc) rfl rfl, rfl⟩

theorem step (hr : Registered h) {a : HubAct} (hs : h.step a = some h') :
    Registered h' ∧ (h'.panic = none ∨
      h'.panic = some .sendOnClosedChannel ∧ ∃ k j, a = .send k j) := by
  unfold Hub.step at hs
  split at hs
  · cases hs
  · next hnone =>
    have hp : h.panic = none := by simpa using hnone
    cases a with
    | subscribe bufSize =>
      obtain ⟨⟨id, _⟩, hsub, rfl⟩ := Option.map_eq_some_iff.mp hs
      obtain ⟨hreg, hpanic⟩ := hr.subscribe hsub
      exact ⟨hreg, .inl (hpanic.trans hp)⟩
    | unsubscribe id =>
      cases hs
      exact ⟨(hr.unsubscribe id).1, .inl ((hr.unsubscribe id).2.trans hp)⟩
    | publish ev =>
      cases hs
      exact ⟨(hr.publish ev).1, .inl ((hr.publish ev).2.trans hp)⟩
    | send k j =>
      obtain ⟨hreg, hpanic⟩ := hr.send hs
      refine ⟨hreg, ?_⟩
      rcases hpanic with hpanic | hpanic
      · exact .inl (hpanic.trans hp)
      · exact .inr ⟨hpanic, k, j, rfl⟩
    | close =>
      cases hs
      exact ⟨hr.close.1, .inl (hr.close.2.trans hp)⟩
    | receive id =>
      obtain ⟨hreg, hpanic⟩ := hr.receive hs
      exact ⟨hreg, .inl (hpanic.trans hp)⟩

end Registered

/-! ### No send on a closed channel -/

/-- Whoever has still to be sent to is a subscriber. -/
structure Expected (h : Hub) : Prop extends Registered h where
  pending : ∀ d ∈ h.publishing, ∀ id ∈ d.pending, id ∈ h.log.subscribers

namespace Expected

theorem init (historyLimit : Int) : Expected (Hub.init historyLimit) :=
  ⟨Registered.init historyLimit, fun _ hd => absurd hd List.not_mem_nil⟩

theorem pending_unsubscribe (he : Expected h) {id : Nat}
    (hfree : id ∈ h.log.subscribers → ∀ d ∈ h.publishing, id ∉ d.pending) :
    ∀ d ∈ (h.unsubscribe id).publishing, ∀ id' ∈ d.pending,
      id' ∈ (h.unsubscribe id).log.subscribers := by
  unfold Hub.unsubscribe
  split
  · next hid =>
    have hleft : ∀ d ∈ h.publishing, ∀ id' ∈ d.pending, id' ∈ h.log.subscribers.erase id := by
      intro d hd id' hid'
      refine (List.Nodup.mem_erase_iff he.nodup).mpr ⟨?_, he.pending d hd id' hid'⟩
      rintro rfl
      exact hfree hid d hd hid'
    split <;> exact hleft
  · exact he.pending

theorem pending_publish (he : Expected h) (ev : ChangeEvent) :
    ∀ d ∈ (h.publish ev).publishing, ∀ id ∈ d.pending, id ∈ (h.publish ev).log.subscribers := by
  unfold Hub.publish
  split
  · exact he.pending
  · obtain ⟨history, baseOffset, heq⟩ := h.log.record_frame ev
    rw [heq]
    intro d hd id hid
    rcases List.mem_append.mp hd with hd | hd
    · exact he.pending d hd id hid
    · rw [List.mem_singleton.mp hd] at hid
      exact hid

theorem pending_send (he : Expected h) {k j : Nat} (hs : h.send k j = some h') :
    (∀ d ∈ h'.publishing, ∀ id ∈ d.pending, id ∈ h'.log.subscribers) ∧ h'.panic = h.panic := by
  obtain ⟨d, id, hd, hid, hcase⟩ := send_some hs
  have hmem := List.mem_of_getElem? hd
  rcases hcase with ⟨hclosed, _⟩ | ⟨c, hc, rfl⟩
  · have hlive := he.live id (he.pending d hmem id (List.mem_of_getElem? hid))
    rw [hlive] at hclosed
    cases hclosed
  · refine ⟨fun d' hd' id' hid' => ?_, rfl⟩
    rcases List.mem_or_eq_of_mem_set hd' with hd' | rfl
    · exact he.pending d' hd' id' hid'
    · exact he.pending d hmem id' (List.mem_of_mem_eraseIdx hid')

theorem pending_close (he : Expected h)
    (hidle : h.log.closed = true ∨ ∀ d ∈ h.publishing, d.pending = []) :
    ∀ d ∈ h.close.publishing, ∀ id ∈ d.pending, id ∈ h.close.log.subscribers := by
  unfold Hub.close
  split
  · exact he.pending
  · next hopen =>
    have hempty := hidle.resolve_left hopen
    have hno : ∀ l : List Nat, ∀ d ∈ h.publishing, ∀ id ∈ d.pending, id ∈ l := by
      intro l d hd id hid
      rw [hempty d hd] at hid
      cases hid
    split <;> exact hno _

theorem step (he : Expected h) {a : HubAct} (hok : h.quiet a = true) (hs : h.step a = some h') :
    Expected h' ∧ h'.panic = none := by
  obtain ⟨hreg, hpanic⟩ := he.toRegistered.step hs
  -- only a send could panic
  have hcalm : (∀ k j, a ≠ .send k j) → h'.panic = none := by
    intro hne
    rcases hpanic with hnone | ⟨_, k, j, ha⟩
    · exact hnone
    · exact absurd ha (hne k j)
  unfold Hub.step at hs
  split at hs
  · cases hs
  · next hnone =>
    cases a with
    | subscribe bufSize =>
      refine ⟨⟨hreg, ?_⟩, hcalm (by simp)⟩
      obtain ⟨⟨id, _⟩, hsub, rfl⟩ := Option.map_eq_some_iff.mp hs
      obtain ⟨_, rfl, cap, rfl⟩ := subscribe_some hsub
      exact fun d hd id hid => List.mem_append_left _ (he.pending d hd id hid)
    | unsubscribe id =>
      refine ⟨⟨hreg, ?_⟩, hcalm (by simp)⟩
      cases hs
      exact he.pending_unsubscribe (of_decide_eq_true hok)
    | publish ev =>
      refine ⟨⟨hreg, ?_⟩, hcalm (by simp)⟩
      cases hs
      exact he.pending_publish ev
    | send k j =>
      obtain ⟨hpend, hsame⟩ := he.pending_send hs
      exact ⟨⟨hreg, hpend⟩, hsame.trans (by simpa using hnone)⟩
    | close =>
      refine ⟨⟨hreg, ?_⟩, hcalm (by simp)⟩
      cases hs
      simp only [quiet, Bool.or_eq_true, List.all_eq_true, List.isEmpty_iff] at hok
      exact he.pending_close hok
    | receive id =>
      refine ⟨⟨hreg, ?_⟩, hcalm (by simp)⟩
      obtain ⟨r, _, rfl⟩ := Option.map_eq_some_iff.mp hs
      exact he.pending

end Expected

/-- **The hub never panics** if no channel is closed that some `Publish` has still to
send on; and no channel is closed twice in any run. -/
theorem hub_never_panics (historyLimit : Int) :
    (∀ h, Runs Hub.step (fun h a => h.quiet a = true) (Hub.init historyLimit) h → h.panic = none) ∧
    (∀ h, Runs Hub.step (fun _ _ => True) (Hub.init historyLimit) h →
      h.panic ≠ some .closeOfClosedChannel) := by
  constructor
  · intro h hrun
    refine (hrun.invariant (P := fun h => Expected h ∧ h.panic = none) ?_
      ⟨Expected.init historyLimit, rfl⟩).2
    exact fun _ _ _ hP hs hok => hP.1.step hok hs
  · intro h hrun
    refine (hrun.invariant (P := fun h => Registered h ∧ h.panic ≠ some .closeOfClosedChannel) ?_
      ⟨Registered.init historyLimit, by simp [Hub.init]⟩).2
    intro _ _ _ hP hs _
    obtain ⟨hreg, hpanic⟩ := hP.1.step hs
    refine ⟨hreg, ?_⟩
    rcases hpanic with hnone | ⟨hsend, _⟩
    · rw [hnone]
      simp
    · rw [hsend]
      simp

/-! ### A subscriber that leaves too early -/

def someEvent : ChangeEvent := ⟨"set", "k", "v", 1, 1⟩

/-- **A send on a closed channel.**  `Publish` has seen the subscriber; before its
send the subscriber leaves, or the hub is closed. -/
theorem publish_panics :
    (∃ h, Runs Hub.step (fun _ _ => True) (Hub.init 0) h ∧ h.panic = some .sendOnClosedChannel ∧
      h.log.closed = false) ∧
    (∃ h, Runs Hub.step (fun _ _ => True) (Hub.init 0) h ∧ h.panic = some .sendOnClosedChannel ∧
      h.log.closed = true) := by
  constructor
  · exact Runs.exists_of_exec [.subscribe 0, .publish someEvent, .unsubscribe 1, .send 0 0]
      (by decide +kernel)
  · exact Runs.exists_of_exec [.subscribe 0, .publish someEvent, .close, .send 0 0]
      (by decide +kernel)

/-- The subscriber leaves after the send. -/
theorem hub_never_panics_patient :
    ∃ h, Runs Hub.step (fun h a => h.quiet a = true) (Hub.init 0) h ∧
      (h.log.subscribers = [] ∧ h.log.history = [someEvent]) ∧ h.panic = none :=
  Runs.exists_and_of_exec [.subscribe 0, .publish someEvent, .send 0 0, .unsubscribe 1, .receive 1]
    (by decide +kernel) fun h hrun _ => (hub_never_panics 0).1 h hrun

end Hub

end Cdc
