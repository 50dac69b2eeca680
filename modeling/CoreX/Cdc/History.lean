/-
CoreX/Cdc/History.lean

The history of the `ChangeLog`, over whole runs of the hub.

A run comes with the list of the events that were published while the log was open.
Nothing else that happens to the hub touches the history (`Hub.log_step`), so it is the
newest part of that list (`Recorded`).  The offsets have gaps; that they increase is
what makes a replay complete: whatever has been evicted lies below the base.
-/
import CoreX.Cdc.ChangeLog

namespace Cdc

open StepSystem Outputs

namespace ChangeLog

variable (cl : ChangeLog)

/-- `BaseOffset`. -/
def firstOffset : Int := if cl.history = [] then -1 else cl.baseOffset

/-- `LatestOffset`. -/
def latestOffset : Int :=
  match cl.history.getLast? with
  | none => -1
  | some ev => ev.offset

variable {cl} {cl' : ChangeLog} {published : List ChangeEvent}

theorem Window.congr (h : Window cl published) (hhist : cl'.history = cl.history)
    (hlimit : cl'.historyLimit = cl.historyLimit) (hbase : cl'.baseOffset = cl.baseOffset) :
    Window cl' published where
  limit := hlimit ▸ h.limit
  history := by rw [hhist, hlimit, h.history]
  base ev hev := by
    rw [hbase]
    exact h.base ev (hhist ▸ hev)

theorem replayFrom_eq_none {startOffset : Int} (hne : cl.history ≠ []) :
    cl.replayFrom startOffset = none ↔ startOffset < cl.baseOffset := by
  rw [replayFrom, if_neg hne]
  split <;> simp_all

theorem Window.offsets (h : Window cl published) :
    cl.firstOffset = (cl.history.head?.map ChangeEvent.offset).getD (-1) ∧
      cl.latestOffset = (published.getLast?.map ChangeEvent.offset).getD (-1) := by
  constructor
  · unfold firstOffset
    rcases hh : cl.history with - | ⟨ev, evs⟩
    · rfl
    · rw [if_neg (List.cons_ne_nil ev evs)]
      exact h.base ev (by rw [hh]; rfl)
  · unfold latestOffset
    rw [h.history, newest_getLast?]
    cases published.getLast? <;> rfl

end ChangeLog

namespace Hub

variable {h h' : Hub}

/-! ### The events of a run -/

/-- What has been published, with one more section. -/
def published (h : Hub) : HubAct → List ChangeEvent → List ChangeEvent
  | .publish ev, evs => if h.log.closed then evs else evs ++ [ev]
  | _, evs => evs

/-- The offsets that are published increase. -/
def increasing (x : Hub × List ChangeEvent) : HubAct → Prop
  | .publish ev => ∀ e ∈ x.2, e.offset < ev.offset
  | _ => True

instance (x : Hub × List ChangeEvent) : ∀ a, Decidable (increasing x a)
  | .publish ev => inferInstanceAs (Decidable (∀ e ∈ x.2, e.offset < ev.offset))
  | .subscribe _ | .unsubscribe _ | .send _ _ | .close | .receive _ => .isTrue trivial

theorem log_step {a : HubAct} (hs : h.step a = some h') :
    (∃ ev, a = .publish ev ∧ h.log.closed = false ∧ h'.log = h.log.record ev) ∨
      (∀ evs, h.published a evs = evs) ∧ h'.log.history = h.log.history ∧
        h'.log.historyLimit = h.log.historyLimit ∧ h'.log.baseOffset = h.log.baseOffset := by
  unfold step at hs
  split at hs
  · cases hs
  · cases a with
    | subscribe bufSize =>
      obtain ⟨⟨id, _⟩, hsub, rfl⟩ := Option.map_eq_some_iff.mp hs
      obtain ⟨_, _, cap, rfl⟩ := subscribe_some hsub
      exact .inr ⟨fun _ => rfl, rfl, rfl, rfl⟩
    | unsubscribe id =>
      cases hs
      refine .inr ⟨fun _ => rfl, ?_⟩
      unfold unsubscribe
      split
      · dsimp only
        split <;> exact ⟨rfl, rfl, rfl⟩
      · exact ⟨rfl, rfl, rfl⟩
    | publish ev =>
      cases hs
      by_cases hc : h.log.closed = true
      · refine .inr ⟨fun evs => if_pos hc, ?_⟩
        rw [publish, if_pos hc]
        exact ⟨rfl, rfl, rfl⟩
      · have hopen : h.log.closed = false := by simpa using hc
        rw [publish_open hopen]
        exact .inl ⟨ev, rfl, hopen, rfl⟩
    | send k j =>
      obtain ⟨d, id, _, _, hcase⟩ := send_some hs
      rcases hcase with ⟨_, rfl⟩ | ⟨c, _, rfl⟩
      · exact .inr ⟨fun _ => rfl, rfl, rfl, rfl⟩
      · exact .inr ⟨fun _ => rfl, rfl, rfl, rfl⟩
    | close =>
      cases hs
      refine .inr ⟨fun _ => rfl, ?_⟩
      unfold close
      split
      · exact ⟨rfl, rfl, rfl⟩
      · split <;> exact ⟨rfl, rfl, rfl⟩
    | receive id =>
      obtain ⟨⟨r, c⟩, _, rfl⟩ := Option.map_eq_some_iff.mp hs
      exact .inr ⟨fun _ => rfl, rfl, rfl, rfl⟩

/-- The history is a window on what was published, in the order of the offsets. -/
structure Recorded (limit : Nat) (x : Hub × List ChangeEvent) : Prop where
  window : x.1.log.Window x.2
  limit : x.1.log.historyLimit = limit
  sorted : x.2.Pairwise fun a b => a.offset < b.offset

theorem Recorded.step {limit : Nat} {x x' : Hub × List ChangeEvent} {a : HubAct}
    (hr : Recorded limit x) (hs : withHistory step published x a = some x')
    (hok : increasing x a) : Recorded limit x' := by
  obtain ⟨h, evs⟩ := x
  obtain ⟨h', hstep, rfl⟩ := Option.map_eq_some_iff.mp hs
  rcases log_step (h := h) hstep with ⟨ev, rfl, hopen, hlog⟩ | ⟨hsame, hhist, hlimit, hbase⟩
  · have hpub : h.published (.publish ev) evs = evs ++ [ev] := if_neg (by simp [hopen])
    obtain ⟨history, baseOffset, hframe⟩ := h.log.record_frame ev
    refine ⟨?_, ?_, ?_⟩
    · show h'.log.Window (h.published (.publish ev) evs)
      rw [hpub, hlog]
      exact hr.window.record ev
    · show h'.log.historyLimit = limit
      rw [hlog, hframe]
      exact hr.limit
    · show (h.published (.publish ev) evs).Pairwise _
      rw [hpub, List.pairwise_append]
      refine ⟨hr.sorted, List.pairwise_singleton _ _, ?_⟩
      intro e he e' he'
      rw [List.mem_singleton.mp he']
      exact hok e he
  · refine ⟨?_, hlimit.trans hr.limit, ?_⟩
    · show h'.log.Window (h.published a evs)
      rw [hsame]
      exact hr.window.congr hhist hlimit hbase
    · show (h.published a evs).Pairwise _
      rw [hsame]
      exact hr.sorted

/-! ### The window -/

/-- **The history is a window on everything that was published.**  It has the last events,
as many as the limit allows, and its base is the offset of the first of them.  A replay
from below the base fails, and any other has every event from its offset on. -/
theorem history_is_window {limit : Int} (hlimit : 1 ≤ limit) {h : Hub} {evs : List ChangeEvent}
    (hrun : Runs (withHistory step published) increasing (init limit, []) (h, evs)) :
    h.log.history = evs.drop (evs.length - min evs.length limit.toNat) ∧
      (∀ ev, h.log.history.head? = some ev → h.log.baseOffset = ev.offset) ∧
      (h.log.history ≠ [] → ∀ startOffset,
        (h.log.replayFrom startOffset = none ↔ startOffset < h.log.baseOffset) ∧
        (¬ startOffset < h.log.baseOffset →
          h.log.replayFrom startOffset =
            some (evs.filter fun ev => startOffset ≤ ev.offset))) := by
  have hr : Recorded limit.toNat (h, evs) := by
    refine hrun.invariant (P := Recorded limit.toNat) (fun _ _ _ hr hs hok => hr.step hs hok) ?_
    exact ⟨.new limit, if_neg (by omega), List.Pairwise.nil⟩
  have hpos : limit.toNat ≠ 0 := by omega
  refine ⟨?_, hr.window.base, ?_⟩
  · rw [hr.window.history, hr.limit, newest_eq, if_neg hpos, Nat.min_comm]
  · intro hne startOffset
    have hnone : h.log.replayFrom startOffset = none ↔ startOffset < h.log.baseOffset :=
      ChangeLog.replayFrom_eq_none hne
    refine ⟨hnone, fun hge => ?_⟩
    obtain ⟨events, hev⟩ := Option.ne_none_iff_exists'.mp (fun h0 => hge (hnone.mp h0))
    rw [hev, hr.window.replayFrom hr.sorted hev]

/-- Three events with gaps between them, and room for two. -/
theorem history_is_window_two :
    ∃ h evs, Runs (withHistory step published) increasing (init 2, []) (h, evs) ∧
      evs.map ChangeEvent.offset = [3, 7, 12] ∧ h.log.baseOffset = 7 ∧
      h.log.replayFrom 3 = none ∧
      h.log.replayFrom 8 = some (evs.filter fun ev => 8 ≤ ev.offset) := by
  obtain ⟨⟨h, evs⟩, hrun, hoffsets, hbase, hne⟩ := exists_of_any
    (o := exec (withHistory step published) increasing (init 2, [])
      [.publish ⟨"set", "k", "v", 1, 3⟩, .subscribe 4, .publish ⟨"set", "k", "w", 2, 7⟩,
        .send 1 0, .publish ⟨"del", "k", "", 0, 12⟩, .receive 1])
    (P := fun x => x.2.map ChangeEvent.offset = [3, 7, 12] ∧ x.1.log.baseOffset = 7 ∧
      x.1.log.history ≠ [])
    (by decide +kernel)
  obtain ⟨_, _, hreplay⟩ := history_is_window (by decide) (Runs.of_exec hrun)
  refine ⟨h, evs, Runs.of_exec hrun, hoffsets, hbase, ?_, ?_⟩
  · rw [(hreplay hne 3).1, hbase]
    decide
  · exact (hreplay hne 8).2 (by rw [hbase]; decide)

end Hub

end Cdc
