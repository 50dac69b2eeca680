/-
CoreX/Storage/Writers.lean

Concurrent writers of the event store.  `WriteEvent` is two critical sections: the
append under the writer's lock, and `Set` of the index.  `Compact` is one, under the
writer's lock.  A call that has appended and not yet set the index is pending.
-/
import CoreX.Lib.Calls
import CoreX.Storage.EventStore

namespace Kv

open Calls Places StepSystem Wal

/-- The store, the calls between their two sections (source and offset), and the
events in the order of their appends. -/
structure Writers where
  store : EventStore
  pending : List (List UInt8 × Nat)
  appended : List Event

inductive WriterSection
  | append (now : UInt64) (e : Event)
  /-- The second section of the `i`th pending call, which then returns. -/
  | setIndex (i : Nat)
  | compact (times : List UInt8 → UInt64) (range range' : MapOrder)

section

variable [Crc32]

namespace Writers

def initial (maxKeys : Nat) : Writers := ⟨.newStore maxKeys, [], []⟩

def step (s : Writers) : WriterSection → Option Writers
  | .append now e =>
      let (offset, store) := s.store.writeEventOffset now e
      some ⟨store, s.pending ++ [(e.source, offset)], s.appended ++ [e]⟩
  | .setIndex i =>
      match s.pending[i]? with
      | none => none
      | some (source, offset) =>
          some ⟨(s.store.setIndex source offset).1, s.pending.eraseIdx i, s.appended⟩
  | .compact times range range' =>
      some ⟨(s.store.compact times range range').1, s.pending, s.appended⟩

/-- Once all calls have returned, `Get` returns the last append of each source, and so
does a scan of the file. -/
def NothingLost (s : Writers) : Prop :=
  s.pending = [] →
    (∀ key, (s.store.get key).map Event.kv =
      match latest (s.appended.map Event.kv) key with
      | none => .error .errKeyNotFound
      | some payload => .ok (key, payload)) ∧
    latest ((scanned s.store.wal).map Event.kv) = latest (s.appended.map Event.kv)

/-- The sections that keep the order: an event has lengths of two bytes, `Set` has room
and does not move the index of its source back, and `Compact` finds no pending call. -/
def Orderly (s : Writers) : WriterSection → Prop
  | .append _ e => e.Proper
  | .setIndex i => ∀ p ∈ s.pending[i]?, s.store.index.hasRoom p.1 = true ∧
      ∀ o ∈ s.store.index.get p.1, o ≤ p.2
  | .compact _ _ _ => s.pending = []

instance decidableOrderly (s : Writers) (c : WriterSection) : Decidable (s.Orderly c) := by
  cases c <;> unfold Orderly <;> infer_instance

/-- A place that the index knows, or is about to. -/
def Known (s : Writers) (key : List UInt8) (offset : Nat) : Prop :=
  s.store.index.get key = some offset ∨ (key, offset) ∈ s.pending

structure Inv (s : Writers) (es : List Event) : Prop where
  stored : s.store.Stored es
  same : latest (es.map Event.kv) = latest (s.appended.map Event.kv)
  last : ∀ {key offset}, latest (offsets es) key = some offset → s.Known key offset
  known : ∀ {key offset}, s.Known key offset →
    ∃ o, latest (offsets es) key = some o ∧ offset ≤ o
  bounded : s.store.index.keySet.card ≤ s.store.index.maxKeys

variable {es : List Event} {s : Writers}

theorem Inv.indexOf (h : s.Inv es) (hp : s.pending = []) :
    s.store.IndexOf es := by
  have hknown : ∀ {key offset}, s.Known key offset ↔ s.store.index.get key = some offset := by
    unfold Known
    rw [hp]
    simp
  funext key
  rcases hl : latest (offsets es) key with - | offset
  · -- a place in the index would have a last event
    rcases hg : s.store.index.get key with - | o
    · rfl
    · obtain ⟨o', ho', -⟩ := h.known (hknown.mpr hg)
      rw [hl] at ho'
      cases ho'
  · exact hknown.mp (h.last hl)

theorem Inv.append (h : s.Inv es) {e : Event} (he : e.Proper) (now : UInt64) :
    (⟨(s.store.writeEventOffset now e).2, s.pending ++
      [(e.source, (s.store.writeEventOffset now e).1)],
      s.appended ++ [e]⟩ : Writers).Inv (es ++ [{ e with receivedAt := now }]) := by
  obtain ⟨hoffset, hstored⟩ := h.stored.writeEventOffset he now
  have hlast : latest (offsets (es ++ [{ e with receivedAt := now }])) =
      Function.update (latest (offsets es)) e.source (some (stream es).length) := by
    rw [offsets_concat, latest_concat]
  rw [hoffset]
  refine ⟨hstored, ?_, ?_, ?_, h.bounded⟩
  · rw [List.map_append, List.map_append, List.map_singleton, List.map_singleton, latest_concat,
      latest_concat, h.same]
    rfl
  · intro key offset hl
    rw [hlast] at hl
    rcases eq_or_ne key e.source with rfl | hne
    · rw [Function.update_self] at hl
      obtain rfl := Option.some.inj hl
      exact .inr (List.mem_append_right _ List.mem_cons_self)
    · rw [Function.update_of_ne hne] at hl
      exact (h.last hl).imp id (List.mem_append_left _)
  · intro key offset hk
    rw [hlast]
    -- what was known before is not beyond the old end of the file
    have hold : s.Known key offset → ∃ o, Function.update (latest (offsets es)) e.source
        (some (stream es).length) key = some o ∧ offset ≤ o := by
      intro hk
      obtain ⟨o, ho, hle⟩ := h.known hk
      rcases eq_or_ne key e.source with rfl | hne
      · have hlt := latest_offsets_lt ho
        exact ⟨_, Function.update_self .., by omega⟩
      · exact ⟨o, by rwa [Function.update_of_ne hne], hle⟩
    rcases hk with hk | hk
    · exact hold (.inl hk)
    · rcases List.mem_append.mp hk with hk | hk
      · exact hold (.inr hk)
      · obtain ⟨rfl, rfl⟩ := Prod.mk.inj (List.mem_singleton.mp hk)
        exact ⟨_, Function.update_self .., Nat.le_refl _⟩

theorem Inv.setIndex (h : s.Inv es) {i : Nat} {source : List UInt8} {offset : Nat}
    (hi : s.pending[i]? = some (source, offset)) (hroom : s.store.index.hasRoom source = true)
    (hback : ∀ o ∈ s.store.index.get source, o ≤ offset) :
    (⟨(s.store.setIndex source offset).1, s.pending.eraseIdx i, s.appended⟩ : Writers).Inv es := by
  obtain ⟨idx, hset⟩ := HashIndex.set_of_hasRoom hroom offset
  have hstored := h.stored.setIndex source offset
  simp only [EventStore.setIndex, hset] at hstored ⊢
  have hget : idx.get = Function.update s.store.index.get source (some offset) :=
    HashIndex.get_set hset
  refine ⟨hstored, h.same, ?_, ?_, HashIndex.card_set_le h.bounded hset⟩
  · intro key last hl
    show idx.get key = some last ∨ (key, last) ∈ s.pending.eraseIdx i
    rw [hget]
    rcases eq_or_ne key source with rfl | hne
    · rw [Function.update_self, Option.some.injEq]
      obtain ⟨o, ho, hle⟩ := h.known (.inr (List.mem_of_getElem? hi) : s.Known key offset)
      obtain rfl : o = last := Option.some.inj (ho.symm.trans hl)
      rcases h.last hl with hidx | hpend
      · -- the index was there, and it is not moved back
        have := hback o hidx
        exact .inl (by omega)
      · rcases eq_or_ne offset o with rfl | hne
        · exact .inl rfl
        · refine .inr (mem_eraseIdx_of_ne hi hpend fun heq => hne ?_)
          exact (Prod.mk.inj heq).2.symm
    · rw [Function.update_of_ne hne]
      refine (h.last hl).imp id fun hpend => mem_eraseIdx_of_ne hi hpend fun heq => hne ?_
      exact (Prod.mk.inj heq).1
  · rintro key o (hidx | hpend)
    · have hidx' : Function.update s.store.index.get source (some offset) key = some o :=
        hget ▸ hidx
      rcases eq_or_ne key source with rfl | hne
      · rw [Function.update_self] at hidx'
        obtain rfl := Option.some.inj hidx'
        exact h.known (.inr (List.mem_of_getElem? hi))
      · rw [Function.update_of_ne hne] at hidx'
        exact h.known (.inl hidx')
    · exact h.known (.inr (List.mem_of_mem_eraseIdx hpend))

theorem Inv.compact (h : s.Inv es) (hp : s.pending = []) (times : List UInt8 → UInt64)
    (range range' : MapOrder) :
    ∃ es', (⟨(s.store.compact times range range').1, s.pending, s.appended⟩ : Writers).Inv es' := by
  obtain ⟨store, es', hcompact, hstored, hidx, hlatest, hmax⟩ :=
    h.stored.compact (h.indexOf hp) h.bounded times range range'
  have hidx' : store.index.get = latest (offsets es') := hidx
  rw [hcompact]
  refine ⟨es', hstored, hlatest.trans h.same, ?_, ?_, ?_⟩
  · intro key offset hl
    exact .inl (hidx' ▸ hl)
  · rintro key offset (hg | hpend)
    · exact ⟨offset, hidx' ▸ hg, Nat.le_refl _⟩
    · exact absurd (hp ▸ hpend) List.not_mem_nil
  · show store.index.keySet.card ≤ store.index.maxKeys
    rw [(h.indexOf hp).keySet_eq hidx hlatest, hmax]
    exact h.bounded

theorem Inv.step {s' : Writers} {c : WriterSection} (h : ∃ es, s.Inv es) (hs : s.step c = some s')
    (hc : s.Orderly c) : ∃ es, s'.Inv es := by
  obtain ⟨es, h⟩ := h
  cases c with
  | append now e =>
    obtain rfl := Option.some.inj hs
    exact ⟨_, h.append hc now⟩
  | setIndex i =>
    simp only [Writers.step] at hs
    split at hs
    · cases hs
    · next source offset hi =>
      obtain rfl := Option.some.inj hs
      obtain ⟨hroom, hback⟩ := hc (source, offset) hi
      exact ⟨es, h.setIndex hi hroom hback⟩
  | compact times range range' =>
    obtain rfl := Option.some.inj hs
    exact h.compact hc times range range'

theorem inv_initial (maxKeys : Nat) : (initial maxKeys).Inv [] where
  stored := EventStore.stored_newStore maxKeys
  same := rfl
  last hl := absurd hl (by simp [offsets, offsetsFrom])
  known hk := by
    rcases hk with hk | hk
    · cases hk
    · exact absurd hk List.not_mem_nil
  bounded := Nat.zero_le maxKeys

end Writers

/-- **Orderly writers lose nothing.**  In every interleaving whose sections keep the
order, once all calls have returned, `Get` returns the last append of each source, and
the file still has it. -/
theorem writers_lose_nothing {maxKeys : Nat} {s : Writers}
    (h : Runs Writers.step Writers.Orderly (Writers.initial maxKeys) s) : s.NothingLost := by
  have h0 : ∃ es, (Writers.initial maxKeys).Inv es := ⟨[], Writers.inv_initial maxKeys⟩
  obtain ⟨es, hinv⟩ := h.invariant (fun _ _ _ hinv hs hok => Writers.Inv.step hinv hs hok) h0
  intro hp
  refine ⟨fun key => ?_, ?_⟩
  · rw [← hinv.same]
    exact hinv.stored.get (hinv.indexOf hp) key
  · rw [hinv.stored.wal, scanned_stream hinv.stored.proper, hinv.same]

end

section

local instance writersCrc : Crc32 := Crc32.ieee

/-- Both calls have appended; the later one sets the index first. -/
def crossedWriters : List WriterSection :=
  [.append 1 ⟨0, [97], [49]⟩, .append 2 ⟨0, [97], [50]⟩, .setIndex 1, .setIndex 0]

/-- A compaction runs between the two sections of a call. -/
def compactedBetween : List WriterSection :=
  [.append 1 ⟨0, [97], [49]⟩, .compact (fun _ => 2) .forward .forward, .setIndex 0]

/-- **Interleavings lose events.**  All calls have returned; in the first run `Get`
returns the older event, in the second the event is neither found nor in the file. -/
theorem interleavings_lose_events :
    (∃ s, Runs Writers.step (fun _ _ => True) (Writers.initial 10) s ∧
      (s.pending = [] ∧ latest (s.appended.map Event.kv) [97] = some [50] ∧
        (s.store.get [97]).map Event.kv = .ok ([97], [49])) ∧ ¬s.NothingLost) ∧
    ∃ s, Runs Writers.step (fun _ _ => True) (Writers.initial 10) s ∧
      (s.pending = [] ∧ latest (s.appended.map Event.kv) [97] = some [49] ∧
        (s.store.get [97]).map Event.kv = .error (.read 0 (.wal .eof)) ∧
        scanned s.store.wal = []) ∧ ¬s.NothingLost := by
  constructor
  · refine Runs.exists_and_of_exec crossedWriters (by decide +kernel) ?_
    rintro s _ ⟨hp, hlast, hget⟩ hno
    have h := (hno hp).1 [97]
    rw [hlast, hget] at h
    cases h
  · refine Runs.exists_and_of_exec compactedBetween (by decide +kernel) ?_
    rintro s _ ⟨hp, hlast, hget, _⟩ hno
    have h := (hno hp).1 [97]
    rw [hlast, hget] at h
    cases h

/-- Two calls overlap, and each sets the index in the order of the appends. -/
def orderlyWriters : List WriterSection :=
  [.append 1 ⟨0, [97], [49]⟩, .append 2 ⟨0, [97], [50]⟩, .setIndex 0, .setIndex 0,
    .compact (fun _ => 3) .forward .backward, .append 4 ⟨0, [98], [51]⟩, .setIndex 0]

theorem writers_lose_nothing_orderly :
    ∃ s, Runs Writers.step Writers.Orderly (Writers.initial 10) s ∧
      (s.pending = [] ∧ s.appended.length = 3) ∧ s.NothingLost :=
  Runs.exists_and_of_exec orderlyWriters (by decide +kernel) fun _ hrun _ =>
    writers_lose_nothing hrun

end

end Kv
