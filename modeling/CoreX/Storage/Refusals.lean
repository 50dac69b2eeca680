/-
CoreX/Storage/Refusals.lean

Writes that the event store refuses.  `WriteEvent` appends the record first and asks the
index afterwards, so the record of a refused call stays in the file.  `Recover` puts the
records into an index of the same size, in the same order, and gives up at the first that
has no room.
-/
import CoreX.Lib.Outputs
import CoreX.Storage.RoundTrip

namespace Kv

open Bytes Outputs Places Wal

namespace EventRecovery

variable {st st' : EventRecovery} {rs : List Record} {r : Record}

theorem loop_concat (h : st.loop rs = (st', none)) : st.loop (rs ++ [r]) = st'.loop [r] := by
  induction rs generalizing st with
  | nil =>
    obtain rfl : st = st' := congrArg Prod.fst h
    rfl
  | cons r' rs ih =>
    rw [List.cons_append, loop]
    rw [loop] at h
    rcases hs : st.step r' with e | st₁
    · rw [hs] at h
      cases h
    · rw [hs] at h
      exact ih h

theorem loop_append_of_error {e : EventRecoverError} (h : st.loop rs = (st', some e))
    (more : List Record) : st.loop (rs ++ more) = (st', some e) := by
  induction rs generalizing st with
  | nil => cases h
  | cons r' rs ih =>
    rw [List.cons_append, loop]
    rw [loop] at h
    rcases hs : st.step r' with e' | st₁
    · rw [hs] at h
      exact h
    · rw [hs] at h
      exact ih h

theorem loop_record [Crc32] {e : Event} (he : e.Proper) (st : EventRecovery) :
    st.loop [e.record] = match st.index.set e.source st.offset with
      | none => (st, some (.indexFull st.offset))
      | some index => (⟨index, st.offset + (encode e.record).length, st.count + 1⟩, none) := by
  simp only [loop, step, decodeEvent_record he]
  rcases st.index.set e.source st.offset with - | index
  · rfl
  · dsimp only
    rw [recordSize_eq]

end EventRecovery

namespace EventStore

variable [Crc32]

/-! ### Calls of `WriteEvent` -/

/-- The calls, each with its time, whatever they return. -/
def writeAll (s : EventStore) (ws : List (UInt64 × Event)) : EventStore :=
  ws.foldl (fun s w => (s.writeEvent w.1 w.2).1) s

/-- The errors they return. -/
def refusals (s : EventStore) (ws : List (UInt64 × Event)) : List StoreError :=
  outputs (fun s w => (s.writeEvent w.1 w.2).1) (fun s w => (s.writeEvent w.1 w.2).2) s ws

variable {s : EventStore} {n maxKeys : Nat} {es : List Event} {e : Event} {now : UInt64}
  {errs : List StoreError}

/-- What `Recover` makes of the events, and the calls have returned: the index of the store if
none was refused, and an error otherwise. -/
inductive Replayed (maxKeys : Nat) (s : EventStore) (es : List Event) : List StoreError → Prop
  | whole {count : Nat} :
      EventRecovery.loop ⟨.newHashIndex maxKeys, 0, 0⟩ (es.map Event.record) =
        (⟨s.index, (stream es).length, count⟩, none) → Replayed maxKeys s es []
  | stuck {err : StoreError} {errs : List StoreError} {st : EventRecovery} {offset : Nat} :
      EventRecovery.loop ⟨.newHashIndex maxKeys, 0, 0⟩ (es.map Event.record) =
        (st, some (.indexFull offset)) → Replayed maxKeys s es (err :: errs)

theorem Replayed.writeEvent (hr : Replayed maxKeys s es errs) (hs : s.Stored es) (he : e.Proper)
    (now : UInt64) :
    Replayed maxKeys (s.writeEvent now e).1 (es ++ [{ e with receivedAt := now }])
      (errs ++ (s.writeEvent now e).2.toList) := by
  obtain ⟨idx, err, hwrite, hcases⟩ := s.writeEvent_cases now e
  have hproper : Event.Proper { e with receivedAt := now } := ⟨he.source, he.payload⟩
  have hmap : (es ++ [{ e with receivedAt := now }]).map Event.record =
      es.map Event.record ++ [Event.record { e with receivedAt := now }] := List.map_append
  rw [hwrite]
  rw [hs.counted] at hcases
  cases hr with
  | whole hloop =>
    have hnext := EventRecovery.loop_concat (r := Event.record { e with receivedAt := now }) hloop
    rw [← hmap, EventRecovery.loop_record hproper] at hnext
    -- the store and the loop now call `Set` on one index with one offset
    rcases hcases with ⟨rfl, hset⟩ | ⟨rfl, hset, rfl⟩
    · rw [hset] at hnext
      rw [← List.length_append, ← stream_concat] at hnext
      exact .whole hnext
    · rw [hset] at hnext
      exact .stuck hnext
  | stuck hloop =>
    have hnext := EventRecovery.loop_append_of_error hloop
      [Event.record { e with receivedAt := now }]
    rw [← hmap] at hnext
    exact .stuck hnext

theorem Stored.writeEvent_stored (hs : s.Stored es) (he : e.Proper) (now : UInt64) :
    (s.writeEvent now e).1.Stored (es ++ [{ e with receivedAt := now }]) ∧
      (s.writeEvent now e).1.index.maxKeys = s.index.maxKeys := by
  refine ⟨(hs.writeEventOffset he now).2.setIndex _ _, ?_⟩
  obtain ⟨idx, err, hwrite, ⟨_, hset⟩ | ⟨_, _, rfl⟩⟩ := s.writeEvent_cases now e
  · rw [hwrite]
    exact HashIndex.maxKeys_set hset
  · rw [hwrite]

theorem replayed_writeAll {ws : List (UInt64 × Event)} (hws : ∀ w ∈ ws, w.2.Proper) :
    ∃ es, ((newStore n).writeAll ws).Stored es ∧
      ((newStore n).writeAll ws).index.maxKeys = n ∧
      Replayed n ((newStore n).writeAll ws) es ((newStore n).refusals ws) := by
  induction ws using List.reverseRecOn with
  | nil =>
    exact ⟨[], stored_newStore n, rfl, .whole rfl⟩
  | append_singleton ws w ih =>
    obtain ⟨es, hs, hmax, hr⟩ := ih fun w' hw' => hws w' (List.mem_append_left _ hw')
    have hw := hws w (by simp)
    obtain ⟨hs', hmax'⟩ := hs.writeEvent_stored hw w.1
    have hall : (newStore n).writeAll (ws ++ [w]) =
        (((newStore n).writeAll ws).writeEvent w.1 w.2).1 := by
      rw [writeAll, List.foldl_append]
      rfl
    rw [hall, refusals, outputs_concat]
    exact ⟨_, hs', hmax'.trans hmax, hr.writeEvent hs hw w.1⟩

theorem Stored.reopen_eq (hs : s.Stored es) {st : EventRecovery} {err : Option EventRecoverError}
    (hloop : EventRecovery.loop ⟨.newHashIndex s.index.maxKeys, 0, 0⟩ (es.map Event.record) =
      (st, err)) :
    s.reopen = ({ s with
      index := st.index, writerFile := s.path, sizeTracker := s.wal.length,
      readFile := some s.path }, st.count, err) := by
  have hwal : s.inodes s.path = stream es := hs.wal
  simp only [EventStore.reopen, recover, EventStore.wal, hwal, readAll_events hs.proper, hloop,
    readErr]
  cases err <;> rfl

/-- The sources of the calls. -/
def sources (ws : List (UInt64 × Event)) : Finset (List UInt8) :=
  (ws.map fun w => w.2.source).toFinset

/-- The index has the sources `S`, or there are more of them than it has room for and some
call was refused. -/
def RoomFor (maxKeys : Nat) (index : HashIndex) (S : Finset (List UInt8))
    (errs : List StoreError) : Prop :=
  index.maxKeys = maxKeys ∧ index.keySet.card ≤ maxKeys ∧
    if errs = [] then index.keySet = S else maxKeys < S.card

theorem RoomFor.writeEvent {S : Finset (List UInt8)} (h : RoomFor maxKeys s.index S errs)
    (now : UInt64) (e : Event) :
    RoomFor maxKeys (s.writeEvent now e).1.index (insert e.source S)
      (errs ++ (s.writeEvent now e).2.toList) := by
  obtain ⟨hmax, hcard, hkeys⟩ := h
  have hgrow : S.card ≤ (insert e.source S).card :=
    Finset.card_le_card (Finset.subset_insert e.source S)
  obtain ⟨idx, err, hwrite, ⟨rfl, hset⟩ | ⟨rfl, hset, rfl⟩⟩ := s.writeEvent_cases now e
  · have hbound := HashIndex.card_set_le (hmax ▸ hcard) hset
    rw [HashIndex.maxKeys_set hset, hmax] at hbound
    rw [hwrite, Option.toList_none, List.append_nil]
    refine ⟨(HashIndex.maxKeys_set hset).trans hmax, hbound, ?_⟩
    split at hkeys
    · next hnil => rw [if_pos hnil, HashIndex.keySet_set hset, hkeys]
    · next hne =>
      rw [if_neg hne]
      omega
  · rw [hwrite]
    refine ⟨hmax, hcard, ?_⟩
    rw [if_neg (by simp)]
    split at hkeys
    · -- the source is a new one, and there is no room for it
      by_contra hle
      have hroom : s.index.hasRoom e.source = true :=
        HashIndex.hasRoom_of_subset (hkeys ▸ Finset.subset_insert e.source S)
          (hmax ▸ not_lt.mp hle) (Finset.mem_insert_self e.source S)
      obtain ⟨idx', hset'⟩ := HashIndex.set_of_hasRoom hroom s.sizeTracker
      rw [hset] at hset'
      cases hset'
    · omega

theorem roomFor_writeAll (maxKeys : Nat) (ws : List (UInt64 × Event)) :
    RoomFor maxKeys ((newStore maxKeys).writeAll ws).index (sources ws)
      ((newStore maxKeys).refusals ws) := by
  induction ws using List.reverseRecOn with
  | nil => exact ⟨rfl, Nat.zero_le maxKeys, rfl⟩
  | append_singleton ws w ih =>
    have hsources : sources (ws ++ [w]) = insert w.2.source (sources ws) := by
      ext key
      simp [sources]
    rw [writeAll, List.foldl_append, refusals, outputs_concat, hsources]
    exact ih.writeEvent w.1 w.2

/-- **When a store can be recovered.**  After any calls of `WriteEvent` with strings that fit,
`Recover` of a new store of the same size returns no error, with the same answers to every
`Get`, exactly if none of the calls was refused; that is, if they have at most as many
sources as there are places. -/
theorem recovers_iff_no_refusal {maxKeys : Nat} {ws : List (UInt64 × Event)}
    (hws : ∀ w ∈ ws, w.2.Proper) :
    ((∃ s' count, ((newStore maxKeys).writeAll ws).reopen = (s', count, none) ∧
      ∀ key, s'.get key = ((newStore maxKeys).writeAll ws).get key) ↔
      (newStore maxKeys).refusals ws = []) ∧
    ((newStore maxKeys).refusals ws = [] ↔ (sources ws).card ≤ maxKeys) := by
  obtain ⟨es, hs, hmax, hr⟩ := replayed_writeAll (n := maxKeys) hws
  obtain ⟨_, hcard, hkeys⟩ := roomFor_writeAll maxKeys ws
  generalize (newStore maxKeys).writeAll ws = s at hs hmax hr hcard hkeys
  generalize (newStore maxKeys).refusals ws = errs at hr hkeys
  cases hr with
  | whole hloop =>
    rw [if_pos rfl] at hkeys
    refine ⟨⟨fun _ => rfl, fun _ => ?_⟩, iff_of_true rfl (hkeys ▸ hcard)⟩
    refine ⟨_, _, hs.reopen_eq (hmax ▸ hloop), fun key => ?_⟩
    simp only [EventStore.get, EventStore.readRecordAt, hs.reader]
  | stuck hloop =>
    rw [if_neg (List.cons_ne_nil _ _)] at hkeys
    refine ⟨iff_of_false ?_ (List.cons_ne_nil _ _),
      iff_of_false (List.cons_ne_nil _ _) (not_le.mpr hkeys)⟩
    rintro ⟨s', count, hreopen, -⟩
    rw [hs.reopen_eq (hmax ▸ hloop)] at hreopen
    cases hreopen

end EventStore

section

local instance refusalsCrc : Crc32 := Crc32.ieee

/-- Room for one source, and two sources. -/
def twoSources : List (UInt64 × Event) := [(1, ⟨0, [97], [49]⟩), (2, ⟨0, [98], [50]⟩)]

/-- **A refused write breaks recovery.**  The second call returns `ErrIndexFull`, and the store
cannot be recovered any more. -/
theorem refused_write_breaks_recovery :
    (EventStore.newStore 1).refusals twoSources = [.errIndexFull] ∧
      ((EventStore.newStore 1).writeAll twoSources).reopen.2.2 = some (.indexFull 26) ∧
      (((EventStore.newStore 1).writeAll twoSources).get [97]).isOk = true := by
  decide +kernel

/-- With room for both the store comes back. -/
theorem recovers_iff_no_refusal_two :
    ∃ s' count, ((EventStore.newStore 2).writeAll twoSources).reopen = (s', count, none) ∧
      ∀ key, s'.get key = ((EventStore.newStore 2).writeAll twoSources).get key :=
  have hproper : ∀ w ∈ twoSources, w.2.Proper := by decide
  (EventStore.recovers_iff_no_refusal hproper).1.mpr
    ((EventStore.recovers_iff_no_refusal hproper).2.mpr (by decide))

end

end Kv
