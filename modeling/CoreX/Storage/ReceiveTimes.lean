/-
CoreX/Storage/ReceiveTimes.lean

What a compaction does to the times of the events.  The time of an event is in the
header of its record; `Get` copies it into `ReceivedAt`.  `Compact` reads each live
event with its time and hands it to `WriteEventOffset`, which puts the time of the
rewriting into the new header.
-/
import CoreX.Storage.RoundTrip

namespace Kv

open Bytes Places StepSystem Wal

/-! ### Records at an offset -/

section

variable [Crc32] {file : List UInt8} {offset : Nat} {r : Record} {now : UInt64}

/-- At `offset` stands the record `r`. -/
def RecordAt (file : List UInt8) (offset : Nat) (r : Record) : Prop :=
  ∃ pre post, file = pre ++ (encode r ++ post) ∧ pre.length = offset

theorem RecordAt.append (h : RecordAt file offset r) (more : List UInt8) :
    RecordAt (file ++ more) offset r := by
  obtain ⟨pre, post, rfl, hlen⟩ := h
  exact ⟨pre, post ++ more, by simp only [List.append_assoc], hlen⟩

theorem RecordAt.last (file : List UInt8) (r : Record) :
    RecordAt (file ++ encode r) file.length r :=
  ⟨file, [], by rw [List.append_nil], rfl⟩

theorem RecordAt.readRecordAt (h : RecordAt file offset r) (hr : r.Sized) :
    Wal.readRecordAt file offset = .ok r := by
  obtain ⟨pre, post, rfl, rfl⟩ := h
  exact readRecordAt_encode hr pre

theorem RecordAt.timestamp {r' : Record} (h : RecordAt file offset r)
    (hread : Wal.readRecordAt file offset = .ok r') : r'.timestamp = r.timestamp := by
  obtain ⟨pre, post, rfl, rfl⟩ := h
  have hhead := readAt_append (pre ++ (encode r ++ post)) pre (header r.timestamp r.data)
    (by rw [encode, List.append_assoc]) rfl length_header
  simp only [Wal.readRecordAt, hhead, header_magic, ne_eq, not_true_eq_false, if_false] at hread
  split at hread
  · cases hread
  · split at hread
    · cases hread
    · split at hread
      · cases hread
      · rw [← Except.ok.inj hread]
        exact header_timestamp

end

/-! ### Reading an event -/

/-- The event at an offset, with the time of its record; `none` if it cannot be read. -/
def eventAt (read : Nat → Except HandleError Record) (offset : Nat) : Option Event :=
  match read offset with
  | .error _ => none
  | .ok record => (decodeEvent record.data).map fun e => { e with receivedAt := record.timestamp }

section

variable [Crc32] {read : Nat → Except HandleError Record} {times : List UInt8 → UInt64}
  {order : List (List UInt8 × Nat)}

theorem EventStore.get_eq_ok {s : EventStore} {key : List UInt8} {e : Event} :
    s.get key = .ok e ↔
      ∃ offset, s.index.get key = some offset ∧ eventAt s.readRecordAt offset = some e := by
  unfold EventStore.get eventAt
  rcases s.index.get key with - | offset
  · simp
  · rcases hread : s.readRecordAt offset with err | record
    · simp [hread]
    · rcases hdec : decodeEvent record.data with - | event <;> simp [hread, hdec]

omit [Crc32] in
theorem eventAt_proper {offset : Nat} {e : Event} (h : eventAt read offset = some e) :
    e.Proper := by
  unfold eventAt at h
  split at h
  · cases h
  · obtain ⟨d, hd, rfl⟩ := Option.map_eq_some_iff.mp h
    exact ⟨(decodeEvent_proper hd).source, (decodeEvent_proper hd).payload⟩

theorem writeCompactedWAL_cons (p : List UInt8 × Nat) (w : Writer)
    (newOffsets : List (List UInt8 × Nat)) {e : Event} (h : eventAt read p.2 = some e) :
    writeCompactedWAL read times (p :: order) w newOffsets =
      writeCompactedWAL read times order (w.writeOffset (times p.1) (encodeEvent e)).2
        (newOffsets ++ [(p.1, (w.writeOffset (times p.1) (encodeEvent e)).1)]) := by
  unfold eventAt at h
  split at h
  · cases h
  · next record hread =>
    obtain ⟨d, hd, rfl⟩ := Option.map_eq_some_iff.mp h
    simp only [writeCompactedWAL, hread, hd]

theorem writeCompactedWAL_unreadable (times : List UInt8 → UInt64) {p : List UInt8 × Nat}
    (hp : p ∈ order) (hnone : eventAt read p.2 = none) (w : Writer)
    (newOffsets : List (List UInt8 × Nat)) :
    ∃ e, writeCompactedWAL read times order w newOffsets = .error e := by
  induction order generalizing w newOffsets with
  | nil => exact absurd hp List.not_mem_nil
  | cons q order ih =>
    obtain ⟨key, offset⟩ := q
    rcases hq : eventAt read offset with - | e
    · -- it is this one, or another before it
      unfold eventAt at hq
      split at hq
      · next hread => exact ⟨_, by simp only [writeCompactedWAL, hread]; rfl⟩
      · next hread =>
        have hdec := Option.map_eq_none_iff.mp hq
        exact ⟨_, by simp only [writeCompactedWAL, hread, hdec]; rfl⟩
    · rcases List.mem_cons.mp hp with rfl | hp
      · rw [hq] at hnone
        cases hnone
      · rw [writeCompactedWAL_cons (key, offset) w newOffsets hq]
        exact ih hp _ _

theorem writeCompactedWAL_records (times : List UInt8 → UInt64)
    (old : List UInt8 → Option Event) (w : Writer) (newOffsets : List (List UInt8 × Nat))
    (hw : w.sizeTracker = w.file.length)
    (hread : ∀ p ∈ order, ∃ e, eventAt read p.2 = some e ∧ old p.1 = some e)
    (hnew : ∀ p ∈ newOffsets, ∃ e, old p.1 = some e ∧
      RecordAt w.file p.2 ⟨times p.1, encodeEvent e⟩) :
    ∃ w' offs, writeCompactedWAL read times order w newOffsets = .ok (w', offs) ∧
      offs.map Prod.fst = newOffsets.map Prod.fst ++ order.map Prod.fst ∧
      ∀ p ∈ offs, ∃ e, old p.1 = some e ∧ RecordAt w'.file p.2 ⟨times p.1, encodeEvent e⟩ := by
  induction order generalizing w newOffsets with
  | nil => exact ⟨w, newOffsets, rfl, (List.append_nil _).symm, hnew⟩
  | cons p order ih =>
    obtain ⟨e, he, hold⟩ := hread p List.mem_cons_self
    rw [writeCompactedWAL_cons p w newOffsets he]
    obtain ⟨w', offs, hloop, hkeys, hoffs⟩ :=
      ih (w.writeOffset (times p.1) (encodeEvent e)).2
        (newOffsets ++ [(p.1, (w.writeOffset (times p.1) (encodeEvent e)).1)])
        (by show w.sizeTracker + _ = _; rw [hw]; exact List.length_append.symm)
        (fun q hq => hread q (List.mem_cons_of_mem p hq))
        (by
          intro q hq
          rcases List.mem_append.mp hq with hq | hq
          · obtain ⟨d, hd, hat⟩ := hnew q hq
            exact ⟨d, hd, hat.append _⟩
          · obtain rfl := List.mem_singleton.mp hq
            refine ⟨e, hold, ?_⟩
            show RecordAt (w.file ++ _) w.sizeTracker _
            rw [hw]
            exact RecordAt.last w.file _)
    refine ⟨w', offs, hloop, ?_, hoffs⟩
    rw [hkeys, List.map_append, List.map_cons, List.append_assoc]
    rfl

end

/-! ### Compaction -/

namespace EventStore

variable [Crc32] {s s' : EventStore} {times : List UInt8 → UInt64} {range range' : MapOrder}
  {key : List UInt8} {e : Event}

/-- The writer and the reader are at one file, the writer knows its size, and the index
has not more keys than places. -/
structure Aligned (s : EventStore) : Prop where
  reader : s.readFile = some s.writerFile
  counted : s.sizeTracker = (s.inodes s.writerFile).length
  bounded : s.index.keySet.card ≤ s.index.maxKeys

/-- Some key of the index has a record that cannot be read. -/
def Damaged (s : EventStore) : Prop :=
  ∃ key, (s.index.get key).isSome ∧ ∀ e, s.get key ≠ .ok e

theorem compact_damaged (h : s.Damaged) (times : List UInt8 → UInt64) (range range' : MapOrder) :
    (s.compact times range range').1 = s := by
  obtain ⟨key, hkey, hno⟩ := h
  obtain ⟨offset, hget⟩ := Option.isSome_iff_exists.mp hkey
  have hnone : eventAt s.readRecordAt offset = none := by
    rcases he : eventAt s.readRecordAt offset with - | e
    · rfl
    · exact absurd (get_eq_ok.mpr ⟨offset, hget, he⟩) (hno e)
  have hmem : (key, offset) ∈ range.1 s.index.snapshot := HashIndex.mem_range_snapshot.mpr hget
  obtain ⟨err, herr⟩ := writeCompactedWAL_unreadable times hmem hnone (newWriter []) []
  rw [compact, herr]

theorem compact_records (h : s.Aligned) (hread : ¬s.Damaged) (times : List UInt8 → UInt64)
    (range range' : MapOrder) :
    ∃ s', s.compact times range range' = (s', none) ∧ s'.Aligned ∧
      (∀ key e, s.get key = .ok e → (s'.index.get key).isSome) ∧
      ∀ key offset, s'.index.get key = some offset → ∃ e, s.get key = .ok e ∧
        RecordAt (s'.inodes s'.writerFile) offset ⟨times key, encodeEvent e⟩ := by
  have hold : ∀ p ∈ range.1 s.index.snapshot, ∃ e, eventAt s.readRecordAt p.2 = some e ∧
      (s.get p.1).toOption = some e := by
    intro p hp
    have hget := HashIndex.mem_range_snapshot.mp hp
    obtain ⟨e, he⟩ : ∃ e, s.get p.1 = .ok e := by
      by_contra hno
      exact hread ⟨p.1, by rw [hget]; rfl, not_exists.mp hno⟩
    obtain ⟨offset, hoffset, hevent⟩ := get_eq_ok.mp he
    obtain rfl : p.2 = offset := Option.some.inj (hget.symm.trans hoffset)
    exact ⟨e, hevent, by rw [he]; rfl⟩
  obtain ⟨w, offs, hwrite, hkeys, hoffs⟩ := writeCompactedWAL_records times
    (fun key => (s.get key).toOption) (newWriter []) [] rfl hold
    fun p hp => absurd hp List.not_mem_nil
  rw [List.map_nil, List.nil_append] at hkeys
  -- the index that is filled from the new offsets
  have hkeySet : ∀ p ∈ offs, p.1 ∈ s.index.keySet := by
    intro p hp
    have hfst : p.1 ∈ (range.1 s.index.snapshot).map Prod.fst :=
      hkeys ▸ List.mem_map_of_mem hp
    obtain ⟨q, hq, hqp⟩ := List.mem_map.mp hfst
    rw [HashIndex.mem_keySet, ← hqp, HashIndex.mem_range_snapshot.mp hq]
    rfl
  obtain ⟨idx, hall, hmax, hidx⟩ := s.index.rebuild_get h.bounded range' offs hkeySet
  have hplace : ∀ key offset, idx.get key = some offset → ∃ e, s.get key = .ok e ∧
      RecordAt w.file offset ⟨times key, encodeEvent e⟩ := by
    intro key offset hget
    rw [hidx] at hget
    obtain ⟨e, he, hat⟩ := hoffs (key, offset) ((range'.2 _).mem_iff.mp (mem_of_latest hget))
    refine ⟨e, ?_, hat⟩
    rcases hs : s.get key with err | d
    · rw [hs] at he
      cases he
    · rw [hs] at he
      exact congrArg Except.ok (Option.some.inj he)
  refine ⟨_, compact_eq hwrite h.reader hall, ⟨rfl, ?_, ?_⟩, ?_, ?_⟩
  · show w.file.length = (Function.update s.inodes s.created w.file s.created).length
    rw [Function.update_self]
  · show idx.keySet.card ≤ idx.maxKeys
    rw [hmax]
    refine (Finset.card_le_card fun k hk => ?_).trans h.bounded
    obtain ⟨offset, hoffset⟩ := Option.isSome_iff_exists.mp (HashIndex.mem_keySet.mp hk)
    obtain ⟨e, he, -⟩ := hplace k offset hoffset
    obtain ⟨o, ho, -⟩ := get_eq_ok.mp he
    rw [HashIndex.mem_keySet, ho]
    rfl
  · intro key e he
    obtain ⟨o, ho, -⟩ := get_eq_ok.mp he
    rw [hidx, latest_isSome, ((range'.2 offs).map Prod.fst).mem_iff, hkeys]
    exact List.mem_map.mpr ⟨(key, o), HashIndex.mem_range_snapshot.mpr ho, rfl⟩
  · intro key offset hget
    obtain ⟨e, he, hat⟩ := hplace key offset hget
    refine ⟨e, he, ?_⟩
    show RecordAt (Function.update s.inodes s.created w.file s.created) _ _
    rwa [Function.update_self]

theorem get_compact (h : s.Aligned) (hread : ¬s.Damaged) (he : s.get key = .ok e) :
    (s.compact times range range').1.get key = .ok { e with receivedAt := times key } := by
  obtain ⟨s', hcompact, haligned, hkeys, hplace⟩ := compact_records h hread times range range'
  obtain ⟨offset, hoffset⟩ := Option.isSome_iff_exists.mp (hkeys key e he)
  obtain ⟨d, hd, hat⟩ := hplace key offset hoffset
  obtain rfl : e = d := Except.ok.inj (he.symm.trans hd)
  obtain ⟨_, _, hevent⟩ := get_eq_ok.mp he
  have hproper := eventAt_proper hevent
  have hsized : (⟨times key, encodeEvent e⟩ : Record).Sized := hproper.sized
  have hrec : s'.readRecordAt offset = .ok ⟨times key, encodeEvent e⟩ := by
    simp only [EventStore.readRecordAt, haligned.reader, hat.readRecordAt hsized]
  rw [hcompact, get_eq_ok]
  refine ⟨offset, hoffset, ?_⟩
  simp only [eventAt, hrec, decodeEvent_encodeEvent hproper, Option.map_some]

omit [Crc32] in
theorem aligned_newStore (maxKeys : Nat) : (newStore maxKeys).Aligned :=
  ⟨rfl, rfl, Nat.zero_le maxKeys⟩

theorem Aligned.writeEvent (h : s.Aligned) (now : UInt64) (e : Event) :
    (s.writeEvent now e).1.Aligned := by
  have hbounded := writeEvent_bounded h.bounded now e
  obtain ⟨idx, err, hwrite, -⟩ := s.writeEvent_cases now e
  rw [hwrite] at hbounded ⊢
  refine ⟨h.reader, ?_, hbounded⟩
  show s.sizeTracker + _ = (Function.update s.inodes s.writerFile _ s.writerFile).length
  rw [Function.update_self, h.counted]
  exact List.length_append.symm

theorem Aligned.compact (h : s.Aligned) (times : List UInt8 → UInt64) (range range' : MapOrder) :
    (s.compact times range range').1.Aligned := by
  by_cases hread : s.Damaged
  · rw [compact_damaged hread]
    exact h
  · obtain ⟨s', hcompact, haligned, -⟩ := compact_records h hread times range range'
    rw [hcompact]
    exact haligned

end EventStore

/-! ### Every run -/

/-- The store, and for each source the time of the last `WriteEvent` of it that returned
`nil`. -/
structure StampRun where
  store : EventStore
  stamps : List UInt8 → Option UInt64

inductive StampCall
  | writeEvent (now : UInt64) (e : Event)
  | compact (times : List UInt8 → UInt64) (range range' : MapOrder)

/-- The compaction gives up, or the clock shows the old time whenever an event is
rewritten. -/
def EventStore.KeepsTimes [Crc32] (s : EventStore) (times : List UInt8 → UInt64) : Prop :=
  s.Damaged ∨ ∀ key e, s.get key = .ok e → times key = e.receivedAt

namespace StampRun

variable [Crc32] {s s' : StampRun} {c : StampCall}

def initial (maxKeys : Nat) : StampRun := ⟨.newStore maxKeys, fun _ => none⟩

def step (s : StampRun) : StampCall → Option StampRun
  | .writeEvent now e =>
      match s.store.writeEvent now e with
      | (store, none) => some ⟨store, Function.update s.stamps e.source (some now)⟩
      | (store, some _) => some { s with store := store }
  | .compact times range range' =>
      some { s with store := (s.store.compact times range range').1 }

/-- The condition on a compaction, as one on the steps of a run. -/
def Keeps (s : StampRun) : StampCall → Prop
  | .writeEvent _ _ => True
  | .compact times _ _ => s.store.KeepsTimes times

theorem step_writeEvent {now : UInt64} {e : Event} (h : s.step (.writeEvent now e) = some s') :
    ∃ idx, s'.store = { (s.store.writeEventOffset now e).2 with index := idx } ∧
      ((s.store.index.set e.source s.store.sizeTracker = some idx ∧
          s'.stamps = Function.update s.stamps e.source (some now)) ∨
        (idx = s.store.index ∧ s'.stamps = s.stamps)) := by
  obtain ⟨idx, err, hwrite, hcases⟩ := s.store.writeEvent_cases now e
  rw [step, hwrite] at h
  rcases hcases with ⟨rfl, hset⟩ | ⟨rfl, -, rfl⟩
  · obtain rfl := Option.some.inj h
    exact ⟨idx, rfl, .inl ⟨hset, rfl⟩⟩
  · obtain rfl := Option.some.inj h
    exact ⟨_, rfl, .inr ⟨rfl, rfl⟩⟩

theorem aligned_step (h : s.store.Aligned) (hs : s.step c = some s') : s'.store.Aligned := by
  cases c with
  | writeEvent now e =>
    have haligned := h.writeEvent now e
    rw [step] at hs
    split at hs
    · next hwrite =>
      rw [hwrite] at haligned
      obtain rfl := Option.some.inj hs
      exact haligned
    · next hwrite =>
      rw [hwrite] at haligned
      obtain rfl := Option.some.inj hs
      exact haligned
  | compact times range range' =>
    obtain rfl := Option.some.inj hs
    exact h.compact times range range'

/-- Every entry of the index leads to a record with the time of the event. -/
def Dated (s : StampRun) : Prop :=
  ∀ key offset, s.store.index.get key = some offset →
    ∃ r, RecordAt (s.store.inodes s.store.writerFile) offset r ∧ s.stamps key = some r.timestamp

theorem Dated.get (h : s.Dated) (ha : s.store.Aligned) {key : List UInt8} {e : Event}
    (he : s.store.get key = .ok e) : s.stamps key = some e.receivedAt := by
  obtain ⟨offset, hoffset, hevent⟩ := EventStore.get_eq_ok.mp he
  obtain ⟨r, hat, hstamp⟩ := h key offset hoffset
  rw [hstamp]
  unfold eventAt at hevent
  split at hevent
  · cases hevent
  · next record hread =>
    obtain ⟨d, -, rfl⟩ := Option.map_eq_some_iff.mp hevent
    simp only [EventStore.readRecordAt, ha.reader] at hread
    split at hread
    · cases hread
    · next hread' =>
      obtain rfl := Except.ok.inj hread
      rw [hat.timestamp hread']

theorem Dated.step (h : s.Dated) (ha : s.store.Aligned) (hs : s.step c = some s')
    (hc : s.Keeps c) : s'.Dated := by
  cases c with
  | writeEvent now e =>
    obtain ⟨idx, hstore, hcases⟩ := step_writeEvent hs
    intro key offset hget
    have hfile : s'.store.inodes s'.store.writerFile =
        s.store.inodes s.store.writerFile ++ encode ⟨now, encodeEvent e⟩ := by
      rw [hstore]
      exact Function.update_self ..
    have hidx : s'.store.index = idx := by rw [hstore]
    rw [hidx] at hget
    rw [hfile]
    rcases hcases with ⟨hset, hstamps⟩ | ⟨rfl, hstamps⟩
    · rw [HashIndex.get_set hset] at hget
      rw [hstamps]
      rcases eq_or_ne key e.source with rfl | hne
      · -- the new event
        rw [Function.update_self] at hget
        obtain rfl := Option.some.inj hget
        rw [Function.update_self, ha.counted]
        exact ⟨_, RecordAt.last _ _, rfl⟩
      · rw [Function.update_of_ne hne] at hget
        rw [Function.update_of_ne hne]
        obtain ⟨r, hat, hstamp⟩ := h key offset hget
        exact ⟨r, hat.append _, hstamp⟩
    · rw [hstamps]
      obtain ⟨r, hat, hstamp⟩ := h key offset hget
      exact ⟨r, hat.append _, hstamp⟩
  | compact times range range' =>
    obtain rfl := Option.some.inj hs
    by_cases hread : s.store.Damaged
    · rw [show (s.store.compact times range range').1 = s.store from
        EventStore.compact_damaged hread times range range']
      exact h
    · obtain ⟨store, hcompact, -, -, hplace⟩ :=
        EventStore.compact_records ha hread times range range'
      intro key offset hget
      simp only [hcompact] at hget ⊢
      obtain ⟨e, he, hat⟩ := hplace key offset hget
      refine ⟨_, hat, ?_⟩
      -- the new record has the old time
      rw [h.get ha he, hc.resolve_left hread key e he]

end StampRun

/-- **Receive times.**  After any calls of `WriteEvent` and `Compact` a compaction keeps
the receive times of all keys exactly if it gives up or the clock shows the old time of
each event when it is rewritten.  If all compactions are of this kind, `Get` returns the
time of the last `WriteEvent`. -/
theorem receive_times [Crc32] (maxKeys : Nat) :
    (∀ s, Runs StampRun.step (fun _ _ => True) (StampRun.initial maxKeys) s →
      ∀ times range range',
        (∀ key e, s.store.get key = .ok e →
          ∃ e', (s.store.compact times range range').1.get key = .ok e' ∧
            e'.receivedAt = e.receivedAt) ↔
        s.store.KeepsTimes times) ∧
    ∀ s, Runs StampRun.step StampRun.Keeps (StampRun.initial maxKeys) s →
      ∀ key e, s.store.get key = .ok e → s.stamps key = some e.receivedAt := by
  have halign : ∀ (ok : StampRun → StampCall → Prop) s,
      Runs StampRun.step ok (StampRun.initial maxKeys) s → s.store.Aligned := fun ok s h =>
    h.invariant (P := fun s => s.store.Aligned)
      (fun _ _ _ ha hs _ => StampRun.aligned_step ha hs) (EventStore.aligned_newStore maxKeys)
  constructor
  · intro s h times range range'
    have ha := halign _ s h
    by_cases hread : s.store.Damaged
    · simp only [EventStore.KeepsTimes, hread, true_or, iff_true]
      intro key e he
      exact ⟨e, by rw [EventStore.compact_damaged hread, he], rfl⟩
    · simp only [EventStore.KeepsTimes, hread, false_or]
      constructor
      · intro hkept key e he
        obtain ⟨e', he', htime⟩ := hkept key e he
        rw [EventStore.get_compact ha hread he] at he'
        rw [← htime, ← Except.ok.inj he']
      · intro htimes key e he
        exact ⟨_, EventStore.get_compact ha hread he, htimes key e he⟩
  · intro s h
    have hboth := h.invariant (P := fun s => s.store.Aligned ∧ s.Dated)
      (fun _ _ _ hp hs hc => ⟨StampRun.aligned_step hp.1 hs, hp.2.step hp.1 hs hc⟩)
      ⟨EventStore.aligned_newStore maxKeys, fun key offset hget => by cases hget⟩
    exact fun key e he => hboth.2.get hboth.1 he

/-- The clock shows the old time of every key in the index. -/
def StampRun.keepsAll [Crc32] (s : StampRun) : StampCall → Bool
  | .writeEvent _ _ => true
  | .compact times _ _ => s.store.index.entries.keys.all fun key =>
      (s.store.get key).toOption.all fun e => decide (times key = e.receivedAt)

theorem StampRun.keeps_of_keepsAll [Crc32] {s : StampRun} {c : StampCall}
    (h : s.keepsAll c = true) : s.Keeps c := by
  cases c with
  | writeEvent => trivial
  | compact times =>
    refine .inr fun key e he => ?_
    obtain ⟨offset, hget, _⟩ := EventStore.get_eq_ok.mp he
    have hkey : key ∈ s.store.index.entries.keys :=
      AList.mem_keys.mp (AList.lookup_isSome.mp (by rw [← HashIndex.get, hget]; rfl))
    have hall := List.all_eq_true.mp h key hkey
    rw [he] at hall
    exact of_decide_eq_true hall

section

local instance receiveCrc : Crc32 := Crc32.ieee

/-- A compaction in the same instant as the first write keeps its time. -/
theorem receive_times_compacted :
    ∃ s, Runs StampRun.step StampRun.Keeps (StampRun.initial 2) s ∧
      s.store.get [97] = .ok ⟨1, [97], [49]⟩ ∧ s.stamps [97] = some 1 := by
  obtain ⟨s, hrun, hget⟩ : ∃ s, Runs StampRun.step (fun s c => s.keepsAll c = true)
      (StampRun.initial 2) s ∧ (s.store.get [97]).toOption = some ⟨1, [97], [49]⟩ :=
    Runs.exists_of_exec [.writeEvent 1 ⟨0, [97], [49]⟩, .compact (fun _ => 1) .forward .forward,
      .writeEvent 2 ⟨0, [98], [50]⟩] (by decide +kernel)
  have hkeeps := hrun.weaken fun _ _ => StampRun.keeps_of_keepsAll
  rcases he : s.store.get [97] with err | e
  · rw [he] at hget
    cases hget
  · rw [he] at hget
    cases hget
    exact ⟨s, hkeeps, he, (receive_times 2).2 s hkeeps [97] _ he⟩

/-- An event that was received at time 1, after a compaction at time 5. -/
theorem compaction_restamps :
    (((EventStore.newStore 1).writeEvent 1 ⟨0, [97], [49]⟩).1.get [97]).toOption =
        some ⟨1, [97], [49]⟩ ∧
      ((((EventStore.newStore 1).writeEvent 1 ⟨0, [97], [49]⟩).1.compact (fun _ => 5)
        .forward .forward).1.get [97]).toOption = some ⟨5, [97], [49]⟩ := by
  decide +kernel

end

end Kv
