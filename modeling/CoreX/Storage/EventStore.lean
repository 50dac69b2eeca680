/-
CoreX/Storage/EventStore.lean

The event store: a write-ahead file of events and an index in memory from a source to
the offset of its last event.  `WriteEvent` appends and sets the index, `Compact`
rewrites the file from the index and swaps it in, `Recover` computes the index anew.
-/
import CoreX.Storage.Kv
import Mathlib.Data.Finset.Card

namespace Kv

open Bytes Places StepSystem Wal

/-! ### Events -/

/-- `domain.Event`; the time is the word of the record's header. -/
structure Event where
  receivedAt : UInt64
  source : List UInt8
  payload : List UInt8
  deriving DecidableEq, Repr

/-- `EncodeEvent`, both lengths as big-endian 16-bit words. -/
def encodeEvent (e : Event) : List UInt8 :=
  putBE 2 e.source.length ++ (e.source ++ (putBE 2 e.payload.length ++ e.payload))

/-- `DecodeEvent`; `none` is `ErrCorrupted`.  The time is left to the caller. -/
def decodeEvent (data : List UInt8) : Option Event :=
  if data.length < 2 then none
  else
    let sourceLength := getBE (data.take 2)
    if data.length < 2 + sourceLength + 2 then none
    else
      let source := (data.drop 2).take sourceLength
      let payloadLength := getBE ((data.drop (2 + sourceLength)).take 2)
      if data.length < 2 + sourceLength + 2 + payloadLength then none
      else some ⟨0, source, (data.drop (2 + sourceLength + 2)).take payloadLength⟩

namespace Event

/-- A source and a payload whose lengths have two bytes. -/
structure Proper (e : Event) : Prop where
  source : Short e.source
  payload : Short e.payload

instance (e : Event) : Decidable e.Proper :=
  decidable_of_iff (Short e.source ∧ Short e.payload) ⟨fun h => ⟨h.1, h.2⟩, fun h => ⟨h.1, h.2⟩⟩

/-- The record of an event that was written at its time. -/
def record (e : Event) : Record := ⟨e.receivedAt, encodeEvent e⟩

/-- The event as a write to a map. -/
def kv (e : Event) : List UInt8 × List UInt8 := (e.source, e.payload)

end Event

theorem sources_of_latest {es ws : List Event}
    (h : latest (es.map Event.kv) = latest (ws.map Event.kv)) :
    (es.map Event.source).toFinset = (ws.map Event.source).toFinset := by
  have hmem : ∀ (ds : List Event) (key : List UInt8),
      key ∈ ds.map Event.source ↔ (latest (ds.map Event.kv) key).isSome := by
    intro ds key
    rw [latest_isSome, List.map_map]
    rfl
  ext key
  rw [List.mem_toFinset, List.mem_toFinset, hmem, hmem, h]

/-! ### The index, its iteration -/

/-- The order in which `range` goes through a map: some permutation of its entries. -/
def MapOrder : Type :=
  { f : List (List UInt8 × Nat) → List (List UInt8 × Nat) // ∀ l, (f l).Perm l }

/-- `Snapshot`. -/
def HashIndex.snapshot (idx : HashIndex) : List (List UInt8 × Nat) :=
  idx.entries.entries.map fun e => (e.1, e.2)

/-- `Set` for all entries of a map. -/
def HashIndex.setAll (idx : HashIndex) (offsets : List (List UInt8 × Nat)) : Option HashIndex :=
  offsets.foldlM (fun idx p => idx.set p.1 p.2) idx

/-! ### The store -/

structure EventStore where
  index : HashIndex
  /-- The contents of the files, by their number. -/
  inodes : Nat → List UInt8
  /-- How many files have been created. -/
  created : Nat
  /-- The file that `walPath` names. -/
  path : Nat
  /-- The file of the writer's handle. -/
  writerFile : Nat
  sizeTracker : Nat
  /-- The file of the read handle; `none` if it is closed. -/
  readFile : Option Nat

/-- Why a read at an offset fails. -/
inductive HandleError
  | closed
  | wal (e : ReadError)
  deriving DecidableEq, Repr

inductive EventError
  | errKeyNotFound
  | read (offset : Nat) (e : HandleError)
  | decode (offset : Nat)
  deriving DecidableEq, Repr

inductive CompactError
  | read (key : List UInt8) (offset : Nat) (e : HandleError)
  | decode (key : List UInt8)
  | closeReadFile
  | rebuildIndex
  deriving DecidableEq, Repr

inductive EventRecoverError
  | decode (offset : Nat)
  | indexFull (offset : Nat)
  | wal (e : ReadError)
  deriving DecidableEq, Repr

/-- `Recover`, the variables of its loop. -/
structure EventRecovery where
  index : HashIndex
  offset : Nat
  count : Nat

/-- `Recover`, one record. -/
def EventRecovery.step (st : EventRecovery) (record : Record) :
    Except EventRecoverError EventRecovery :=
  match decodeEvent record.data with
  | none => .error (.decode st.offset)
  | some event =>
      match st.index.set event.source st.offset with
      | none => .error (.indexFull st.offset)
      | some index =>
          let recordSize := recordHeaderSize + record.data.length + recordChecksumSize
          .ok ⟨index, st.offset + recordSize, st.count + 1⟩

/-- `Recover`, the loop.  What was indexed before an error stays indexed. -/
def EventRecovery.loop (st : EventRecovery) :
    List Record → EventRecovery × Option EventRecoverError
  | [] => (st, none)
  | r :: rs =>
      match st.step r with
      | .error e => (st, some e)
      | .ok st' => st'.loop rs

section

variable [Crc32]

/-- `writeCompactedWAL`: the records of the snapshot are read with `read` and appended
by the writer `w`; the new offsets are collected. -/
def writeCompactedWAL (read : Nat → Except HandleError Record) (times : List UInt8 → UInt64) :
    List (List UInt8 × Nat) → Writer → List (List UInt8 × Nat) →
      Except CompactError (Writer × List (List UInt8 × Nat))
  | [], w, newOffsets => .ok (w, newOffsets)
  | (key, oldOffset) :: rest, w, newOffsets =>
      match read oldOffset with
      | .error e => .error (.read key oldOffset e)
      | .ok record =>
          match decodeEvent record.data with
          | none => .error (.decode key)
          | some event =>
              let (newOffset, w') := w.writeOffset (times key)
                (encodeEvent { event with receivedAt := record.timestamp })
              writeCompactedWAL read times rest w' (newOffsets ++ [(key, newOffset)])

namespace EventStore

variable (s : EventStore)

/-- The file under the path. -/
def wal : List UInt8 := s.inodes s.path

/-- `NewWriter` and `NewStore` on a path that does not exist. -/
def newStore (maxKeys : Nat) : EventStore :=
  ⟨.newHashIndex maxKeys, fun _ => [], 1, 0, 0, 0, some 0⟩

/-- `WriteEventOffset`: the time of the record is `now`. -/
def writeEventOffset (now : UInt64) (e : Event) : Nat × EventStore :=
  let (offset, w) := (⟨s.inodes s.writerFile, s.sizeTracker⟩ : Writer).writeOffset now
    (encodeEvent e)
  (offset,
    { s with
      inodes := Function.update s.inodes s.writerFile w.file
      sizeTracker := w.sizeTracker })

/-- `WriteEvent`, its second step. -/
def setIndex (source : List UInt8) (offset : Nat) : EventStore × Option StoreError :=
  match s.index.set source offset with
  | none => (s, some .errIndexFull)
  | some index => ({ s with index := index }, none)

/-- `WriteEvent`. -/
def writeEvent (now : UInt64) (e : Event) : EventStore × Option StoreError :=
  let (offset, s₁) := s.writeEventOffset now e
  s₁.setIndex e.source offset

/-- `ReadRecordAt` with the read handle. -/
def readRecordAt (offset : Nat) : Except HandleError Record :=
  match s.readFile with
  | none => .error .closed
  | some f =>
      match Wal.readRecordAt (s.inodes f) offset with
      | .error e => .error (.wal e)
      | .ok record => .ok record

/-- `Get`. -/
def get (key : List UInt8) : Except EventError Event :=
  match s.index.get key with
  | none => .error .errKeyNotFound
  | some offset =>
      match s.readRecordAt offset with
      | .error e => .error (.read offset e)
      | .ok record =>
          match decodeEvent record.data with
          | none => .error (.decode offset)
          | some event => .ok { event with receivedAt := record.timestamp }

/-- `Compact`.  The two maps are gone through in the orders `range` and `range'`, and
`times` are the times of the new records. -/
def compact (times : List UInt8 → UInt64) (range range' : MapOrder) :
    EventStore × Option CompactError :=
  match writeCompactedWAL s.readRecordAt times (range.1 s.index.snapshot) (newWriter []) [] with
  | .error e => (s, some e)
  | .ok (w, newOffsets) =>
      -- the rename
      let s₁ := { s with
        inodes := Function.update s.inodes s.created w.file
        created := s.created + 1
        path := s.created }
      match s.readFile with
      | none => (s₁, some .closeReadFile)
      | some _ =>
          match (HashIndex.newHashIndex s.index.maxKeys).setAll (range'.1 newOffsets) with
          | none => ({ s₁ with readFile := none }, some .rebuildIndex)
          | some index =>
              ({ s₁ with
                index := index
                readFile := some s.created
                writerFile := s.created
                sizeTracker := w.file.length }, none)

/-- `Recover`: the store, how many events were found, and the error. -/
def recover : EventStore × Nat × Option EventRecoverError :=
  let (st, err) := EventRecovery.loop ⟨s.index, 0, 0⟩ (readAll s.wal).1
  let err' := match err with
    | some e => some e
    | none =>
        match readErr s.wal with
        | none => none
        | some .errTruncated => none
        | some e => some (.wal e)
  ({ s with index := st.index }, st.count, err')

/-- The process ends; `NewWriter`, `NewStore` and `Recover`. -/
def reopen : EventStore × Nat × Option EventRecoverError :=
  recover { s with
    index := .newHashIndex s.index.maxKeys
    writerFile := s.path
    sizeTracker := s.wal.length
    readFile := some s.path }

end EventStore

end

/-! ### What is encoded is decoded -/

theorem decodeEvent_encodeEvent {e : Event} (h : e.Proper) :
    decodeEvent (encodeEvent e) = some { e with receivedAt := 0 } := by
  obtain ⟨hs, hp⟩ := h
  unfold Short at hs hp
  have hlen : (encodeEvent e).length = 2 + e.source.length + 2 + e.payload.length := by
    simp only [encodeEvent, List.length_append, length_putBE]
    omega
  have hsource : getBE ((encodeEvent e).take 2) = e.source.length := by
    rw [encodeEvent, take_append_of_length (length_putBE 2 _)]
    exact getBE_putBE_of_lt (by omega)
  have hdrop : (encodeEvent e).drop 2 = e.source ++ (putBE 2 e.payload.length ++ e.payload) := by
    rw [encodeEvent, drop_append_of_length (length_putBE 2 _)]
  have hdrop' : (encodeEvent e).drop (2 + e.source.length) =
      putBE 2 e.payload.length ++ e.payload := by
    rw [← List.drop_drop, hdrop, List.drop_left]
  have hpayload : getBE (((encodeEvent e).drop (2 + e.source.length)).take 2) =
      e.payload.length := by
    rw [hdrop', take_append_of_length (length_putBE 2 _)]
    exact getBE_putBE_of_lt (by omega)
  have hrest : (encodeEvent e).drop (2 + e.source.length + 2) = e.payload := by
    rw [← List.drop_drop, hdrop', drop_append_of_length (length_putBE 2 _)]
  rw [decodeEvent, if_neg (by omega)]
  simp only [hsource]
  rw [if_neg (by omega)]
  simp only [hpayload]
  rw [if_neg (by omega), hdrop, List.take_left, hrest, List.take_length]

theorem decodeEvent_record {e : Event} (h : e.Proper) :
    decodeEvent e.record.data = some { e with receivedAt := 0 } :=
  decodeEvent_encodeEvent h

theorem Event.Proper.sized {e : Event} (h : e.Proper) : e.record.Sized := by
  obtain ⟨hs, hp⟩ := h
  unfold Short at hs hp
  simp only [Record.Sized, Event.record, encodeEvent, List.length_append, length_putBE]
  omega

/-! ### The keys of an index -/

namespace HashIndex

variable {idx idx' : HashIndex} {key : List UInt8} {offset : Nat}

theorem mem_snapshot : (key, offset) ∈ idx.snapshot ↔ idx.get key = some offset := by
  rw [HashIndex.get, ← Option.mem_def, AList.mem_lookup_iff, snapshot, List.mem_map]
  constructor
  · rintro ⟨⟨k, o⟩, hmem, heq⟩
    obtain ⟨rfl, rfl⟩ := Prod.mk.inj heq
    exact hmem
  · exact fun h => ⟨_, h, rfl⟩

theorem mem_range_snapshot {range : MapOrder} :
    (key, offset) ∈ range.1 idx.snapshot ↔ idx.get key = some offset :=
  (range.2 _).mem_iff.trans mem_snapshot

theorem nodup_snapshot (idx : HashIndex) : (idx.snapshot.map Prod.fst).Nodup := by
  rw [snapshot, List.map_map]
  exact idx.entries.keys_nodup

/-- The keys of an index. -/
def keySet (idx : HashIndex) : Finset (List UInt8) := idx.entries.keys.toFinset

theorem mem_keySet : key ∈ idx.keySet ↔ (idx.get key).isSome := by
  rw [keySet, List.mem_toFinset, ← AList.mem_keys]
  exact AList.lookup_isSome.symm

theorem card_keySet : idx.keySet.card = idx.entries.entries.length := by
  rw [keySet, List.toFinset_card_of_nodup idx.entries.keys_nodup]
  exact List.length_map _

theorem hasRoom_of_subset {S : Finset (List UInt8)} (hsub : idx.keySet ⊆ S)
    (hcard : S.card ≤ idx.maxKeys) (hkey : key ∈ S) : idx.hasRoom key = true := by
  unfold hasRoom
  by_cases h : key ∈ idx.keySet
  · rw [mem_keySet.mp h, Bool.true_or]
  · have hlt : idx.keySet.card < S.card :=
      Finset.card_lt_card (Finset.ssubset_iff_subset_ne.mpr ⟨hsub, fun heq => h (heq ▸ hkey)⟩)
    rw [card_keySet] at hlt
    rw [Bool.or_eq_true_iff, decide_eq_true_iff]
    exact .inr (by omega)

theorem set_of_hasRoom (h : idx.hasRoom key = true) (offset : Nat) :
    ∃ idx', idx.set key offset = some idx' := ⟨_, if_pos h⟩

theorem maxKeys_set (h : idx.set key offset = some idx') : idx'.maxKeys = idx.maxKeys := by
  rw [(eq_of_set h).2]

theorem keySet_set (h : idx.set key offset = some idx') : idx'.keySet = insert key idx.keySet := by
  ext k
  rw [Finset.mem_insert, mem_keySet, mem_keySet, get_set h]
  rcases eq_or_ne k key with rfl | hne
  · simp
  · rw [Function.update_of_ne hne]
    simp [hne]

theorem card_set_le (hcard : idx.keySet.card ≤ idx.maxKeys) (h : idx.set key offset = some idx') :
    idx'.keySet.card ≤ idx'.maxKeys := by
  rw [maxKeys_set h, keySet_set h]
  have hroom := (eq_of_set h).1
  unfold hasRoom at hroom
  rw [Bool.or_eq_true_iff, decide_eq_true_iff, ← mem_keySet, ← card_keySet] at hroom
  rcases hroom with hmem | hlt
  · rwa [Finset.insert_eq_of_mem hmem]
  · exact (Finset.card_insert_le _ _).trans hlt

theorem setAll_get (idx : HashIndex) (ks offsets : List (List UInt8 × Nat))
    {S : Finset (List UInt8)}
    (hS : ∀ p ∈ offsets, p.1 ∈ S) (hsub : idx.keySet ⊆ S) (hcard : S.card ≤ idx.maxKeys)
    (hidx : idx.get = latest ks) :
    ∃ idx', idx.setAll offsets = some idx' ∧ idx'.maxKeys = idx.maxKeys ∧
      idx'.get = latest (ks ++ offsets) := by
  induction offsets generalizing idx ks with
  | nil =>
    refine ⟨idx, rfl, rfl, ?_⟩
    rwa [List.append_nil]
  | cons p offsets ih =>
    have hp := hS p List.mem_cons_self
    obtain ⟨idx₁, hset⟩ := set_of_hasRoom (hasRoom_of_subset hsub hcard hp) p.2
    have hsub₁ : idx₁.keySet ⊆ S := by
      rw [keySet_set hset]
      exact Finset.insert_subset hp hsub
    have hmax := maxKeys_set hset
    have hidx₁ : idx₁.get = latest (ks ++ [p]) := by
      rw [get_set hset, hidx, latest_concat]
    obtain ⟨idx', hall, hmax', hget⟩ :=
      ih idx₁ (ks ++ [p]) (fun q hq => hS q (List.mem_cons_of_mem _ hq)) hsub₁ (hmax ▸ hcard) hidx₁
    refine ⟨idx', ?_, hmax'.trans hmax, ?_⟩
    · show (idx.set p.1 p.2 >>= fun i => i.setAll offsets) = _
      rw [hset]
      exact hall
    · rwa [List.append_assoc] at hget

theorem rebuild_get (idx : HashIndex) (hcard : idx.keySet.card ≤ idx.maxKeys) (range : MapOrder)
    (offsets : List (List UInt8 × Nat)) (hkeys : ∀ p ∈ offsets, p.1 ∈ idx.keySet) :
    ∃ idx', (newHashIndex idx.maxKeys).setAll (range.1 offsets) = some idx' ∧
      idx'.maxKeys = idx.maxKeys ∧ idx'.get = latest (range.1 offsets) := by
  have hnil : (newHashIndex idx.maxKeys).keySet ⊆ idx.keySet := by
    intro k hk
    cases mem_keySet.mp hk
  obtain ⟨idx', hall, hmax, hget⟩ := setAll_get (newHashIndex idx.maxKeys) [] (range.1 offsets)
    (fun p hp => hkeys p ((range.2 _).mem_iff.mp hp)) hnil hcard rfl
  exact ⟨idx', hall, hmax, hget⟩

end HashIndex

/-! ### The file -/

section

variable [Crc32] {file : List UInt8} {es : List Event} {e : Event} {offset : Nat}
  {key payload : List UInt8}

/-- The bytes of the events. -/
def stream (es : List Event) : List UInt8 := (es.map Event.record).flatMap encode

theorem stream_append (es more : List Event) : stream (es ++ more) = stream es ++ stream more := by
  rw [stream, List.map_append, List.flatMap_append]
  rfl

theorem stream_concat (es : List Event) (e : Event) :
    stream (es ++ [e]) = stream es ++ encode e.record := by
  rw [stream_append]
  show _ ++ ([e].map Event.record).flatMap encode = _
  rw [List.map_singleton, List.flatMap_singleton]

theorem stream_split {n : Nat} (he : es[n]? = some e) :
    stream es = stream (es.take n) ++ (encode e.record ++ stream (es.drop (n + 1))) := by
  have htake : es.take (n + 1) = es.take n ++ [e] := by
    rw [List.take_add_one, he]
    rfl
  rw [← List.append_assoc, ← stream_concat, ← htake, ← stream_append, List.take_append_drop]

theorem readRecordAt_stream (hes : ∀ e ∈ es, e.Proper) {n : Nat} (he : es[n]? = some e) :
    Wal.readRecordAt (stream es) (stream (es.take n)).length = .ok e.record := by
  rw [stream_split he]
  exact readRecordAt_encode (hes e (List.mem_of_getElem? he)).sized _

theorem readAll_events (hes : ∀ e ∈ es, e.Proper) :
    readAll (stream es) = (es.map Event.record, [], some .eof) := by
  refine readAll_whole fun r hr => ?_
  obtain ⟨e, he, rfl⟩ := List.mem_map.mp hr
  exact (hes e he).sized

/-- At `offset` stands an event of `key` with that payload. -/
def EventAt (file : List UInt8) (offset : Nat) (key payload : List UInt8) : Prop :=
  ∃ pre post e, file = pre ++ (encode (Event.record e) ++ post) ∧ pre.length = offset ∧
    e.Proper ∧ e.kv = (key, payload)

theorem EventAt.append (h : EventAt file offset key payload) (more : List UInt8) :
    EventAt (file ++ more) offset key payload := by
  obtain ⟨pre, post, e, rfl, hrest⟩ := h
  exact ⟨pre, post ++ more, e, by simp only [List.append_assoc], hrest⟩

theorem EventAt.last (file : List UInt8) (he : e.Proper) :
    EventAt (file ++ encode e.record) file.length e.source e.payload :=
  ⟨file, [], e, by rw [List.append_nil], rfl, he, rfl⟩

theorem EventAt.readRecordAt (h : EventAt file offset key payload) :
    ∃ e : Event, Wal.readRecordAt file offset = .ok e.record ∧ e.Proper ∧
      e.kv = (key, payload) := by
  obtain ⟨pre, post, e, rfl, rfl, he, hkv⟩ := h
  exact ⟨e, readRecordAt_encode he.sized pre, he, hkv⟩

/-- The sources of the events with the offsets where they stand, the first at `base`. -/
def offsetsFrom (base : Nat) : List Event → List (List UInt8 × Nat)
  | [] => []
  | e :: es => (e.source, base) :: offsetsFrom (base + (encode e.record).length) es

def offsets (es : List Event) : List (List UInt8 × Nat) := offsetsFrom 0 es

theorem offsetsFrom_append (base : Nat) (es more : List Event) :
    offsetsFrom base (es ++ more) =
      offsetsFrom base es ++ offsetsFrom (base + (stream es).length) more := by
  induction es generalizing base with
  | nil => rfl
  | cons e es ih =>
    have hlen : (stream (e :: es)).length = (encode e.record).length + (stream es).length :=
      List.length_append
    rw [List.cons_append, offsetsFrom, offsetsFrom, ih, hlen, Nat.add_assoc, List.cons_append]

theorem offsets_concat (es : List Event) (e : Event) :
    offsets (es ++ [e]) = offsets es ++ [(e.source, (stream es).length)] := by
  rw [offsets, offsetsFrom_append, Nat.zero_add]
  rfl

theorem offsetsFrom_sources (base : Nat) (es : List Event) :
    (offsetsFrom base es).map Prod.fst = es.map Event.source := by
  induction es generalizing base with
  | nil => rfl
  | cons e es ih => rw [offsetsFrom, List.map_cons, List.map_cons, ih]

theorem offsets_sources (es : List Event) : (offsets es).map Prod.fst = es.map Event.source :=
  offsetsFrom_sources 0 es

theorem offsets_lead (hes : ∀ e ∈ es, e.Proper) :
    Leads (EventAt (stream es)) (latest (offsets es)) (latest (es.map Event.kv)) := by
  induction es using List.reverseRecOn with
  | nil => exact fun _ => .inl ⟨rfl, rfl⟩
  | append_singleton es e ih =>
    have he := hes e (List.mem_append_right _ List.mem_cons_self)
    rw [offsets_concat, latest_concat, List.map_append, List.map_singleton, latest_concat,
      stream_concat]
    have hlead := ih fun x hx => hes x (List.mem_append_left _ hx)
    exact (hlead.mono fun _ _ _ hat => hat.append _).set (EventAt.last (stream es) he)

theorem le_latest_offsetsFrom {base : Nat} (h : latest (offsetsFrom base es) key = some offset) :
    base ≤ offset := by
  have hmem : ∀ (b : Nat) (ds : List Event), ∀ p ∈ offsetsFrom b ds, b ≤ p.2 := by
    intro b ds
    induction ds generalizing b with
    | nil => exact fun p hp => absurd hp List.not_mem_nil
    | cons d ds ih =>
      intro p hp
      rcases List.mem_cons.mp hp with rfl | hp
      · exact Nat.le_refl b
      · exact (Nat.le_add_right b _).trans (ih _ p hp)
  exact hmem base es _ (mem_of_latest h)

theorem latest_take_of_lt {n : Nat} (h : latest (offsets es) key = some offset)
    (hlt : offset < (stream (es.take n)).length) :
    latest ((es.take n).map Event.kv) key = latest (es.map Event.kv) key := by
  have hsplit : offsets es =
      offsets (es.take n) ++ offsetsFrom (stream (es.take n)).length (es.drop n) := by
    have happend := offsetsFrom_append 0 (es.take n) (es.drop n)
    rwa [List.take_append_drop, Nat.zero_add] at happend
  have hdrop : latest (offsetsFrom (stream (es.take n)).length (es.drop n)) key = none := by
    rcases hd : latest (offsetsFrom (stream (es.take n)).length (es.drop n)) key with - | o
    · rfl
    · have hle := le_latest_offsetsFrom hd
      rw [hsplit, latest_append, hd, Option.some_or] at h
      obtain rfl := Option.some.inj h
      omega
  have hkv : latest ((es.drop n).map Event.kv) key = none := by
    rw [latest_eq_none, List.map_map]
    rw [latest_eq_none, offsetsFrom_sources] at hdrop
    exact hdrop
  conv =>
    rhs
    rw [← List.take_append_drop n es, List.map_append, latest_append, hkv, Option.none_or]

theorem latest_offsets_lt (h : latest (offsets es) key = some offset) :
    offset < (stream es).length := by
  induction es using List.reverseRecOn with
  | nil => cases h
  | append_singleton es e ih =>
    have hpos : 0 < (encode e.record).length := by
      rw [length_encode]
      omega
    rw [offsets_concat, latest_concat] at h
    rw [stream_concat, List.length_append]
    rcases eq_or_ne key e.source with rfl | hne
    · rw [Function.update_self] at h
      obtain rfl := Option.some.inj h
      omega
    · rw [Function.update_of_ne hne] at h
      have := ih h
      omega

/-- The events that a scan finds. -/
def scanned (file : List UInt8) : List Event :=
  (readAll file).1.filterMap fun r =>
    (decodeEvent r.data).map fun e => { e with receivedAt := r.timestamp }

theorem scanned_stream (hes : ∀ e ∈ es, e.Proper) : scanned (stream es) = es := by
  rw [scanned, readAll_events hes, List.filterMap_map]
  refine (List.filterMap_congr fun e he => ?_).trans List.filterMap_some
  show (decodeEvent (encodeEvent e)).map _ = some e
  rw [decodeEvent_encodeEvent (hes e he)]
  rfl

end

/-! ### The store, its files -/

namespace EventStore

variable [Crc32] {s s' : EventStore} {es : List Event} {e : Event} {now : UInt64}

/-- The path, the writer and the reader are at one file, which holds the events `es`,
and the writer knows its size. -/
structure Stored (s : EventStore) (es : List Event) : Prop where
  writer : s.writerFile = s.path
  reader : s.readFile = some s.path
  fresh : s.path < s.created
  wal : s.wal = stream es
  counted : s.sizeTracker = (stream es).length
  proper : ∀ e ∈ es, e.Proper

/-- The index has the offset of the last event of each source in `es`. -/
def IndexOf (s : EventStore) (es : List Event) : Prop := s.index.get = latest (offsets es)

theorem stored_newStore (maxKeys : Nat) : (newStore maxKeys).Stored [] where
  writer := rfl
  reader := rfl
  fresh := Nat.zero_lt_one
  wal := rfl
  counted := rfl
  proper := fun _ he => absurd he List.not_mem_nil

theorem Stored.writeEventOffset (h : s.Stored es) (he : e.Proper) (now : UInt64) :
    (s.writeEventOffset now e).1 = (stream es).length ∧
      (s.writeEventOffset now e).2.Stored (es ++ [{ e with receivedAt := now }]) := by
  have hfile : s.inodes s.writerFile = stream es := by
    rw [h.writer]
    exact h.wal
  refine ⟨h.counted, h.writer, h.reader, h.fresh, ?_, ?_, ?_⟩
  · show Function.update s.inodes s.writerFile _ s.path = _
    rw [h.writer, Function.update_self, stream_concat, ← hfile, h.writer]
    rfl
  · show s.sizeTracker + _ = _
    rw [h.counted, stream_concat, List.length_append]
    rfl
  · intro e' he'
    rcases List.mem_append.mp he' with he' | he'
    · exact h.proper e' he'
    · rw [List.mem_singleton.mp he']
      exact ⟨he.source, he.payload⟩

theorem Stored.setIndex (h : s.Stored es) (source : List UInt8) (offset : Nat) :
    (s.setIndex source offset).1.Stored es := by
  unfold EventStore.setIndex
  split
  · exact h
  · exact ⟨h.writer, h.reader, h.fresh, h.wal, h.counted, h.proper⟩

theorem Stored.get_key (h : s.Stored es) {key : List UInt8}
    (hkey : s.index.get key = latest (offsets es) key) :
    (s.get key).map Event.kv = match latest (es.map Event.kv) key with
      | none => .error .errKeyNotFound
      | some payload => .ok (key, payload) := by
  rcases offsets_lead h.proper key with ⟨hnone, hspec⟩ | ⟨offset, payload, hsome, hspec, hat⟩
  · rw [EventStore.get, hkey.trans hnone, hspec]
    rfl
  · have hget : s.index.get key = some offset := hkey.trans hsome
    obtain ⟨e, hread, he, hkv⟩ := hat.readRecordAt
    have hrec : s.readRecordAt offset = .ok e.record := by
      have hfile : s.inodes s.path = stream es := h.wal
      simp only [EventStore.readRecordAt, h.reader, hfile, hread]
    simp only [EventStore.get, hget, hrec, decodeEvent_record he, hspec]
    exact congrArg Except.ok hkv

theorem Stored.get (h : s.Stored es) (hidx : s.IndexOf es) (key : List UInt8) :
    (s.get key).map Event.kv = match latest (es.map Event.kv) key with
      | none => .error .errKeyNotFound
      | some payload => .ok (key, payload) :=
  h.get_key (congrFun hidx key)

theorem Stored.writeEvent (h : s.Stored es) (hidx : s.IndexOf es) (he : e.Proper)
    (hroom : s.index.hasRoom e.source = true) (now : UInt64) :
    ∃ s', s.writeEvent now e = (s', none) ∧ s'.Stored (es ++ [{ e with receivedAt := now }]) ∧
      s'.IndexOf (es ++ [{ e with receivedAt := now }]) ∧ s'.index.maxKeys = s.index.maxKeys := by
  obtain ⟨hoffset, hstored⟩ := h.writeEventOffset he now
  obtain ⟨idx, hset⟩ := HashIndex.set_of_hasRoom hroom (stream es).length
  have hset' : (s.writeEventOffset now e).2.setIndex e.source (s.writeEventOffset now e).1 =
      ({ (s.writeEventOffset now e).2 with index := idx }, none) := by
    have hindex : (s.writeEventOffset now e).2.index = s.index := rfl
    rw [EventStore.setIndex, hoffset, hindex, hset]
  refine ⟨_, hset', ?_, ?_, HashIndex.maxKeys_set hset⟩
  · have h' := hstored.setIndex e.source (s.writeEventOffset now e).1
    rwa [hset'] at h'
  · have hidx' : s.index.get = latest (offsets es) := hidx
    show idx.get = _
    rw [HashIndex.get_set hset, offsets_concat, latest_concat, hidx']

end EventStore

/-! ### Compaction -/

section

variable [Crc32]

theorem writeCompactedWAL_eq {read : Nat → Except HandleError Record}
    (times : List UInt8 → UInt64) (f : List UInt8 → List UInt8)
    {order : List (List UInt8 × Nat)} (ds : List Event)
    (hread : ∀ p ∈ order, ∃ e : Event, read p.2 = .ok e.record ∧ e.Proper ∧ e.kv = (p.1, f p.1)) :
    ∃ es, writeCompactedWAL read times order (newWriter (stream ds)) (offsets ds) =
        .ok (newWriter (stream (ds ++ es)), offsets (ds ++ es)) ∧
      (∀ e ∈ es, e.Proper) ∧ es.map Event.kv = order.map fun p => (p.1, f p.1) := by
  induction order generalizing ds with
  | nil =>
    refine ⟨[], ?_, fun _ he => absurd he List.not_mem_nil, rfl⟩
    rw [List.append_nil]
    rfl
  | cons p order ih =>
    obtain ⟨key, oldOffset⟩ := p
    obtain ⟨e, hrec, he, hkv⟩ := hread (key, oldOffset) List.mem_cons_self
    obtain ⟨rfl, hpayload⟩ := Prod.mk.inj hkv
    -- the event as it stands in the new file
    let e' : Event := { e with receivedAt := times e.source }
    have hassoc : ∀ es, ds ++ e' :: es = (ds ++ [e']) ++ es := by
      intro es
      rw [List.append_assoc]
      rfl
    obtain ⟨es, hloop, hes, hkvs⟩ :=
      ih (ds ++ [e']) fun p hp => hread p (List.mem_cons_of_mem _ hp)
    have hwrite : (newWriter (stream ds)).writeOffset (times e.source) (encodeEvent e) =
        ((stream ds).length, newWriter (stream (ds ++ [e']))) := by
      rw [stream_concat, newWriter, newWriter, Writer.writeOffset, List.length_append]
      rfl
    refine ⟨e' :: es, ?_, ?_, ?_⟩
    · simp only [writeCompactedWAL, hrec, decodeEvent_record he]
      show writeCompactedWAL read times order
        ((newWriter (stream ds)).writeOffset (times e.source) (encodeEvent e)).2
        (offsets ds ++
          [(e.source, ((newWriter (stream ds)).writeOffset (times e.source) (encodeEvent e)).1)]) =
            _
      rw [hassoc, ← hloop, hwrite, offsets_concat]
    · intro x hx
      rcases List.mem_cons.mp hx with rfl | hx
      · exact ⟨he.source, he.payload⟩
      · exact hes x hx
    · rw [List.map_cons, List.map_cons, hkvs]
      exact congrArg (· :: _) hkv

end

namespace EventStore

variable [Crc32] {s s' : EventStore} {es : List Event} {e : Event} {now : UInt64}

theorem IndexOf.mem_keySet (h : s.IndexOf es) {key : List UInt8} :
    key ∈ s.index.keySet ↔ key ∈ es.map Event.source := by
  rw [HashIndex.mem_keySet, show s.index.get = latest (offsets es) from h, latest_isSome,
    offsets_sources]

theorem IndexOf.keySet_eq {es' : List Event} (h : s.IndexOf es) (h' : s'.IndexOf es')
    (hlatest : latest (es'.map Event.kv) = latest (es.map Event.kv)) :
    s'.index.keySet = s.index.keySet := by
  ext key
  rw [h'.mem_keySet, h.mem_keySet, ← List.mem_toFinset, ← List.mem_toFinset,
    sources_of_latest hlatest]

theorem compact_eq {times : List UInt8 → UInt64} {range range' : MapOrder} {w : Writer}
    {newOffsets : List (List UInt8 × Nat)} {file : Nat} {idx : HashIndex}
    (hwrite : writeCompactedWAL s.readRecordAt times (range.1 s.index.snapshot) (newWriter []) [] =
      .ok (w, newOffsets))
    (hreader : s.readFile = some file)
    (hall : (HashIndex.newHashIndex s.index.maxKeys).setAll (range'.1 newOffsets) = some idx) :
    s.compact times range range' = ({ s with
      index := idx
      inodes := Function.update s.inodes s.created w.file
      created := s.created + 1
      path := s.created
      writerFile := s.created
      sizeTracker := w.file.length
      readFile := some s.created }, none) := by
  simp only [EventStore.compact, hwrite, hreader, hall]

theorem Stored.compact (h : s.Stored es) (hidx : s.IndexOf es)
    (hcard : s.index.keySet.card ≤ s.index.maxKeys) (times : List UInt8 → UInt64)
    (range range' : MapOrder) :
    ∃ s' es', s.compact times range range' = (s', none) ∧ s'.Stored es' ∧ s'.IndexOf es' ∧
      latest (es'.map Event.kv) = latest (es.map Event.kv) ∧
      s'.index.maxKeys = s.index.maxKeys := by
  have hidx' : s.index.get = latest (offsets es) := hidx
  let f : List UInt8 → List UInt8 := fun key => (latest (es.map Event.kv) key).getD []
  have hread : ∀ p ∈ range.1 s.index.snapshot, ∃ e : Event,
      s.readRecordAt p.2 = .ok e.record ∧ e.Proper ∧ e.kv = (p.1, f p.1) := by
    intro p hp
    obtain ⟨payload, hspec, hat⟩ :=
      (offsets_lead h.proper).here
      (hidx' ▸ HashIndex.mem_range_snapshot.mp hp : latest (offsets es) p.1 = some p.2)
    obtain ⟨e, hrec, he, hkv⟩ := hat.readRecordAt
    refine ⟨e, ?_, he, ?_⟩
    · have hfile : s.inodes s.path = stream es := h.wal
      simp only [EventStore.readRecordAt, h.reader, hfile, hrec]
    · rw [hkv]
      simp only [f, hspec, Option.getD_some]
  obtain ⟨es', hwrite, hes', hkvs⟩ := writeCompactedWAL_eq times f [] hread
  -- the sources of the new file are the keys of the index, each of them once
  have hsources : es'.map Event.source = (range.1 s.index.snapshot).map Prod.fst := by
    have hfst := congrArg (List.map Prod.fst) hkvs
    rwa [List.map_map, List.map_map] at hfst
  have hnodup : ((offsets es').map Prod.fst).Nodup := by
    rw [offsets_sources, hsources]
    exact ((range.2 _).map Prod.fst).nodup_iff.mpr (HashIndex.nodup_snapshot s.index)
  have hkeys : ∀ k, k ∈ es'.map Event.source ↔ k ∈ s.index.keySet := by
    intro k
    rw [hsources, HashIndex.mem_keySet, Option.isSome_iff_exists]
    constructor
    · intro hk
      obtain ⟨p, hp, rfl⟩ := List.mem_map.mp hk
      exact ⟨p.2, HashIndex.mem_range_snapshot.mp hp⟩
    · rintro ⟨o, ho⟩
      exact List.mem_map.mpr ⟨(k, o), HashIndex.mem_range_snapshot.mpr ho, rfl⟩
  obtain ⟨idx', hall, hmax, hget⟩ := s.index.rebuild_get hcard range' (offsets es')
    (fun p hp => by
      rw [← hkeys, ← offsets_sources]
      exact List.mem_map_of_mem hp)
  have hlatest : latest (es'.map Event.kv) = latest (es.map Event.kv) := by
    funext k
    have hspec := (offsets_lead h.proper).isSome_iff k
    rw [← hidx', ← HashIndex.mem_keySet, ← hkeys k, hsources] at hspec
    have hgraph := latest_graph f ((range.1 s.index.snapshot).map Prod.fst) k
    rw [List.map_map] at hgraph
    rw [hkvs]
    refine hgraph.trans ?_
    split
    · next hk =>
      obtain ⟨v, hv⟩ := Option.isSome_iff_exists.mp (hspec.mp hk)
      simp only [f, hv, Option.getD_some]
    · next hk => exact (Option.not_isSome_iff_eq_none.mp (mt hspec.mpr hk)).symm
  refine ⟨_, es', compact_eq hwrite h.reader hall, ?_, ?_, hlatest, hmax⟩
  · exact ⟨rfl, rfl, Nat.lt_succ_self _, Function.update_self .., rfl, hes'⟩
  · show idx'.get = _
    rw [hget, latest_perm (range'.2 _) hnodup]

theorem writeEvent_path (s : EventStore) (now : UInt64) (e : Event) :
    (s.writeEvent now e).1.path = s.path ∧ (s.writeEvent now e).1.created = s.created := by
  simp only [EventStore.writeEvent, EventStore.setIndex]
  split
  · exact ⟨rfl, rfl⟩
  · exact ⟨rfl, rfl⟩

theorem writeEvent_bounded (h : s.index.keySet.card ≤ s.index.maxKeys) (now : UInt64) (e : Event) :
    (s.writeEvent now e).1.index.keySet.card ≤ (s.writeEvent now e).1.index.maxKeys := by
  simp only [EventStore.writeEvent, EventStore.setIndex]
  split
  · exact h
  · next hset => exact HashIndex.card_set_le h hset

theorem path_of_compact {times : List UInt8 → UInt64} {range range' : MapOrder}
    (h : s.compact times range range' = (s', none)) :
    s'.path = s.created ∧ s'.created = s.created + 1 := by
  unfold EventStore.compact at h
  split at h
  · cases h
  · dsimp only at h
    split at h
    · cases h
    · split at h <;> cases h
      exact ⟨rfl, rfl⟩

/-! ### Recovery -/

theorem loop_events (st : EventRecovery) (ds : List Event) {S : Finset (List UInt8)}
    (hes : ∀ e ∈ es, e.Proper) (hoffset : st.offset = (stream ds).length)
    (hidx : st.index.get = latest (offsets ds)) (hS : ∀ e ∈ es, e.source ∈ S)
    (hsub : st.index.keySet ⊆ S) (hcard : S.card ≤ st.index.maxKeys) :
    ∃ st', st.loop (es.map Event.record) = (st', none) ∧ st'.index.maxKeys = st.index.maxKeys ∧
      st'.index.get = latest (offsets (ds ++ es)) := by
  induction es generalizing st ds with
  | nil =>
    refine ⟨st, rfl, rfl, ?_⟩
    rwa [List.append_nil]
  | cons e es ih =>
    have he := hes e List.mem_cons_self
    have hsource := hS e List.mem_cons_self
    obtain ⟨idx, hset⟩ :=
      HashIndex.set_of_hasRoom (HashIndex.hasRoom_of_subset hsub hcard hsource) st.offset
    have hmax := HashIndex.maxKeys_set hset
    have hstep : st.step e.record =
        .ok ⟨idx, st.offset + (encode e.record).length, st.count + 1⟩ := by
      simp only [EventRecovery.step, decodeEvent_record he, hset, recordSize_eq]
    have hidx' : idx.get = latest (offsets (ds ++ [e])) := by
      rw [HashIndex.get_set hset, hidx, hoffset, offsets_concat, latest_concat]
    have hsub' : idx.keySet ⊆ S := by
      rw [HashIndex.keySet_set hset]
      exact Finset.insert_subset hsource hsub
    obtain ⟨st', hloop, hmax', hget⟩ :=
      ih ⟨idx, st.offset + (encode e.record).length, st.count + 1⟩ (ds ++ [e])
        (fun x hx => hes x (List.mem_cons_of_mem _ hx))
        (by rw [hoffset, stream_concat, List.length_append]) hidx'
        (fun x hx => hS x (List.mem_cons_of_mem _ hx)) hsub' (hmax ▸ hcard)
    refine ⟨st', ?_, hmax'.trans hmax, ?_⟩
    · rw [List.map_cons, EventRecovery.loop, hstep]
      exact hloop
    · rwa [List.append_assoc] at hget

theorem Stored.reopen (h : s.Stored es)
    (hcard : (es.map Event.source).toFinset.card ≤ s.index.maxKeys) :
    ∃ s' count, s.reopen = (s', count, none) ∧ s'.Stored es ∧ s'.IndexOf es ∧
      s'.index.maxKeys = s.index.maxKeys := by
  obtain ⟨st, hloop, hmax, hget⟩ := loop_events ⟨.newHashIndex s.index.maxKeys, 0, 0⟩ []
    (S := (es.map Event.source).toFinset) h.proper rfl rfl
    (fun e he => List.mem_toFinset.mpr (List.mem_map_of_mem he))
    (fun k hk => absurd (HashIndex.mem_keySet.mp hk)
      (by simp [HashIndex.get, HashIndex.newHashIndex]))
    hcard
  have hall := readAll_events h.proper
  have hwal : s.inodes s.path = stream es := h.wal
  refine ⟨{ s with
    index := st.index, writerFile := s.path, sizeTracker := s.wal.length,
    readFile := some s.path }, st.count, ?_, ⟨rfl, rfl, h.fresh, h.wal, ?_, h.proper⟩, hget, hmax⟩
  · simp only [EventStore.reopen, recover, EventStore.wal, hwal, hall, hloop, readErr]
  · exact congrArg List.length h.wal

end EventStore

/-! ### Every sequential run -/

/-- The store, the events that were written, and whether a call returned an error. -/
structure EventRun where
  store : EventStore
  written : List Event
  failed : Bool

inductive EventCall
  | writeEvent (now : UInt64) (e : Event)
  | compact (times : List UInt8 → UInt64) (range range' : MapOrder)
  /-- Close, `NewWriter`, `NewStore` and `Recover`. -/
  | reopen

section Runs

variable [Crc32]

def EventRun.initial (maxKeys : Nat) : EventRun := ⟨.newStore maxKeys, [], false⟩

def EventRun.step (s : EventRun) : EventCall → Option EventRun
  | .writeEvent now e =>
      let (store, err) := s.store.writeEvent now e
      some ⟨store, s.written ++ [e], s.failed || err.isSome⟩
  | .compact times range range' =>
      let (store, err) := s.store.compact times range range'
      some ⟨store, s.written, s.failed || err.isSome⟩
  | .reopen =>
      let (store, _, err) := s.store.reopen
      some ⟨store, s.written, s.failed || err.isSome⟩

/-- Sources and payloads whose lengths have two bytes, and no more sources than the
index has places. -/
def EventCall.Proper (maxKeys : Nat) (s : EventRun) : EventCall → Prop
  | .writeEvent _ e =>
      e.Proper ∧ ((s.written ++ [e]).map Event.source).toFinset.card ≤ maxKeys
  | _ => True

instance EventCall.decidableProper (maxKeys : Nat) (s : EventRun) (c : EventCall) :
    Decidable (c.Proper maxKeys s) := by
  cases c <;> unfold EventCall.Proper <;> infer_instance

/-- The file holds events with the same last payload for each source as those that
were written. -/
structure EventInv (maxKeys : Nat) (s : EventRun) : Prop where
  stored : ∃ es, s.store.Stored es ∧ s.store.IndexOf es ∧
    latest (es.map Event.kv) = latest (s.written.map Event.kv)
  places : s.store.index.maxKeys = maxKeys
  card : (s.written.map Event.source).toFinset.card ≤ maxKeys
  failed : s.failed = false

theorem EventInv.step {maxKeys : Nat} {s s' : EventRun} {c : EventCall} (h : EventInv maxKeys s)
    (hs : s.step c = some s') (hc : c.Proper maxKeys s) : EventInv maxKeys s' := by
  obtain ⟨⟨es, hstored, hidx, hlatest⟩, hmax, hcard, hfailed⟩ := h
  have hsources := sources_of_latest hlatest
  have hkeys : s.store.index.keySet = (s.written.map Event.source).toFinset := by
    rw [← hsources]
    ext key
    rw [hidx.mem_keySet, List.mem_toFinset]
  cases c with
  | writeEvent now e =>
    obtain ⟨he, hcard'⟩ := hc
    have hsub : s.store.index.keySet ⊆ ((s.written ++ [e]).map Event.source).toFinset := by
      rw [hkeys, List.map_append, List.toFinset_append]
      exact Finset.subset_union_left
    have hroom : s.store.index.hasRoom e.source = true :=
      HashIndex.hasRoom_of_subset hsub (hmax ▸ hcard') (by simp)
    obtain ⟨store, hwrite, hstored', hidx', hmax'⟩ := hstored.writeEvent hidx he hroom now
    simp only [EventRun.step, hwrite] at hs
    obtain rfl := Option.some.inj hs
    refine ⟨⟨_, hstored', hidx', ?_⟩, hmax'.trans hmax, hcard', by rw [hfailed]; rfl⟩
    rw [List.map_append, List.map_append, List.map_singleton, List.map_singleton, latest_concat,
      latest_concat, hlatest]
    rfl
  | compact times range range' =>
    obtain ⟨store, es', hcompact, hstored', hidx', hlatest', hmax'⟩ :=
      hstored.compact hidx (by rw [hkeys, hmax]; exact hcard) times range range'
    simp only [EventRun.step, hcompact] at hs
    obtain rfl := Option.some.inj hs
    exact ⟨⟨es', hstored', hidx', hlatest'.trans hlatest⟩, hmax'.trans hmax, hcard,
      by rw [hfailed]; rfl⟩
  | reopen =>
    obtain ⟨store, count, hreopen, hstored', hidx', hmax'⟩ :=
      hstored.reopen (by rw [hsources, hmax]; exact hcard)
    simp only [EventRun.step, hreopen] at hs
    obtain rfl := Option.some.inj hs
    exact ⟨⟨es, hstored', hidx', hlatest⟩, hmax'.trans hmax, hcard, by rw [hfailed]; rfl⟩

/-- **The event store refines a map.**  In every sequential run of `WriteEvent`,
`Compact` and restarts no call fails, and `Get` returns the payload that was written
last for the source, whatever order the index is gone through in. -/
theorem event_store_refines_map {maxKeys : Nat} {s : EventRun}
    (h : Runs EventRun.step (fun s c => c.Proper maxKeys s) (EventRun.initial maxKeys) s) :
    s.failed = false ∧ ∀ key, (s.store.get key).map Event.kv =
      match latest (s.written.map Event.kv) key with
      | none => .error .errKeyNotFound
      | some payload => .ok (key, payload) := by
  have h0 : EventInv maxKeys (EventRun.initial maxKeys) :=
    ⟨⟨[], EventStore.stored_newStore maxKeys, rfl, rfl⟩, rfl,
      Nat.zero_le maxKeys, rfl⟩
  obtain ⟨⟨es, hstored, hidx, hlatest⟩, -, -, hfailed⟩ :=
    h.invariant (fun _ _ _ hinv hs hok => hinv.step hs hok) h0
  refine ⟨hfailed, fun key => ?_⟩
  rw [← hlatest]
  exact hstored.get hidx key

end Runs

section

local instance eventCrc : Crc32 := Crc32.ieee

/-- The entries in the order of the list, and the other way round. -/
def MapOrder.forward : MapOrder := ⟨id, fun _ => .refl _⟩
def MapOrder.backward : MapOrder := ⟨List.reverse, List.reverse_perm⟩

/-- Two sources, one of them twice; a compaction, a restart and one more event. -/
def compactedEvents : List EventCall :=
  [.writeEvent 1 ⟨0, [97], [49]⟩, .writeEvent 2 ⟨0, [98], [50]⟩, .writeEvent 3 ⟨0, [97], [51]⟩,
    .compact (fun _ => 4) .backward .forward, .reopen, .writeEvent 5 ⟨0, [98], [52]⟩]

theorem event_store_refines_map_compacted :
    ∃ s, Runs EventRun.step (fun s c => c.Proper 2 s) (EventRun.initial 2) s ∧
      s.written.length = 4 ∧ s.failed = false ∧ (s.store.get [97]).map Event.kv =
        match latest (s.written.map Event.kv) [97] with
        | none => .error .errKeyNotFound
        | some payload => .ok ([97], payload) :=
  Runs.exists_and_of_exec compactedEvents (by decide +kernel) fun _ hrun _ =>
    ⟨(event_store_refines_map hrun).1, (event_store_refines_map hrun).2 [97]⟩

end

end Kv
