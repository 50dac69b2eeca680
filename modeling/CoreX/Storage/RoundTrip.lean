/-
CoreX/Storage/RoundTrip.lean

Which records are decoded to what was written.  Both stores write a string as its
length in two bytes and then the string, and neither `WriteKV`, `DeleteKV` nor
`WriteEvent` looks at how long it is.  The length of a longer string is written modulo
`2 ^ 16`: the string is cut, and its tail is taken for the fields that follow.
-/
import CoreX.Storage.EventStore
import CoreX.Storage.KvRecovery

namespace Kv

open Bytes Places Wal

/-! ### What the decoders return -/

theorem short_of_readString2 {data s rest : List UInt8} (h : readString2 data = .ok (s, rest)) :
    Short s := by
  unfold readString2 at h
  split at h
  · cases h
  · dsimp only at h
    split at h
    · cases h
    · obtain ⟨rfl, -⟩ := Prod.mk.inj (Except.ok.inj h)
      have hlt : getLE (data.take 2) < 256 ^ 2 := by
        refine (getLE_lt _).trans_le (Nat.pow_le_pow_right (by decide) ?_)
        rw [List.length_take]
        omega
      show List.length _ ≤ 65535
      rw [List.length_take]
      omega

theorem decodeKVRecord_short {data : List UInt8} {rec : KVRecord}
    (h : decodeKVRecord data = .ok rec) : Short rec.key ∧ Short rec.value := by
  rcases data with - | ⟨recType, data⟩
  · cases h
  rw [decodeKVRecord] at h
  split at h
  · cases h
  rcases hkey : readString2 (data.drop 8) with _ | ⟨key, rest⟩
  · simp only [hkey] at h
    cases h
  simp only [hkey] at h
  have hshort := short_of_readString2 hkey
  split at h
  · -- a set or a checkpoint, with a value
    split at h
    · cases h
    · next hvalue =>
      obtain rfl := Except.ok.inj h
      exact ⟨hshort, short_of_readString2 hvalue⟩
  · obtain rfl := Except.ok.inj h
    exact ⟨hshort, (by decide : Short [])⟩

theorem decodeEvent_proper {data : List UInt8} {e : Event} (h : decodeEvent data = some e) :
    e.Proper := by
  have hfield : ∀ l : List UInt8, getBE (l.take 2) ≤ 65535 := by
    intro l
    have hlt : getBE (l.take 2) < 256 ^ 2 := by
      refine (getBE_lt _).trans_le (Nat.pow_le_pow_right (by decide) ?_)
      rw [List.length_take]
      omega
    omega
  unfold decodeEvent at h
  split at h
  · cases h
  dsimp only at h
  split at h
  · cases h
  split at h
  · cases h
  obtain rfl := Option.some.inj h
  constructor
  · exact (List.length_take_le _ _).trans (hfield _)
  · exact (List.length_take_le _ _).trans (hfield _)

/-! ### The records of the Raft path -/

namespace KvOp

/-- What `decodeKVRecord` should make of the data record. -/
def kvRecord (op : KvOp) : KVRecord :=
  match op.value with
  | some v => ⟨kvRecordTypeSet, op.raftIndex, op.key, v⟩
  | none => ⟨kvRecordTypeDel, op.raftIndex, op.key, []⟩

theorem decodeKVRecord_dataRecord {op : KvOp} (hi : Fits 8 op.raftIndex) :
    decodeKVRecord op.dataRecord.data = .ok op.kvRecord ↔
      Short op.key ∧ ∀ v, op.value = some v → Short v := by
  obtain ⟨now, now', key, - | value, raftIndex⟩ := op
  · constructor
    · exact fun h => ⟨(decodeKVRecord_short h).1, fun v hv => nomatch hv⟩
    · exact fun h => decodeKVRecord_del hi h.1
  · constructor
    · intro h
      refine ⟨(decodeKVRecord_short h).1, ?_⟩
      rintro v ⟨⟩
      exact (decodeKVRecord_short h).2
    · exact fun h => decodeKVRecord_set hi h.1 (h.2 value rfl)

end KvOp

section

variable [Crc32]

/-- **Which writes come back.**  A call of `WriteKV` or `DeleteKV` that returns `nil`
has written a payload that is decoded to its own index, key and value exactly if key
and value have at most 65535 bytes.  If all strings have, `RecoverKV` on the file finds
the value. -/
theorem kv_writes_round_trip {s s' : Store} {op : KvOp} (hi : Fits 8 op.raftIndex)
    (h : s.performed op = some s') :
    s'.writer.file = s.writer.file ++ encode op.dataRecord ++ encode op.metaRecord ∧
    (decodeKVRecord op.dataRecord.data = .ok op.kvRecord ↔
      Short op.key ∧ ∀ v, op.value = some v → Short v) ∧
    ∀ maxKeys ops, (Store.newStore [] maxKeys).performAll ops = some s →
      (∀ o ∈ ops, o.Proper) → op.Proper →
      ∃ s'', (Store.newStore s'.writer.file maxKeys).recoverKV = .ok (s'', op.raftIndex) ∧
        s''.getKV op.key = .ok (found op.value) := by
  refine ⟨(Store.performed_eq h).1, KvOp.decodeKVRecord_dataRecord hi, ?_⟩
  intro maxKeys ops hrun hops hop
  have hrun' : (Store.newStore [] maxKeys).performAll (ops ++ [op]) = some s' := by
    rw [Store.performAll, List.foldlM_append]
    show (Store.performAll _ ops >>= fun m => m.performAll [op]) = _
    rw [hrun]
    exact (s.performAll_singleton op).trans h
  have hall : ∀ o ∈ ops ++ [op], o.Proper := by
    intro o ho
    rcases List.mem_append.mp ho with ho | ho
    · exact hops o ho
    · exact List.mem_singleton.mp ho ▸ hop
  obtain ⟨-, idx, -, hrec⟩ := Recovered.of_performAll hall hrun'
  obtain ⟨s'', hs'', hget⟩ := hrec.recoverKV (t := []) Frames.Torn.nil
  rw [List.append_nil, lastIndex_concat] at hs''
  refine ⟨s'', hs'', ?_⟩
  rw [hget, mapOf_concat, Function.update_self]

end

section

local instance roundTripCrc : Crc32 := Crc32.ieee

/-- The second write of a key, on a new store. -/
theorem kv_writes_round_trip_second :
    ∃ s s', (Store.newStore [] 2).performAll [⟨1, 2, [97], some [49], 1⟩] = some s ∧
      s.performed ⟨3, 4, [97], some [50], 2⟩ = some s' ∧
      decodeKVRecord (KvOp.dataRecord ⟨3, 4, [97], some [50], 2⟩).data =
        .ok (KvOp.kvRecord ⟨3, 4, [97], some [50], 2⟩) ∧
      ∃ s'', (Store.newStore s'.writer.file 2).recoverKV = .ok (s'', 2) ∧
        s''.getKV [97] = .ok (found (some [50])) := by
  obtain ⟨s, hs, hs'⟩ := StepSystem.exists_of_any
    (o := (Store.newStore [] 2).performAll [⟨1, 2, [97], some [49], 1⟩])
    (P := fun s => (s.performed ⟨3, 4, [97], some [50], 2⟩).isSome) (by decide +kernel)
  obtain ⟨s', hs'⟩ := Option.isSome_iff_exists.mp hs'
  have h := kv_writes_round_trip (by decide) hs'
  exact ⟨s, s', hs, hs', h.2.1.mpr (by decide), h.2.2 2 _ hs (by decide) (by decide)⟩

theorem take_replicate_append {k n : Nat} (h : k ≤ n) (b : UInt8) (rest : List UInt8) :
    (List.replicate n b ++ rest).take k = List.replicate k b := by
  rw [List.take_append_of_le_length (by rwa [List.length_replicate]), List.take_replicate,
    Nat.min_eq_left h]

theorem drop_replicate_append {k n : Nat} (h : k ≤ n) (b : UInt8) (rest : List UInt8) :
    (List.replicate n b ++ rest).drop k = List.replicate (n - k) b ++ rest := by
  rw [List.drop_append_of_le_length (by rwa [List.length_replicate]), List.drop_replicate]

theorem readString2_replicate (rest : List UInt8) :
    readString2 (List.replicate 65536 97 ++ rest) =
      .ok (List.replicate 24929 97, List.replicate 40605 97 ++ rest) := by
  have hlen : ∀ n, (List.replicate n (97 : UInt8) ++ rest).length = n + rest.length := by
    intro n
    rw [List.length_append, List.length_replicate]
  have hn : getLE (List.replicate 2 97) = 24929 := by decide
  rw [readString2, if_neg (by rw [hlen]; omega), take_replicate_append (by decide),
    drop_replicate_append (by decide)]
  simp only [hn]
  rw [if_neg (by rw [hlen]; omega), take_replicate_append (by decide),
    drop_replicate_append (by decide)]

/-- A key of `2 ^ 16` bytes: its length is written as 0, and its first bytes are read as
the length of the value. -/
theorem long_key_lost :
    ∃ s', (Store.newStore [] 1).performed ⟨1, 2, List.replicate 65536 97, some [118], 7⟩ =
        some s' ∧
      decodeKVRecord (KvOp.dataRecord ⟨1, 2, List.replicate 65536 97, some [118], 7⟩).data =
        .ok ⟨kvRecordTypeSet, 7, [], List.replicate 24929 97⟩ := by
  have hkey : List.replicate 65536 97 ≠ metaKeyLastApplied := by
    intro h
    have hlen := congrArg List.length h
    rw [List.length_replicate] at hlen
    exact absurd hlen (by decide)
  have hroom : (HashIndex.newHashIndex 1).hasRoom (List.replicate 65536 97) = true := rfl
  obtain ⟨idx, hset⟩ := HashIndex.set_of_hasRoom hroom 0
  have hperf : ((Store.newStore [] 1).performed
      ⟨1, 2, List.replicate 65536 97, some [118], 7⟩).isSome := by
    simp only [Store.performed, Store.perform, Store.writeKV, if_neg hkey, Store.newStore,
      Writer.writeOffset, newWriter, List.length_nil, hset, Option.isSome_some]
  obtain ⟨s', hs'⟩ := Option.isSome_iff_exists.mp hperf
  refine ⟨s', hs', ?_⟩
  show decodeKVRecord (kvRecordTypeSet :: (putInt 8 7 ++ (appendString2 _ ++ _))) = _
  rw [decodeKVRecord, if_neg (by rw [List.length_append, length_putInt]; omega)]
  simp only [take_append_of_length (length_putInt 8 _), drop_append_of_length (length_putInt 8 _),
    readString2_appendString2, List.length_replicate, show 65536 % 256 ^ 2 = 0 from rfl,
    List.take_zero, List.drop_zero, readString2_replicate, true_or, if_true]
  rw [getInt_putInt (by decide)]

end

/-! ### Events -/

theorem decodeEvent_encodeEvent_iff (e : Event) :
    (decodeEvent (encodeEvent e)).map Event.kv = some e.kv ↔ e.Proper := by
  constructor
  · intro h
    obtain ⟨d, hd, hkv⟩ := Option.map_eq_some_iff.mp h
    obtain ⟨hsource, hpayload⟩ := Prod.mk.inj hkv
    have hproper := decodeEvent_proper hd
    exact ⟨hsource ▸ hproper.source, hpayload ▸ hproper.payload⟩
  · intro h
    rw [decodeEvent_encodeEvent h]
    rfl

section

variable [Crc32] {s s' : EventStore} {now : UInt64} {e : Event}

theorem EventStore.writeEvent_cases (s : EventStore) (now : UInt64) (e : Event) :
    ∃ idx err, s.writeEvent now e = ({ (s.writeEventOffset now e).2 with index := idx }, err) ∧
      ((err = none ∧ s.index.set e.source s.sizeTracker = some idx) ∨
        (err = some .errIndexFull ∧ s.index.set e.source s.sizeTracker = none ∧
          idx = s.index)) := by
  have hindex : (s.writeEventOffset now e).2.index = s.index := rfl
  have hoffset : (s.writeEventOffset now e).1 = s.sizeTracker := rfl
  simp only [EventStore.writeEvent, EventStore.setIndex, hindex, hoffset]
  rcases s.index.set e.source s.sizeTracker with - | idx
  · exact ⟨s.index, _, rfl, .inr ⟨rfl, rfl, rfl⟩⟩
  · exact ⟨idx, _, rfl, .inl ⟨rfl, rfl⟩⟩

theorem EventStore.writeEvent_eq (h : s.writeEvent now e = (s', none)) :
    s'.inodes s.writerFile = s.inodes s.writerFile ++ encode ⟨now, encodeEvent e⟩ ∧
      s.index.set e.source s.sizeTracker = some s'.index := by
  obtain ⟨idx, err, hwrite, hcases⟩ := s.writeEvent_cases now e
  rw [h] at hwrite
  obtain ⟨rfl, rfl⟩ := Prod.mk.inj hwrite
  rcases hcases with ⟨-, hset⟩ | ⟨herr, -⟩
  · exact ⟨Function.update_self .., hset⟩
  · cases herr

theorem EventStore.writeEvent_of_hasRoom (now : UInt64) (h : s.index.hasRoom e.source = true) :
    ∃ s', s.writeEvent now e = (s', none) := by
  obtain ⟨idx, hset⟩ := HashIndex.set_of_hasRoom h s.sizeTracker
  obtain ⟨idx', err, hwrite, ⟨rfl, -⟩ | ⟨-, hnone, -⟩⟩ := s.writeEvent_cases now e
  · exact ⟨_, hwrite⟩
  · rw [hset] at hnone
    cases hnone

/-- **Which events come back.**  A `WriteEvent` that returns `nil` has written a payload
that is decoded to its own source and payload exactly if both have at most 65535 bytes.
If all events have, `Get` finds it under its source, before and after a restart. -/
theorem events_round_trip (h : s.writeEvent now e = (s', none)) :
    s'.inodes s.writerFile = s.inodes s.writerFile ++ encode ⟨now, encodeEvent e⟩ ∧
    ((decodeEvent (encodeEvent e)).map Event.kv = some e.kv ↔ e.Proper) ∧
    ∀ es, s.Stored es → s.IndexOf es → s.index.keySet.card ≤ s.index.maxKeys → e.Proper →
      (s'.get e.source).map Event.kv = .ok e.kv ∧
      ∃ s'' count, s'.reopen = (s'', count, none) ∧
        (s''.get e.source).map Event.kv = .ok e.kv := by
  obtain ⟨hfile, hset⟩ := EventStore.writeEvent_eq h
  refine ⟨hfile, decodeEvent_encodeEvent_iff e, ?_⟩
  intro es hstored hindex hcard he
  obtain ⟨s₁, hs₁, hstored₁, hindex₁, -⟩ :=
    hstored.writeEvent hindex he (HashIndex.eq_of_set hset).1 now
  obtain rfl : s' = s₁ := congrArg Prod.fst (h.symm.trans hs₁)
  -- the event is the last one of its source
  have hlatest : latest ((es ++ [{ e with receivedAt := now }]).map Event.kv) e.source =
      some e.payload := by
    rw [List.map_append, List.map_singleton, latest_concat]
    exact Function.update_self ..
  have hget := hstored₁.get hindex₁ e.source
  rw [hlatest] at hget
  have hcard₁ : ((es ++ [{ e with receivedAt := now }]).map Event.source).toFinset.card ≤
      s'.index.maxKeys := by
    have hkeys : ((es ++ [{ e with receivedAt := now }]).map Event.source).toFinset =
        s'.index.keySet := by
      ext key
      rw [List.mem_toFinset, hindex₁.mem_keySet]
    rw [hkeys]
    exact HashIndex.card_set_le hcard hset
  obtain ⟨s'', count, hreopen, hstored₂, hindex₂, -⟩ := hstored₁.reopen hcard₁
  have hget' := hstored₂.get hindex₂ e.source
  rw [hlatest] at hget'
  exact ⟨hget, s'', count, hreopen, hget'⟩

end

section

local instance roundTripEventCrc : Crc32 := Crc32.ieee

theorem events_round_trip_first :
    ∃ s', (EventStore.newStore 1).writeEvent 3 ⟨0, [97], [49]⟩ = (s', none) ∧
      (decodeEvent (encodeEvent ⟨0, [97], [49]⟩)).map Event.kv = some ([97], [49]) ∧
      (s'.get [97]).map Event.kv = .ok ([97], [49]) := by
  obtain ⟨s', hs', -, -⟩ := (EventStore.stored_newStore 1).writeEvent (e := ⟨0, [97], [49]⟩) rfl
    (by decide) (by decide) 3
  have h := events_round_trip hs'
  exact ⟨s', hs', h.2.1.mpr (by decide),
    (h.2.2 [] (EventStore.stored_newStore 1) rfl (by decide) (by decide)).1⟩

/-- A source of `2 ^ 16` bytes: the event is decoded with an empty source, and with the
beginning of the source as its payload. -/
theorem long_source_lost :
    ∃ s', (EventStore.newStore 1).writeEvent 3 ⟨0, List.replicate 65536 97, [118]⟩ = (s', none) ∧
      decodeEvent (encodeEvent ⟨0, List.replicate 65536 97, [118]⟩) =
        some ⟨0, [], List.replicate 24929 97⟩ := by
  obtain ⟨s', hs'⟩ := EventStore.writeEvent_of_hasRoom (s := .newStore 1)
    (e := ⟨0, List.replicate 65536 97, [118]⟩) 3 rfl
  refine ⟨s', hs', ?_⟩
  have henc : encodeEvent ⟨0, List.replicate 65536 97, [118]⟩ =
      [0, 0] ++ (List.replicate 65536 97 ++ (putBE 2 1 ++ [118])) := by
    rw [encodeEvent, List.length_replicate]
    rfl
  have hlen : (encodeEvent ⟨0, List.replicate 65536 97, [118]⟩).length = 65541 := by
    rw [henc, List.length_append, List.length_append, List.length_replicate]
    rfl
  have hsource : getBE ((encodeEvent ⟨0, List.replicate 65536 97, [118]⟩).take 2) = 0 := by
    rw [henc]
    rfl
  have hdrop : (encodeEvent ⟨0, List.replicate 65536 97, [118]⟩).drop 2 =
      List.replicate 65536 97 ++ (putBE 2 1 ++ [118]) := by
    rfl
  have hpayload : getBE (List.replicate 2 97) = 24929 := by decide
  rw [decodeEvent, if_neg (by omega)]
  simp only [hsource, Nat.add_zero]
  rw [if_neg (by omega), hdrop, take_replicate_append (by decide), hpayload, if_neg (by omega),
    ← List.drop_drop, hdrop, drop_replicate_append (by decide), List.take_zero,
    take_replicate_append (by decide)]

end

end Kv
