/-
CoreX/Storage/Kv.lean

The durable key-value store of the Raft path: a write-ahead file of set, delete
and checkpoint records, and an index in memory from a key to the offset of its
latest set record.  `WriteKV` and `DeleteKV` append two records each, the data
record with `WriteOffset` and the checkpoint with `Write`.
-/
import CoreX.Lib.Places
import CoreX.Lib.Run
import CoreX.Storage.Wal
import Mathlib.Data.List.AList

namespace Kv

open Bytes Places StepSystem Wal

/-! ### The encoding of records -/

def kvRecordTypeSet : UInt8 := 0x01
def kvRecordTypeDel : UInt8 := 0x02
def kvRecordTypeMeta : UInt8 := 0x03

/-- `__raft_last_applied__`. -/
def metaKeyLastApplied : List UInt8 :=
  [95, 95, 114, 97, 102, 116, 95, 108, 97, 115, 116, 95, 97, 112, 112, 108, 105, 101, 100, 95, 95]

/-- `appendString2`: the length in two bytes, then the string. -/
def appendString2 (s : List UInt8) : List UInt8 := putLE 2 s.length ++ s

/-- `encodeKVSet`. -/
def encodeKVSet (key value : List UInt8) (raftIndex : Int) : List UInt8 :=
  kvRecordTypeSet :: (putInt 8 raftIndex ++ (appendString2 key ++ appendString2 value))

/-- `encodeKVDel`. -/
def encodeKVDel (key : List UInt8) (raftIndex : Int) : List UInt8 :=
  kvRecordTypeDel :: (putInt 8 raftIndex ++ appendString2 key)

/-- `encodeKVMeta`: the value is empty, the index is the content. -/
def encodeKVMeta (key : List UInt8) (raftIndex : Int) : List UInt8 :=
  kvRecordTypeMeta :: (putInt 8 raftIndex ++ (appendString2 key ++ appendString2 []))

structure KVRecord where
  type : UInt8
  raftIndex : Int
  key : List UInt8
  value : List UInt8
  deriving DecidableEq, Repr

/-- The errors of `readString2`. -/
inductive StringError
  | insufficientLength
  | insufficientData (need got : Nat)
  deriving DecidableEq, Repr

/-- The errors of `decodeKVRecord`; all of them wrap `ErrCorrupted`. -/
inductive DecodeError
  | emptyPayload
  | tooShortForRaftIndex
  | key (e : StringError)
  | value (e : StringError)
  deriving DecidableEq, Repr

/-- `readString2`: the string and the remaining bytes. -/
def readString2 (data : List UInt8) : Except StringError (List UInt8 × List UInt8) :=
  if data.length < 2 then .error .insufficientLength
  else
    let n := getLE (data.take 2)
    if (data.drop 2).length < n then .error (.insufficientData n (data.drop 2).length)
    else .ok ((data.drop 2).take n, (data.drop 2).drop n)

/-- `decodeKVRecord`. -/
def decodeKVRecord : List UInt8 → Except DecodeError KVRecord
  | [] => .error .emptyPayload
  | recType :: data =>
      if data.length < 8 then .error .tooShortForRaftIndex
      else
        let raftIndex := getInt (data.take 8)
        match readString2 (data.drop 8) with
        | .error e => .error (.key e)
        | .ok (key, rest) =>
            if recType = kvRecordTypeSet ∨ recType = kvRecordTypeMeta then
              match readString2 rest with
              | .error e => .error (.value e)
              | .ok (value, _) => .ok ⟨recType, raftIndex, key, value⟩
            else .ok ⟨recType, raftIndex, key, []⟩

/-! ### The index -/

/-- `HashIndex`: at most `maxKeys` keys, each with the offset of a record. -/
structure HashIndex where
  entries : AList fun _ : List UInt8 => Nat
  maxKeys : Nat

namespace HashIndex

variable (idx : HashIndex)

/-- `NewHashIndex`. -/
def newHashIndex (maxKeys : Nat) : HashIndex := ⟨∅, maxKeys⟩

/-- `Get`. -/
def get (key : List UInt8) : Option Nat := idx.entries.lookup key

/-- Whether `Set` has room for the key. -/
def hasRoom (key : List UInt8) : Bool :=
  (idx.get key).isSome || decide (idx.entries.entries.length < idx.maxKeys)

/-- `Set`; `none` is `ErrIndexFull`. -/
def set (key : List UInt8) (offset : Nat) : Option HashIndex :=
  if idx.hasRoom key then some { idx with entries := idx.entries.insert key offset } else none

/-- `Delete`. -/
def delete (key : List UInt8) : HashIndex := { idx with entries := idx.entries.erase key }

variable {idx} {idx' : HashIndex} {key : List UInt8} {offset : Nat}

theorem eq_of_set (h : idx.set key offset = some idx') :
    idx.hasRoom key = true ∧ idx' = { idx with entries := idx.entries.insert key offset } := by
  unfold set at h
  split at h
  · next hroom => exact ⟨hroom, (Option.some.inj h).symm⟩
  · cases h

theorem get_set (h : idx.set key offset = some idx') :
    idx'.get = Function.update idx.get key (some offset) := by
  rw [(eq_of_set h).2]
  funext k
  rcases eq_or_ne k key with rfl | hne
  · rw [Function.update_self]
    exact AList.lookup_insert _
  · rw [Function.update_of_ne hne]
    exact AList.lookup_insert_ne hne

theorem get_delete (idx : HashIndex) (key : List UInt8) :
    (idx.delete key).get = Function.update idx.get key none := by
  funext k
  rcases eq_or_ne k key with rfl | hne
  · rw [Function.update_self]
    exact AList.lookup_erase _ _
  · rw [Function.update_of_ne hne]
    exact AList.lookup_erase_ne hne

end HashIndex

/-! ### The store -/

/-- `Store`, as far as the Raft path uses it.  The read handle is the writer's
file. -/
structure Store where
  index : HashIndex
  writer : Writer
  raftLastApplied : Int

inductive StoreError
  | errReservedKey
  | errIndexFull
  deriving DecidableEq, Repr

/-- Why `GetKV` fails, with the offset the message names. -/
inductive GetError
  | read (offset : Nat) (e : ReadError)
  | decode (offset : Nat) (e : DecodeError)
  deriving DecidableEq, Repr

/-- Why `RecoverKV` fails. -/
inductive RecoverError
  | decode (offset : Nat) (e : DecodeError)
  | indexFull (offset : Nat)
  | wal (e : ReadError)
  deriving DecidableEq, Repr

/-- `RecoverKV`, the variables of its loop. -/
structure Recovery where
  index : HashIndex
  offset : Nat
  lastApplied : Int

/-- `RecoverKV`, the switch over the type of a record. -/
def Recovery.apply (st : Recovery) (rec : KVRecord) : Except RecoverError Recovery :=
  if rec.type = kvRecordTypeSet then
    match st.index.set rec.key st.offset with
    | none => .error (.indexFull st.offset)
    | some index => .ok { st with index := index }
  else if rec.type = kvRecordTypeDel then .ok { st with index := st.index.delete rec.key }
  else if rec.type = kvRecordTypeMeta ∧ rec.key = metaKeyLastApplied then
    .ok { st with lastApplied := rec.raftIndex }
  else .ok st

/-- `RecoverKV`, one record. -/
def Recovery.step (st : Recovery) (record : Record) : Except RecoverError Recovery :=
  match decodeKVRecord record.data with
  | .error e => .error (.decode st.offset e)
  | .ok rec =>
      match st.apply rec with
      | .error e => .error e
      | .ok st' =>
          let recordSize := recordHeaderSize + record.data.length + recordChecksumSize
          .ok { st' with offset := st.offset + recordSize }

namespace Store

variable [Crc32] (s : Store)

/-- `NewWriter` and `NewStore`. -/
def newStore (file : List UInt8) (maxKeys : Nat) : Store :=
  ⟨.newHashIndex maxKeys, newWriter file, 0⟩

/-- `writeMetaLocked`: with `Write`, which does not count. -/
def writeMetaLocked (now : UInt64) (raftIndex : Int) : Store :=
  { s with writer := s.writer.write now (encodeKVMeta metaKeyLastApplied raftIndex) }

/-- `WriteKV`, where `now` and `now'` are the times of its two records.  If the
index is full, both records are written all the same. -/
def writeKV (now now' : UInt64) (key value : List UInt8) (raftIndex : Int) :
    Store × Option StoreError :=
  if key = metaKeyLastApplied then (s, some .errReservedKey)
  else
    let (offset, writer) := s.writer.writeOffset now (encodeKVSet key value raftIndex)
    let s₁ := { s with writer := writer }
    match s.index.set key offset with
    | none => (s₁.writeMetaLocked now' raftIndex, some .errIndexFull)
    | some index =>
        ({ ({ s₁ with index := index }.writeMetaLocked now' raftIndex) with
            raftLastApplied := raftIndex }, none)

/-- `DeleteKV`. -/
def deleteKV (now now' : UInt64) (key : List UInt8) (raftIndex : Int) :
    Store × Option StoreError :=
  if key = metaKeyLastApplied then (s, some .errReservedKey)
  else
    let (_, writer) := s.writer.writeOffset now (encodeKVDel key raftIndex)
    let s₁ := { s with index := s.index.delete key, writer := writer }
    ({ s₁.writeMetaLocked now' raftIndex with raftLastApplied := raftIndex }, none)

/-- `GetKV`. -/
def getKV (key : List UInt8) : Except GetError (List UInt8 × Bool) :=
  match s.index.get key with
  | none => .ok ([], false)
  | some offset =>
      match readRecordAt s.writer.file offset with
      | .error e => .error (.read offset e)
      | .ok record =>
          match decodeKVRecord record.data with
          | .error e => .error (.decode offset e)
          | .ok rec => .ok (rec.value, true)

/-- `RecoverKV`: the store with its index and the index applied last. -/
def recoverKV : Except RecoverError (Store × Int) :=
  match (readAll s.writer.file).1.foldlM Recovery.step ⟨s.index, 0, 0⟩ with
  | .error e => .error e
  | .ok st =>
      match readErr s.writer.file with
      | none => .ok
        ({ s with index := st.index, raftLastApplied := st.lastApplied }, st.lastApplied)
      | some .errTruncated =>
          .ok ({ s with index := st.index, raftLastApplied := st.lastApplied }, st.lastApplied)
      | some e => .error (.wal e)

end Store

/-! ### What is encoded is decoded -/

/-- A string whose length has two bytes. -/
def Short (s : List UInt8) : Prop := s.length ≤ 65535

instance (s : List UInt8) : Decidable (Short s) := inferInstanceAs (Decidable (_ ≤ _))

theorem readString2_appendString2 (s rest : List UInt8) :
    readString2 (appendString2 s ++ rest) =
      .ok ((s ++ rest).take (s.length % 256 ^ 2), (s ++ rest).drop (s.length % 256 ^ 2)) := by
  have hn : getLE ((appendString2 s ++ rest).take 2) = s.length % 256 ^ 2 := by
    rw [appendString2, List.append_assoc, take_append_of_length (length_putLE 2 _), getLE_putLE]
  have hdrop : (appendString2 s ++ rest).drop 2 = s ++ rest := by
    rw [appendString2, List.append_assoc, drop_append_of_length (length_putLE 2 _)]
  have hlen : ¬(appendString2 s ++ rest).length < 2 := by
    simp only [appendString2, List.length_append, length_putLE]
    omega
  have hall : ¬(s ++ rest).length < s.length % 256 ^ 2 := by
    rw [List.length_append]
    omega
  rw [readString2, if_neg hlen]
  simp only [hn, hdrop]
  rw [if_neg hall]

theorem readString2_append {s : List UInt8} (h : Short s) (rest : List UInt8) :
    readString2 (appendString2 s ++ rest) = .ok (s, rest) := by
  have hmod : s.length % 256 ^ 2 = s.length := Nat.mod_eq_of_lt (by unfold Short at h; omega)
  rw [readString2_appendString2, hmod, List.take_left, List.drop_left]

variable {key : List UInt8} {raftIndex : Int}

theorem decodeKVRecord_cons (recType : UInt8) (hi : Fits 8 raftIndex) (hk : Short key)
    (rest : List UInt8) :
    decodeKVRecord (recType :: (putInt 8 raftIndex ++ (appendString2 key ++ rest))) =
      if recType = kvRecordTypeSet ∨ recType = kvRecordTypeMeta then
        match readString2 rest with
        | .error e => .error (.value e)
        | .ok (value, _) => .ok ⟨recType, raftIndex, key, value⟩
      else .ok ⟨recType, raftIndex, key, []⟩ := by
  have hlen : ¬(putInt 8 raftIndex ++ (appendString2 key ++ rest)).length < 8 := by
    rw [List.length_append, length_putInt]
    omega
  rw [decodeKVRecord, if_neg hlen]
  simp only [take_append_of_length (length_putInt 8 _), drop_append_of_length (length_putInt 8 _),
    readString2_append hk, getInt_putInt hi]

theorem decodeKVRecord_set {value : List UInt8} (hi : Fits 8 raftIndex) (hk : Short key)
    (hv : Short value) :
    decodeKVRecord (encodeKVSet key value raftIndex) =
      .ok ⟨kvRecordTypeSet, raftIndex, key, value⟩ := by
  have hread := readString2_append hv []
  rw [List.append_nil] at hread
  rw [encodeKVSet, decodeKVRecord_cons _ hi hk, if_pos (.inl rfl), hread]

theorem decodeKVRecord_del (hi : Fits 8 raftIndex) (hk : Short key) :
    decodeKVRecord (encodeKVDel key raftIndex) = .ok ⟨kvRecordTypeDel, raftIndex, key, []⟩ := by
  have h := decodeKVRecord_cons kvRecordTypeDel hi hk []
  rw [List.append_nil, if_neg (by decide)] at h
  exact h

theorem decodeKVRecord_meta (hi : Fits 8 raftIndex) :
    decodeKVRecord (encodeKVMeta metaKeyLastApplied raftIndex) =
      .ok ⟨kvRecordTypeMeta, raftIndex, metaKeyLastApplied, []⟩ := by
  have hread := readString2_append (s := []) (by decide : Short []) []
  rw [List.append_nil] at hread
  rw [encodeKVMeta, decodeKVRecord_cons _ hi (by decide), if_pos (.inr rfl), hread]

/-! ### The size of records -/

theorem sized_set {now : UInt64} {value : List UInt8} (hk : Short key) (hv : Short value) :
    Record.Sized ⟨now, encodeKVSet key value raftIndex⟩ := by
  unfold Short at hk hv
  simp only [Record.Sized, encodeKVSet, appendString2, List.length_cons, List.length_append,
    length_putInt, length_putLE]
  omega

theorem sized_del {now : UInt64} (hk : Short key) :
    Record.Sized ⟨now, encodeKVDel key raftIndex⟩ := by
  unfold Short at hk
  simp only [Record.Sized, encodeKVDel, appendString2, List.length_cons, List.length_append,
    length_putInt, length_putLE]
  omega

theorem sized_meta {now : UInt64} :
    Record.Sized ⟨now, encodeKVMeta metaKeyLastApplied raftIndex⟩ := by
  simp only [Record.Sized, encodeKVMeta, appendString2, List.length_cons, List.length_append,
    length_putInt, length_putLE, List.length_nil, metaKeyLastApplied]
  omega

/-! ### Replaying the file -/

section Replay

variable [Crc32] {st st' : Recovery} {r : Record} {file : List UInt8} {maxKeys : Nat}

theorem Recovery.step_eq {rec : KVRecord} (hdec : decodeKVRecord r.data = .ok rec)
    (happly : st.apply rec = .ok st') :
    st.step r = .ok { st' with offset := st.offset + (encode r).length } := by
  simp only [Recovery.step, hdec, happly, recordSize_eq]

/-- `file` consists of whole records, and the loop of `RecoverKV` over them, which
began with an empty index, ends in `st`. -/
def Replays (file : List UInt8) (maxKeys : Nat) (st : Recovery) : Prop :=
  ∃ rs : List Record, file = rs.flatMap encode ∧ (∀ r ∈ rs, r.Sized) ∧
    rs.foldlM Recovery.step ⟨.newHashIndex maxKeys, 0, 0⟩ = .ok st

theorem Replays.write (h : Replays file maxKeys st) (hr : r.Sized) (hs : st.step r = .ok st') :
    Replays (file ++ encode r) maxKeys st' := by
  obtain ⟨rs, rfl, hsized, hfold⟩ := h
  refine ⟨rs ++ [r], ?_, ?_, ?_⟩
  · rw [List.flatMap_append, List.flatMap_singleton]
  · intro r' hr'
    rcases List.mem_append.mp hr' with hr' | hr'
    · exact hsized r' hr'
    · rw [List.mem_singleton.mp hr']
      exact hr
  · rw [List.foldlM_append, hfold]
    show (st.step r >>= pure) = _
    rw [hs]
    rfl

theorem Replays.recoverKV_torn (h : Replays file maxKeys st) {t : List UInt8}
    (ht : Frames.Torn encode Record.Sized t) :
    (Store.newStore (file ++ t) maxKeys).recoverKV =
      .ok ({ Store.newStore (file ++ t) maxKeys with
              index := st.index, raftLastApplied := st.lastApplied }, st.lastApplied) := by
  obtain ⟨rs, rfl, hsized, hfold⟩ := h
  obtain ⟨e, hscan⟩ := readAll_stream hsized ht
  have hfold' : (readAll (Store.newStore (rs.flatMap encode ++ t) maxKeys).writer.file).1.foldlM
      Recovery.step ⟨(Store.newStore (rs.flatMap encode ++ t) maxKeys).index, 0, 0⟩ = .ok st := by
    show (readAll (rs.flatMap encode ++ t)).1.foldlM _ _ = _
    rw [hscan]
    exact hfold
  rw [Store.recoverKV, hfold']
  -- both ends of the file that a cut can leave count as the end of the log
  cases e with
  | eof =>
    have herr : readErr (Store.newStore (rs.flatMap encode ++ t) maxKeys).writer.file = none := by
      show readErr (rs.flatMap encode ++ t) = none
      rw [readErr, hscan]
      rfl
    rw [herr]
  | unexpectedEOF =>
    have herr : readErr (Store.newStore (rs.flatMap encode ++ t) maxKeys).writer.file =
        some .errTruncated := by
      show readErr (rs.flatMap encode ++ t) = _
      rw [readErr, hscan]
      rfl
    rw [herr]

theorem Replays.recoverKV (h : Replays file maxKeys st) :
    (Store.newStore file maxKeys).recoverKV =
      .ok ({ Store.newStore file maxKeys with
              index := st.index, raftLastApplied := st.lastApplied }, st.lastApplied) := by
  have h' := h.recoverKV_torn Frames.Torn.nil
  rwa [List.append_nil] at h'

end Replay

/-! ### The index -/

section Index

variable [Crc32] {file : List UInt8} {idx idx' : HashIndex} {key k v : List UInt8} {offset : Nat}

/-- At `offset` stands a set record of `key` with the value `v`. -/
def SetAt (file : List UInt8) (offset : Nat) (key v : List UInt8) : Prop :=
  ∃ pre r post raftIndex, file = pre ++ (encode r ++ post) ∧ pre.length = offset ∧ r.Sized ∧
    r.data = encodeKVSet key v raftIndex ∧ Short key ∧ Short v ∧ Fits 8 raftIndex

theorem SetAt.append (h : SetAt file offset key v) (more : List UInt8) :
    SetAt (file ++ more) offset key v := by
  obtain ⟨pre, r, post, raftIndex, rfl, hrest⟩ := h
  exact ⟨pre, r, post ++ more, raftIndex, by simp only [List.append_assoc], hrest⟩

/-- The index leads to a record of `spec key`, and only for the keys of `spec`. -/
def Points (file : List UInt8) (idx : HashIndex) (spec : List UInt8 → Option (List UInt8)) : Prop :=
  ∀ key, (idx.get key = none ∧ spec key = none) ∨
    ∃ offset v, idx.get key = some offset ∧ spec key = some v ∧ SetAt file offset key v

variable {spec : List UInt8 → Option (List UInt8)}

theorem points_iff_leads : Points file idx spec ↔ Leads (SetAt file) idx.get spec := Iff.rfl

theorem Points.append (h : Points file idx spec) (more : List UInt8) :
    Points (file ++ more) idx spec :=
  Leads.mono (points_iff_leads.mp h) fun _ _ _ hat => hat.append more

theorem Points.set (h : Points file idx spec) (hs : idx.set key offset = some idx')
    (hat : SetAt file offset key v) : Points file idx' (Function.update spec key (some v)) := by
  rw [points_iff_leads, HashIndex.get_set hs]
  exact Leads.set (points_iff_leads.mp h) hat

theorem Points.delete (h : Points file idx spec) (key : List UInt8) :
    Points file (idx.delete key) (Function.update spec key none) := by
  rw [points_iff_leads, HashIndex.get_delete]
  exact Leads.delete (points_iff_leads.mp h) key

/-- What `GetKV` returns for a key with the value `v`, or without one. -/
def found : Option (List UInt8) → List UInt8 × Bool
  | none => ([], false)
  | some v => (v, true)

theorem Points.getKV {s : Store} (h : Points s.writer.file s.index spec) (key : List UInt8) :
    s.getKV key = .ok (found (spec key)) := by
  rcases h key with ⟨hget, hspec⟩ | ⟨offset, v, hget, hspec, hat⟩
  · rw [Store.getKV, hget, hspec]
    rfl
  · obtain ⟨pre, r, post, raftIndex, hfile, rfl, hsized, hdata, hk, hv, hi⟩ := hat
    simp only [Store.getKV, hget, hfile, readRecordAt_encode hsized, hdata,
      decodeKVRecord_set hi hk hv, hspec]
    rfl

end Index

/-! ### Every run of calls -/

/-- The store and the map it should be. -/
structure StoreRun where
  store : Store
  spec : List UInt8 → Option (List UInt8)

inductive StoreCall
  | writeKV (now now' : UInt64) (key value : List UInt8) (raftIndex : Int)
  | deleteKV (now now' : UInt64) (key : List UInt8) (raftIndex : Int)
  /-- The process ends and the store is opened again. -/
  | reopen

section Calls

variable [Crc32]

/-- A new store. -/
def StoreRun.initial (maxKeys : Nat) : StoreRun := ⟨.newStore [] maxKeys, fun _ => none⟩

def StoreRun.step (s : StoreRun) : StoreCall → Option StoreRun
  | .writeKV now now' key value raftIndex =>
      some ⟨(s.store.writeKV now now' key value raftIndex).1,
        Function.update s.spec key (some value)⟩
  | .deleteKV now now' key raftIndex =>
      some ⟨(s.store.deleteKV now now' key raftIndex).1, Function.update s.spec key none⟩
  | .reopen =>
      match (Store.newStore s.store.writer.file s.store.index.maxKeys).recoverKV with
      | .ok (store, _) => some ⟨store, s.spec⟩
      | .error _ => none

/-- The calls the store is made for. -/
def StoreCall.Proper (s : StoreRun) : StoreCall → Prop
  | .writeKV _ _ key value raftIndex =>
      key ≠ metaKeyLastApplied ∧ Short key ∧ Short value ∧ Fits 8 raftIndex ∧
        s.store.index.hasRoom key = true
  | .deleteKV _ _ key raftIndex => key ≠ metaKeyLastApplied ∧ Short key ∧ Fits 8 raftIndex
  | .reopen => True

/-- A `WriteKV` finds the counter of bytes where the file ends. -/
def StoreCall.Counted (s : StoreRun) : StoreCall → Prop
  | .writeKV _ _ _ _ _ => s.store.writer.sizeTracker = s.store.writer.file.length
  | _ => True

instance (s : StoreRun) (c : StoreCall) : Decidable (c.Proper s) := by
  cases c <;> unfold StoreCall.Proper <;> infer_instance

instance (s : StoreRun) (c : StoreCall) : Decidable (c.Counted s) := by
  cases c <;> unfold StoreCall.Counted <;> infer_instance

/-- The index is the one `RecoverKV` would compute, and leads to the values. -/
structure StoreInv (s : StoreRun) : Prop where
  replays : ∃ lastApplied, Replays s.store.writer.file s.store.index.maxKeys
    ⟨s.store.index, s.store.writer.file.length, lastApplied⟩
  points : Points s.store.writer.file s.store.index s.spec

variable {file : List UInt8} {maxKeys : Nat} {index index' : HashIndex} {la raftIndex : Int}

theorem Replays.meta (h : Replays file maxKeys ⟨index, file.length, la⟩) (hi : Fits 8 raftIndex)
    (now : UInt64) :
    let file' := file ++ encode ⟨now, encodeKVMeta metaKeyLastApplied raftIndex⟩
    Replays file' maxKeys ⟨index, file'.length, raftIndex⟩ := by
  have happly : (⟨index, file.length, la⟩ : Recovery).apply
      ⟨kvRecordTypeMeta, raftIndex, metaKeyLastApplied, []⟩ =
        .ok ⟨index, file.length, raftIndex⟩ := rfl
  have h' := h.write sized_meta (Recovery.step_eq (r := ⟨now, _⟩) (decodeKVRecord_meta hi) happly)
  simpa only [List.length_append] using h'

theorem Replays.set (h : Replays file maxKeys ⟨index, file.length, la⟩) {key value : List UInt8}
    (hi : Fits 8 raftIndex) (hk : Short key) (hv : Short value)
    (hs : index.set key file.length = some index') (now : UInt64) :
    let file' := file ++ encode ⟨now, encodeKVSet key value raftIndex⟩
    Replays file' maxKeys ⟨index', file'.length, la⟩ := by
  have happly : (⟨index, file.length, la⟩ : Recovery).apply
      ⟨kvRecordTypeSet, raftIndex, key, value⟩ = .ok ⟨index', file.length, la⟩ := by
    simp only [Recovery.apply, if_true, hs]
  have h' := h.write (sized_set hk hv)
    (Recovery.step_eq (r := ⟨now, _⟩) (decodeKVRecord_set hi hk hv) happly)
  simpa only [List.length_append] using h'

theorem Replays.del (h : Replays file maxKeys ⟨index, file.length, la⟩) {key : List UInt8}
    (hi : Fits 8 raftIndex) (hk : Short key) (now : UInt64) :
    let file' := file ++ encode ⟨now, encodeKVDel key raftIndex⟩
    Replays file' maxKeys ⟨index.delete key, file'.length, la⟩ := by
  have happly : (⟨index, file.length, la⟩ : Recovery).apply
      ⟨kvRecordTypeDel, raftIndex, key, []⟩ = .ok ⟨index.delete key, file.length, la⟩ := rfl
  have h' := h.write (sized_del hk)
    (Recovery.step_eq (r := ⟨now, _⟩) (decodeKVRecord_del hi hk) happly)
  simpa only [List.length_append] using h'

theorem StoreInv.step {s s' : StoreRun} {c : StoreCall} (h : StoreInv s) (hs : s.step c = some s')
    (hproper : c.Proper s) (hcounted : c.Counted s) : StoreInv s' := by
  obtain ⟨⟨la, hrep⟩, hpoints⟩ := h
  cases c with
  | writeKV now now' key value raftIndex =>
    obtain rfl := Option.some.inj hs
    obtain ⟨hkey, hk, hv, hi, hroom⟩ := hproper
    let index' : HashIndex :=
      { s.store.index with entries := s.store.index.entries.insert key s.store.writer.file.length }
    have hset : s.store.index.set key s.store.writer.file.length = some index' := if_pos hroom
    have hat : SetAt (s.store.writer.file ++ encode ⟨now, encodeKVSet key value raftIndex⟩)
        s.store.writer.file.length key value :=
      ⟨_, _, [], raftIndex, by rw [List.append_nil], rfl, sized_set hk hv, rfl, hk, hv, hi⟩
    have hstore : (s.store.writeKV now now' key value raftIndex).1 =
        ⟨index', ⟨s.store.writer.file ++ encode ⟨now, encodeKVSet key value raftIndex⟩ ++
            encode ⟨now', encodeKVMeta metaKeyLastApplied raftIndex⟩,
          s.store.writer.sizeTracker +
            (encode ⟨now, encodeKVSet key value raftIndex⟩).length⟩, raftIndex⟩ := by
      have htracker : s.store.writer.sizeTracker = s.store.writer.file.length := hcounted
      simp only [Store.writeKV, if_neg hkey, Writer.writeOffset, htracker, hset]
      rfl
    simp only [hstore]
    refine ⟨⟨raftIndex, ((hrep.set hi hk hv hset now).meta hi now')⟩, ?_⟩
    exact ((hpoints.append _).set hset hat).append _
  | deleteKV now now' key raftIndex =>
    obtain rfl := Option.some.inj hs
    obtain ⟨hkey, hk, hi⟩ := hproper
    have hstore : (s.store.deleteKV now now' key raftIndex).1 =
        ⟨s.store.index.delete key,
          ⟨s.store.writer.file ++ encode ⟨now, encodeKVDel key raftIndex⟩ ++
            encode ⟨now', encodeKVMeta metaKeyLastApplied raftIndex⟩,
          s.store.writer.sizeTracker +
            (encode ⟨now, encodeKVDel key raftIndex⟩).length⟩, raftIndex⟩ := by
      simp only [Store.deleteKV, if_neg hkey]
      rfl
    simp only [hstore]
    refine ⟨⟨raftIndex, ((hrep.del hi hk now).meta hi now')⟩, ?_⟩
    exact ((hpoints.append _).delete key).append _
  | reopen =>
    simp only [StoreRun.step, hrep.recoverKV] at hs
    obtain rfl := Option.some.inj hs
    exact ⟨⟨la, hrep⟩, hpoints⟩

/-- **The store refines a map**, in every run of calls in which a `WriteKV` finds
the counter where the file ends. -/
theorem store_refines_map {maxKeys : Nat} {s : StoreRun}
    (h : Runs StoreRun.step (fun s c => c.Proper s ∧ c.Counted s) (StoreRun.initial maxKeys) s)
    (key : List UInt8) : s.store.getKV key = .ok (found (s.spec key)) := by
  have h0 : StoreInv (StoreRun.initial maxKeys) :=
    ⟨⟨0, [], rfl, fun r hr => absurd hr List.not_mem_nil, rfl⟩, fun key => .inl ⟨rfl, rfl⟩⟩
  exact (h.invariant (fun _ _ _ hinv hs hok => hinv.step hs hok.1 hok.2) h0).points.getKV key

end Calls

/-! ### Two writes -/

section

local instance storeCrc : Crc32 := Crc32.ieee

/-- `a` is set to `1`, then `b` to `2`. -/
def twoWrites : List StoreCall := [.writeKV 1 2 [97] [49] 1, .writeKV 3 4 [98] [50] 2]

/-- **The second key is misread**: its offset is that of the first checkpoint
record, which has an empty value. -/
theorem second_write_misread :
    ∃ s, Runs StoreRun.step (fun s c => c.Proper s) (StoreRun.initial 10) s ∧
      s.spec [98] = some [50] ∧ s.store.getKV [98] = .ok ([], true) :=
  Runs.exists_of_exec twoWrites (by decide +kernel)

/-- The same with a restart in between, and a deletion. -/
def reopenedWrites : List StoreCall :=
  [.writeKV 1 2 [97] [49] 1, .reopen, .writeKV 3 4 [98] [50] 2, .deleteKV 5 6 [97] 3]

theorem store_refines_map_reopened :
    ∃ s, Runs StoreRun.step (fun s c => c.Proper s ∧ c.Counted s) (StoreRun.initial 10) s ∧
      (s.spec [98] = some [50] ∧ s.spec [97] = none) ∧
      s.store.getKV [98] = .ok (found (s.spec [98])) :=
  Runs.exists_and_of_exec reopenedWrites (by decide +kernel) fun _ hrun _ =>
    store_refines_map hrun [98]

end

end Kv
