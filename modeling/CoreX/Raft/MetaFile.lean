/-
CoreX/Raft/MetaFile.lean

The file of `FileMetaStore`: one record of 269 bytes, overwritten in place by every
`Save`.  The vote is a string of any bytes in a field of fixed size, padded with zeros
and with its length before it.

Every record has the same length, so nothing of the record before shows through, and
`Load` reads back what was saved last (`meta_round_trip`).  A vote that does not fit is
refused before anything is written.
-/
import CoreX.Raft.LogStore

namespace Raft

open Bytes
open Wal (Crc32)

/-! ### The store -/

def metaVersion : UInt8 := 1
def metaVotedForSize : Nat := 255
def metaHeaderSize : Nat := 1 + 8 + 1 + metaVotedForSize
def metaChecksumSize : Nat := 4
def metaRecordSize : Nat := metaHeaderSize + metaChecksumSize

/-- `RaftMeta`, with the vote as bytes. -/
structure MetaRecord where
  term : Int
  votedFor : List UInt8
  deriving DecidableEq, Repr

namespace MetaRecord

/-- `RaftMeta{}`. -/
def zero : MetaRecord := ⟨0, []⟩

/-- The vote has a place in the record. -/
def Fitting (m : MetaRecord) : Prop := m.votedFor.length ≤ metaVotedForSize

instance (m : MetaRecord) : Decidable m.Fitting :=
  inferInstanceAs (Decidable (m.votedFor.length ≤ metaVotedForSize))

/-- The part of the record that the checksum is about. -/
def header (m : MetaRecord) : List UInt8 :=
  [metaVersion] ++ (putInt 8 m.term ++ ([UInt8.ofNat m.votedFor.length] ++
    (m.votedFor ++ List.replicate (metaVotedForSize - m.votedFor.length) 0)))

/-- The buffer that `Save` writes. -/
def encode [Crc32] (m : MetaRecord) : List UInt8 :=
  m.header ++ putLE metaChecksumSize (Crc32.checksumIEEE m.header).toNat

end MetaRecord

/-- Why `Load` fails. -/
inductive MetaLoadError
  | shortRead (n : Nat)
  | crcMismatch (stored computed : Nat)
  | unsupportedVersion (version : UInt8)
  deriving DecidableEq, Repr

/-- Why `Save` fails. -/
inductive MetaSaveError
  | votedForTooLong (len : Nat)
  deriving DecidableEq, Repr

/-- `WriteAt` at the beginning of a file: what is longer stays behind it. -/
def writeAtStart (file buf : List UInt8) : List UInt8 := buf ++ file.drop buf.length

/-- The file of a `FileMetaStore`. -/
structure FileMetaStore where
  file : List UInt8
  deriving DecidableEq, Repr

namespace FileMetaStore

variable [Crc32] (s : FileMetaStore)

/-- `Load`. -/
def load : Except MetaLoadError MetaRecord :=
  let buf := s.file.take metaRecordSize
  if buf.length = 0 then .ok .zero
  else if buf.length ≠ metaRecordSize then .error (.shortRead buf.length)
  else
    let stored := getLE (slice buf metaHeaderSize metaRecordSize)
    let computed := (Crc32.checksumIEEE (slice buf 0 metaHeaderSize)).toNat
    if stored ≠ computed then .error (.crcMismatch stored computed)
    else if buf.getD 0 0 ≠ metaVersion then .error (.unsupportedVersion (buf.getD 0 0))
    else
      let voteLen := (buf.getD 9 0).toNat
      .ok ⟨getInt (slice buf 1 9), if 0 < voteLen then slice buf 10 (10 + voteLen) else []⟩

/-- `Save`, with the error it returns. -/
def save (m : MetaRecord) : FileMetaStore × Option MetaSaveError :=
  if metaVotedForSize < m.votedFor.length then (s, some (.votedForTooLong m.votedFor.length))
  else (⟨writeAtStart s.file m.encode⟩, none)

/-- `Save` of one record after the other, whatever they return. -/
def saveAll (ms : List MetaRecord) : FileMetaStore := ms.foldl (fun s m => (s.save m).1) s

end FileMetaStore

/-! ### The layout of a record -/

namespace MetaRecord

variable {m : MetaRecord}

theorem length_header (h : m.Fitting) : m.header.length = metaHeaderSize := by
  unfold Fitting at h
  simp only [header, metaHeaderSize, List.length_append, List.length_singleton, length_putInt,
    List.length_replicate]
  omega

variable [Crc32]

theorem length_encode (h : m.Fitting) : m.encode.length = metaRecordSize := by
  rw [encode, List.length_append, length_header h, length_putLE]
  rfl

theorem slice_encode (h : m.Fitting) :
    slice m.encode 0 metaHeaderSize = m.header ∧
      slice m.encode metaHeaderSize metaRecordSize =
        putLE metaChecksumSize (Crc32.checksumIEEE m.header).toNat := by
  constructor
  · exact slice_eq _ [] _ _ rfl rfl (by rw [length_header h, Nat.zero_add])
  · refine slice_eq _ m.header _ [] ?_ (length_header h) ?_
    · rw [List.append_nil, encode]
    · rw [length_putLE]
      rfl

theorem encode_eq (m : MetaRecord) :
    ∃ rest, m.encode = [metaVersion] ++ (putInt 8 m.term ++
      ([UInt8.ofNat m.votedFor.length] ++ (m.votedFor ++ rest))) := by
  refine ⟨List.replicate (metaVotedForSize - m.votedFor.length) 0 ++
    putLE metaChecksumSize (Crc32.checksumIEEE m.header).toNat, ?_⟩
  conv_lhs => rw [encode, header]
  simp only [List.append_assoc]
  rfl

theorem fields_encode (m : MetaRecord) :
    m.encode.getD 0 0 = metaVersion ∧ slice m.encode 1 9 = putInt 8 m.term ∧
      m.encode.getD 9 0 = UInt8.ofNat m.votedFor.length ∧
      slice m.encode 10 (10 + m.votedFor.length) = m.votedFor := by
  obtain ⟨rest, h⟩ := m.encode_eq
  refine ⟨rfl, ?_, ?_, ?_⟩
  · exact slice_eq _ [metaVersion] _ _ h rfl (by rw [length_putInt])
  · rw [h]
    simp
  · refine slice_eq _ ([metaVersion] ++ (putInt 8 m.term ++ [UInt8.ofNat m.votedFor.length])) _
      rest ?_ ?_ rfl
    · rw [h]
      simp only [List.append_assoc]
    · simp only [List.length_append, List.length_singleton, length_putInt]

end MetaRecord

/-! ### What is read back -/

namespace FileMetaStore

variable [Crc32] {s : FileMetaStore} {m : MetaRecord}

theorem save_of_fitting (h : m.Fitting) : s.save m = (⟨writeAtStart s.file m.encode⟩, none) :=
  if_neg (Nat.not_lt.mpr h)

theorem save_of_not_fitting (h : ¬m.Fitting) :
    s.save m = (s, some (.votedForTooLong m.votedFor.length)) :=
  if_pos (Nat.lt_of_not_le h)

theorem take_writeAtStart (h : m.Fitting) (file : List UInt8) :
    (writeAtStart file m.encode).take metaRecordSize = m.encode :=
  take_append_of_length (MetaRecord.length_encode h)

theorem load_save (h : m.Fitting) (hterm : Fits 8 m.term) : (s.save m).1.load = .ok m := by
  have hcrc : getLE (putLE metaChecksumSize (Crc32.checksumIEEE m.header).toNat) =
      (Crc32.checksumIEEE m.header).toNat :=
    getLE_putLE_of_lt (Crc32.checksumIEEE m.header).toNat_lt
  have hvote : (UInt8.ofNat m.votedFor.length).toNat = m.votedFor.length := by
    exact Nat.mod_eq_of_lt (Nat.lt_succ_of_le h)
  obtain ⟨hheader, hsum⟩ := MetaRecord.slice_encode h
  obtain ⟨hversion, hfield, hlen, hslice⟩ := m.fields_encode
  have hsize := MetaRecord.length_encode h
  rw [save_of_fitting h, load]
  dsimp only
  rw [take_writeAtStart h, hsize, if_neg (by decide), if_neg (not_not.mpr rfl), hheader, hsum,
    hcrc, if_neg (not_not.mpr rfl), hversion, if_neg (not_not.mpr rfl), hlen, hvote,
    hfield, hslice, getInt_putInt hterm]
  -- without a vote nothing is sliced
  have hnone : (if 0 < m.votedFor.length then m.votedFor else []) = m.votedFor := by
    split
    · rfl
    · exact (List.eq_nil_of_length_eq_zero (by omega)).symm
  rw [hnone]

/-- The last record that was not refused. -/
def lastSaved (ms : List MetaRecord) : MetaRecord :=
  ((ms.filter fun m => decide m.Fitting).getLast?).getD .zero

theorem load_saveAll {ms : List MetaRecord} (hterms : ∀ m ∈ ms, Fits 8 m.term) :
    ((⟨[]⟩ : FileMetaStore).saveAll ms).load = .ok (lastSaved ms) := by
  induction ms using List.reverseRecOn with
  | nil => rfl
  | append_singleton ms m ih =>
    have hold := ih fun m' hm' => hterms m' (List.mem_append_left _ hm')
    rw [saveAll, List.foldl_append, lastSaved, List.filter_append]
    by_cases h : m.Fitting
    · rw [List.filter_singleton, decide_eq_true h, cond_true, List.getLast?_concat]
      exact load_save h (hterms m (by simp))
    · rw [List.filter_singleton, decide_eq_false h, cond_false, List.append_nil]
      show (FileMetaStore.save _ m).1.load = _
      rw [save_of_not_fitting h]
      exact hold

/-- **What is saved is read back, or refused without a trace.**  From any file a vote of at
most 255 bytes comes back with its term, and a longer one leaves `Load` as it was.  Over
any sequence of calls on a new file, `Load` returns the last record that was not
refused. -/
theorem meta_round_trip (s : FileMetaStore) {m : MetaRecord} (hterm : Fits 8 m.term)
    {ms : List MetaRecord} (hterms : ∀ m ∈ ms, Fits 8 m.term) :
    (m.votedFor.length ≤ 255 → (s.save m).2 = none ∧ (s.save m).1.load = .ok m) ∧
      (255 < m.votedFor.length →
        (s.save m).2 = some (.votedForTooLong m.votedFor.length) ∧
          (s.save m).1.load = s.load) ∧
      ((⟨[]⟩ : FileMetaStore).saveAll ms).load = .ok (lastSaved ms) := by
  refine ⟨fun h => ?_, fun h => ?_, load_saveAll hterms⟩
  · refine ⟨?_, load_save h hterm⟩
    rw [save_of_fitting h]
  · rw [save_of_not_fitting (Nat.not_le.mpr h)]
    exact ⟨rfl, rfl⟩

end FileMetaStore

section

local instance metaFileCrc : Crc32 := Crc32.ieee

/-- A short vote over a long one, with a zero byte in it. -/
theorem FileMetaStore.meta_round_trip_shorter :
    ((⟨[]⟩ : FileMetaStore).saveAll
        [⟨-3, [110, 111, 100, 101, 45, 49]⟩, ⟨7, [110, 0]⟩, ⟨8, List.replicate 256 110⟩]).load =
      .ok ⟨7, [110, 0]⟩ :=
  have hterms : ∀ m ∈ [⟨-3, [110, 111, 100, 101, 45, 49]⟩, ⟨7, [110, 0]⟩,
      (⟨8, List.replicate 256 110⟩ : MetaRecord)], Fits 8 m.term := by decide
  ((meta_round_trip ⟨[]⟩ (m := .zero) (by decide) hterms).2.2).trans (by decide +kernel)

end

end Raft
