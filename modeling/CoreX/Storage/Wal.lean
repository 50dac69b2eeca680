/-
CoreX/Storage/Wal.lean

The write-ahead log: one file of records
-/
import CoreX.Lib.Bytes
import CoreX.Lib.Frames

namespace Wal

open Bytes

/-- `hash/crc32`: some function from bytes to words. -/
class Crc32 where
  checksumIEEE : List UInt8 → UInt32

/-- One byte of the IEEE polynomial, reflected. -/
def crcByte (crc : UInt32) (b : UInt8) : UInt32 :=
  (List.range 8).foldl (fun c _ => if c &&& 1 = 1 then (c >>> 1) ^^^ 0xEDB88320 else c >>> 1)
    (crc ^^^ b.toUInt32)

/-- The checksum of the standard library, for runs that are evaluated. -/
abbrev Crc32.ieee : Crc32 where
  checksumIEEE bytes := bytes.foldl crcByte 0xFFFFFFFF ^^^ 0xFFFFFFFF

/-- The check value of CRC-32, over the digits from `1` to `9`. -/
example : Crc32.ieee.checksumIEEE [49, 50, 51, 52, 53, 54, 55, 56, 57] = 0xCBF43926 := by
  decide +kernel

/-! ### Records -/

def magicNumber : Nat := 0xCAFEBABE

def recordHeaderSize : Nat := 4 + 8 + 4

def recordChecksumSize : Nat := 4

/-- A record as the reader returns it; the time stays the word of the header. -/
structure Record where
  timestamp : UInt64
  data : List UInt8
  deriving DecidableEq, Repr

/-- The header: the size is the length of the payload as a `uint32`. -/
def header (now : UInt64) (payload : List UInt8) : List UInt8 :=
  putBE 4 magicNumber ++ (putBE 8 now.toNat ++ putBE 4 payload.length)

/-- What one `Write` appends to the file. -/
def encode [Crc32] (r : Record) : List UInt8 :=
  header r.timestamp r.data ++
    (r.data ++ putBE 4 (Crc32.checksumIEEE (header r.timestamp r.data ++ r.data)).toNat)

/-! ### Reading -/

/-- The errors of `io.ReadFull`. -/
inductive IoError
  | eof
  | unexpectedEOF
  deriving DecidableEq, Repr

inductive ReadError
  | eof
  | errTruncated
  | errCorrupted
  | errChecksumMismatch
  deriving DecidableEq, Repr

/-- `io.ReadFull`: `n` bytes and what is left.  Nothing at all is `io.EOF`. -/
def readFull (n : Nat) (input : List UInt8) : Except IoError (List UInt8 × List UInt8) :=
  if n ≤ input.length then .ok (input.take n, input.drop n)
  else if input = [] then .error .eof
  else .error .unexpectedEOF

/-- How `readRecord` passes on an error of `io.ReadFull`. -/
def ReadError.ofIo : IoError → ReadError
  | .eof => .eof
  | .unexpectedEOF => .errTruncated

/-- `readRecord`. -/
def readRecord [Crc32] (input : List UInt8) : Except ReadError (Record × List UInt8) :=
  match readFull recordHeaderSize input with
  | .error e => .error (.ofIo e)
  | .ok (head, input) =>
      if getBE (head.take 4) ≠ magicNumber then .error .errCorrupted
      else
        match readFull (getBE (head.drop 12)) input with
        | .error e => .error (.ofIo e)
        | .ok (payload, input) =>
            match readFull recordChecksumSize input with
            | .error e => .error (.ofIo e)
            | .ok (checksum, input) =>
                if (Crc32.checksumIEEE (head ++ payload)).toNat ≠ getBE checksum then
                  .error .errChecksumMismatch
                else .ok (⟨UInt64.ofNat (getBE ((head.drop 4).take 8)), payload⟩, input)

variable (file : List UInt8)

/-- The loop `for reader.Scan()`: the records and the rest of the file.  A record
takes 20 bytes or more, so the length of the file is enough fuel. -/
def readAll [Crc32] : List Record × List UInt8 × Option ReadError :=
  Frames.scan readRecord (file.length + 1) file

/-- `Err()` after the loop: the end of the file is no error. -/
def readErr [Crc32] : Option ReadError :=
  match (readAll file).2.2 with
  | some .eof => none
  | e => e

/-- `file.ReadAt`: `none` if the file ends before the `n` bytes do. -/
def readAt (offset n : Nat) : Option (List UInt8) :=
  if n = 0 then some []
  else if offset + n ≤ file.length then some ((file.drop offset).take n)
  else none

/-- `ReadRecordAt`. -/
def readRecordAt [Crc32] (offset : Nat) : Except ReadError Record :=
  match readAt file offset recordHeaderSize with
  | none => .error (if file.length ≤ offset then .eof else .errTruncated)
  | some head =>
      if getBE (head.take 4) ≠ magicNumber then .error .errCorrupted
      else
        let payloadSize := getBE (head.drop 12)
        match readAt file (offset + recordHeaderSize) payloadSize with
        | none => .error .errTruncated
        | some payload =>
            match readAt file (offset + recordHeaderSize + payloadSize) recordChecksumSize with
            | none => .error .errTruncated
            | some checksum =>
                if (Crc32.checksumIEEE (head ++ payload)).toNat ≠ getBE checksum then
                  .error .errChecksumMismatch
                else .ok ⟨UInt64.ofNat (getBE ((head.drop 4).take 8)), payload⟩

/-! ### Writing -/

/-- `Writer`: the file and the number of bytes `WriteOffset` believes it has. -/
structure Writer where
  file : List UInt8
  sizeTracker : Nat
  deriving DecidableEq, Repr

/-- `NewWriter` on a file: nothing is read, the size is taken as it is. -/
def newWriter : Writer := ⟨file, file.length⟩

namespace Writer

variable [Crc32] (w : Writer)

/-- `Write`, successful. -/
def write (now : UInt64) (payload : List UInt8) : Writer :=
  { w with file := w.file ++ encode ⟨now, payload⟩ }

/-- `Write` that fails after `n` bytes. -/
def writeFailed (now : UInt64) (payload : List UInt8) (n : Nat) : Writer :=
  { w with file := w.file ++ (encode ⟨now, payload⟩).take n }

/-- `WriteOffset`, successful: where the record begins, and the writer after. -/
def writeOffset (now : UInt64) (payload : List UInt8) : Nat × Writer :=
  (w.sizeTracker,
    { file := w.file ++ encode ⟨now, payload⟩
      sizeTracker := w.sizeTracker + (encode ⟨now, payload⟩).length })

end Writer

/-! ### What is written is read back -/

/-- The payload's size fits the field for it. -/
def Record.Sized (r : Record) : Prop := r.data.length < 256 ^ 4

instance (r : Record) : Decidable r.Sized := inferInstanceAs (Decidable (_ < _))

section Header

variable {now : UInt64} {payload rest : List UInt8} {r : Record}

@[simp] theorem length_header : (header now payload).length = recordHeaderSize := by
  simp [header, recordHeaderSize]

theorem header_magic : getBE ((header now payload).take 4) = magicNumber := by
  rw [header, take_append_of_length (length_putBE 4 _)]
  exact getBE_putBE_of_lt (by decide)

theorem header_timestamp :
    UInt64.ofNat (getBE (((header now payload).drop 4).take 8)) = now := by
  rw [header, drop_append_of_length (length_putBE 4 _), take_append_of_length (length_putBE 8 _),
    getBE_putBE_of_lt (show now.toNat < 256 ^ 8 from now.toNat_lt)]
  exact UInt64.ofNat_toNat

theorem header_size : getBE ((header now payload).drop 12) = payload.length % 256 ^ 4 := by
  have hdrop : (header now payload).drop 12 = putBE 4 payload.length := by
    rw [header, ← List.append_assoc]
    exact drop_append_of_length (by simp)
  rw [hdrop, getBE_putBE]

theorem Record.Sized.header_size (h : r.Sized) :
    getBE ((header r.timestamp r.data).drop 12) = r.data.length := by
  rw [Wal.header_size]
  exact Nat.mod_eq_of_lt h

theorem checksum_putBE {c : UInt32} : getBE (putBE 4 c.toNat) = c.toNat :=
  getBE_putBE_of_lt (show c.toNat < 256 ^ 4 from c.toNat_lt)

theorem readFull_append {n : Nat} {l : List UInt8} (h : l.length = n) :
    readFull n (l ++ rest) = .ok (l, rest) := by
  have hle : n ≤ (l ++ rest).length := by
    rw [List.length_append]
    omega
  rw [readFull, if_pos hle, take_append_of_length h, drop_append_of_length h]

theorem readFull_short {n : Nat} {l : List UInt8} (h : l.length < n) :
    ∃ e, readFull n l = .error e := by
  rw [readFull, if_neg (by omega)]
  split
  · exact ⟨_, rfl⟩
  · exact ⟨_, rfl⟩

theorem readAt_append (file pre l : List UInt8) {offset n : Nat}
    (hfile : file = pre ++ (l ++ rest)) (hoffset : pre.length = offset)
    (hn : l.length = n) : readAt file offset n = some l := by
  subst hfile hoffset hn
  unfold readAt
  split
  · next h => rw [List.length_eq_zero_iff.mp h]
  · rw [if_pos (by simp only [List.length_append]; omega), List.drop_left, List.take_left]

end Header

section Reading

variable [Crc32] {r : Record} {rest : List UInt8}

@[simp] theorem length_encode (r : Record) : (encode r).length = 20 + r.data.length := by
  simp only [encode, List.length_append, length_header, length_putBE, recordHeaderSize]
  omega

theorem recordSize_eq (r : Record) :
    recordHeaderSize + r.data.length + recordChecksumSize = (encode r).length := by
  rw [length_encode, recordHeaderSize, recordChecksumSize]
  omega

theorem readRecord_header (now : UInt64) (payload input : List UInt8) :
    readRecord (header now payload ++ input) =
      match readFull (payload.length % 256 ^ 4) input with
      | .error e => .error (.ofIo e)
      | .ok (data, input) =>
        match readFull recordChecksumSize input with
        | .error e => .error (.ofIo e)
        | .ok (checksum, input) =>
          if (Crc32.checksumIEEE (header now payload ++ data)).toNat ≠ getBE checksum then
            .error .errChecksumMismatch
          else .ok (⟨now, data⟩, input) := by
  simp only [readRecord, readFull_append length_header, header_magic, ne_eq, not_true_eq_false,
    if_false, header_size, header_timestamp]

theorem readRecord_encode (h : r.Sized) : readRecord (encode r ++ rest) = .ok (r, rest) := by
  rw [encode, List.append_assoc, List.append_assoc, readRecord_header, Nat.mod_eq_of_lt h]
  simp only [readFull_append, recordChecksumSize, length_putBE, checksum_putBE, ne_eq,
    not_true_eq_false, if_false]

theorem readRecord_take (h : r.Sized) {n : Nat} (hn : n < (encode r).length) :
    ∃ e, readRecord ((encode r).take n) = .error (.ofIo e) := by
  rw [length_encode] at hn
  rcases Nat.lt_or_ge n recordHeaderSize with hhead | hhead
  · -- inside the header
    obtain ⟨e, he⟩ := readFull_short (n := recordHeaderSize) (l := (encode r).take n)
      (by rw [List.length_take]; omega)
    exact ⟨e, by rw [readRecord, he]⟩
  rw [encode, List.take_append, length_header, List.take_of_length_le (by simpa using hhead),
    readRecord_header, Nat.mod_eq_of_lt h, List.take_append]
  unfold recordHeaderSize at hhead ⊢
  rcases Nat.lt_or_ge (n - 16) r.data.length with hdata | hdata
  · -- inside the payload
    obtain ⟨e, he⟩ := readFull_short (n := r.data.length) (l := r.data.take (n - 16))
      (by rw [List.length_take]; omega)
    rw [show n - (4 + 8 + 4) = n - 16 by omega, Nat.sub_eq_zero_of_le (Nat.le_of_lt hdata),
      List.take_zero, List.append_nil, he]
    exact ⟨e, rfl⟩
  · -- inside the checksum
    rw [show n - (4 + 8 + 4) = n - 16 by omega, List.take_of_length_le hdata, readFull_append rfl]
    obtain ⟨e, he⟩ := readFull_short (n := recordChecksumSize)
      (l := (putBE 4 (Crc32.checksumIEEE (header r.timestamp r.data ++ r.data)).toNat).take
        (n - 16 - r.data.length))
      (by rw [List.length_take, recordChecksumSize]; omega)
    simp only [he]
    exact ⟨_, rfl⟩

theorem readRecord_torn {t : List UInt8} (h : Frames.Torn encode Record.Sized t) :
    ∃ e, readRecord t = .error (.ofIo e) := by
  rcases h with rfl | ⟨r, hr, hpre, hlt⟩
  · exact ⟨.eof, rfl⟩
  · rw [List.prefix_iff_eq_take.mp hpre]
    exact readRecord_take hr hlt

theorem decodes : Frames.Decodes readRecord encode Record.Sized where
  whole _ _ h := readRecord_encode h
  torn t h := by
    obtain ⟨e, he⟩ := readRecord_torn h
    exact ⟨.ofIo e, he⟩
  pos r _ := by
    rw [length_encode]
    omega

theorem readAll_stream {rs : List Record} (hrs : ∀ r ∈ rs, r.Sized) {t : List UInt8}
    (ht : Frames.Torn encode Record.Sized t) :
    ∃ e, readAll (rs.flatMap encode ++ t) = (rs, t, some (.ofIo e)) := by
  obtain ⟨e, he⟩ := readRecord_torn ht
  have hfuel : rs.length < (rs.flatMap encode ++ t).length + 1 := by
    have := decodes.length_le hrs
    rw [List.length_append]
    omega
  exact ⟨e, decodes.scan_stream hrs he hfuel⟩

theorem readAll_whole {rs : List Record} (hrs : ∀ r ∈ rs, r.Sized) :
    readAll (rs.flatMap encode) = (rs, [], some .eof) := by
  have hfuel : rs.length < (rs.flatMap encode).length + 1 :=
    Nat.lt_succ_of_le (decodes.length_le hrs)
  have h := decodes.scan_stream hrs (t := []) (e := .eof) rfl hfuel
  rwa [List.append_nil] at h

theorem readRecordAt_encode (h : r.Sized) (pre : List UInt8) :
    readRecordAt (pre ++ (encode r ++ rest)) pre.length = .ok r := by
  have hhead := readAt_append (pre ++ (encode r ++ rest)) pre (header r.timestamp r.data)
    (by rw [encode, List.append_assoc]) rfl length_header
  have hdata := readAt_append (pre ++ (encode r ++ rest)) (pre ++ header r.timestamp r.data) r.data
    (by simp only [encode, List.append_assoc]; rfl) (by rw [List.length_append, length_header]) rfl
  have hsum := readAt_append (pre ++ (encode r ++ rest))
    (pre ++ (header r.timestamp r.data ++ r.data))
    (putBE 4 (Crc32.checksumIEEE (header r.timestamp r.data ++ r.data)).toNat)
    (by simp only [encode, List.append_assoc]; rfl)
    (by rw [List.length_append, List.length_append, length_header, ← Nat.add_assoc])
    (length_putBE recordChecksumSize _)
  simp only [readRecordAt, hhead, header_magic, ne_eq, not_true_eq_false, if_false, h.header_size,
    hdata, hsum, checksum_putBE, header_timestamp]

theorem readRecordAt_end (file : List UInt8) : readRecordAt file file.length = .error .eof := by
  have hnone : readAt file file.length recordHeaderSize = none := by
    rw [readAt, if_neg (by decide), if_neg (by rw [recordHeaderSize]; omega)]
  simp only [readRecordAt, hnone, Nat.le_refl, if_true]

end Reading

end Wal
