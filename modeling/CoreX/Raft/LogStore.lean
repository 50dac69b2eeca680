/-
CoreX/Raft/LogStore.lean

The Raft log on disk, down to the bytes.  `WALLogStore` keeps the log as a stream
of write-ahead records: entries, marks that truncate, and now and then a rewrite
that drops a prefix.  `MemLogStore` edits a list.

The bytes are connected to the list of `LogRecord`s that stands for the log store
of a node elsewhere: `Represents file wal` says that the file holds these records,
every operation of the store keeps it, and `LoadAll` returns `loadAll wal`.  From
there the comparison with `MemLogStore` is one about lists
(`walLogStore_refines`).

The size of a payload is a `uint32`.  An entry of 4 GiB is written with a size that
does not match, and is not read again (`oversized_entry_unreadable`).
-/
import CoreX.Lib.Run
import CoreX.Raft.Types
import CoreX.Storage.Wal

namespace Raft

open Bytes StepSystem Wal

/-! ### The encoding -/

def logRecordTypeEntry : UInt8 := 0x01
def logRecordTypeTruncate : UInt8 := 0x02
def walEntryMagic0 : UInt8 := 0xFF
def walEntryMagic1 : UInt8 := 0xC0

/-- `encodeLogEntry` (v3). -/
def encodeLogEntry (e : LogEntry) : List UInt8 :=
  logRecordTypeEntry :: walEntryMagic0 :: walEntryMagic1 ::
    (putInt 8 e.index ++ (putInt 8 e.term ++ ([e.type] ++ (putLE 4 e.data.length ++ e.data))))

/-- `encodeTruncate`. -/
def encodeTruncate (fromIndex : Int) : List UInt8 := logRecordTypeTruncate :: putInt 8 fromIndex

/-- Why a record cannot be decoded, with the lengths the message names. -/
inductive DecodeError
  | payloadTooShort (len : Nat)
  | v3PayloadTooShort (len : Nat)
  | v3LengthMismatch (need got : Nat)
  | dataTooShort (need got : Nat)
  | truncateTooShort (len : Nat)
  deriving DecidableEq, Repr

variable (data : List UInt8)

/-- The bytes from `i` to `j`. -/
def slice (i j : Nat) : List UInt8 := (data.drop i).take (j - i)

/-- The three formats share their fields: where the index and the data length stand,
and the type byte, if there is one. -/
def entryAtOffsets (i : Nat) (type : UInt8) (start : Nat) (dataLen : Nat) :
    LogEntry :=
  ⟨getInt (slice data i (i + 8)), getInt (slice data (i + 8) (i + 16)), type,
    slice data start (start + dataLen)⟩

/-- `decodeLogEntry`: the bytes after the record type.  Entries without the magic
bytes are in one of the two older formats. -/
def decodeLogEntry : Except DecodeError LogEntry :=
  if data.length = 0 then .error (.payloadTooShort 0)
  else if 2 ≤ data.length ∧ data[0]? = some walEntryMagic0 ∧ data[1]? = some walEntryMagic1 then
    if data.length < 23 then .error (.v3PayloadTooShort data.length)
    else
      let dataLen := getLE (slice data 19 23)
      if data.length ≠ 23 + dataLen then .error (.v3LengthMismatch (23 + dataLen) data.length)
      else .ok (entryAtOffsets data 2 (data.getD 18 0) 23 dataLen)
  else if data.length < 20 then .error (.payloadTooShort data.length)
  else if 21 ≤ data.length ∧ data.length = 21 + getLE (slice data 17 21) then
    .ok (entryAtOffsets data 0 (data.getD 16 0) 21 (getLE (slice data 17 21)))
  else
    let dataLen := getLE (slice data 16 20)
    if data.length < 20 + dataLen then .error (.dataTooShort (20 + dataLen) data.length)
    else .ok (entryAtOffsets data 0 entryTypeCommand 20 dataLen)

/-- `decodeTruncate`. -/
def decodeTruncate : Except DecodeError Int :=
  if data.length < 8 then .error (.truncateTooShort data.length)
  else .ok (getInt (slice data 0 8))

/-! ### The two stores -/

/-- The errors of `LoadAll` and of `CompactPrefix`. -/
inductive LoadError
  | decodeEntry (e : DecodeError)
  | decodeTruncate (e : DecodeError)
  | unknownRecordType (type : UInt8)
  | scan (e : ReadError)
  deriving DecidableEq, Repr

/-- The body of the loop over the records, where `unknown` is what is done with a
record of an unknown type. -/
def replayRecord (unknown : UInt8 → List LogEntry → Except LoadError (List LogEntry))
    (entries : List LogEntry) (data : List UInt8) : Except LoadError (List LogEntry) :=
  match data with
  | [] => .ok entries
  | type :: rest =>
      if type = logRecordTypeEntry then
        match decodeLogEntry rest with
        | .error e => .error (.decodeEntry e)
        | .ok e => .ok (entries ++ [e])
      else if type = logRecordTypeTruncate then
        match decodeTruncate rest with
        | .error e => .error (.decodeTruncate e)
        | .ok fromIndex => .ok (entries.takeWhile fun e => e.index < fromIndex)
      else unknown type entries

/-- The loop over the records of a file; a torn record at its end is ignored. -/
def replayFile [Crc32] (unknown : UInt8 → List LogEntry → Except LoadError (List LogEntry))
    (file : List UInt8) : Except LoadError (List LogEntry) :=
  match ((readAll file).1.map Record.data).foldlM (replayRecord unknown) [] with
  | .error e => .error e
  | .ok entries =>
      match readErr file with
      | none => .ok entries
      | some .errTruncated => .ok entries
      | some e => .error (.scan e)

/-- `WALLogStore`. -/
structure WALLogStore where
  w : Writer

namespace WALLogStore

variable [Crc32] (s : WALLogStore)

/-- `NewWALLogStore`, also after `Close`. -/
def newWALLogStore (file : List UInt8) : WALLogStore := ⟨newWriter file⟩

/-- `Append`. -/
def append (now : UInt64) (entry : LogEntry) : WALLogStore := ⟨s.w.write now (encodeLogEntry entry)⟩

/-- `TruncateSuffix`. -/
def truncateSuffix (now : UInt64) (fromIndex : Int) : WALLogStore :=
  ⟨s.w.write now (encodeTruncate fromIndex)⟩

/-- `LoadAll`. -/
def loadAll : Except LoadError (List LogEntry) :=
  replayFile (fun type _ => .error (.unknownRecordType type)) s.w.file

/-- `rewriteWALExcluding`: a new file with the entries above `upToIndex`, where
`clock i` is the time at which the `i`-th is written.  Records of an unknown type
are skipped. -/
def rewriteWALExcluding (file : List UInt8) (clock : Nat → UInt64) (upToIndex : Int) :
    Except LoadError (List UInt8) :=
  match replayFile (fun _ entries => .ok entries) file with
  | .error e => .error e
  | .ok entries =>
      .ok ((entries.filter fun e => upToIndex < e.index).zipIdx.flatMap fun p =>
        encode ⟨clock p.2, encodeLogEntry p.1⟩)

/-- `CompactPrefix`: the writer goes on with the new file, or stays if there is
none. -/
def compactPrefix (clock : Nat → UInt64) (upToIndex : Int) : WALLogStore :=
  match rewriteWALExcluding s.w.file clock upToIndex with
  | .error _ => s
  | .ok file => ⟨newWriter file⟩

end WALLogStore

/-- `MemLogStore`. -/
structure MemLogStore where
  entries : List LogEntry

namespace MemLogStore

variable (s : MemLogStore)

def append (entry : LogEntry) : MemLogStore := ⟨s.entries ++ [entry]⟩

def truncateSuffix (fromIndex : Int) : MemLogStore :=
  ⟨s.entries.takeWhile fun e => e.index < fromIndex⟩

def compactPrefix (upToIndex : Int) : MemLogStore :=
  ⟨s.entries.dropWhile fun e => e.index ≤ upToIndex⟩

def loadAll : List LogEntry := s.entries

end MemLogStore

/-! ### What is encoded is decoded -/

/-- The numbers of an entry are `int64`s. -/
def LogEntry.InRange (e : LogEntry) : Prop := Fits 8 e.index ∧ Fits 8 e.term

/-- The payload of the entry fits a record. -/
def LogEntry.Sized (e : LogEntry) : Prop := 24 + e.data.length < 256 ^ 4

instance (e : LogEntry) : Decidable e.InRange := inferInstanceAs (Decidable (_ ∧ _))
instance (e : LogEntry) : Decidable e.Sized := inferInstanceAs (Decidable (_ < _))

theorem length_encodeLogEntry (e : LogEntry) : (encodeLogEntry e).length = 24 + e.data.length := by
  simp only [encodeLogEntry, List.length_cons, List.length_append, length_putInt, length_putLE,
    List.length_nil]
  omega

theorem slice_eq (pre l rest : List UInt8) {i j : Nat} (h : data = pre ++ (l ++ rest))
    (hi : pre.length = i) (hj : i + l.length = j) : slice data i j = l := by
  rw [h, slice, drop_append_of_length hi, take_append_of_length (by omega)]

theorem decodeLogEntry_encode {e : LogEntry} (hr : e.InRange) (hs : e.Sized) :
    ∃ rest, encodeLogEntry e = logRecordTypeEntry :: rest ∧ decodeLogEntry rest = .ok e := by
  refine ⟨_, rfl, ?_⟩
  obtain ⟨index, term, type, body⟩ := e
  have hlen : body.length < 256 ^ 4 := by
    unfold LogEntry.Sized at hs
    simp only at hs
    omega
  let head : List UInt8 :=
    walEntryMagic0 :: walEntryMagic1 :: (putInt 8 index ++ (putInt 8 term ++ [type]))
  let d : List UInt8 := walEntryMagic0 :: walEntryMagic1 ::
    (putInt 8 index ++ (putInt 8 term ++ ([type] ++ (putLE 4 body.length ++ body))))
  show decodeLogEntry d = _
  have hhead : d = head ++ (putLE 4 body.length ++ body) := by
    simp only [d, head, List.cons_append, List.append_assoc]
  have hheadLen : head.length = 19 := by
    simp [head]
  have hd : d.length = 23 + body.length := by
    rw [hhead, List.length_append, List.length_append, hheadLen, length_putLE]
    omega
  have hindex : slice d 2 10 = putInt 8 index :=
    slice_eq d [walEntryMagic0, walEntryMagic1] _ _ rfl rfl (by simp)
  have hterm : slice d 10 18 = putInt 8 term :=
    slice_eq d (walEntryMagic0 :: walEntryMagic1 :: putInt 8 index) _ _ rfl (by simp) (by simp)
  have htype : d.getD 18 0 = type := by
    simp [d, List.getElem?_append]
  have hdata :
    slice d 19 23 = putLE 4 body.length := slice_eq d head _ body hhead hheadLen (by simp)
  have hbody : slice d 23 (23 + body.length) = body :=
    slice_eq d (head ++ putLE 4 body.length) _ [] (by rw [hhead]; simp) (by simp [hheadLen]) rfl
  have hdataLen : getLE (slice d 19 23) = body.length := by
    rw [hdata, getLE_putLE_of_lt hlen]
  have hmagic : 2 ≤ d.length ∧ d[0]? = some walEntryMagic0 ∧ d[1]? = some walEntryMagic1 :=
    ⟨by omega, rfl, rfl⟩
  rw [decodeLogEntry, if_neg (by omega), if_pos hmagic, if_neg (by omega)]
  simp only [hdataLen]
  rw [if_neg (by simpa using hd), entryAtOffsets, hindex, hterm, htype, hbody,
    getInt_putInt hr.1, getInt_putInt hr.2]

theorem decodeTruncate_encode {fromIndex : Int} (h : Fits 8 fromIndex) :
    decodeTruncate (putInt 8 fromIndex) = .ok fromIndex := by
  have hslice : slice (putInt 8 fromIndex) 0 8 = putInt 8 fromIndex := by
    rw [slice, List.drop_zero, List.take_of_length_le (by rw [length_putInt])]
  rw [decodeTruncate, if_neg (by rw [length_putInt]; omega), hslice, getInt_putInt h]

/-! ### The file as a list of records -/

/-- The payload that stands for a record. -/
def LogRecord.payload : LogRecord → List UInt8
  | .entry e => encodeLogEntry e
  | .truncate fromIndex => encodeTruncate fromIndex

/-- The record's numbers are `int64`s and its payload has a size. -/
def LogRecord.Storable : LogRecord → Prop
  | .entry e => e.InRange ∧ e.Sized
  | .truncate fromIndex => Fits 8 fromIndex

theorem LogRecord.Storable.sized {r : LogRecord} (h : r.Storable) (now : UInt64) :
    Record.Sized ⟨now, r.payload⟩ := by
  cases r with
  | entry e =>
    show (encodeLogEntry e).length < _
    rw [length_encodeLogEntry]
    exact h.2
  | truncate fromIndex =>
    show (encodeTruncate fromIndex).length < _
    rw [encodeTruncate, List.length_cons, length_putInt]
    decide

theorem replayRecord_payload {r : LogRecord} (h : r.Storable) (entries : List LogEntry)
    (unknown : UInt8 → List LogEntry → Except LoadError (List LogEntry)) :
    replayRecord unknown entries r.payload = .ok (r.replay entries) := by
  cases r with
  | entry e =>
    obtain ⟨rest, heq, hdec⟩ := decodeLogEntry_encode h.1 h.2
    simp only [LogRecord.payload, heq, replayRecord, if_true, hdec]
    rfl
  | truncate fromIndex =>
    simp only [LogRecord.payload, encodeTruncate, replayRecord, decodeTruncate_encode h, if_true]
    rfl

theorem sized_of_payloads {rs : List Record} {wal : List LogRecord}
    (hdata : rs.map Record.data = wal.map LogRecord.payload) (hwal : ∀ r ∈ wal, r.Storable) :
    ∀ r ∈ rs, r.Sized := by
  intro r hr
  have hmem : r.data ∈ wal.map LogRecord.payload := hdata ▸ List.mem_map_of_mem hr
  obtain ⟨lr, hlr, heq⟩ := List.mem_map.mp hmem
  have := (hwal lr hlr).sized r.timestamp
  rwa [heq] at this

theorem mem_of_mem_loadAll {wal : List LogRecord} {e : LogEntry} (he : e ∈ loadAll wal) :
    .entry e ∈ wal := by
  induction wal using List.reverseRecOn with
  | nil => exact absurd he List.not_mem_nil
  | append_singleton wal r ih =>
    refine List.mem_append.mpr ?_
    cases r with
    | entry e' =>
      rw [loadAll_entry, List.mem_append, List.mem_singleton] at he
      rcases he with he | rfl
      · exact .inl (ih he)
      · exact .inr (List.mem_singleton_self _)
    | truncate i =>
      rw [loadAll_truncate] at he
      exact .inl (ih ((List.takeWhile_sublist _).subset he))

section

variable [Crc32]

/-- `file` holds the records `wal`. -/
def Represents (file : List UInt8) (wal : List LogRecord) : Prop :=
  ∃ rs : List Record, file = rs.flatMap encode ∧ rs.map Record.data = wal.map LogRecord.payload ∧
    ∀ r ∈ wal, r.Storable

namespace Represents

variable {file : List UInt8} {wal : List LogRecord}

theorem replayFile_eq (h : Represents file wal)
    (unknown : UInt8 → List LogEntry → Except LoadError (List LogEntry)) :
    replayFile unknown file = .ok (loadAll wal) := by
  obtain ⟨rs, rfl, hdata, hwal⟩ := h
  have hscan := readAll_whole (sized_of_payloads hdata hwal)
  have hfold : ∀ (ws : List LogRecord) (entries : List LogEntry), (∀ r ∈ ws, r.Storable) →
      (ws.map LogRecord.payload).foldlM (replayRecord unknown) entries =
        .ok (ws.foldl LogRecord.replay entries) := by
    intro ws
    induction ws with
    | nil => exact fun entries _ => rfl
    | cons r ws ih =>
      intro entries hall
      rw [List.map_cons, List.foldlM_cons, replayRecord_payload (hall r List.mem_cons_self),
        List.foldl_cons]
      exact ih _ fun r' hr' => hall r' (List.mem_cons_of_mem r hr')
  have herr : readErr (rs.flatMap encode) = none := by
    rw [readErr, hscan]
  rw [replayFile, hscan, hdata, hfold wal [] hwal, herr]
  rfl

theorem write (h : Represents file wal) {r : LogRecord} (hr : r.Storable) (now : UInt64) :
    Represents (file ++ encode ⟨now, r.payload⟩) (wal ++ [r]) := by
  obtain ⟨rs, rfl, hdata, hwal⟩ := h
  refine ⟨rs ++ [⟨now, r.payload⟩], ?_, ?_, ?_⟩
  · rw [List.flatMap_append, List.flatMap_singleton]
  · rw [List.map_append, List.map_append, hdata]
    rfl
  · intro r' hr'
    rcases List.mem_append.mp hr' with hr' | hr'
    · exact hwal r' hr'
    · rw [List.mem_singleton.mp hr']
      exact hr

theorem rewrite (h : Represents file wal) (clock : Nat → UInt64) (upToIndex : Int) :
    ∃ file', WALLogStore.rewriteWALExcluding file clock upToIndex = .ok file' ∧
      Represents file' (compactPrefix wal upToIndex) := by
  have hreplay := h.replayFile_eq fun _ entries => .ok entries
  obtain ⟨rs, -, -, hwal⟩ := h
  rw [WALLogStore.rewriteWALExcluding, hreplay]
  let kept := (loadAll wal).filter fun e => upToIndex < e.index
  refine ⟨_, rfl, kept.zipIdx.map fun p => ⟨clock p.2, encodeLogEntry p.1⟩, ?_, ?_, ?_⟩
  · rw [List.flatMap_map]
  · have hfst : kept = kept.zipIdx.map Prod.fst := (List.zipIdx_map_fst 0 kept).symm
    rw [compactPrefix, List.map_map, List.map_map]
    show _ = kept.map _
    nth_rewrite 2 [hfst]
    rw [List.map_map]
    rfl
  · intro r hr
    obtain ⟨e, he, rfl⟩ := List.mem_map.mp hr
    exact hwal _ (mem_of_mem_loadAll (List.mem_filter.mp he).1)

end Represents

/-! ### Both stores side by side -/

structure LogStores where
  wal : WALLogStore
  mem : MemLogStore

/-- Two new stores. -/
def LogStores.initial : LogStores := ⟨.newWALLogStore [], ⟨[]⟩⟩

inductive StoreOp
  | append (now : UInt64) (entry : LogEntry)
  | truncateSuffix (now : UInt64) (fromIndex : Int)
  | compactPrefix (clock : Nat → UInt64) (upToIndex : Int)
  | reopen

/-- The same call on both. -/
def LogStores.step (s : LogStores) : StoreOp → Option LogStores
  | .append now entry => some ⟨s.wal.append now entry, s.mem.append entry⟩
  | .truncateSuffix now fromIndex =>
      some ⟨s.wal.truncateSuffix now fromIndex, s.mem.truncateSuffix fromIndex⟩
  | .compactPrefix clock upToIndex =>
      some ⟨s.wal.compactPrefix clock upToIndex, s.mem.compactPrefix upToIndex⟩
  | .reopen => some ⟨.newWALLogStore s.wal.w.file, s.mem⟩

/-- How the node calls the stores: with `int64`s, and an appended entry is behind
all live ones. -/
def StoreOp.Called (s : LogStores) : StoreOp → Prop
  | .append _ entry => entry.InRange ∧ ∀ e ∈ s.mem.entries, e.index < entry.index
  | .truncateSuffix _ fromIndex => Fits 8 fromIndex
  | .compactPrefix _ upToIndex => Fits 8 upToIndex
  | .reopen => True

/-- An appended entry fits a record. -/
def StoreOp.Sized : StoreOp → Prop
  | .append _ entry => entry.Sized
  | _ => True

instance (s : LogStores) (op : StoreOp) : Decidable (op.Called s) := by
  cases op <;> unfold StoreOp.Called <;> infer_instance

instance (op : StoreOp) : Decidable op.Sized := by
  cases op <;> unfold StoreOp.Sized <;> infer_instance

omit [Crc32] in
theorem dropWhile_eq_filter_of_ascending {l : List LogEntry}
    (h : l.Pairwise fun e e' => e.index < e'.index) (i : Int) :
    l.dropWhile (fun e => e.index ≤ i) = l.filter fun e => i < e.index := by
  induction l with
  | nil => rfl
  | cons e l ih =>
    rw [List.pairwise_cons] at h
    rcases le_or_gt e.index i with hle | hlt
    · rw [List.dropWhile_cons_of_pos (by simpa using hle),
        List.filter_cons_of_neg (by simpa using hle), ih h.2]
    · rw [List.dropWhile_cons_of_neg (by simpa using hlt), List.filter_cons_of_pos
        (by simpa using hlt)]
      congr 1
      refine (List.filter_eq_self.mpr fun e' he' => ?_).symm
      have := h.1 e' he'
      simp only [decide_eq_true_eq]
      omega

/-- The file holds records that replay to the list in memory. -/
def Agree (s : LogStores) : Prop :=
  ∃ wal, Represents s.wal.w.file wal ∧ s.mem.entries = loadAll wal ∧
    s.mem.entries.Pairwise fun e e' => e.index < e'.index

theorem Agree.step {s s' : LogStores} {op : StoreOp} (h : Agree s) (hs : s.step op = some s')
    (hcalled : op.Called s) (hsized : op.Sized) : Agree s' := by
  obtain ⟨wal, hrep, hmem, hasc⟩ := h
  cases op with
  | append now entry =>
    obtain rfl := Option.some.inj hs
    refine ⟨wal ++ [LogRecord.entry entry],
      hrep.write (r := .entry entry) ⟨hcalled.1, hsized⟩ now, ?_, ?_⟩
    · rw [loadAll_entry, ← hmem]
      rfl
    · refine List.pairwise_append.mpr ⟨hasc, List.pairwise_singleton _ _, ?_⟩
      intro e he e' he'
      rw [List.mem_singleton.mp he']
      exact hcalled.2 e he
  | truncateSuffix now fromIndex =>
    obtain rfl := Option.some.inj hs
    refine ⟨wal ++ [LogRecord.truncate fromIndex],
      hrep.write (r := .truncate fromIndex) hcalled now, ?_, ?_⟩
    · rw [loadAll_truncate, ← hmem]
      rfl
    · exact hasc.sublist (List.takeWhile_sublist _)
  | compactPrefix clock upToIndex =>
    obtain rfl := Option.some.inj hs
    obtain ⟨file', hfile, hrep'⟩ := hrep.rewrite clock upToIndex
    refine ⟨compactPrefix wal upToIndex, ?_, ?_, hasc.sublist (List.dropWhile_sublist _)⟩
    · show Represents (s.wal.compactPrefix clock upToIndex).w.file _
      rw [WALLogStore.compactPrefix, hfile]
      exact hrep'
    · rw [compactPrefix, loadAll_map_entry, ← hmem]
      exact dropWhile_eq_filter_of_ascending hasc upToIndex
  | reopen =>
    obtain rfl := Option.some.inj hs
    exact ⟨wal, hrep, hmem, hasc⟩

/-- **The store on disk refines the store in memory**, as long as every entry fits
a record. -/
theorem walLogStore_refines {s : LogStores}
    (h : Runs LogStores.step (fun s op => op.Called s ∧ op.Sized) LogStores.initial s) :
    s.wal.loadAll = .ok s.mem.loadAll := by
  have h0 : Agree LogStores.initial :=
    ⟨[], ⟨[], rfl, rfl, fun r hr => absurd hr List.not_mem_nil⟩, rfl, List.Pairwise.nil⟩
  obtain ⟨wal, hrep, hmem, -⟩ :=
    h.invariant (fun _ _ _ hagree hs hok => hagree.step hs hok.1 hok.2) h0
  rw [WALLogStore.loadAll, hrep.replayFile_eq, MemLogStore.loadAll, hmem]

/-! ### An entry of 4 GiB -/

omit [Crc32] in
theorem encodeLogEntry_first (data : List UInt8) :
    ∃ rest, encodeLogEntry ⟨1, 1, entryTypeCommand, data⟩ =
      [1, 0xFF, 0xC0, 1] ++ ([0, 0, 0, 0, 0, 0, 0, 1, 0, 0, 0, 0, 0, 0, 0, 0] ++ rest) := by
  have hone : putInt 8 1 = [1, 0, 0, 0, 0, 0, 0, 0] := by decide
  refine ⟨putLE 4 data.length ++ data, ?_⟩
  simp only [encodeLogEntry, hone]
  rfl

theorem readRecord_zeros (tail : List UInt8) :
    readRecord ([0, 0, 0, 0, 0, 0, 0, 1, 0, 0, 0, 0, 0, 0, 0, 0] ++ tail) =
      .error .errCorrupted := by
  rfl

theorem readRecord_oversized (now : UInt64) {data : List UInt8}
    (hlen : 24 + data.length = 256 ^ 4) :
    let file := encode ⟨now, encodeLogEntry ⟨1, 1, entryTypeCommand, data⟩⟩
    readRecord file = .error .errChecksumMismatch ∨
      ∃ rest, readRecord file = .ok (⟨now, []⟩, rest) ∧ readRecord rest = .error .errCorrupted := by
  intro file
  let payload := encodeLogEntry ⟨1, 1, entryTypeCommand, data⟩
  let sum := putBE 4 (Crc32.checksumIEEE (header now payload ++ payload)).toNat
  obtain ⟨rest, hrest⟩ : ∃ rest, payload = _ := encodeLogEntry_first data
  have hsize : payload.length % 256 ^ 4 = 0 := by
    rw [length_encodeLogEntry, hlen, Nat.mod_self]
  have hread : readRecord file =
      if (Crc32.checksumIEEE (header now payload ++ [])).toNat ≠ getBE [1, 0xFF, 0xC0, 1] then
        .error .errChecksumMismatch
      else .ok (⟨now, []⟩, [0, 0, 0, 0, 0, 0, 0, 1, 0, 0, 0, 0, 0, 0, 0, 0] ++ (rest ++ sum)) := by
    show readRecord (header now payload ++ (payload ++ sum)) = _
    rw [readRecord_header, hsize, hrest, List.append_assoc, List.append_assoc]
    rfl
  by_cases hcrc :
      (Crc32.checksumIEEE (header now payload ++ [])).toNat ≠ getBE [1, 0xFF, 0xC0, 1]
  · exact .inl (by rw [hread, if_pos hcrc])
  · exact .inr ⟨_, by rw [hread, if_neg hcrc], readRecord_zeros _⟩

theorem loadAll_oversized (now : UInt64) {data : List UInt8} (hlen : 24 + data.length = 256 ^ 4) :
    ∃ e, (LogStores.initial.wal.append now ⟨1, 1, entryTypeCommand, data⟩).loadAll =
      .error (.scan e) := by
  let file := encode ⟨now, encodeLogEntry ⟨1, 1, entryTypeCommand, data⟩⟩
  have hfile : (LogStores.initial.wal.append now ⟨1, 1, entryTypeCommand, data⟩).w.file = file :=
    List.nil_append _
  rw [WALLogStore.loadAll, hfile]
  rcases readRecord_oversized now hlen with herr | ⟨rest, hok, herr⟩
  · have hscan : readAll file = ([], file, some .errChecksumMismatch) := by
      rw [readAll, Frames.scan, herr]
    exact ⟨_, by rw [replayFile, readErr, hscan]; rfl⟩
  · obtain ⟨k, hk⟩ : ∃ k, file.length = k + 1 := ⟨_, (length_encode _).trans (Nat.add_comm _ _)⟩
    have hscan : readAll file = ([⟨now, []⟩], rest, some .errCorrupted) := by
      rw [readAll, Frames.scan, hok, hk]
      simp only [Frames.scan, herr]
    exact ⟨_, by rw [replayFile, readErr, hscan]; rfl⟩

end

section

local instance logStoreCrc : Crc32 := Crc32.ieee

/-- **An entry of 4 GiB is lost on disk**, and the rest of the log with it. -/
theorem oversized_entry_unreadable :
    ∃ s, Runs LogStores.step (fun s op => op.Called s) LogStores.initial s ∧
      s.wal.loadAll ≠ .ok s.mem.loadAll := by
  let data : List UInt8 := List.replicate (256 ^ 4 - 24) 0
  have hlen : 24 + data.length = 256 ^ 4 := by
    rw [List.length_replicate]
    omega
  refine ⟨_, (Runs.refl LogStores.initial).tail
    (a := .append 0 ⟨1, 1, entryTypeCommand, data⟩) rfl ?_, ?_⟩
  · exact ⟨⟨by decide, by decide⟩, fun e he => absurd he List.not_mem_nil⟩
  · obtain ⟨e, he⟩ := loadAll_oversized 0 hlen
    rw [he]
    exact fun h => nomatch h

/-- Appending, truncating, compacting and reopening, on both stores. -/
def mixedCalls : List StoreOp :=
  [.append 1 ⟨1, 1, 0, [7]⟩, .append 2 ⟨2, 1, 1, []⟩, .append 3 ⟨3, 1, 0, [8]⟩,
    .truncateSuffix 4 3, .append 5 ⟨3, 2, 0, [9, 9]⟩, .compactPrefix (fun _ => 6) 1, .reopen]

theorem walLogStore_refines_mixed :
    ∃ s, Runs LogStores.step (fun s op => op.Called s ∧ op.Sized) LogStores.initial s ∧
      s.mem.loadAll = [⟨2, 1, 1, []⟩, ⟨3, 2, 0, [9, 9]⟩] ∧ s.wal.loadAll = .ok s.mem.loadAll :=
  Runs.exists_and_of_exec mixedCalls (by decide +kernel) fun _ hrun _ => walLogStore_refines hrun

end

end Raft
