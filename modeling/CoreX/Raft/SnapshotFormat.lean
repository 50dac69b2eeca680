/-
CoreX/Raft/SnapshotFormat.lean

The bytes of a snapshot, on disk and on the wire: a header with index, term and the
number of records, the records of the key-value map in whatever order `range` yields
them, and a checksum.  The cluster configuration travels as one more record of the map,
under a key that begins with NUL.
-/
import CoreX.Lib.Replay
import CoreX.Raft.LogStore
import CoreX.Raft.Snapshot

namespace Raft

open Bytes Replay
open Wal (Crc32)

/-! ### The format -/

/-- `encoding/json` on a `ClusterConfig`. -/
class ConfigJson where
  /-- `json.Marshal`. -/
  marshal : ClusterConfig → Option Bytes
  /-- What `json.Unmarshal` makes of a zero `ClusterConfig`; its error is only logged. -/
  unmarshal : Bytes → ClusterConfig

def snapshotMagic : Nat := 0x52414654
def snapshotVersion : Nat := 0x0001
def snapshotHeaderSize : Nat := 4 + 2 + 8 + 8 + 8
def snapshotFooterSize : Nat := 4

def snapshotConfigKey : Bytes := goString "\x00__raft_cluster_config__"

/-- `SnapshotData`, with the strings of the map as bytes. -/
structure SnapshotContents where
  kv : Bytes → Option Bytes
  config : ClusterConfig

inductive SnapshotEncodeError
  | marshalConfig
  | keyTooLong (len : Nat)
  | valueTooLong (len : Nat)
  deriving DecidableEq, Repr

/-- One record of the body. -/
def encodeRecord (p : Bytes × Bytes) : Except SnapshotEncodeError Bytes :=
  if 0xFFFF < p.1.length then .error (.keyTooLong p.1.length)
  else if 0xFFFFFFFF < p.2.length then .error (.valueTooLong p.2.length)
  else .ok (putBE 2 p.1.length ++ (p.1 ++ (putBE 4 p.2.length ++ p.2)))

/-- The loop over the map. -/
def encodeBody : List (Bytes × Bytes) → Except SnapshotEncodeError Bytes
  | [] => .ok []
  | p :: rest =>
      match encodeRecord p with
      | .error e => .error e
      | .ok record =>
          match encodeBody rest with
          | .error e => .error e
          | .ok body => .ok (record ++ body)

def snapshotHeader (index term : Int) (kvCount : Nat) : Bytes :=
  putBE 4 snapshotMagic ++ (putBE 2 snapshotVersion ++
    (putIntBE 8 index ++ (putIntBE 8 term ++ putIntBE 8 kvCount)))

/-- The map with the configuration under the reserved key. -/
def kvFull (data : SnapshotContents) (configJSON : Bytes) : Bytes → Option Bytes :=
  Function.update data.kv snapshotConfigKey (some configJSON)

/-- `encodeSnapshot`: the bytes and the checksum.  `range` is the order in which the
runtime goes through a map. -/
def encodeSnapshot [Crc32] [ConfigJson] (range : (Bytes → Option Bytes) → List (Bytes × Bytes))
    (index term : Int) (data : SnapshotContents) : Except SnapshotEncodeError (Bytes × UInt32) :=
  match ConfigJson.marshal data.config with
  | none => .error .marshalConfig
  | some configJSON =>
      let entries := range (kvFull data configJSON)
      match encodeBody entries with
      | .error e => .error e
      | .ok body =>
          let buf := snapshotHeader index term entries.length ++ body
          let csum := Crc32.checksumIEEE buf
          .ok (buf ++ putBE 4 csum.toNat, csum)

/-- Why a snapshot is corrupted, with the numbers the messages name. -/
inductive SnapshotDecodeError
  | fileTooShort (len : Nat)
  | checksum
  | badMagic (magic : Nat)
  | truncatedKeyLength (record : Nat)
  | truncatedKey (record : Nat)
  | truncatedValueLength (record : Nat)
  | truncatedValue (record : Nat)
  deriving DecidableEq, Repr

/-- The body of the loop, at record `i`: key, value and what is left. -/
def readRecord (i : Nat) (r : Bytes) : Except SnapshotDecodeError ((Bytes × Bytes) × Bytes) :=
  if r.length < 2 then .error (.truncatedKeyLength i)
  else
    let kLen := getBE (r.take 2)
    let r := r.drop 2
    if r.length < kLen then .error (.truncatedKey i)
    else
      let key := r.take kLen
      let r := r.drop kLen
      if r.length < 4 then .error (.truncatedValueLength i)
      else
        let vLen := getBE (r.take 4)
        let r := r.drop 4
        if r.length < vLen then .error (.truncatedValue i)
        else .ok ((key, r.take vLen), r.drop vLen)

/-- The loop over `k` records from the `i`-th on.  Bytes behind the last are not looked
at. -/
def readRecords : Nat → Nat → Bytes → (Bytes → Option Bytes) →
    Except SnapshotDecodeError (Bytes → Option Bytes)
  | 0, _, _, kv => .ok kv
  | k + 1, i, r, kv =>
      match readRecord i r with
      | .error e => .error e
      | .ok (p, rest) => readRecords k (i + 1) rest (act write kv p)

/-- What a snapshot is decoded to. -/
structure DecodedSnapshot where
  snapMeta : SnapshotMeta
  crc32 : UInt32
  data : SnapshotContents

/-- The configuration is taken out of the map. -/
def extractConfig [ConfigJson] (kv : Bytes → Option Bytes) : SnapshotContents :=
  match kv snapshotConfigKey with
  | none => ⟨kv, ⟨.stable, [], []⟩⟩
  | some configJSON =>
      ⟨Function.update kv snapshotConfigKey none, ConfigJson.unmarshal configJSON⟩

/-- `decodeSnapshot`. -/
def decodeSnapshot [Crc32] [ConfigJson] (raw : Bytes) :
    Except SnapshotDecodeError DecodedSnapshot :=
  if raw.length < snapshotHeaderSize + snapshotFooterSize then .error (.fileTooShort raw.length)
  else
    let csumOffset := raw.length - snapshotFooterSize
    let storedCsum := UInt32.ofNat (getBE (raw.drop csumOffset))
    if storedCsum ≠ Crc32.checksumIEEE (raw.take csumOffset) then .error .checksum
    else if getBE (slice raw 0 4) ≠ snapshotMagic then .error (.badMagic (getBE (slice raw 0 4)))
    else
      let kvCount := getIntBE (slice raw 22 30)
      match readRecords kvCount.toNat 0 (slice raw snapshotHeaderSize csumOffset)
        (fun _ => none) with
      | .error e => .error e
      | .ok kv =>
          .ok ⟨⟨getIntBE (slice raw 6 14), getIntBE (slice raw 14 22)⟩, storedCsum,
            extractConfig kv⟩

/-! ### Records -/

theorem readRecord_encodeRecord {p : Bytes × Bytes} {record : Bytes}
    (h : encodeRecord p = .ok record) (i : Nat) (rest : Bytes) :
    readRecord i (record ++ rest) = .ok (p, rest) := by
  unfold encodeRecord at h
  split at h
  · cases h
  · split at h
    · cases h
    · next hkey hval =>
      obtain rfl := Except.ok.inj h
      have hk : getBE (putBE 2 p.1.length) = p.1.length := getBE_putBE_of_lt (by omega)
      have hv : getBE (putBE 4 p.2.length) = p.2.length := getBE_putBE_of_lt (by omega)
      have htake := fun (w : Nat) (n : Nat) (l : Bytes) =>
        @take_append_of_length _ _ l _ (length_putBE w n)
      have hdrop := fun (w : Nat) (n : Nat) (l : Bytes) =>
        @drop_append_of_length _ _ l _ (length_putBE w n)
      simp only [readRecord, List.append_assoc, htake, hdrop, hk, hv, List.take_left,
        List.drop_left]
      -- none of the four reads comes up short
      have hroom : ∀ l l' : Bytes, ¬ (l ++ l').length < l.length := fun l l' => by
        rw [List.length_append]
        omega
      have hroom' : ∀ (w n : Nat) (l : Bytes), ¬ (putBE w n ++ l).length < w := fun w n l => by
        rw [List.length_append, length_putBE]
        omega
      rw [if_neg (hroom' _ _ _), if_neg (hroom _ _), if_neg (hroom' _ _ _), if_neg (hroom _ _)]

theorem readRecords_encodeBody {entries : List (Bytes × Bytes)} {body : Bytes}
    (h : encodeBody entries = .ok body) (i : Nat) (kv : Bytes → Option Bytes) :
    readRecords entries.length i body kv = .ok (run write kv entries) := by
  induction entries generalizing body i kv with
  | nil => rfl
  | cons p entries ih =>
    unfold encodeBody at h
    split at h
    · cases h
    · next record hrecord =>
      split at h
      · cases h
      · next rest hrest =>
        obtain rfl := Except.ok.inj h
        simp only [List.length_cons, readRecords, readRecord_encodeRecord hrecord]
        exact ih hrest (i + 1) _

/-- The size of the body, as it is calculated in advance. -/
def bodySize (entries : List (Bytes × Bytes)) : Nat :=
  (entries.map fun p => 2 + p.1.length + 4 + p.2.length).sum

theorem encodeBody_of_fits {entries : List (Bytes × Bytes)}
    (h : ∀ p ∈ entries, p.1.length ≤ 0xFFFF ∧ p.2.length ≤ 0xFFFFFFFF) :
    ∃ body, encodeBody entries = .ok body ∧ body.length = bodySize entries := by
  induction entries with
  | nil => exact ⟨[], rfl, rfl⟩
  | cons p entries ih =>
    obtain ⟨hkey, hval⟩ := h p List.mem_cons_self
    obtain ⟨body, hbody, hlen⟩ := ih fun q hq => h q (List.mem_cons_of_mem p hq)
    have hrecord : encodeRecord p =
        .ok (putBE 2 p.1.length ++ (p.1 ++ (putBE 4 p.2.length ++ p.2))) := by
      rw [encodeRecord, if_neg (by omega), if_neg (by omega)]
    refine ⟨_, by simp only [encodeBody, hrecord, hbody]; rfl, ?_⟩
    simp only [List.length_append, length_putBE, hlen, bodySize, List.map_cons, List.sum_cons]
    omega

/-! ### The whole snapshot -/

theorem length_snapshotHeader (index term : Int) (kvCount : Nat) :
    (snapshotHeader index term kvCount).length = snapshotHeaderSize := by
  simp [snapshotHeader, snapshotHeaderSize]

theorem header_fields (index term : Int) (kvCount : Nat) (rest : Bytes) :
    slice (snapshotHeader index term kvCount ++ rest) 0 4 = putBE 4 snapshotMagic ∧
      slice (snapshotHeader index term kvCount ++ rest) 6 14 = putIntBE 8 index ∧
      slice (snapshotHeader index term kvCount ++ rest) 14 22 = putIntBE 8 term ∧
      slice (snapshotHeader index term kvCount ++ rest) 22 30 = putIntBE 8 kvCount := by
  have hfield : ∀ (a b c : Bytes) (i j : Nat), a.length = i → b.length = j - i →
      slice (a ++ (b ++ c)) i j = b := by
    intro a b c i j ha hb
    rw [slice, drop_append_of_length ha, take_append_of_length hb]
  refine ⟨?_, ?_, ?_, ?_⟩
  · simpa [snapshotHeader] using
      hfield [] (putBE 4 snapshotMagic) (putBE 2 snapshotVersion ++ (putIntBE 8 index ++
        (putIntBE 8 term ++ (putIntBE 8 kvCount ++ rest)))) 0 4 rfl (by simp)
  · simpa [snapshotHeader] using
      hfield (putBE 4 snapshotMagic ++ putBE 2 snapshotVersion) (putIntBE 8 index)
        (putIntBE 8 term ++ (putIntBE 8 kvCount ++ rest)) 6 14 (by simp) (by simp)
  · simpa [snapshotHeader] using
      hfield (putBE 4 snapshotMagic ++ (putBE 2 snapshotVersion ++ putIntBE 8 index))
        (putIntBE 8 term) (putIntBE 8 kvCount ++ rest) 14 22 (by simp) (by simp)
  · simpa [snapshotHeader] using
      hfield (putBE 4 snapshotMagic ++ (putBE 2 snapshotVersion ++ (putIntBE 8 index ++
        putIntBE 8 term))) (putIntBE 8 kvCount) rest 22 30 (by simp) (by simp)

/-- The entries of a map as `range` goes through them; the length of a map is an `int`. -/
structure Ranges (entries : List (Bytes × Bytes)) (m : Bytes → Option Bytes) : Prop
    extends Lists entries m where
  length_lt : entries.length < 2 ^ 63

section

variable [Crc32] [ConfigJson] {range : (Bytes → Option Bytes) → List (Bytes × Bytes)}
variable {index term : Int} {data : SnapshotContents}

theorem encodeSnapshot_of_fits {configJSON : Bytes}
    (hjson : ConfigJson.marshal data.config = some configJSON)
    (h : ∀ p ∈ range (kvFull data configJSON), p.1.length ≤ 0xFFFF ∧ p.2.length ≤ 0xFFFFFFFF) :
    ∃ rest csum, encodeSnapshot range index term data =
        .ok (snapshotHeader index term (range (kvFull data configJSON)).length ++ rest, csum) ∧
      rest.length = bodySize (range (kvFull data configJSON)) + snapshotFooterSize := by
  obtain ⟨body, hbody, hlen⟩ := encodeBody_of_fits h
  let csum := Crc32.checksumIEEE
    (snapshotHeader index term (range (kvFull data configJSON)).length ++ body)
  refine ⟨body ++ putBE 4 csum.toNat, csum, ?_, ?_⟩
  · simp only [encodeSnapshot, hjson, hbody, List.append_assoc, csum]
  · rw [List.length_append, hlen, length_putBE]
    rfl

omit [Crc32] in
theorem extractConfig_kvFull {configJSON : Bytes}
    (hjson : ConfigJson.unmarshal configJSON = data.config) :
    extractConfig (kvFull data configJSON) =
      ⟨Function.update data.kv snapshotConfigKey none, data.config⟩ := by
  have hat : kvFull data configJSON snapshotConfigKey = some configJSON := Function.update_self ..
  rw [extractConfig, hat]
  dsimp only
  rw [kvFull, Function.update_idem, hjson]

theorem decodeSnapshot_encodeSnapshot (hi : Fits 8 index) (ht : Fits 8 term)
    (hjson : ∀ configJSON, ConfigJson.marshal data.config = some configJSON →
      ConfigJson.unmarshal configJSON = data.config ∧
        Ranges (range (kvFull data configJSON)) (kvFull data configJSON))
    {raw : Bytes} {csum : UInt32} (h : encodeSnapshot range index term data = .ok (raw, csum)) :
    decodeSnapshot raw = .ok ⟨⟨index, term⟩, csum,
      ⟨Function.update data.kv snapshotConfigKey none, data.config⟩⟩ := by
  unfold encodeSnapshot at h
  split at h
  · cases h
  next configJSON hmarshal =>
  dsimp only at h
  split at h
  · cases h
  next body hbody =>
  obtain ⟨hround, hrange⟩ := hjson configJSON hmarshal
  obtain ⟨hraw, hcsum⟩ := Prod.mk.inj (Except.ok.inj h)
  generalize hbuf : snapshotHeader index term (range (kvFull data configJSON)).length ++ body = buf
    at hraw hcsum
  rw [hcsum] at hraw
  have hlen : buf.length = snapshotHeaderSize + body.length := by
    rw [← hbuf, List.length_append, length_snapshotHeader]
  have hoff : raw.length - snapshotFooterSize = buf.length := by
    rw [← hraw, List.length_append, length_putBE]
    exact Nat.add_sub_cancel _ _
  have hstored : UInt32.ofNat (getBE (raw.drop buf.length)) = csum := by
    rw [← hraw, List.drop_left, getBE_putBE_of_lt csum.toNat_lt]
    exact UInt32.ofNat_toNat
  have hbody' : slice raw snapshotHeaderSize buf.length = body := by
    rw [slice, ← hraw, ← hbuf, List.append_assoc,
      drop_append_of_length (length_snapshotHeader ..), List.length_append, length_snapshotHeader,
      Nat.add_sub_cancel_left, List.take_left]
  have hhead := header_fields index term (range (kvFull data configJSON)).length
    (body ++ putBE 4 csum.toNat)
  rw [← List.append_assoc, hbuf, hraw] at hhead
  obtain ⟨hmagic, hindex, hterm, hcount⟩ := hhead
  have hcount' : (getIntBE (slice raw 22 30)).toNat = (range (kvFull data configJSON)).length := by
    have := hrange.length_lt
    rw [hcount, getIntBE_putIntBE ⟨by omega, by norm_num; omega⟩, Int.toNat_natCast]
  unfold decodeSnapshot
  rw [if_neg (by rw [← hraw, List.length_append, length_putBE, hlen]; simp [snapshotFooterSize])]
  dsimp only
  rw [hoff, hstored, if_neg (by rw [← hraw, List.take_left]; simpa using hcsum.symm),
    if_neg (by rw [hmagic, not_not, getBE_putBE_of_lt (by decide)]), hcount', hbody',
    readRecords_encodeBody hbody, run_lists hrange.toLists]
  dsimp only
  rw [extractConfig_kvFull hround, hindex, hterm, getIntBE_putIntBE hi, getIntBE_putIntBE ht]

/-- **The round trip of a snapshot.**  Whatever the map, the configuration and the order of
the records, decoding succeeds and gives index, term, configuration and map, except that
the map has lost its entry under the reserved key; so it is the same map exactly if it had
none. -/
theorem snapshot_round_trip (hi : Fits 8 index) (ht : Fits 8 term)
    (hjson : ∀ configJSON, ConfigJson.marshal data.config = some configJSON →
      ConfigJson.unmarshal configJSON = data.config ∧
        Ranges (range (kvFull data configJSON)) (kvFull data configJSON))
    {raw : Bytes} {csum : UInt32} (h : encodeSnapshot range index term data = .ok (raw, csum)) :
    decodeSnapshot raw = .ok ⟨⟨index, term⟩, csum,
      ⟨Function.update data.kv snapshotConfigKey none, data.config⟩⟩ ∧
    (decodeSnapshot raw = .ok ⟨⟨index, term⟩, csum, data⟩ ↔ data.kv snapshotConfigKey = none) := by
  have hdec := decodeSnapshot_encodeSnapshot hi ht hjson h
  refine ⟨hdec, ?_⟩
  rw [hdec]
  constructor
  · intro heq
    have hkv : Function.update data.kv snapshotConfigKey none = data.kv :=
      congrArg (fun d => d.data.kv) (Except.ok.inj heq)
    rw [← hkv]
    exact Function.update_self ..
  · intro hnone
    have hkv : Function.update data.kv snapshotConfigKey none = data.kv := by
      rw [← hnone, Function.update_eq_self]
    rw [hkv]

end

/-! ### What clients write -/

/-- The checks of `ProposeHandler.ServeHTTP`: the command that is proposed, or the text of
the refusal. -/
def proposeCommand (op key value : String) : Except String RaftKVCommand :=
  if key = "" then .error "\"key\" is required"
  else
    let op := if op = "" then "set" else op
    if op ≠ "set" ∧ op ≠ "del" then .error "\"op\" must be \"set\" or \"del\""
    else .ok ⟨op, key, value, 0⟩

section

/-- The configuration with the one voter `b:1`, and its JSON. -/
def soleVoter : ClusterConfig := ⟨.stable, ["b:1"], []⟩

def soleVoterJson : Bytes :=
  goString "\x7b\"Phase\":0,\"Voters\":[\"b:1\"],\"NewVoters\":null\x7d"

local instance formatJson : ConfigJson where
  marshal c := if c = soleVoter then some soleVoterJson else none
  unmarshal json := if json = soleVoterJson then soleVoter else ⟨.stable, [], []⟩

local instance formatCrc32 : Crc32 := Crc32.ieee

theorem exists_of_isOk {ε α : Type} {o : Except ε α} (h : o.isOk = true) : ∃ a, o = .ok a := by
  cases o with
  | error => cases h
  | ok a => exact ⟨a, rfl⟩

/-- Two entries of clients. -/
def clientEntries : List (Bytes × Bytes) :=
  [(goString "x", goString "1"), (goString "y", goString "2")]

/-- The records as they come: the configuration is between the two entries. -/
def mixedOrder : List (Bytes × Bytes) :=
  [(goString "y", goString "2"), (snapshotConfigKey, soleVoterJson), (goString "x", goString "1")]

theorem snapshot_round_trip_mixed :
    ∃ raw csum, encodeSnapshot (fun _ => mixedOrder) 7 3
        ⟨run write (fun _ => none) clientEntries, soleVoter⟩ = .ok (raw, csum) ∧
      decodeSnapshot raw = .ok ⟨⟨7, 3⟩, csum,
        ⟨run write (fun _ => none) clientEntries, soleVoter⟩⟩ := by
  obtain ⟨⟨raw, csum⟩, h⟩ := exists_of_isOk (o := encodeSnapshot (fun _ => mixedOrder) 7 3
    ⟨run write (fun _ => none) clientEntries, soleVoter⟩) (by decide +kernel)
  refine ⟨raw, csum, h,
    (snapshot_round_trip (by decide) (by decide) ?_ h).2.mpr (by decide +kernel)⟩
  intro configJSON hjson
  obtain rfl : soleVoterJson = configJSON := Option.some.inj hjson
  have hfull : Lists (clientEntries ++ [(snapshotConfigKey, soleVoterJson)])
      (run write (fun _ => none) (clientEntries ++ [(snapshotConfigKey, soleVoterJson)])) :=
    lists_run (by decide +kernel)
  exact ⟨if_pos rfl, hfull.perm (by decide +kernel), by decide⟩

/-- The command that writes the reserved key. -/
def reservedCommand : RaftKVCommand := ⟨"set", "\x00__raft_cluster_config__", "v", 0⟩

/-- Its JSON text. -/
def reservedText : String :=
  "\x7b\"op\":\"set\",\"key\":\"\\u0000__raft_cluster_config__\",\"value\":\"v\"\x7d"

local instance formatCodec : Codec := .ofTexts [(reservedText, reservedCommand)] []

/-- The map of that client. -/
def reservedContents : SnapshotContents :=
  ⟨run write (fun _ => none) [(snapshotConfigKey, goString "v")], soleVoter⟩

theorem ranges_reserved : Ranges [(snapshotConfigKey, soleVoterJson)]
    (kvFull reservedContents soleVoterJson) := by
  have hfull : kvFull reservedContents soleVoterJson =
      run write (fun _ => none) [(snapshotConfigKey, soleVoterJson)] := Function.update_idem ..
  rw [hfull]
  exact ⟨lists_run (List.nodup_singleton _), by decide⟩

/-- **A client's entry is lost.**  The proposal is admitted, the state machine has the
entry, and the snapshot of the map has not. -/
theorem reserved_key_lost :
    proposeCommand "set" "\x00__raft_cluster_config__" "v" = .ok reservedCommand ∧
      (newKVStateMachine.apply ⟨1, 1, entryTypeCommand, goString reservedText⟩ false).data
        "\x00__raft_cluster_config__" = some "v" ∧
      reservedContents.kv (goString "\x00__raft_cluster_config__") = some (goString "v") ∧
      ∃ raw csum d, encodeSnapshot (fun _ => [(snapshotConfigKey, soleVoterJson)]) 7 3
          reservedContents = .ok (raw, csum) ∧ decodeSnapshot raw = .ok d ∧
        d.data.kv (goString "\x00__raft_cluster_config__") = none := by
  refine ⟨by decide +kernel, by decide +kernel, by decide +kernel, ?_⟩
  obtain ⟨⟨raw, csum⟩, h⟩ := exists_of_isOk
    (o := encodeSnapshot (fun _ => [(snapshotConfigKey, soleVoterJson)]) 7 3 reservedContents)
    (by decide +kernel)
  refine ⟨raw, csum, _, h, decodeSnapshot_encodeSnapshot (by decide) (by decide) ?_ h,
    Function.update_self snapshotConfigKey none reservedContents.kv⟩
  intro configJSON hjson
  obtain rfl : soleVoterJson = configJSON := Option.some.inj hjson
  exact ⟨if_pos rfl, ranges_reserved⟩

end

end Raft
