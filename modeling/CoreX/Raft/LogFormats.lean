/-
CoreX/Raft/LogFormats.lean

The two older payload formats of a log entry.  Files written before the magic bytes
were added hold entries as `payloadV1` or `payloadV2`, and `decodeLogEntry` tells
the three formats apart by the first two bytes and by a length that happens to fit.

The first two bytes of an old payload are the lowest two of its index.  They are
the magic bytes for one index in 65536 (`isMagic_iff`), and what is then read as the
newest format is never the entry that was written (`decodeLogEntry_magic_length`):
the newest header is longer.  For every other index both formats read back
(`decode_old_formats`).
-/
import CoreX.Raft.LogStore

namespace Raft

open Bytes

variable (e : LogEntry)

/-- The second format: `[Index:8][Term:8][EntryType:1][DataLen:4][Data]`. -/
def payloadV2 : List UInt8 :=
  putInt 8 e.index ++ (putInt 8 e.term ++ ([e.type] ++ (putLE 4 e.data.length ++ e.data)))

/-- The first format: `[Index:8][Term:8][DataLen:4][Data]`. -/
def payloadV1 : List UInt8 :=
  putInt 8 e.index ++ (putInt 8 e.term ++ (putLE 4 e.data.length ++ e.data))

/-- The first byte of the text of a JSON object. -/
def openBrace : UInt8 := 0x7B

theorem length_payloadV2 : (payloadV2 e).length = 21 + e.data.length := by
  simp only [payloadV2, List.length_append, length_putInt, length_putLE, List.length_cons,
    List.length_nil]
  omega

theorem length_payloadV1 : (payloadV1 e).length = 20 + e.data.length := by
  simp only [payloadV1, List.length_append, length_putInt, length_putLE]
  omega

/-! ### The magic bytes -/

/-- The bytes are taken for the newest format. -/
def IsMagic (data : List UInt8) : Prop :=
  2 ≤ data.length ∧ data[0]? = some walEntryMagic0 ∧ data[1]? = some walEntryMagic1

/-- The index whose lowest two bytes are the magic bytes. -/
def magicIndex : Int := 0xC0FF

theorem putInt_head (v : Int) :
    ∃ rest, putInt 8 v = UInt8.ofNat (v % 256 ^ 8).toNat ::
      UInt8.ofNat ((v % 256 ^ 8).toNat / 256) :: rest :=
  ⟨_, rfl⟩

theorem isMagic_iff (index : Int) (tail : List UInt8) :
    IsMagic (putInt 8 index ++ tail) ↔ index % 65536 = magicIndex := by
  obtain ⟨rest, hrest⟩ := putInt_head index
  have hbyte : ∀ (m : Nat) (b : UInt8), some (UInt8.ofNat m) = some b ↔ m % 256 = b.toNat := by
    intro m b
    rw [Option.some.injEq, ← UInt8.toNat_inj, UInt8.toNat_ofNat']
  have hmod : index % 65536 = ((index % 256 ^ 8).toNat % 65536 : Nat) := by
    omega
  rw [hrest, hmod]
  show _ ∧ some (UInt8.ofNat _) = _ ∧ some (UInt8.ofNat _) = _ ↔ _
  rw [hbyte, hbyte]
  show _ ∧ _ = 255 ∧ _ = 192 ↔ _ = (0xC0FF : Int)
  simp only [List.cons_append, List.length_cons]
  omega

/-! ### What is read -/

theorem length_slice (data : List UInt8) (i j : Nat) :
    (slice data i j).length = min (j - i) (data.length - i) := by
  rw [slice, List.length_take, List.length_drop]

theorem decodeLogEntry_magic_length {data : List UInt8} {e : LogEntry} (hm : IsMagic data)
    (h : decodeLogEntry data = .ok e) : data.length = 23 + e.data.length := by
  unfold IsMagic at hm
  rw [decodeLogEntry, if_neg (by omega), if_pos hm] at h
  split at h
  · cases h
  · dsimp only at h
    split at h
    · cases h
    · next hlen =>
      obtain rfl := Except.ok.inj h
      show _ = 23 + (slice data 23 _).length
      rw [length_slice]
      omega

theorem decodeLogEntry_old {data : List UInt8} (hm : ¬IsMagic data) (hlen : 20 ≤ data.length) :
    decodeLogEntry data =
      if 21 ≤ data.length ∧ data.length = 21 + getLE (slice data 17 21) then
        .ok (entryAtOffsets data 0 (data.getD 16 0) 21 (getLE (slice data 17 21)))
      else if data.length < 20 + getLE (slice data 16 20) then
        .error (.dataTooShort (20 + getLE (slice data 16 20)) data.length)
      else .ok (entryAtOffsets data 0 entryTypeCommand 20 (getLE (slice data 16 20))) := by
  unfold IsMagic at hm
  rw [decodeLogEntry, if_neg (by omega), if_neg hm, if_neg (by omega)]

theorem entryAtOffsets_old {e : LogEntry} (hr : e.InRange) (tail : List UInt8) (type : UInt8)
    (start dataLen : Nat) :
    entryAtOffsets (putInt 8 e.index ++ (putInt 8 e.term ++ tail)) 0 type start dataLen =
      ⟨e.index, e.term, type,
        slice (putInt 8 e.index ++ (putInt 8 e.term ++ tail)) start (start + dataLen)⟩ := by
  have hindex : slice (putInt 8 e.index ++ (putInt 8 e.term ++ tail)) 0 8 = putInt 8 e.index :=
    slice_eq _ [] _ _ rfl rfl (by rw [length_putInt])
  have hterm : slice (putInt 8 e.index ++ (putInt 8 e.term ++ tail)) 8 16 = putInt 8 e.term :=
    slice_eq _ (putInt 8 e.index) _ _ rfl (length_putInt 8 _) (by rw [length_putInt])
  rw [entryAtOffsets, hindex, hterm, getInt_putInt hr.1, getInt_putInt hr.2]

theorem slice_payloadV2 :
    slice (payloadV2 e) 17 21 = putLE 4 e.data.length ∧
      slice (payloadV2 e) 21 (21 + e.data.length) = e.data ∧
      (payloadV2 e).getD 16 0 = e.type := by
  refine ⟨?_, ?_, ?_⟩
  · refine slice_eq _ (putInt 8 e.index ++ (putInt 8 e.term ++ [e.type])) _ e.data ?_ ?_ ?_
    · simp [payloadV2]
    · simp
    · rw [length_putLE]
  · refine slice_eq _ (putInt 8 e.index ++ (putInt 8 e.term ++ ([e.type] ++
      putLE 4 e.data.length))) _ [] ?_ ?_ rfl
    · simp [payloadV2]
    · simp
  · simp [payloadV2, List.getElem?_append]

theorem slice_payloadV1 :
    slice (payloadV1 e) 16 20 = putLE 4 e.data.length ∧
      slice (payloadV1 e) 20 (20 + e.data.length) = e.data := by
  refine ⟨?_, ?_⟩
  · refine slice_eq _ (putInt 8 e.index ++ putInt 8 e.term) _ e.data ?_ ?_ ?_
    · simp [payloadV1]
    · simp
    · rw [length_putLE]
  · refine slice_eq _ (putInt 8 e.index ++ (putInt 8 e.term ++ putLE 4 e.data.length)) _
      [] ?_ ?_ rfl
    · simp [payloadV1]
    · simp

theorem decode_payloadV2_iff {e : LogEntry} (hr : e.InRange) (hm : ¬IsMagic (payloadV2 e)) :
    decodeLogEntry (payloadV2 e) = .ok e ↔ e.data.length < 2 ^ 32 := by
  obtain ⟨hsize, hdata, htype⟩ := slice_payloadV2 e
  have hlen := length_payloadV2 e
  rw [decodeLogEntry_old hm (by omega), hsize, getLE_putLE, hlen]
  by_cases hfit : e.data.length < 2 ^ 32
  · have hmod : e.data.length % 256 ^ 4 = e.data.length := Nat.mod_eq_of_lt (by omega)
    rw [hmod, if_pos ⟨by omega, rfl⟩, htype]
    unfold payloadV2 at hdata ⊢
    rw [entryAtOffsets_old hr, hdata]
    simp only [true_iff]
    exact hfit
  · -- the length has lost its high part, and the first format reads too little
    rw [if_neg (by omega)]
    have hshort : getLE (slice (payloadV2 e) 16 20) < 2 ^ 32 := by
      refine (getLE_lt _).trans_le ?_
      rw [length_slice]
      exact Nat.pow_le_pow_right (by decide) (min_le_left _ _)
    refine iff_of_false ?_ hfit
    split
    · exact fun h => nomatch h
    · intro h
      have hlen' := congrArg (fun x : LogEntry => x.data.length) (Except.ok.inj h)
      simp only [entryAtOffsets, length_slice] at hlen'
      omega

theorem slice_payloadV1_brace {e : LogEntry} (hb : e.data.head? = some openBrace) :
    2 ^ 24 ≤ getLE (slice (payloadV1 e) 17 21) := by
  obtain ⟨rest, hrest⟩ : ∃ rest, e.data = openBrace :: rest := by
    cases hd : e.data with
    | nil => rw [hd] at hb; cases hb
    | cons b rest =>
      rw [hd] at hb
      exact ⟨rest, by rw [Option.some.inj hb]⟩
  have hsplit : ∃ b, putLE 4 e.data.length = [b] ++ (putLE 3 (e.data.length / 256)) := ⟨_, rfl⟩
  obtain ⟨b, hb4⟩ := hsplit
  have hslice : slice (payloadV1 e) 17 21 = putLE 3 (e.data.length / 256) ++ [openBrace] := by
    refine slice_eq _ (putInt 8 e.index ++ (putInt 8 e.term ++ [b])) _ rest ?_ ?_ ?_
    · rw [payloadV1, hb4, hrest]
      simp
    · simp
    · simp
  rw [hslice, getLE_concat, length_putLE]
  show 2 ^ 24 ≤ _ + 256 ^ 3 * 0x7B
  omega

theorem decode_payloadV1 {e : LogEntry} (hr : e.InRange) (htype : e.type = entryTypeCommand)
    (hb : e.data.head? = some openBrace) (hshort : e.data.length < 2 ^ 24)
    (hm : ¬IsMagic (payloadV1 e)) : decodeLogEntry (payloadV1 e) = .ok e := by
  obtain ⟨hsize, hdata⟩ := slice_payloadV1 e
  have hlen := length_payloadV1 e
  have hbig := slice_payloadV1_brace hb
  rw [decodeLogEntry_old hm (by omega), if_neg (by omega), hsize, getLE_putLE_of_lt (by omega),
    if_neg (by omega)]
  unfold payloadV1 at hdata ⊢
  rw [entryAtOffsets_old hr, hdata, ← htype]

/-- **Old files read back, but for one index in 65536.**  A second-format payload
reads back exactly if the lowest two bytes of the index are not the magic bytes and
the length fits its four bytes; a first-format payload with a short object text reads
back exactly if they are not the magic bytes. -/
theorem decode_old_formats {e : LogEntry} (hr : e.InRange) :
    (decodeLogEntry (payloadV2 e) = .ok e ↔
      e.index % 65536 ≠ magicIndex ∧ e.data.length < 2 ^ 32) ∧
    (e.type = entryTypeCommand → e.data.head? = some openBrace → e.data.length < 2 ^ 24 →
      (decodeLogEntry (payloadV1 e) = .ok e ↔ e.index % 65536 ≠ magicIndex)) := by
  have hmagic₂ : IsMagic (payloadV2 e) ↔ e.index % 65536 = magicIndex := isMagic_iff _ _
  have hmagic₁ : IsMagic (payloadV1 e) ↔ e.index % 65536 = magicIndex := isMagic_iff _ _
  refine ⟨?_, fun htype hb hshort => ?_⟩
  · by_cases hm : IsMagic (payloadV2 e)
    · refine iff_of_false (fun h => ?_) (fun h => h.1 (hmagic₂.mp hm))
      have := decodeLogEntry_magic_length hm h
      rw [length_payloadV2] at this
      omega
    · rw [decode_payloadV2_iff hr hm]
      exact ⟨fun h => ⟨fun heq => hm (hmagic₂.mpr heq), h⟩, fun h => h.2⟩
  · by_cases hm : IsMagic (payloadV1 e)
    · refine iff_of_false (fun h => ?_) (fun h => h (hmagic₁.mp hm))
      have := decodeLogEntry_magic_length hm h
      rw [length_payloadV1] at this
      omega
    · exact iff_of_true (decode_payloadV1 hr htype hb hshort hm)
        (fun heq => hm (hmagic₁.mpr heq))

/-- An entry with the text of an object, before the magic index and after it. -/
theorem decode_old_formats_object :
    decodeLogEntry (payloadV2 ⟨49406, 3, entryTypeCommand, [0x7B, 0x7D]⟩) =
        .ok ⟨49406, 3, entryTypeCommand, [0x7B, 0x7D]⟩ ∧
      decodeLogEntry (payloadV1 ⟨49408, 3, entryTypeCommand, [0x7B, 0x7D]⟩) =
        .ok ⟨49408, 3, entryTypeCommand, [0x7B, 0x7D]⟩ :=
  ⟨(decode_old_formats (e := ⟨49406, 3, entryTypeCommand, [0x7B, 0x7D]⟩)
      ⟨by decide, by decide⟩).1.mpr ⟨by decide, by decide⟩,
    ((decode_old_formats (e := ⟨49408, 3, entryTypeCommand, [0x7B, 0x7D]⟩)
      ⟨by decide, by decide⟩).2 rfl rfl (by decide)).mpr (by decide)⟩

/-- **Entry 49407 of an old file is taken for the newest format**, and neither of the
older payloads is read. -/
theorem magic_index_unreadable :
    decodeLogEntry (payloadV2 ⟨49407, 1, entryTypeCommand, [0x7B, 0x7D]⟩) =
        .error (.v3LengthMismatch (23 + 2105212928) 23) ∧
      decodeLogEntry (payloadV1 ⟨49407, 1, entryTypeCommand, [0x7B, 0x7D]⟩) =
        .error (.v3PayloadTooShort 22) := by
  decide +kernel

end Raft
