/-
CoreX/Storage/CutFile.lean

`Reader` on a file that was cut at any byte.  Repeated `Scan` should return the records
that lie before the cut, and `Err` should tell a cut between two records from a cut
inside of one.
-/
import CoreX.Storage.Wal

namespace Wal

open Bytes

/-! ### The reader -/

structure Reader where
  /-- What is left to read. -/
  input : List UInt8
  lastError : Option ReadError
  deriving DecidableEq, Repr

/-- `NewReader`. -/
def newReader (file : List UInt8) : Reader := ⟨file, none⟩

namespace Reader

variable [Crc32] (reader : Reader)

/-- `Scan`, with `Record()` if it returns true. -/
def scan : Option Record × Reader :=
  if reader.lastError.isSome then (none, reader)
  else
    match readRecord reader.input with
    | .ok (record, input) => (some record, { reader with input := input })
    -- `io.EOF` comes when the input is used up, and it is not kept
    | .error .eof => (none, { reader with input := [] })
    | .error e => (none, { reader with lastError := some e })

/-- After `k` calls of `Scan`. -/
def after : Nat → Reader
  | 0 => reader
  | k + 1 => (after k).scan.2

/-- What the call number `k` of `Scan` returns, counted from 0. -/
def result (k : Nat) : Option Record := (reader.after k).scan.1

/-- `Err`. -/
def err : Option ReadError := reader.lastError

end Reader

/-! ### Files and cuts -/

section

variable [Crc32]

/-- The file of a writer that has written the records, each at its time. -/
def written (rs : List Record) : List UInt8 :=
  (rs.foldl (fun w r => w.write r.timestamp r.data) (newWriter [])).file

/-- The records that lie before byte `c`. -/
def wholeBefore : Nat → List Record → List Record
  | _, [] => []
  | c, r :: rs =>
      if (encode r).length ≤ c then r :: wholeBefore (c - (encode r).length) rs else []

/-- The record that a cut at byte `c` goes through, and how many of its bytes are left. -/
def tornAt : Nat → List Record → Option (Record × Nat)
  | _, [] => none
  | c, r :: rs =>
      if (encode r).length ≤ c then tornAt (c - (encode r).length) rs
      else if c = 0 then none
      else some (r, c)

/-- The size that the header of a record has. -/
def Record.sizeField (r : Record) : Nat := r.data.length % 256 ^ 4

theorem written_eq (rs : List Record) : written rs = rs.flatMap encode := by
  have hfold : ∀ (w : Writer),
      (rs.foldl (fun w r => w.write r.timestamp r.data) w).file = w.file ++ rs.flatMap encode := by
    induction rs with
    | nil =>
      intro w
      exact (List.append_nil _).symm
    | cons r rs ih =>
      intro w
      rw [List.foldl_cons, ih, List.flatMap_cons, ← List.append_assoc]
      rfl
  exact hfold (newWriter [])

theorem tornAt_bounds {rs : List Record} {c k : Nat} {r : Record} (h : tornAt c rs = some (r, k)) :
    0 < k ∧ k < (encode r).length := by
  induction rs generalizing c with
  | nil => cases h
  | cons r' rs ih =>
    rw [tornAt] at h
    split at h
    · exact ih h
    · split at h
      · cases h
      · obtain ⟨rfl, rfl⟩ := Prod.mk.inj (Option.some.inj h)
        omega

theorem take_cut (rs : List Record) (c : Nat) :
    (rs.flatMap encode).take c = (wholeBefore c rs).flatMap encode ++
      match tornAt c rs with
      | none => []
      | some (r, k) => (encode r).take k := by
  induction rs generalizing c with
  | nil => exact List.take_nil
  | cons r rs ih =>
    rw [List.flatMap_cons, wholeBefore, tornAt]
    by_cases hle : (encode r).length ≤ c
    · rw [if_pos hle, if_pos hle, List.take_append, List.take_of_length_le hle, ih,
        List.flatMap_cons, List.append_assoc]
    · rw [if_neg hle, if_neg hle, List.take_append_of_le_length (by omega)]
      by_cases hzero : c = 0
      · rw [if_pos hzero, hzero]
        rfl
      · rw [if_neg hzero]
        rfl

end

/-! ### One record -/

section

variable {n : Nat} {l : List UInt8}

theorem readFull_ok (h : n ≤ l.length) : readFull n l = .ok (l.take n, l.drop n) := if_pos h

theorem readFull_unexpected (h : l.length < n) (hne : l ≠ []) :
    readFull n l = .error .unexpectedEOF := by
  rw [readFull, if_neg (by omega), if_neg hne]

theorem readFull_nil (h : 0 < n) : readFull n [] = .error .eof := by
  rw [readFull, if_neg (by rw [List.length_nil]; omega), if_pos rfl]

end

section

variable [Crc32] {r : Record} {rest : List UInt8} {k : Nat}

theorem readRecord_header_truncated (r : Record) (input : List UInt8) :
    readRecord (header r.timestamp r.data ++ input) = .error .errTruncated ↔
      input ≠ [] ∧ input.length ≠ r.sizeField ∧
        input.length < r.sizeField + recordChecksumSize := by
  rw [readRecord_header, Record.sizeField]
  generalize r.data.length % 256 ^ 4 = n
  rcases Nat.lt_or_ge input.length n with hshort | hlong
  · -- the payload is not there in full
    rcases eq_or_ne input [] with rfl | hne
    · rw [readFull_nil (Nat.zero_lt_of_lt hshort)]
      simp [ReadError.ofIo]
    · rw [readFull_unexpected hshort hne]
      simp only [ReadError.ofIo, true_iff]
      exact ⟨hne, by omega, by omega⟩
  · rw [readFull_ok hlong]
    dsimp only
    have hlen : (input.drop n).length = input.length - n := List.length_drop
    rcases Nat.lt_or_ge (input.drop n).length recordChecksumSize with hsum | hsum
    · rcases eq_or_ne (input.drop n) [] with hnil | hne
      · -- the payload ends with the file
        rw [hnil, readFull_nil (by decide)]
        rw [hnil, List.length_nil] at hlen
        simp only [ReadError.ofIo, Except.error.injEq, reduceCtorEq, false_iff]
        omega
      · rw [readFull_unexpected hsum hne]
        simp only [ReadError.ofIo, true_iff]
        have hpos : 0 < (input.drop n).length := List.length_pos_iff.mpr hne
        refine ⟨?_, by omega, by omega⟩
        rintro rfl
        simp at hpos
    · -- there is a checksum, right or wrong
      rw [readFull_ok hsum]
      dsimp only
      constructor
      · intro h
        split at h <;> cases h
      · rintro ⟨-, -, hlt⟩
        omega

theorem readRecord_cut (hpos : 0 < k) (hlt : k < (encode r).length) :
    readRecord ((encode r).take k) = .error .errTruncated ↔
      k ≠ recordHeaderSize ∧ k ≠ recordHeaderSize + r.sizeField ∧
        k < recordHeaderSize + r.sizeField + recordChecksumSize := by
  rcases Nat.lt_or_ge k recordHeaderSize with hhead | hhead
  · -- inside the header
    have hlen : ((encode r).take k).length = k := by
      rw [List.length_take]
      omega
    have hne : (encode r).take k ≠ [] := List.ne_nil_of_length_pos (by rw [hlen]; exact hpos)
    rw [readRecord, readFull_unexpected (by rw [hlen]; exact hhead) hne]
    simp only [ReadError.ofIo, true_iff]
    omega
  · have hlen : (encode r).length = recordHeaderSize + (r.data ++ putBE 4 (Crc32.checksumIEEE
        (header r.timestamp r.data ++ r.data)).toNat).length := by
      rw [encode, List.length_append, length_header]
    rw [encode, List.take_append, length_header, List.take_of_length_le (by rwa [length_header]),
      readRecord_header_truncated, ← List.length_pos_iff, List.length_take]
    omega

theorem readRecord_long (h : ¬r.Sized) (rest : List UInt8) :
    (∃ e, readRecord (encode r ++ rest) = .error e) ∨
      ∃ data input, readRecord (encode r ++ rest) = .ok (⟨r.timestamp, data⟩, input) ∧
        data ≠ r.data := by
  have hlt : r.data.length % 256 ^ 4 < r.data.length := by
    unfold Record.Sized at h
    omega
  rw [encode, List.append_assoc, readRecord_header,
    readFull_ok (by rw [List.length_append, List.length_append]; omega)]
  dsimp only
  rw [readFull_ok (by
    simp only [List.length_drop, List.length_append, length_putBE, recordChecksumSize]
    omega)]
  dsimp only
  split
  · exact .inl ⟨_, rfl⟩
  · refine .inr ⟨_, _, rfl, ?_⟩
    intro heq
    have hlen := congrArg List.length heq
    rw [List.length_take, List.length_append, List.length_append] at hlen
    omega

end

/-! ### Repeated `Scan` -/

section

variable [Crc32] {file rest t : List UInt8} {r : Record} {bs : List Record} {e : ReadError}

theorem Reader.after_succ (reader : Reader) (k : Nat) :
    reader.after (k + 1) = reader.scan.2.after k := by
  induction k with
  | zero => rfl
  | succ k ih =>
    show (reader.after (k + 1)).scan.2 = (reader.scan.2.after k).scan.2
    rw [ih]

theorem Reader.result_succ (reader : Reader) (k : Nat) :
    reader.result (k + 1) = reader.scan.2.result k := by
  rw [Reader.result, Reader.after_succ]
  rfl

theorem scan_ok (h : readRecord file = .ok (r, rest)) :
    (newReader file).scan = (some r, newReader rest) := by
  simp only [Reader.scan, newReader, h, Option.isSome_none, Bool.false_eq_true, if_false]

theorem scan_error (h : readRecord file = .error e) :
    (newReader file).scan =
      (none, if e = .eof then newReader [] else ⟨file, some e⟩) := by
  cases e <;> simp [Reader.scan, newReader, h]

theorem stopped (h : readRecord file = .error e) (k : Nat) :
    (newReader file).result k = none ∧
      ((newReader file).after (k + 1)).err = if e = .eof then none else some e := by
  let last : Reader := if e = .eof then newReader [] else ⟨file, some e⟩
  have hlast : last.scan = (none, last) := by
    by_cases he : e = .eof
    · simp only [last, if_pos he]
      exact scan_error (e := .eof) rfl
    · simp only [last, if_neg he]
      rfl
  have hscan : (newReader file).scan = (none, last) := scan_error h
  have hafter : ∀ j, last.after j = last := by
    intro j
    induction j with
    | zero => rfl
    | succ j ih => rw [Reader.after_succ, hlast, ih]
  constructor
  · rcases k with - | k
    · exact congrArg Prod.fst hscan
    · rw [Reader.result_succ, hscan, Reader.result, hafter, hlast]
  · rw [Reader.after_succ, hscan, hafter]
    by_cases he : e = .eof
    · simp only [last, if_pos he]
      rfl
    · simp only [last, if_neg he]
      rfl

theorem scan_cons (hr : r.Sized) :
    (newReader ((r :: bs).flatMap encode ++ t)).scan =
      (some r, newReader (bs.flatMap encode ++ t)) := by
  rw [List.flatMap_cons, List.append_assoc]
  exact scan_ok (readRecord_encode hr)

theorem result_whole (hbs : ∀ r ∈ bs, r.Sized) {k : Nat} (hk : k < bs.length) :
    (newReader (bs.flatMap encode ++ t)).result k = bs[k]? := by
  induction bs generalizing k with
  | nil => cases hk
  | cons r bs ih =>
    have hr := hbs r List.mem_cons_self
    rcases k with - | k
    · exact congrArg Prod.fst (scan_cons hr)
    · rw [Reader.result_succ, scan_cons hr, List.getElem?_cons_succ]
      exact ih (fun x hx => hbs x (List.mem_cons_of_mem r hx)) (Nat.lt_of_succ_lt_succ hk)

theorem after_whole (hbs : ∀ r ∈ bs, r.Sized) (k : Nat) :
    (newReader (bs.flatMap encode ++ t)).after (bs.length + k) = (newReader t).after k := by
  induction bs with
  | nil => rw [List.flatMap_nil, List.nil_append, List.length_nil, Nat.zero_add]
  | cons r bs ih =>
    rw [List.length_cons, Nat.add_right_comm, Reader.after_succ,
      scan_cons (hbs r List.mem_cons_self)]
    exact ih fun x hx => hbs x (List.mem_cons_of_mem r hx)

theorem sized_of_result (h : ∀ k < bs.length,
      ((newReader (bs.flatMap encode ++ t)).result k).map Record.data = bs[k]?.map Record.data) :
    ∀ r ∈ bs, r.Sized := by
  induction bs with
  | nil => exact fun r hr => absurd hr List.not_mem_nil
  | cons r bs ih =>
    have hfile : (r :: bs).flatMap encode ++ t = encode r ++ (bs.flatMap encode ++ t) := by
      rw [List.flatMap_cons, List.append_assoc]
    rw [hfile] at h
    have hr : r.Sized := by
      by_contra hlong
      have hzero := h 0 (Nat.zero_lt_succ _)
      rcases readRecord_long hlong (bs.flatMap encode ++ t) with
        ⟨e, he⟩ | ⟨data, input, hok, hne⟩
      · rw [(stopped he 0).1] at hzero
        cases hzero
      · rw [show (newReader _).result 0 = _ from congrArg Prod.fst (scan_ok hok)] at hzero
        exact hne (Option.some.inj hzero)
    have hrest := ih fun k hk => by
      have hk' := h (k + 1) (Nat.succ_lt_succ hk)
      rwa [← hfile, Reader.result_succ, scan_cons hr, List.getElem?_cons_succ] at hk'
    intro x hx
    rcases List.mem_cons.mp hx with rfl | hx
    · exact hr
    · exact hrest x hx

theorem stops_iff (t : List UInt8) (expected : Option ReadError) :
    ((∀ k, (newReader t).result k = none) ∧ ∀ k, ((newReader t).after (k + 1)).err = expected) ↔
      ∃ e, readRecord t = .error e ∧ (if e = .eof then none else some e) = expected := by
  rcases h : readRecord t with e | ⟨r, rest⟩
  · constructor
    · rintro ⟨-, herr⟩
      exact ⟨e, rfl, (stopped h 0).2.symm.trans (herr 0)⟩
    · rintro ⟨e', he', hexpected⟩
      obtain rfl := Except.error.inj he'
      exact ⟨fun k => (stopped h k).1, fun k => (stopped h k).2.trans hexpected⟩
  · constructor
    · rintro ⟨hnone, -⟩
      have hzero := hnone 0
      rw [show (newReader t).result 0 = some r from congrArg Prod.fst (scan_ok h)] at hzero
      cases hzero
    · rintro ⟨e, he, -⟩
      cases he

/-! ### Every cut -/

/-- What is expected of a reader on a file that was cut at byte `c`: the payloads of the
records before the cut, then nothing, and an error only if the cut goes through a
record. -/
def ReadsCut (rs : List Record) (c : Nat) : Prop :=
  let reader := newReader ((written rs).take c)
  (∀ k, (reader.result k).map Record.data = (wholeBefore c rs)[k]?.map Record.data) ∧
  ∀ k, (wholeBefore c rs).length < k →
    (reader.after k).err = if (tornAt c rs).isSome then some .errTruncated else none

theorem readsCut_iff {rs : List Record} {c : Nat}
    (hfile : (written rs).take c = (wholeBefore c rs).flatMap encode ++ t)
    (hsized : ∀ r ∈ wholeBefore c rs, r.Sized) :
    ReadsCut rs c ↔ ∃ e, readRecord t = .error e ∧
      (if e = .eof then none else some e) =
        if (tornAt c rs).isSome then some .errTruncated else none := by
  have hbehind : ∀ k, (newReader ((written rs).take c)).after ((wholeBefore c rs).length + k) =
      (newReader t).after k := by
    rw [hfile]
    exact after_whole hsized
  rw [← stops_iff]
  constructor
  · rintro ⟨hresult, herr⟩
    constructor
    · intro k
      have hk := hresult ((wholeBefore c rs).length + k)
      rw [Reader.result, hbehind, List.getElem?_eq_none (Nat.le_add_right _ k)] at hk
      exact Option.map_eq_none_iff.mp hk
    · intro k
      rw [← hbehind]
      exact herr _ (by omega)
  · rintro ⟨hnone, herr⟩
    constructor
    · intro k
      rcases Nat.lt_or_ge k (wholeBefore c rs).length with hk | hk
      · rw [hfile, result_whole hsized hk]
      · obtain ⟨j, rfl⟩ := Nat.exists_eq_add_of_le hk
        rw [Reader.result, hbehind, List.getElem?_eq_none hk]
        exact congrArg (Option.map Record.data) (hnone j)
    · intro k hk
      obtain ⟨j, rfl⟩ := Nat.exists_eq_add_of_lt hk
      rw [Nat.add_assoc, hbehind]
      exact herr j

/-- **A reader on a cut file.**  It does what is expected exactly if the sizes of the
records before the cut fit their field, and the cut is neither right behind the header of
a record nor right in front of its checksum, which is where the size in its header ends. -/
theorem scan_cut_file (rs : List Record) (c : Nat) :
    ReadsCut rs c ↔ (∀ r ∈ wholeBefore c rs, r.Sized) ∧
      ∀ r k, tornAt c rs = some (r, k) → k ≠ recordHeaderSize ∧
        k ≠ recordHeaderSize + r.sizeField ∧
        k < recordHeaderSize + r.sizeField + recordChecksumSize := by
  have hcut := take_cut rs c
  rw [← written_eq] at hcut
  by_cases hsized : ∀ r ∈ wholeBefore c rs, r.Sized
  · rw [readsCut_iff hcut hsized, and_iff_right hsized]
    rcases htorn : tornAt c rs with - | ⟨r, k⟩
    · -- between two records
      simp only [Option.isSome_none, Bool.false_eq_true, if_false, reduceCtorEq, false_implies,
        implies_true, iff_true]
      exact ⟨.eof, rfl, rfl⟩
    · obtain ⟨hpos, hlt⟩ := tornAt_bounds htorn
      have hseen := readRecord_cut hpos hlt
      simp only [Option.isSome_some, if_true, Option.some.injEq, Prod.mk.injEq, and_imp]
      constructor
      · rintro ⟨e, he, hexpected⟩ r' k' rfl rfl
        rw [← hseen, he]
        split at hexpected
        · cases hexpected
        · rw [Option.some.inj hexpected]
      · intro h
        exact ⟨.errTruncated, hseen.mpr (h r k rfl rfl), rfl⟩
  · constructor
    · rintro ⟨hresult, -⟩
      rw [hcut] at hresult
      exact absurd (sized_of_result fun k _ => hresult k) hsized
    · rintro ⟨h, -⟩
      exact absurd h hsized

end

section

local instance cutCrc : Crc32 := Crc32.ieee

/-- Two payloads, cut right behind the second header: the first is returned, and `Err`
is `nil` although the second was cut. -/
theorem cut_behind_header_unseen :
    let rs : List Record := [⟨1, [104]⟩, ⟨2, [105, 106]⟩]
    tornAt 37 rs = some (⟨2, [105, 106]⟩, recordHeaderSize) ∧
      ((newReader ((written rs).take 37)).after 2).err = none ∧ ¬ReadsCut rs 37 := by
  have htorn : tornAt 37 [⟨1, [104]⟩, ⟨2, [105, 106]⟩] =
      some (⟨2, [105, 106]⟩, recordHeaderSize) := by decide +kernel
  have herr : ((newReader ((written [⟨1, [104]⟩, ⟨2, [105, 106]⟩]).take 37)).after 2).err =
      none := by decide +kernel
  refine ⟨htorn, herr, ?_⟩
  rintro ⟨-, hexpected⟩
  have h := hexpected 2 (by decide +kernel)
  rw [herr, htorn] at h
  cases h

-- one byte more, and the cut is seen
example : ((newReader ((written [⟨1, [104]⟩, ⟨2, [105, 106]⟩]).take 38)).after 2).err =
    some .errTruncated := by
  decide +kernel

end

end Wal
