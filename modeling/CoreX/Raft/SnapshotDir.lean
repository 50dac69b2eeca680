/-
CoreX/Raft/SnapshotDir.lean

`FileSnapshotStore`: a directory of files, each named by index and term of its snapshot.
The store keeps nothing in memory.  Every call looks at the names again, parses and
sorts them, and `Load` decodes the bytes of one file.
-/
import CoreX.Lib.Decimal
import CoreX.Lib.Highest
import CoreX.Raft.SnapshotFormat
import Mathlib.Data.List.AList
import Mathlib.Data.List.Sort

namespace Raft

open Bytes Decimal Highest
open Wal (Crc32)

/-! ### File names -/

abbrev FileName := List Char

def filePrefix : FileName := "snapshot-".toList
def fileSuffix : FileName := ".snap".toList
def tmpSuffix : FileName := ".tmp".toList

/-- `snapshotPath`, without the directory. -/
def snapshotPath (m : SnapshotMeta) : FileName :=
  filePrefix ++ (formatInt m.index ++ ('-' :: (formatInt m.term ++ fileSuffix)))

variable (name : FileName)

/-- The pattern `snapshot-*.snap`. -/
def globbed : Bool :=
  filePrefix.isPrefixOf name && fileSuffix.isSuffixOf name &&
    decide (filePrefix.length + fileSuffix.length ≤ name.length)

/-- `strings.TrimPrefix`. -/
def trimPrefix (pre : FileName) : FileName :=
  if pre.isPrefixOf name then name.drop pre.length else name

/-- `strings.TrimSuffix`. -/
def trimSuffix (suf : FileName) : FileName :=
  if suf.isSuffixOf name then name.take (name.length - suf.length) else name

/-- `strings.SplitN(name, "-", 2)`, if there are two parts. -/
def splitDash : Option (FileName × FileName) :=
  match name.dropWhile (· ≠ '-') with
  | [] => none
  | _ :: rest => some (name.takeWhile (· ≠ '-'), rest)

/-- `parseSnapshotFilename`; its errors are only logged. -/
def parseSnapshotFilename : Option SnapshotMeta :=
  (splitDash (trimPrefix (trimSuffix name fileSuffix) filePrefix)).bind fun parts =>
    (parseInt parts.1).bind fun index =>
      (parseInt parts.2).map fun term => ⟨index, term⟩

/-! ### The store -/

/-- The directory. -/
abbrev SnapshotDir := AList fun _ : FileName => Bytes

/-- The errors of `Load`. -/
inductive SnapshotLoadError
  | snapshotNotFound
  | corrupted (e : SnapshotDecodeError)
  deriving DecidableEq, Repr

namespace SnapshotDir

variable (d : SnapshotDir)

/-- The names that `List` finds, parsed. -/
def metas : List SnapshotMeta := (d.keys.filter globbed).filterMap parseSnapshotFilename

/-- `List`: the highest index first. -/
def list : List SnapshotMeta := d.metas.insertionSort fun a b => b.index ≤ a.index

/-- `Latest`; `none` is `ErrSnapshotNotFound`. -/
def latest : Option SnapshotMeta := d.list.head?

/-- `os.Remove` of some snapshots. -/
def removeAll (ms : List SnapshotMeta) : SnapshotDir :=
  ms.foldl (fun d m => AList.erase (snapshotPath m) d) d

/-- `Prune`. -/
def prune (retainCount : Int) : SnapshotDir :=
  let retainCount := if retainCount < 1 then 1 else retainCount.toNat
  if d.list.length ≤ retainCount then d else d.removeAll (d.list.drop retainCount)

variable [Crc32] [ConfigJson]

/-- `Save`, with the error it returns.  The bytes go to a file with another name first. -/
def save (range : (Bytes → Option Bytes) → List (Bytes × Bytes)) (m : SnapshotMeta)
    (data : SnapshotContents) : SnapshotDir × Option SnapshotEncodeError :=
  let finalPath := snapshotPath m
  let tmpPath := finalPath ++ tmpSuffix
  let d := (AList.erase tmpPath d).insert tmpPath []
  match encodeSnapshot range m.index m.term data with
  | .error e => (AList.erase tmpPath d, some e)
  | .ok (body, _) =>
      let d := d.insert tmpPath body
      ((AList.erase tmpPath d).insert finalPath body, none)

/-- `Load`. -/
def load (index : Int) : Except SnapshotLoadError DecodedSnapshot :=
  match d.list.find? fun m => m.index = index with
  | none => .error .snapshotNotFound
  | some target =>
      match AList.lookup (snapshotPath target) d with
      | none => .error .snapshotNotFound
      | some raw =>
          match decodeSnapshot raw with
          | .error e => .error (.corrupted e)
          | .ok s => .ok s

end SnapshotDir

inductive SnapshotOp
  /-- `range` is the order in which the runtime goes through the map. -/
  | save (range : (Bytes → Option Bytes) → List (Bytes × Bytes)) (m : SnapshotMeta)
      (data : SnapshotContents)
  | prune (retainCount : Int)

namespace SnapshotDir

variable [Crc32] [ConfigJson]

def step (d : SnapshotDir) : SnapshotOp → SnapshotDir
  | .save range m data => (d.save range m data).1
  | .prune retainCount => d.prune retainCount

/-- The directory after calls on an empty one. -/
def after (ops : List SnapshotOp) : SnapshotDir := ops.foldl step ∅

end SnapshotDir

/-! ### What it is for -/

/-- Term and contents of the snapshot of an index. -/
abbrev SnapshotMap := Int → Option (Int × SnapshotContents)

namespace SnapshotMap

def indices (files : SnapshotMap) : Set Int := {i | (files i).isSome}

open Classical in
/-- `Save` replaces the snapshot of the index, `Prune` keeps the highest indices. -/
noncomputable def step (files : SnapshotMap) : SnapshotOp → SnapshotMap
  | .save _ m data => Function.update files m.index (some (m.term, data))
  | .prune retainCount => fun i =>
      if i ∈ highest files.indices (max retainCount 1).toNat then files i else none

noncomputable def after (ops : List SnapshotOp) : SnapshotMap := ops.foldl step fun _ => none

variable {files : SnapshotMap} {retainCount i : Int}

theorem step_prune_of_mem (h : i ∈ highest files.indices (max retainCount 1).toNat) :
    files.step (.prune retainCount) i = files i := if_pos h

theorem step_prune_of_notMem (h : i ∉ highest files.indices (max retainCount 1).toNat) :
    files.step (.prune retainCount) i = none := if_neg h

end SnapshotMap

/-- Index and term make a name that can be parsed. -/
structure SnapshotMeta.Named (m : SnapshotMeta) : Prop where
  pos : 1 ≤ m.index
  index : Fits 8 m.index
  term : Fits 8 m.term

/-- The snapshots that the format is made for: no key begins with NUL, and all lengths have
room. -/
structure Storable [ConfigJson] (range : (Bytes → Option Bytes) → List (Bytes × Bytes))
    (m : SnapshotMeta) (data : SnapshotContents) : Prop where
  named : m.Named
  entries : ∀ key value, data.kv key = some value →
    key.head? ≠ some 0 ∧ key.length ≤ 0xFFFF ∧ value.length ≤ 0xFFFFFFFF
  config : ∃ configJSON, ConfigJson.marshal data.config = some configJSON ∧
    ConfigJson.unmarshal configJSON = data.config ∧ configJSON.length ≤ 0xFFFFFFFF ∧
    Ranges (range (kvFull data configJSON)) (kvFull data configJSON)

/-- What is asked of a call. -/
def SnapshotOp.Proper [ConfigJson] : SnapshotOp → Prop
  | .save range m data => Storable range m data
  | .prune _ => True

/-- Index and term of a call that saves. -/
def SnapshotOp.saved : SnapshotOp → Option SnapshotMeta
  | .save _ m _ => some m
  | .prune _ => none

/-- Each index is saved with one term. -/
def OneTerm (ops : List SnapshotOp) : Prop :=
  ∀ m ∈ ops.filterMap SnapshotOp.saved, ∀ m' ∈ ops.filterMap SnapshotOp.saved,
    m.index = m'.index → m = m'

/-! ### Names are parsed back -/

theorem trimSuffix_append (suf : FileName) : trimSuffix (name ++ suf) suf = name := by
  have hsuf : suf.isSuffixOf (name ++ suf) = true :=
    List.isSuffixOf_iff_suffix.mpr (List.suffix_append name suf)
  rw [trimSuffix, if_pos hsuf, List.length_append, Nat.add_sub_cancel, List.take_left]

theorem trimPrefix_append (pre name : FileName) : trimPrefix (pre ++ name) pre = name := by
  have hpre : pre.isPrefixOf (pre ++ name) = true :=
    List.isPrefixOf_iff_prefix.mpr (List.prefix_append pre name)
  rw [trimPrefix, if_pos hpre, List.drop_left]

theorem splitDash_append {front : FileName} (h : '-' ∉ front) (rest : FileName) :
    splitDash (front ++ '-' :: rest) = some (front, rest) := by
  have hfront : ∀ c ∈ front, decide (c ≠ '-') = true := by
    intro c hc
    exact decide_eq_true fun heq => h (heq ▸ hc)
  unfold splitDash
  rw [List.dropWhile_append_of_pos hfront, List.takeWhile_append_of_pos hfront]
  simp

namespace SnapshotMeta

variable {m m' : SnapshotMeta}

theorem bounds_of_fits {v : Int} (h : Fits 8 v) : -cutoff ≤ v ∧ v < cutoff := by
  unfold Fits at h
  unfold cutoff
  omega

theorem Named.parse (h : m.Named) : parseSnapshotFilename (snapshotPath m) = some m := by
  have hassoc : snapshotPath m =
      (filePrefix ++ (formatInt m.index ++ '-' :: formatInt m.term)) ++ fileSuffix := by
    simp [snapshotPath]
  have hdash : '-' ∉ formatInt m.index := by
    intro hmem
    have hdigit := isDigit_of_mem_formatInt (show 0 ≤ m.index by have := h.pos; omega) hmem
    cases hdigit
  obtain ⟨hilow, hihigh⟩ := bounds_of_fits h.index
  obtain ⟨htlow, hthigh⟩ := bounds_of_fits h.term
  rw [parseSnapshotFilename, hassoc, trimSuffix_append, trimPrefix_append, splitDash_append hdash,
    Option.bind_some, parseInt_formatInt hilow hihigh, Option.bind_some,
    parseInt_formatInt htlow hthigh]
  rfl

theorem Named.eq_of_path (h : m.Named) (h' : m'.Named) (heq : snapshotPath m = snapshotPath m') :
    m = m' := by
  have hparse := h.parse
  rw [heq, h'.parse] at hparse
  exact (Option.some.inj hparse).symm

theorem globbed_snapshotPath (m : SnapshotMeta) : globbed (snapshotPath m) = true := by
  have hprefix : filePrefix <+: snapshotPath m := List.prefix_append _ _
  have hsuffix : fileSuffix <:+ snapshotPath m :=
    ⟨filePrefix ++ (formatInt m.index ++ '-' :: formatInt m.term), by simp [snapshotPath]⟩
  rw [globbed, List.isPrefixOf_iff_prefix.mpr hprefix,
    List.isSuffixOf_iff_suffix.mpr hsuffix]
  simp [snapshotPath]
  omega

theorem eq_of_fields (hi : m.index = m'.index) (ht : m.term = m'.term) : m = m' := by
  exact congrArg₂ SnapshotMeta.mk hi ht

theorem snapshotPath_ne_tmp (m m' : SnapshotMeta) :
    snapshotPath m ≠ snapshotPath m' ++ tmpSuffix := by
  intro heq
  -- the two suffixes end in the same letter
  have hlast : ∀ name suf : FileName, 2 ≤ suf.length →
      (name ++ suf).reverse.take 2 = suf.reverse.take 2 := by
    intro name suf hlen
    rw [List.reverse_append, List.take_append_of_le_length (by rwa [List.length_reverse])]
  have hsnap : (snapshotPath m).reverse.take 2 = fileSuffix.reverse.take 2 := by
    rw [snapshotPath, ← List.cons_append, ← List.append_assoc, ← List.append_assoc]
    exact hlast _ fileSuffix (by decide)
  rw [heq, hlast _ tmpSuffix (by decide)] at hsnap
  exact absurd hsnap (by decide)

end SnapshotMeta

/-! ### The files of a map -/

namespace SnapshotDir

theorem lookup_removeAll (d : SnapshotDir) (ms : List SnapshotMeta) (name : FileName) :
    AList.lookup name (d.removeAll ms) =
      if name ∈ ms.map snapshotPath then none else AList.lookup name d := by
  induction ms generalizing d with
  | nil => rfl
  | cons m ms ih =>
    show AList.lookup name (SnapshotDir.removeAll (AList.erase (snapshotPath m) d) ms) = _
    rw [ih, List.map_cons]
    by_cases hname : name = snapshotPath m
    · rw [hname, AList.lookup_erase, if_pos List.mem_cons_self, ite_self]
    · rw [AList.lookup_erase_ne hname]
      simp only [List.mem_cons, hname, false_or]

theorem prune_eq (d : SnapshotDir) (retainCount : Int) :
    d.prune retainCount = d.removeAll (d.list.drop (max retainCount 1).toNat) := by
  have hcount : (if retainCount < 1 then 1 else retainCount.toNat) = (max retainCount 1).toNat := by
    split <;> omega
  rw [prune, hcount]
  split
  · next hle =>
    rw [List.drop_eq_nil_of_le hle]
    rfl
  · rfl

end SnapshotDir

section

variable [Crc32] [ConfigJson]

/-- The directory has the files of the map, and no others. -/
structure Holds (d : SnapshotDir) (files : SnapshotMap) : Prop where
  file : ∀ name raw, AList.lookup name d = some raw → ∃ m csum data,
    files m.index = some (m.term, data) ∧ name = snapshotPath m ∧
      decodeSnapshot raw = .ok ⟨m, csum, data⟩
  found : ∀ {m : SnapshotMeta} {data}, files m.index = some (m.term, data) →
    (AList.lookup (snapshotPath m) d).isSome = true
  named : ∀ {m : SnapshotMeta} {data}, files m.index = some (m.term, data) → m.Named

namespace Holds

variable {d : SnapshotDir} {files : SnapshotMap} {m m' : SnapshotMeta}

theorem empty : Holds ∅ fun _ => none where
  file _ _ h := by cases h
  found h := by cases h
  named h := by cases h

theorem decode (h : Holds d files) {data : SnapshotContents}
    (hm : files m.index = some (m.term, data)) :
    ∃ raw csum, AList.lookup (snapshotPath m) d = some raw ∧
      decodeSnapshot raw = .ok ⟨m, csum, data⟩ := by
  obtain ⟨raw, hraw⟩ := Option.isSome_iff_exists.mp (h.found hm)
  obtain ⟨m', csum, data', hm', hname, hdecode⟩ := h.file _ _ hraw
  obtain rfl := (h.named hm).eq_of_path (h.named hm') hname
  rw [hm] at hm'
  obtain rfl : data = data' := congrArg Prod.snd (Option.some.inj hm')
  exact ⟨raw, csum, hraw, hdecode⟩

theorem of_mem_keys (h : Holds d files) {name : FileName} (hname : name ∈ d.keys) :
    ∃ m data, files m.index = some (m.term, data) ∧ name = snapshotPath m ∧
      parseSnapshotFilename name = some m := by
  have hkey : name ∈ d := AList.mem_keys.mpr hname
  obtain ⟨raw, hraw⟩ := Option.isSome_iff_exists.mp (AList.lookup_isSome.mpr hkey)
  obtain ⟨m, _, data, hm, rfl, _⟩ := h.file _ _ hraw
  exact ⟨m, data, hm, rfl, (h.named hm).parse⟩

theorem mem_metas (h : Holds d files) :
    m ∈ d.metas ↔ ∃ data, files m.index = some (m.term, data) := by
  unfold SnapshotDir.metas
  rw [List.mem_filterMap]
  constructor
  · rintro ⟨name, hname, hparse⟩
    obtain ⟨m', data, hm', _, hparse'⟩ := h.of_mem_keys (List.mem_filter.mp hname).1
    obtain rfl : m' = m := Option.some.inj (hparse'.symm.trans hparse)
    exact ⟨data, hm'⟩
  · rintro ⟨data, hm⟩
    refine ⟨snapshotPath m, List.mem_filter.mpr ⟨?_, SnapshotMeta.globbed_snapshotPath m⟩,
      (h.named hm).parse⟩
    exact AList.mem_keys.mp (AList.lookup_isSome.mp (h.found hm))

omit [Crc32] [ConfigJson] in
theorem eq_of_index {data data' : SnapshotContents} (hm : files m.index = some (m.term, data))
    (hm' : files m'.index = some (m'.term, data')) (heq : m.index = m'.index) : m = m' := by
  rw [heq, hm'] at hm
  exact SnapshotMeta.eq_of_fields heq (congrArg Prod.fst (Option.some.inj hm)).symm

theorem pairwise_metas (h : Holds d files) : d.metas.Pairwise fun a b => a.index ≠ b.index := by
  unfold SnapshotDir.metas
  rw [List.pairwise_filterMap]
  refine ((AList.keys_nodup d).filter _).imp_of_mem ?_
  intro name name' hname hname' hne m hparse m' hparse' heq
  obtain ⟨m₁, data, hm, rfl, h₁⟩ := h.of_mem_keys (List.mem_filter.mp hname).1
  obtain ⟨m₂, data', hm', rfl, h₂⟩ := h.of_mem_keys (List.mem_filter.mp hname').1
  obtain rfl : m₁ = m := Option.some.inj (h₁.symm.trans hparse)
  obtain rfl : m₂ = m' := Option.some.inj (h₂.symm.trans hparse')
  exact hne (congrArg snapshotPath (eq_of_index hm hm' heq))

/-! ### Answers -/

theorem mem_list (h : Holds d files) :
    m ∈ d.list ↔ ∃ data, files m.index = some (m.term, data) := by
  rw [SnapshotDir.list, List.mem_insertionSort, h.mem_metas]

theorem pairwise_list (h : Holds d files) : d.list.Pairwise fun a b => b.index < a.index := by
  have hsorted :
    d.list.Pairwise fun a b => b.index ≤ a.index := List.pairwise_insertionSort _ d.metas
  have hdistinct : d.list.Pairwise fun a b => a.index ≠ b.index :=
    ((List.perm_insertionSort _ d.metas).pairwise_iff (fun hab => hab.symm)).mpr h.pairwise_metas
  exact hsorted.imp₂ (fun a b hle hne => lt_of_le_of_ne hle hne.symm) hdistinct

theorem pairwise_indices (h : Holds d files) :
    (d.list.map SnapshotMeta.index).Pairwise fun a b => b < a :=
  List.pairwise_map.mpr h.pairwise_list

theorem mem_indices (h : Holds d files) (i : Int) :
    i ∈ files.indices ↔ i ∈ d.list.map SnapshotMeta.index := by
  show (files i).isSome = true ↔ _
  rw [List.mem_map]
  constructor
  · intro hi
    obtain ⟨⟨term, data⟩, hfile⟩ := Option.isSome_iff_exists.mp hi
    exact ⟨⟨i, term⟩, h.mem_list.mpr ⟨data, hfile⟩, rfl⟩
  · rintro ⟨m, hm, rfl⟩
    obtain ⟨data, hfile⟩ := h.mem_list.mp hm
    rw [hfile]
    rfl

theorem latest_eq_some (h : Holds d files) :
    d.latest = some m ↔
      (∃ data, files m.index = some (m.term, data)) ∧ ∀ i ∈ files.indices, i ≤ m.index := by
  have hsorted := h.pairwise_list
  rw [SnapshotDir.latest, ← h.mem_list]
  simp only [h.mem_indices, List.mem_map, forall_exists_index, and_imp, forall_apply_eq_imp_iff₂]
  generalize d.list = metas at hsorted
  rcases metas with - | ⟨x, l⟩
  · simp
  obtain ⟨hx, -⟩ := List.pairwise_cons.mp hsorted
  constructor
  · intro heq
    obtain rfl : x = m := Option.some.inj heq
    refine ⟨List.mem_cons_self, ?_⟩
    rintro a ha
    rcases List.mem_cons.mp ha with rfl | ha
    · exact le_rfl
    · exact (hx a ha).le
  · rintro ⟨hm, hmax⟩
    rcases List.mem_cons.mp hm with rfl | hm
    · rfl
    · have := hx m hm
      have := hmax x List.mem_cons_self
      omega

theorem latest_eq_none (h : Holds d files) : d.latest = none ↔ ∀ i, files i = none := by
  rw [SnapshotDir.latest, List.head?_eq_none_iff]
  constructor
  · intro hnil i
    rcases hi : files i with - | ⟨term, data⟩
    · rfl
    · have hmem := (h.mem_list (m := ⟨i, term⟩)).mpr ⟨data, hi⟩
      rw [hnil] at hmem
      cases hmem
  · intro hnone
    rw [List.eq_nil_iff_forall_not_mem]
    intro m hm
    obtain ⟨data, hdata⟩ := h.mem_list.mp hm
    rw [hnone] at hdata
    cases hdata

theorem load_some (h : Holds d files) {i term : Int} {data : SnapshotContents}
    (hi : files i = some (term, data)) : ∃ csum, d.load i = .ok ⟨⟨i, term⟩, csum, data⟩ := by
  let m : SnapshotMeta := ⟨i, term⟩
  have hm : files m.index = some (m.term, data) := hi
  have hfind : (d.list.find? fun m => decide (m.index = i)) = some m := by
    rcases hf : d.list.find? fun m => decide (m.index = i) with - | m'
    · have hno := List.find?_eq_none.mp hf m (h.mem_list.mpr ⟨data, hm⟩)
      exact absurd (decide_eq_true rfl) hno
    · obtain ⟨data', hm'⟩ := h.mem_list.mp (List.mem_of_find?_eq_some hf)
      have hindex : m'.index = i := by simpa using List.find?_some hf
      rw [hf, eq_of_index hm' hm hindex]
  obtain ⟨raw, csum, hraw, hdecode⟩ := h.decode hm
  refine ⟨csum, ?_⟩
  rw [SnapshotDir.load, hfind]
  dsimp only
  rw [hraw]
  dsimp only
  rw [hdecode]

theorem load_none (h : Holds d files) {i : Int} (hi : files i = none) :
    d.load i = .error .snapshotNotFound := by
  have hfind : (d.list.find? fun m => decide (m.index = i)) = none := by
    rw [List.find?_eq_none]
    intro m hm heq
    obtain ⟨data, hdata⟩ := h.mem_list.mp hm
    rw [of_decide_eq_true heq, hi] at hdata
    cases hdata
  rw [SnapshotDir.load, hfind]

end Holds

/-! ### Calls -/

theorem Storable.encode {range : (Bytes → Option Bytes) → List (Bytes × Bytes)} {m : SnapshotMeta}
    {data : SnapshotContents} (h : Storable range m data) :
    ∃ raw csum, encodeSnapshot range m.index m.term data = .ok (raw, csum) ∧
      decodeSnapshot raw = .ok ⟨m, csum, data⟩ := by
  obtain ⟨configJSON, hmarshal, hunmarshal, hlen, hranges⟩ := h.config
  have hfits : ∀ p ∈ range (kvFull data configJSON),
      p.1.length ≤ 0xFFFF ∧ p.2.length ≤ 0xFFFFFFFF := by
    rintro ⟨key, value⟩ hp
    have hkv := (hranges.mem_iff key value).mp hp
    by_cases hkey : key = snapshotConfigKey
    · rw [hkey, kvFull, Function.update_self] at hkv
      rw [hkey, ← Option.some.inj hkv]
      exact ⟨show snapshotConfigKey.length ≤ 0xFFFF by decide, hlen⟩
    · rw [kvFull, Function.update_of_ne hkey] at hkv
      exact (h.entries key value hkv).2
  obtain ⟨rest, csum, hencode⟩ : ∃ rest csum, encodeSnapshot range m.index m.term data =
      .ok (snapshotHeader m.index m.term (range (kvFull data configJSON)).length ++ rest,
        csum) := by
    obtain ⟨rest, csum, hencode, _⟩ := encodeSnapshot_of_fits hmarshal hfits
    exact ⟨rest, csum, hencode⟩
  have hreserved : data.kv snapshotConfigKey = none := by
    rcases hkv : data.kv snapshotConfigKey with - | value
    · rfl
    · exact absurd (by decide) (h.entries _ value hkv).1
  refine ⟨_, csum, hencode, ?_⟩
  have hround := decodeSnapshot_encodeSnapshot h.named.index h.named.term (fun json hjson => ?_)
    hencode
  · rw [hround, ← hreserved, Function.update_eq_self]
  · rw [hmarshal] at hjson
    obtain rfl := Option.some.inj hjson
    exact ⟨hunmarshal, hranges⟩

theorem SnapshotDir.save_of_encode (d : SnapshotDir)
    {range : (Bytes → Option Bytes) → List (Bytes × Bytes)} {m : SnapshotMeta}
    {data : SnapshotContents} {raw : Bytes} {csum : UInt32}
    (h : encodeSnapshot range m.index m.term data = .ok (raw, csum)) :
    d.save range m data = ((AList.erase (snapshotPath m ++ tmpSuffix)
      (((AList.erase (snapshotPath m ++ tmpSuffix) d).insert (snapshotPath m ++ tmpSuffix)
        []).insert
        (snapshotPath m ++ tmpSuffix) raw)).insert (snapshotPath m) raw, none) := by
  rw [save, h]

namespace Holds

variable {d : SnapshotDir} {files : SnapshotMap}

omit [Crc32] [ConfigJson] in
theorem update_cases {m m' : SnapshotMeta} {data data' : SnapshotContents}
    (h : Function.update files m.index (some (m.term, data)) m'.index = some (m'.term, data')) :
    m' = m ∨ m'.index ≠ m.index ∧ files m'.index = some (m'.term, data') := by
  by_cases hindex : m'.index = m.index
  · rw [hindex, Function.update_self] at h
    exact .inl (SnapshotMeta.eq_of_fields hindex (congrArg Prod.fst (Option.some.inj h)).symm)
  · rw [Function.update_of_ne hindex] at h
    exact .inr ⟨hindex, h⟩

variable {m : SnapshotMeta}

theorem save (h : Holds d files) {range : (Bytes → Option Bytes) → List (Bytes × Bytes)}
    {data : SnapshotContents} (hs : Storable range m data)
    (hterm : ∀ term data', files m.index = some (term, data') → term = m.term) :
    Holds (d.save range m data).1 (Function.update files m.index (some (m.term, data))) := by
  obtain ⟨raw, csum, hencode, hdecode⟩ := hs.encode
  have hsave := d.save_of_encode hencode
  have hlookup : ∀ name, name ≠ snapshotPath m → name ≠ snapshotPath m ++ tmpSuffix →
      AList.lookup name (d.save range m data).1 = AList.lookup name d := by
    intro name hname htmp
    rw [hsave, AList.lookup_insert_ne hname, AList.lookup_erase_ne htmp,
      AList.lookup_insert_ne htmp, AList.lookup_insert_ne htmp, AList.lookup_erase_ne htmp]
  have hself : AList.lookup (snapshotPath m) (d.save range m data).1 = some raw := by
    rw [hsave, AList.lookup_insert]
  have htmp : AList.lookup (snapshotPath m ++ tmpSuffix) (d.save range m data).1 = none := by
    rw [hsave, AList.lookup_insert_ne (SnapshotMeta.snapshotPath_ne_tmp m m).symm,
      AList.lookup_erase]
  refine ⟨?_, ?_, ?_⟩
  · intro name raw' hraw
    by_cases hname : name = snapshotPath m
    · rw [hname, hself] at hraw
      obtain rfl := Option.some.inj hraw
      exact ⟨m, csum, data, Function.update_self .., hname, hdecode⟩
    · have hne : name ≠ snapshotPath m ++ tmpSuffix := by
        rintro rfl
        rw [htmp] at hraw
        cases hraw
      rw [hlookup name hname hne] at hraw
      obtain ⟨m', csum', data', hm', rfl, hdecode'⟩ := h.file _ _ hraw
      -- the same index would have the same term, and so the same name
      have hindex : m'.index ≠ m.index := fun heq =>
        hname (congrArg snapshotPath
          (SnapshotMeta.eq_of_fields heq (hterm _ _ (heq ▸ hm'))))
      refine ⟨m', csum', data', ?_, rfl, hdecode'⟩
      rw [Function.update_of_ne hindex]
      exact hm'
  · intro m' data' hm'
    rcases update_cases hm' with rfl | ⟨hindex, hm'⟩
    · rw [hself]
      rfl
    · rw [hlookup _ (fun heq => ?_) (SnapshotMeta.snapshotPath_ne_tmp m' m)]
      · exact h.found hm'
      · exact hindex (congrArg SnapshotMeta.index ((h.named hm').eq_of_path hs.named heq))
  · intro m' data' hm'
    rcases update_cases hm' with rfl | ⟨_, hm'⟩
    · exact hs.named
    · exact h.named hm'

theorem mem_take_iff (h : Holds d files) (k : Nat) :
    m ∈ d.list.take k ↔ m ∈ d.list ∧ m ∉ d.list.drop k := by
  have hsorted := h.pairwise_list
  rw [← List.take_append_drop k d.list] at hsorted
  obtain ⟨_, _, hcross⟩ := List.pairwise_append.mp hsorted
  constructor
  · intro htake
    exact ⟨List.mem_of_mem_take htake, fun hdrop => lt_irrefl _ (hcross m htake m hdrop)⟩
  · rintro ⟨hmem, hno⟩
    rw [← List.take_append_drop k d.list] at hmem
    exact (List.mem_append.mp hmem).resolve_right hno

theorem index_mem_highest (h : Holds d files) {data : SnapshotContents}
    (hm : files m.index = some (m.term, data)) (k : Nat) :
    m.index ∈ highest files.indices k ↔ m ∈ d.list.take k := by
  rw [mem_highest_iff h.pairwise_indices h.mem_indices, List.map_take.symm, List.mem_map]
  constructor
  · rintro ⟨m', htake, heq⟩
    obtain ⟨data', hm'⟩ := h.mem_list.mp (List.mem_of_mem_take htake)
    exact eq_of_index hm' hm heq ▸ htake
  · intro htake
    exact ⟨m, htake, rfl⟩

theorem step_prune_iff (h : Holds d files) {data : SnapshotContents} {retainCount : Int} :
    files.step (.prune retainCount) m.index = some (m.term, data) ↔
      files m.index = some (m.term, data) ∧ m ∈ d.list.take (max retainCount 1).toNat := by
  by_cases hin : m.index ∈ highest files.indices (max retainCount 1).toNat
  · rw [SnapshotMap.step_prune_of_mem hin]
    exact ⟨fun hm => ⟨hm, (h.index_mem_highest hm _).mp hin⟩, And.left⟩
  · rw [SnapshotMap.step_prune_of_notMem hin]
    constructor
    · intro hm
      cases hm
    · rintro ⟨hm, htake⟩
      exact absurd ((h.index_mem_highest hm _).mpr htake) hin

theorem prune (h : Holds d files) (retainCount : Int) :
    Holds (d.prune retainCount) (files.step (.prune retainCount)) := by
  rw [SnapshotDir.prune_eq]
  refine ⟨?_, ?_, ?_⟩
  · intro name raw hraw
    rw [SnapshotDir.lookup_removeAll] at hraw
    split at hraw
    · cases hraw
    · next hname =>
      obtain ⟨m, csum, data, hm, rfl, hdecode⟩ := h.file _ _ hraw
      have htake := (h.mem_take_iff _).mpr ⟨h.mem_list.mpr ⟨data, hm⟩,
        fun hdrop => hname (List.mem_map_of_mem hdrop)⟩
      exact ⟨m, csum, data, h.step_prune_iff.mpr ⟨hm, htake⟩, rfl, hdecode⟩
  · intro m data hm
    obtain ⟨hold, htake⟩ := h.step_prune_iff.mp hm
    rw [SnapshotDir.lookup_removeAll, if_neg ?_]
    · exact h.found hold
    · intro hmem
      obtain ⟨m', hdrop, hpath⟩ := List.mem_map.mp hmem
      obtain ⟨data', hm'⟩ := h.mem_list.mp (List.mem_of_mem_drop hdrop)
      obtain rfl := (h.named hm').eq_of_path (h.named hold) hpath
      exact ((h.mem_take_iff _).mp htake).2 hdrop
  · intro m data hm
    exact h.named (h.step_prune_iff.mp hm).1

theorem list_prune (h : Holds d files) (retainCount : Int) :
    (d.prune retainCount).list = d.list.take (max retainCount 1).toNat := by
  have hpruned := h.prune retainCount
  have htake := h.pairwise_list.take (i := (max retainCount 1).toNat)
  have hnodup : ∀ {l : List SnapshotMeta}, (l.Pairwise fun a b => b.index < a.index) → l.Nodup := by
    intro l hl
    apply hl.imp
    rintro a _ hlt rfl
    exact lt_irrefl _ hlt
  -- two decreasing lists with the same members
  refine List.Perm.eq_of_pairwise (fun a b _ _ hab hba => absurd hab hba.asymm)
    hpruned.pairwise_list htake ?_
  rw [List.perm_ext_iff_of_nodup (hnodup hpruned.pairwise_list) (hnodup htake)]
  intro m
  rw [hpruned.mem_list]
  constructor
  · rintro ⟨data, hm⟩
    exact (h.step_prune_iff.mp hm).2
  · intro hm
    obtain ⟨data, hdata⟩ := h.mem_list.mp (List.mem_of_mem_take hm)
    exact ⟨data, h.step_prune_iff.mpr ⟨hdata, hm⟩⟩

end Holds

theorem holds_after {ops : List SnapshotOp} (hproper : ∀ op ∈ ops, op.Proper)
    (hterm : OneTerm ops) :
    Holds (SnapshotDir.after ops) (SnapshotMap.after ops) ∧
      ∀ (m : SnapshotMeta) data, SnapshotMap.after ops m.index = some (m.term, data) →
        m ∈ ops.filterMap SnapshotOp.saved := by
  induction ops using List.reverseRecOn with
  | nil => exact ⟨.empty, fun m data hm => by cases hm⟩
  | append_singleton ops op ih =>
    have hsub : ∀ m ∈ ops.filterMap SnapshotOp.saved,
        m ∈ (ops ++ [op]).filterMap SnapshotOp.saved := by
      intro m hm
      rw [List.filterMap_append]
      exact List.mem_append_left _ hm
    obtain ⟨hold, hsaved⟩ := ih (fun op' hop' => hproper op' (List.mem_append_left _ hop'))
      (fun m hm m' hm' => hterm m (hsub m hm) m' (hsub m' hm'))
    have hdir : SnapshotDir.after (ops ++ [op]) = (SnapshotDir.after ops).step op := by
      rw [SnapshotDir.after, List.foldl_append]
      rfl
    have hmap : SnapshotMap.after (ops ++ [op]) = (SnapshotMap.after ops).step op := by
      rw [SnapshotMap.after, List.foldl_append]
      rfl
    rw [hdir, hmap]
    have hop := hproper op (by simp)
    cases op with
    | save range m data =>
      have hself : m ∈ (ops ++ [SnapshotOp.save range m data]).filterMap SnapshotOp.saved := by
        rw [List.filterMap_append]
        exact List.mem_append_right _ (List.mem_singleton.mpr rfl)
      constructor
      · refine hold.save hop ?_
        intro term data' hm
        have heq := hterm ⟨m.index, term⟩ (hsub _ (hsaved ⟨m.index, term⟩ data' hm)) m hself rfl
        exact congrArg SnapshotMeta.term heq
      · intro m' data' hm'
        rcases Holds.update_cases hm' with rfl | ⟨_, hm'⟩
        · exact hself
        · exact hsub m' (hsaved m' data' hm')
    | prune retainCount =>
      refine ⟨hold.prune retainCount, fun m data hm => hsub m (hsaved m data ?_)⟩
      by_cases hin : m.index ∈ highest (SnapshotMap.after ops).indices (max retainCount 1).toNat
      · rwa [SnapshotMap.step_prune_of_mem hin] at hm
      · rw [SnapshotMap.step_prune_of_notMem hin] at hm
        cases hm

/-- **The store refines a finite map.**  After any calls of `Save` and `Prune` the list is
strictly decreasing and has the indices of the map with their terms, `Latest` is the
highest of them, `Load` returns what was saved last, and nothing else is found.  `Prune`
leaves the first of the list, and `Save` does not fail. -/
theorem snapshot_store_refines_map {ops : List SnapshotOp} (hproper : ∀ op ∈ ops, op.Proper)
    (hterm : OneTerm ops) :
    ((SnapshotDir.after ops).list.Pairwise fun a b => b.index < a.index) ∧
    (∀ m : SnapshotMeta, m ∈ (SnapshotDir.after ops).list ↔
      ∃ data, SnapshotMap.after ops m.index = some (m.term, data)) ∧
    (∀ retainCount, ((SnapshotDir.after ops).prune retainCount).list =
      (SnapshotDir.after ops).list.take (max retainCount 1).toNat) ∧
    (∀ m, (SnapshotDir.after ops).latest = some m ↔
      (∃ data, SnapshotMap.after ops m.index = some (m.term, data)) ∧
        ∀ i ∈ (SnapshotMap.after ops).indices, i ≤ m.index) ∧
    ((SnapshotDir.after ops).latest = none ↔ ∀ i, SnapshotMap.after ops i = none) ∧
    (∀ i term data, SnapshotMap.after ops i = some (term, data) →
      ∃ csum, (SnapshotDir.after ops).load i = .ok ⟨⟨i, term⟩, csum, data⟩) ∧
    (∀ i, SnapshotMap.after ops i = none →
      (SnapshotDir.after ops).load i = .error .snapshotNotFound) ∧
    (∀ range m data, Storable range m data →
      ((SnapshotDir.after ops).save range m data).2 = none) := by
  obtain ⟨h, -⟩ := holds_after hproper hterm
  refine ⟨h.pairwise_list, fun m => h.mem_list, h.list_prune, fun m => h.latest_eq_some,
    h.latest_eq_none, fun i term data hi => h.load_some hi, fun i hi => h.load_none hi, ?_⟩
  intro range m data hs
  obtain ⟨raw, csum, hencode, -⟩ := hs.encode
  rw [SnapshotDir.save_of_encode _ hencode]

end

section

local instance dirJson : ConfigJson := formatJson

local instance dirCrc32 : Crc32 := Crc32.ieee

/-- One entry under the key `x`. -/
def oneEntry (value : Bytes) : SnapshotContents :=
  ⟨Function.update (fun _ => none) (goString "x") (some value), soleVoter⟩

/-- Its records. -/
def oneEntryRange (value : Bytes) : (Bytes → Option Bytes) → List (Bytes × Bytes) :=
  fun _ => [(snapshotConfigKey, soleVoterJson), (goString "x", value)]

theorem storable_oneEntry {m : SnapshotMeta} (hm : m.Named) {value : Bytes}
    (hvalue : value.length ≤ 0xFFFFFFFF) : Storable (oneEntryRange value) m (oneEntry value) where
  named := hm
  entries key value' h := by
    change Function.update (fun _ => none) (goString "x") (some value) key = some value' at h
    by_cases hkey : key = goString "x"
    · rw [hkey, Function.update_self] at h
      obtain rfl := Option.some.inj h
      rw [hkey]
      exact ⟨by decide, by decide, hvalue⟩
    · rw [Function.update_of_ne hkey] at h
      cases h
  config := by
    refine ⟨soleVoterJson, if_pos rfl, if_pos rfl, by decide, ⟨?_, ?_⟩, ?_⟩
    · exact (by decide : [snapshotConfigKey, goString "x"].Nodup)
    · intro key value'
      show (key, value') ∈ [(snapshotConfigKey, soleVoterJson), (goString "x", value)] ↔
        Function.update (Function.update (fun _ => none) (goString "x") (some value))
          snapshotConfigKey (some soleVoterJson) key = some value'
      have hne : goString "x" ≠ snapshotConfigKey := by decide
      by_cases hconfig : key = snapshotConfigKey
      · subst hconfig
        simp [hne.symm, eq_comm]
      · by_cases hx : key = goString "x"
        · subst hx
          simp [hne, hne.symm, eq_comm]
        · simp [hconfig, hx]
    · exact (by decide : 2 < 2 ^ 63)

/-- Out of order, with a negative term, and one index saved twice. -/
def savedTwice : List SnapshotOp :=
  [.save (oneEntryRange [49]) ⟨5, 2⟩ (oneEntry [49]),
    .save (oneEntryRange [49]) ⟨12, -1⟩ (oneEntry [49]),
    .save (oneEntryRange [50]) ⟨5, 2⟩ (oneEntry [50])]

/-- The second one is loaded, and `Prune` leaves the other index. -/
theorem snapshot_store_refines_map_twice :
    (∃ csum, (SnapshotDir.after savedTwice).load 5 = .ok ⟨⟨5, 2⟩, csum, oneEntry [50]⟩) ∧
      (SnapshotDir.after savedTwice).load 7 = .error .snapshotNotFound ∧
      ((SnapshotDir.after savedTwice).prune 0).list = [⟨12, -1⟩] := by
  have hproper : ∀ op ∈ savedTwice, op.Proper := by
    intro op hop
    simp only [savedTwice, List.mem_cons, List.not_mem_nil, or_false] at hop
    rcases hop with rfl | rfl | rfl
    · exact storable_oneEntry ⟨by decide, by decide, by decide⟩ (by decide)
    · exact storable_oneEntry ⟨by decide, by decide, by decide⟩ (by decide)
    · exact storable_oneEntry ⟨by decide, by decide, by decide⟩ (by decide)
  have hterm : OneTerm savedTwice := by
    unfold OneTerm
    decide
  obtain ⟨_, _, hprune, _, _, hload, hnone, _⟩ := snapshot_store_refines_map hproper hterm
  refine ⟨hload 5 2 _ rfl, hnone 7 rfl, ?_⟩
  decide +kernel

end

end Raft
