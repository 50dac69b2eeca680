/-
CoreX/Storage/KvRecovery.lean

`RecoverKV` after a crash at any byte.  Every `WriteKV` and `DeleteKV` appends two
records, the data record and the checkpoint, and the file may end anywhere: between
operations, between the two records of one, or inside any field of either.  What the
scan finds is a number of whole operations, and possibly the data record of the next
one; the checkpoint names the last whole operation (`recoverKV_crash_consistent`).
-/
import CoreX.Storage.Kv

namespace Kv

open Bytes StepSystem Wal

/-! ### Operations -/

/-- A call of `WriteKV`, or of `DeleteKV` if there is no value, with the times of its
two records. -/
structure KvOp where
  now : UInt64
  now' : UInt64
  key : List UInt8
  value : Option (List UInt8)
  raftIndex : Int
  deriving DecidableEq, Repr

namespace KvOp

/-- Arguments that the fields of a record have room for. -/
structure Proper (op : KvOp) : Prop where
  key : Short op.key
  value : ∀ v, op.value = some v → Short v
  raftIndex : Fits 8 op.raftIndex

def dataRecord (op : KvOp) : Record :=
  ⟨op.now, match op.value with
    | some v => encodeKVSet op.key v op.raftIndex
    | none => encodeKVDel op.key op.raftIndex⟩

def metaRecord (op : KvOp) : Record :=
  ⟨op.now', encodeKVMeta metaKeyLastApplied op.raftIndex⟩

def records (op : KvOp) : List Record := [op.dataRecord, op.metaRecord]

theorem Proper.sized {op : KvOp} (h : op.Proper) : ∀ r ∈ op.records, r.Sized := by
  intro r hr
  rcases List.mem_pair.mp hr with rfl | rfl
  · unfold dataRecord
    rcases hv : op.value with - | v
    · exact sized_del h.key
    · exact sized_set h.key (h.value v hv)
  · exact sized_meta

theorem length_records (ops : List KvOp) : (ops.flatMap records).length = 2 * ops.length := by
  induction ops with
  | nil => rfl
  | cons op ops ih =>
    rw [List.flatMap_cons, List.length_append, ih, List.length_cons]
    show 2 + 2 * ops.length = _
    omega

theorem records_cut {ops : List KvOp} {bs cs : List Record} (h : ops.flatMap records = bs ++ cs) :
    ∃ j ≤ ops.length, bs = (ops.take j).flatMap records ∨
      ∃ op, ops[j]? = some op ∧ bs = (ops.take j).flatMap records ++ [op.dataRecord] := by
  induction ops generalizing bs with
  | nil => exact ⟨0, Nat.le_refl 0, .inl (List.append_eq_nil_iff.mp h.symm).1⟩
  | cons op ops ih =>
    rcases bs with - | ⟨b, - | ⟨b', bs⟩⟩
    · exact ⟨0, Nat.zero_le _, .inl rfl⟩
    · obtain ⟨rfl, -⟩ := List.cons.inj h
      exact ⟨0, Nat.zero_le _, .inr ⟨op, rfl, rfl⟩⟩
    · obtain ⟨rfl, h'⟩ := List.cons.inj h
      obtain ⟨rfl, hrest⟩ := List.cons.inj h'
      obtain ⟨j, hj, hbs⟩ := ih hrest
      refine ⟨j + 1, Nat.succ_le_succ hj, ?_⟩
      rcases hbs with rfl | ⟨op', hop', rfl⟩
      · exact .inl rfl
      · exact .inr ⟨op', hop', rfl⟩

end KvOp

variable (ops : List KvOp)

/-- The map after the operations. -/
def mapOf : List UInt8 → Option (List UInt8) :=
  ops.foldl (fun m op => Function.update m op.key op.value) fun _ => none

/-- The index of the last operation, or 0. -/
def lastIndex : Int := (ops.getLast?.map KvOp.raftIndex).getD 0

theorem mapOf_concat (op : KvOp) :
    mapOf (ops ++ [op]) = Function.update (mapOf ops) op.key op.value := by
  rw [mapOf, List.foldl_append]
  rfl

theorem lastIndex_concat (op : KvOp) : lastIndex (ops ++ [op]) = op.raftIndex := by
  rw [lastIndex, List.getLast?_concat]
  rfl

/-! ### Which keys an index has -/

namespace HashIndex

/-- The update of the index by an operation. -/
def put (idx : HashIndex) (op : KvOp) (offset : Nat) : Option HashIndex :=
  match op.value with
  | some _ => idx.set op.key offset
  | none => some (idx.delete op.key)

/-- Two indexes with the same keys, in the same room. -/
structure SameKeys (idx idx' : HashIndex) : Prop where
  keys : idx.entries.keys = idx'.entries.keys
  maxKeys : idx.maxKeys = idx'.maxKeys

variable {idx idx' other : HashIndex} {op : KvOp} {offset : Nat}

theorem SameKeys.hasRoom (h : SameKeys idx other) (key : List UInt8) :
    other.hasRoom key = idx.hasRoom key := by
  have hmem : ∀ i : HashIndex, (i.get key).isSome = decide (key ∈ i.entries.keys) := by
    intro i
    rw [Bool.eq_iff_iff, decide_eq_true_iff]
    exact AList.lookup_isSome
  have hlen : ∀ i : HashIndex, i.entries.entries.length = i.entries.keys.length := by
    intro i
    exact (List.length_map _).symm
  unfold HashIndex.hasRoom
  rw [hmem, hmem, hlen, hlen, h.keys, h.maxKeys]

theorem SameKeys.put (h : SameKeys idx other) (hput : idx.put op offset = some idx')
    (offset' : Nat) : ∃ other', other.put op offset' = some other' ∧ SameKeys idx' other' := by
  obtain ⟨now, now', key, - | v, raftIndex⟩ := op
  · obtain rfl := Option.some.inj hput
    refine ⟨_, rfl, ?_, h.maxKeys⟩
    show (idx.entries.erase key).keys = (other.entries.erase key).keys
    rw [AList.keys_erase, AList.keys_erase, h.keys]
  · obtain ⟨hroom, rfl⟩ := eq_of_set hput
    refine ⟨_, if_pos ((h.hasRoom key).trans hroom), ?_, h.maxKeys⟩
    rw [AList.keys_insert, AList.keys_insert, h.keys]

end HashIndex

section

variable [Crc32]

/-! ### Calls that succeed -/

namespace Store

/-- One call. -/
def perform (s : Store) (op : KvOp) : Store × Option StoreError :=
  match op.value with
  | some value => s.writeKV op.now op.now' op.key value op.raftIndex
  | none => s.deleteKV op.now op.now' op.key op.raftIndex

/-- One call that returns no error. -/
def performed (s : Store) (op : KvOp) : Option Store :=
  match s.perform op with
  | (s', none) => some s'
  | (_, some _) => none

/-- Calls one after the other, none of which returns an error. -/
def performAll (s : Store) (ops : List KvOp) : Option Store := ops.foldlM performed s

@[simp] theorem performAll_singleton (s : Store) (op : KvOp) :
    s.performAll [op] = s.performed op := by
  simp only [performAll, List.foldlM_cons, List.foldlM_nil, bind_pure]

theorem performAll_append {s s' : Store} {ops more : List KvOp}
    (h : s.performAll (ops ++ more) = some s') :
    ∃ m, s.performAll ops = some m ∧ m.performAll more = some s' := by
  rw [performAll, List.foldlM_append] at h
  exact Option.bind_eq_some_iff.mp h

theorem perform_cases (s : Store) (op : KvOp) :
    (s.perform op).2 = some .errReservedKey ∧ (s.perform op).1 = s ∨
      (s.perform op).1.writer.file =
        s.writer.file ++ encode op.dataRecord ++ encode op.metaRecord ∧
        ((s.perform op).2 = some .errIndexFull ∨ (s.perform op).2 = none ∧
          ∃ offset, s.index.put op offset = some (s.perform op).1.index) := by
  obtain ⟨now, now', key, - | v, raftIndex⟩ := op
  · by_cases hkey : key = metaKeyLastApplied
    · exact .inl (by simp only [perform, deleteKV, if_pos hkey, and_self])
    · refine .inr ⟨?_, .inr ⟨?_, 0, ?_⟩⟩ <;> simp only [perform, deleteKV, if_neg hkey] <;> rfl
  · by_cases hkey : key = metaKeyLastApplied
    · exact .inl (by simp only [perform, writeKV, if_pos hkey, and_self])
    · rcases hset : s.index.set key s.writer.sizeTracker with - | index
      · refine .inr ⟨?_, .inl ?_⟩
        · simp only [perform, writeKV, if_neg hkey, Writer.writeOffset, hset]
          rfl
        · simp only [perform, writeKV, if_neg hkey, Writer.writeOffset, hset]
      · refine .inr ⟨?_, .inr ⟨?_, s.writer.sizeTracker, ?_⟩⟩
        · simp only [perform, writeKV, if_neg hkey, Writer.writeOffset, hset]
          rfl
        · simp only [perform, writeKV, if_neg hkey, Writer.writeOffset, hset]
        · simp only [perform, writeKV, if_neg hkey, Writer.writeOffset, hset]
          exact hset

theorem performed_eq {s s' : Store} {op : KvOp} (h : s.performed op = some s') :
    s'.writer.file = s.writer.file ++ encode op.dataRecord ++ encode op.metaRecord ∧
      ∃ offset, s.index.put op offset = some s'.index := by
  have hcases := s.perform_cases op
  unfold performed at h
  rcases hp : s.perform op with ⟨t, - | err⟩
  · rw [hp] at h hcases
    obtain rfl := Option.some.inj h
    rcases hcases with ⟨herr, -⟩ | ⟨hfile, herr | ⟨-, hput⟩⟩
    · cases herr
    · cases herr
    · exact ⟨hfile, hput⟩
  · rw [hp] at h
    cases h

end Store

/-! ### What the replay knows -/

/-- The replay of `file` ends with the index `idx`, which leads to `spec`, and the
checkpoint `lastApplied`. -/
structure Recovered (file : List UInt8) (maxKeys : Nat) (lastApplied : Int)
    (spec : List UInt8 → Option (List UInt8)) (idx : HashIndex) : Prop where
  replays : Replays file maxKeys ⟨idx, file.length, lastApplied⟩
  points : Points file idx spec

namespace Recovered

variable {file : List UInt8} {maxKeys : Nat} {la : Int} {spec : List UInt8 → Option (List UInt8)}
  {idx idx' : HashIndex} {op : KvOp}

theorem empty (maxKeys : Nat) :
    Recovered [] maxKeys 0 (fun _ => none) (.newHashIndex maxKeys) where
  replays := ⟨[], rfl, fun _ hr => absurd hr List.not_mem_nil, rfl⟩
  points := fun _ => .inl ⟨rfl, rfl⟩

theorem data (h : Recovered file maxKeys la spec idx) (hop : op.Proper)
    (hput : idx.put op file.length = some idx') :
    Recovered (file ++ encode op.dataRecord) maxKeys la (Function.update spec op.key op.value)
      idx' := by
  unfold HashIndex.put at hput
  unfold KvOp.dataRecord
  rcases hv : op.value with - | v
  · rw [hv] at hput
    obtain rfl := Option.some.inj hput
    exact ⟨h.replays.del hop.raftIndex hop.key op.now, (h.points.append _).delete op.key⟩
  · rw [hv] at hput
    have hval := hop.value v hv
    refine ⟨h.replays.set hop.raftIndex hop.key hval hput op.now, (h.points.append _).set hput ?_⟩
    exact ⟨file, ⟨op.now, _⟩, [], op.raftIndex, by rw [List.append_nil], rfl,
      sized_set hop.key hval, rfl, hop.key, hval, hop.raftIndex⟩

theorem checkpoint (h : Recovered file maxKeys la spec idx) (hop : op.Proper) :
    Recovered (file ++ encode op.metaRecord) maxKeys op.raftIndex spec idx :=
  ⟨h.replays.meta hop.raftIndex op.now', h.points.append _⟩

theorem recoverKV (h : Recovered file maxKeys la spec idx) {t : List UInt8}
    (ht : Frames.Torn encode Record.Sized t) :
    ∃ s, (Store.newStore (file ++ t) maxKeys).recoverKV = .ok (s, la) ∧
      ∀ key, s.getKV key = .ok (found (spec key)) :=
  ⟨_, h.replays.recoverKV_torn ht, fun key => (h.points.append t).getKV key⟩

theorem of_performAll {ops : List KvOp} {s : Store} (hops : ∀ op ∈ ops, op.Proper)
    (h : (Store.newStore [] maxKeys).performAll ops = some s) :
    s.writer.file = (ops.flatMap KvOp.records).flatMap encode ∧
      ∃ idx, s.index.SameKeys idx ∧
        Recovered s.writer.file maxKeys (lastIndex ops) (mapOf ops) idx := by
  induction ops using List.reverseRecOn generalizing s with
  | nil =>
    obtain rfl := Option.some.inj h
    exact ⟨rfl, _, ⟨rfl, rfl⟩, empty maxKeys⟩
  | append_singleton ops op ih =>
    obtain ⟨m, hm, hlast⟩ := Store.performAll_append h
    rw [Store.performAll_singleton] at hlast
    obtain ⟨hfile, idx, hsame, hrec⟩ :=
      ih (fun o ho => hops o (List.mem_append_left _ ho)) hm
    have hop := hops op (List.mem_append_right _ List.mem_cons_self)
    obtain ⟨hfile', offset, hput⟩ := Store.performed_eq hlast
    obtain ⟨idx', hput', hsame'⟩ := hsame.put hput m.writer.file.length
    refine ⟨?_, idx', hsame', ?_⟩
    · rw [hfile', hfile]
      simp only [KvOp.records, List.flatMap_append, List.flatMap_cons, List.flatMap_nil,
        List.append_nil, List.append_assoc]
    · rw [hfile', lastIndex_concat, mapOf_concat]
      exact (hrec.data hop hput').checkpoint hop

end Recovered

/-! ### Every byte -/

/-- The bytes of the operations in the file. -/
def fileOf (ops : List KvOp) : List UInt8 := (ops.flatMap KvOp.records).flatMap encode

theorem isGreatest_cut {ops : List KvOp} {bs : List Record} {cut j : Nat} (hj : j ≤ ops.length)
    (hbs : bs = (ops.take j).flatMap KvOp.records ∨
      ∃ op : KvOp, bs = (ops.take j).flatMap KvOp.records ++ [op.dataRecord])
    (hlen : (bs.flatMap encode).length ≤ cut)
    (hkeep : ∀ ds es, ops.flatMap KvOp.records = ds ++ es → (ds.flatMap encode).length ≤ cut →
      ∃ fs, bs = ds ++ fs) :
    IsGreatest {k | k ≤ ops.length ∧ (fileOf (ops.take k)).length ≤ cut} j := by
  refine ⟨⟨hj, ?_⟩, ?_⟩
  · rcases hbs with rfl | ⟨op, rfl⟩
    · exact hlen
    · rw [List.flatMap_append, List.length_append] at hlen
      exact (Nat.le_add_right _ _).trans hlen
  · rintro k ⟨hk, hcut⟩
    obtain ⟨fs, hfs⟩ := hkeep ((ops.take k).flatMap KvOp.records)
      ((ops.drop k).flatMap KvOp.records)
      (by rw [← List.flatMap_append, List.take_append_drop]) hcut
    have hcount := congrArg List.length hfs
    rw [List.length_append, KvOp.length_records, List.length_take_of_le hk] at hcount
    rcases hbs with rfl | ⟨op, rfl⟩
    · rw [KvOp.length_records, List.length_take_of_le hj] at hcount
      omega
    · rw [List.length_append, KvOp.length_records, List.length_take_of_le hj] at hcount
      simp only [List.length_singleton] at hcount
      omega

/-- **`RecoverKV` is crash-consistent at every byte.**  After successful operations on
a new store the file is cut anywhere; let `j` operations end before the cut.  A store
that is opened on the file recovers without an error; it returns the index of the last of
the `j` operations, or 0 if there is none, and it is the map after these operations or
after one more. -/
theorem recoverKV_crash_consistent {maxKeys : Nat} {ops : List KvOp} {s : Store}
    (hops : ∀ op ∈ ops, op.Proper)
    (h : (Store.newStore [] maxKeys).performAll ops = some s) (cut : Nat) :
    ∃ s' j, IsGreatest {k | k ≤ ops.length ∧ (fileOf (ops.take k)).length ≤ cut} j ∧
      (Store.newStore (s.writer.file.take cut) maxKeys).recoverKV =
        .ok (s', lastIndex (ops.take j)) ∧
      ((∀ key, s'.getKV key = .ok (found (mapOf (ops.take j) key))) ∨
        ∀ key, s'.getKV key = .ok (found (mapOf (ops.take (j + 1)) key))) := by
  have hsized : ∀ r ∈ ops.flatMap KvOp.records, r.Sized := by
    intro r hr
    obtain ⟨op, hop, hr⟩ := List.mem_flatMap.mp hr
    exact (hops op hop).sized r hr
  have htake :
    ∀ j, ∀ op ∈ ops.take j, op.Proper := fun j op hop => hops op (List.mem_of_mem_take hop)
  obtain ⟨bs, cs, t, hsplit, ht, hcut, hkeep⟩ :=
    Frames.Torn.exists_cut hsized (Frames.Torn.nil : Frames.Torn encode Record.Sized []) cut
  rw [List.append_nil, ← (Recovered.of_performAll hops h).1] at hcut
  obtain ⟨j, hj, hbs⟩ := KvOp.records_cut hsplit
  have hlen : (bs.flatMap encode).length ≤ cut := by
    have hle := (congrArg List.length hcut).symm.trans_le (List.length_take_le cut _)
    rw [List.length_append] at hle
    exact (Nat.le_add_right _ _).trans hle
  have hgreatest := isGreatest_cut hj (hbs.imp_right fun ⟨op, _, hop⟩ => ⟨op, hop⟩) hlen hkeep
  -- the first `j` operations succeed by themselves
  rw [← List.take_append_drop j ops] at h
  obtain ⟨m, hm, hrest⟩ := Store.performAll_append h
  obtain ⟨hfile, idx, hsame, hrec⟩ := Recovered.of_performAll (htake j) hm
  rcases hbs with rfl | ⟨op, hop, rfl⟩
  · obtain ⟨s', hs', hget⟩ := hrec.recoverKV ht
    rw [hfile, ← hcut] at hs'
    exact ⟨s', j, hgreatest, hs', .inl hget⟩
  · -- the data record of one more operation is whole
    have hdrop : ops.drop j = [op] ++ ops.drop (j + 1) := by
      rw [List.drop_eq_getElem?_toList_append, hop]
      rfl
    rw [hdrop] at hrest
    obtain ⟨m', hm', -⟩ := Store.performAll_append hrest
    rw [Store.performAll_singleton] at hm'
    obtain ⟨offset, hput⟩ := (Store.performed_eq hm').2
    obtain ⟨idx', hput', -⟩ := hsame.put hput m.writer.file.length
    obtain ⟨s', hs', hget⟩ :=
      (hrec.data (hops op (List.mem_of_getElem? hop)) hput').recoverKV ht
    have hnext :
        mapOf (ops.take (j + 1)) = Function.update (mapOf (ops.take j)) op.key op.value := by
      rw [List.take_add_one, hop]
      exact mapOf_concat _ op
    rw [hfile, ← List.flatMap_singleton encode op.dataRecord, ← List.flatMap_append, ← hcut] at hs'
    exact ⟨s', j, hgreatest, hs', .inr fun key => hnext ▸ hget key⟩

end

section

local instance crashCrc : Crc32 := Crc32.ieee

/-- `a` is set, deleted and set again. -/
def threeOps : List KvOp :=
  [⟨1, 2, [97], some [49], 1⟩, ⟨3, 4, [97], none, 2⟩, ⟨5, 6, [97], some [50], 5⟩]

instance KvOp.decidableProper (op : KvOp) : Decidable op.Proper :=
  decidable_of_iff (Short op.key ∧ (∀ v ∈ op.value, Short v) ∧ Fits 8 op.raftIndex)
    ⟨fun h => ⟨h.1, h.2.1, h.2.2⟩, fun h => ⟨h.key, h.value, h.raftIndex⟩⟩

/-- The file ends inside the checkpoint of the second operation. -/
theorem recoverKV_crash_consistent_three :
    ∃ s, (Store.newStore [] 10).performAll threeOps = some s ∧
      ∃ s' j, IsGreatest {k | k ≤ threeOps.length ∧ (fileOf (threeOps.take k)).length ≤ 160} j ∧
      (Store.newStore (s.writer.file.take 160) 10).recoverKV =
        .ok (s', lastIndex (threeOps.take j)) ∧
      ((∀ key, s'.getKV key = .ok (found (mapOf (threeOps.take j) key))) ∨
        ∀ key, s'.getKV key = .ok (found (mapOf (threeOps.take (j + 1)) key))) := by
  obtain ⟨s, hs, -⟩ := exists_of_any (o := (Store.newStore [] 10).performAll threeOps)
    (P := fun s => s.writer.file.length = 264) (by decide +kernel)
  exact ⟨s, hs, recoverKV_crash_consistent (by decide) hs 160⟩

end

end Kv
