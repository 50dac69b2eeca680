/-
CoreX/Raft/Machine.lean

The key-value state machine with its durable store and the callers that wait for
an index.  `apply` writes to the store first; if that fails, neither the map nor
`lastApplied` changes and nobody is woken, so that the entry can be applied again
after a restart.

But the loop goes on with the next entry, and if that one succeeds, `lastApplied`
moves past the failed one (`failed_write_skipped`).  The law holds as long as
nothing is applied behind a failed write (`applied_entries_durable`).

A write to the store appends a data record and a checkpoint.  A call that fails
may have left none, one or both of them: both if the index in memory was full
(`perform_kvWritten` compares with the store itself).  Keys and values of more than
65535 bytes are not read back, so the law asks for shorter ones.
-/
import CoreX.Lib.Replay
import CoreX.Lib.Run
import CoreX.Raft.Snapshot
import CoreX.Storage.KvRecovery

namespace Raft

open StepSystem

/-! ### Commands -/

section

variable [Codec] (e : LogEntry)

/-- What the state machine does with an entry: set a key, delete it, or nothing,
for a malformed entry or an unknown operation. -/
def kvOp : Option (String × Option String) :=
  match Codec.unmarshalCommand e.data with
  | none => none
  | some cmd =>
      if cmd.op = "set" then some (cmd.key, some cmd.value)
      else if cmd.op = "del" then some (cmd.key, none)
      else none

/-- The entry parses. -/
def wellFormed : Bool := (Codec.unmarshalCommand e.data).isSome

theorem wellFormed_of_kvOp {e : LogEntry} (h : (kvOp e).isSome = true) : wellFormed e = true := by
  unfold kvOp at h
  unfold wellFormed
  rcases hc : Codec.unmarshalCommand e.data with - | cmd
  · simp [hc] at h
  · rfl

namespace KVStateMachine

theorem apply_eq (sm : KVStateMachine) (e : LogEntry) :
    sm.apply e false =
      ⟨Replay.act kvOp sm.data e, if wellFormed e then e.index else sm.lastApplied⟩ := by
  unfold apply Replay.act kvOp wellFormed
  rcases hc : Codec.unmarshalCommand e.data with - | cmd
  · rfl
  · simp only [Bool.false_eq_true, if_false, Option.isSome_some, if_true]
    split
    · rfl
    · split <;> rfl

theorem apply_failed {sm : KVStateMachine} {e : LogEntry} (h : (kvOp e).isSome = true) :
    sm.apply e true = sm := by
  unfold kvOp at h
  unfold apply
  rcases hc : Codec.unmarshalCommand e.data with - | cmd
  · rfl
  · simp only [hc] at h
    simp only [if_true]
    split
    · rfl
    · next hset =>
      split
      · rfl
      · next hdel =>
        rw [if_neg hset, if_neg hdel] at h
        cases h

theorem apply_unwritten {sm : KVStateMachine} {e : LogEntry} (h : kvOp e = none) (fails : Bool) :
    sm.apply e fails = sm.apply e false := by
  unfold kvOp at h
  unfold apply
  rcases hc : Codec.unmarshalCommand e.data with - | cmd
  · rfl
  · simp only [hc] at h
    split at h
    · cases h
    · next hset =>
      split at h
      · cases h
      · next hdel => simp only [if_neg hset, if_neg hdel]

end KVStateMachine

/-! ### The durable store -/

/-- A record of the store's file. -/
inductive KvRecord
  | set (key value : String) (raftIndex : Int)
  | del (key : String) (raftIndex : Int)
  | checkpoint (raftIndex : Int)
  deriving DecidableEq, Repr

/-- The bytes that are written. -/
def KvRecord.payload : KvRecord → Bytes
  | .set key value raftIndex => Kv.encodeKVSet (goString key) (goString value) raftIndex
  | .del key raftIndex => Kv.encodeKVDel (goString key) raftIndex
  | .checkpoint raftIndex => Kv.encodeKVMeta Kv.metaKeyLastApplied raftIndex

/-- What a reader of these bytes should find. -/
def KvRecord.content : KvRecord → Kv.KVRecord
  | .set key value raftIndex => ⟨Kv.kvRecordTypeSet, raftIndex, goString key, goString value⟩
  | .del key raftIndex => ⟨Kv.kvRecordTypeDel, raftIndex, goString key, []⟩
  | .checkpoint raftIndex => ⟨Kv.kvRecordTypeMeta, raftIndex, Kv.metaKeyLastApplied, []⟩

/-- The call of `WriteKV` or `DeleteKV` for an entry, with the times of its records. -/
def storeCall (now now' : UInt64) (e : LogEntry) : Option Kv.KvOp :=
  (kvOp e).map fun op => ⟨now, now', goString op.1, op.2.map goString, e.index⟩

/-- Key and value have at most 65535 bytes, and the index is an `int64`. -/
def storable : Bool := (storeCall 0 0 e).all fun op => decide op.Proper

/-- The records `WriteKV` or `DeleteKV` appends for an entry. -/
def kvRecords : List KvRecord :=
  match kvOp e with
  | none => []
  | some (key, some value) => [.set key value e.index, .checkpoint e.index]
  | some (key, none) => [.del key e.index, .checkpoint e.index]

/-- How a call of the store ends; a failed one has appended the first `records` of
its two records. -/
inductive StoreResult
  | ok
  | failed (records : Nat)
  deriving DecidableEq, Repr

/-- The call for this entry fails: there is one, and its result is an error. -/
def writeFails : StoreResult → Bool
  | .ok => false
  | .failed _ => (kvOp e).isSome

/-- The records of the entry that are in the file afterwards. -/
def kvWritten : StoreResult → List KvRecord
  | .ok => kvRecords e
  | .failed n => (kvRecords e).take n

theorem decodeKVRecord_payload {e : LogEntry} (h : storable e = true) :
    ∀ r ∈ kvRecords e, Kv.decodeKVRecord r.payload = .ok r.content := by
  unfold storable storeCall at h
  unfold kvRecords
  rcases hop : kvOp e with - | ⟨key, - | value⟩
  · simp
  · rw [hop] at h
    have hproper : Kv.KvOp.Proper ⟨0, 0, goString key, none, e.index⟩ := of_decide_eq_true h
    intro r hr
    rcases List.mem_pair.mp hr with rfl | rfl
    · exact Kv.decodeKVRecord_del hproper.raftIndex hproper.key
    · exact Kv.decodeKVRecord_meta hproper.raftIndex
  · rw [hop] at h
    have hproper : Kv.KvOp.Proper ⟨0, 0, goString key, some (goString value), e.index⟩ :=
      of_decide_eq_true h
    intro r hr
    rcases List.mem_pair.mp hr with rfl | rfl
    · exact Kv.decodeKVRecord_set hproper.raftIndex hproper.key (hproper.value _ rfl)
    · exact Kv.decodeKVRecord_meta hproper.raftIndex

theorem perform_kvWritten [Wal.Crc32] (st : Kv.Store) {e : LogEntry} {now now' : UInt64}
    {op : Kv.KvOp} (h : storeCall now now' e = some op) :
    ∃ r, writeFails e r = (st.perform op).2.isSome ∧ (st.perform op).1.writer.file =
      st.writer.file ++ ((kvWritten e r).zipWith (fun x t => Wal.encode ⟨t, x.payload⟩)
        [now, now']).flatten := by
  obtain ⟨⟨key, value⟩, hop, rfl⟩ := Option.map_eq_some_iff.mp h
  have hsome : (kvOp e).isSome = true := by rw [hop]; rfl
  have hboth : ∀ {file : Bytes} {op : Kv.KvOp},
      op = ⟨now, now', goString key, value.map goString, e.index⟩ →
      file ++ Wal.encode op.dataRecord ++ Wal.encode op.metaRecord =
        file ++ ((kvRecords e).zipWith (fun x t => Wal.encode ⟨t, x.payload⟩)
          [now, now']).flatten := by
    rintro file op rfl
    rw [kvRecords, hop]
    rcases value with - | value <;>
      simp only [List.zipWith_cons_cons, List.zipWith_nil_left, List.flatten_cons,
        List.flatten_nil, List.append_nil, List.append_assoc] <;> rfl
  have htwo : (kvRecords e).take 2 = kvRecords e := by
    rw [kvRecords, hop]
    rcases value with - | value <;> rfl
  rcases st.perform_cases ⟨now, now', goString key, value.map goString, e.index⟩ with
    ⟨herr, heq⟩ | ⟨hfile, herr | ⟨herr, -⟩⟩
  · exact ⟨.failed 0, by rw [herr]; exact hsome, by rw [heq]; simp [kvWritten]⟩
  · exact ⟨.failed 2, by rw [herr]; exact hsome, by rw [hfile, kvWritten, htwo]; exact hboth rfl⟩
  · exact ⟨.ok, by rw [herr]; rfl, by rw [hfile]; exact hboth rfl⟩

end

/-! ### The machine -/

/-- `KVStateMachine` with its store and its waiters, each by the index it waits
for. -/
structure Machine where
  sm : KVStateMachine
  kv : List KvRecord
  /-- `WaitForIndex` has not found the index applied and will register. -/
  checking : List Int
  waiters : List Int
  /-- The calls of `WaitForIndex` that have returned `nil`. -/
  returned : List Int

namespace Machine

variable (m : Machine)

/-- `NewKVStateMachine` on an empty store. -/
def initial : Machine := ⟨newKVStateMachine, [], [], [], []⟩

/-- `notifyWaiters`. -/
def notifyWaiters (index : Int) : Machine :=
  { m with
    waiters := m.waiters.filter fun i => i ≠ index
    returned := m.returned ++ m.waiters.filter fun i => i = index }

/-- `apply`. -/
def apply [Codec] (e : LogEntry) (r : StoreResult) : Machine :=
  if writeFails e r then { m with kv := m.kv ++ kvWritten e r }
  else { m with sm := m.sm.apply e false, kv := m.kv ++ kvRecords e }.notifyWaiters e.index

/-- `WaitForIndex`, the fast path. -/
def waitForIndex (index : Int) : Machine :=
  if index ≤ m.sm.lastApplied then { m with returned := m.returned ++ [index] }
  else { m with checking := m.checking ++ [index] }

/-- `WaitForIndex` registers its channel. -/
def register (j : Nat) : Option Machine :=
  (m.checking[j]?).map fun index =>
    { m with checking := m.checking.eraseIdx j, waiters := m.waiters ++ [index] }

/-- `WaitForIndex`, the context is done. -/
def cancel (j : Nat) : Machine := { m with waiters := m.waiters.eraseIdx j }

end Machine

/-! ### Applying a log in its order -/

/-- The entries of a log, from index `1` on without gaps. -/
structure CommittedLog where
  entries : List LogEntry
  index_eq : ∀ (n : Nat) (e : LogEntry), entries[n]? = some e → e.index = n + 1

/-- The log of the commands with these JSON texts, all of term 1. -/
def CommittedLog.ofTexts (texts : List String) : CommittedLog where
  entries := (texts.zipIdx 1).map fun p => ⟨p.2, 1, entryTypeCommand, goString p.1⟩
  index_eq n e h := by
    rw [List.getElem?_map, List.getElem?_zipIdx, Option.map_map] at h
    obtain ⟨text, _, rfl⟩ := Option.map_eq_some_iff.mp h
    show ((1 + n : Nat) : Int) = n + 1
    omega

/-- A machine that has been given the first `next` entries of a log. -/
structure Applying where
  m : Machine
  next : Nat

inductive ApplyEvent
  | apply (r : StoreResult)
  | wait (index : Int)
  | register (j : Nat)
  | cancel (j : Nat)
  deriving DecidableEq, Repr

section

variable [Codec] (C : CommittedLog)

def Applying.step (s : Applying) : ApplyEvent → Option Applying
  | .apply r => (C.entries[s.next]?).map fun e => ⟨s.m.apply e r, s.next + 1⟩
  | .wait index => some { s with m := s.m.waitForIndex index }
  | .register j => (s.m.register j).map fun m => { s with m := m }
  | .cancel j => some { s with m := s.m.cancel j }

/-- Entry `n` of the log, a set or a delete, is in the map's past, and its records
are in the store and are read back with its key, value and index. -/
def Applying.Durable (s : Applying) (n : Nat) : Prop :=
  ∀ e, C.entries[n]? = some e → (kvOp e).isSome = true →
    e.index ≤ s.m.sm.lastApplied ∧
      ∀ r ∈ kvRecords e, r ∈ s.m.kv ∧ Kv.decodeKVRecord r.payload = .ok r.content

/-- **INV-1.**  The map is that of the first `lastApplied` entries, these are
durable, and so is every entry somebody has waited for. -/
structure Applying.Law (s : Applying) : Prop where
  data : s.m.sm.data = Replay.stateAt kvOp C.entries s.m.sm.lastApplied.toNat
  durable : ∀ n : Nat, (n : Int) < s.m.sm.lastApplied → s.Durable C n
  waited : ∀ i ∈ s.m.returned, ∀ n : Nat, i = n + 1 → s.Durable C n

/-- All sets and deletes given to the machine have been applied. -/
def caughtUp (s : Applying) : Bool :=
  (C.entries.take s.next).all fun e => (kvOp e).isNone || decide (e.index ≤ s.m.sm.lastApplied)

/-- Nothing is applied behind a failed write: an entry that moves `lastApplied`
finds the machine caught up. -/
def noneSkipped (s : Applying) : ApplyEvent → Bool
  | .apply r =>
      match C.entries[s.next]? with
      | none => true
      | some e => !wellFormed e || writeFails e r || caughtUp C s
  | _ => true

/-- A key or a value that is written has at most 65535 bytes. -/
def writesStorable (s : Applying) : ApplyEvent → Bool
  | .apply r => (C.entries[s.next]?).all fun e => writeFails e r || storable e
  | _ => true

/-! ### The law along a run -/

variable {C} {s s' : Applying}

/-- The machine is not ahead of what it was given, and the law holds. -/
structure ApplyInv (C : CommittedLog) (s : Applying) : Prop where
  nonneg : 0 ≤ s.m.sm.lastApplied
  given : s.m.sm.lastApplied ≤ s.next
  law : s.Law C

theorem Applying.Durable.mono {n : Nat} (h : s.Durable C n)
    (hla : s.m.sm.lastApplied ≤ s'.m.sm.lastApplied) (hkv : ∀ r ∈ s.m.kv, r ∈ s'.m.kv) :
    s'.Durable C n := by
  intro e he hop
  obtain ⟨hle, hrec⟩ := h e he hop
  exact ⟨hle.trans hla, fun r hr => (hrec r hr).imp_left (hkv r)⟩

theorem ApplyInv.frame (h : ApplyInv C s) (hsm : s'.m.sm = s.m.sm)
    (hnext : s.next ≤ s'.next) (hkv : ∀ r ∈ s.m.kv, r ∈ s'.m.kv)
    (hret : ∀ i ∈ s'.m.returned, i ∈ s.m.returned ∨ ∀ n : Nat, i = n + 1 → s.Durable C n) :
    ApplyInv C s' := by
  have hla : s.m.sm.lastApplied ≤ s'.m.sm.lastApplied := by rw [hsm]
  refine ⟨?_, ?_, ?_, ?_, ?_⟩
  · rw [hsm]
    exact h.nonneg
  · have := h.given
    rw [hsm]
    omega
  · rw [hsm]
    exact h.law.data
  · intro n hn
    rw [hsm] at hn
    exact (h.law.durable n hn).mono hla hkv
  · intro i hi n hin
    rcases hret i hi with hold | hnew
    · exact (h.law.waited i hold n hin).mono hla hkv
    · exact (hnew n hin).mono hla hkv

theorem caughtUp_skip (hC : caughtUp C s = true) (h : ApplyInv C s) :
    Replay.stateAt kvOp C.entries s.next =
      Replay.stateAt kvOp C.entries s.m.sm.lastApplied.toNat := by
  have hgiven := h.given
  apply Replay.stateAt_skip (by omega)
  intro n e hn hlt he
  have hmem : e ∈ C.entries.take s.next := by
    apply List.mem_of_getElem? (i := n)
    rw [List.getElem?_take_of_lt hlt, he]
  have hall := List.all_eq_true.mp hC e hmem
  have hidx := C.index_eq n e he
  rcases hop : kvOp e with - | op
  · rfl
  · -- an entry behind `lastApplied` cannot be a set or a delete
    simp only [hop, Option.isNone_some, Bool.false_or, decide_eq_true_eq] at hall
    omega

theorem ApplyInv.advance (h : ApplyInv C s) {e : LogEntry} (he : C.entries[s.next]? = some e)
    (hC : caughtUp C s = true) (hstore : storable e = true)
    (hsm : s'.m.sm = ⟨Replay.act kvOp s.m.sm.data e, e.index⟩) (hnext : s'.next = s.next + 1)
    (hkv : s'.m.kv = s.m.kv ++ kvRecords e)
    (hret : ∀ i ∈ s'.m.returned, i ∈ s.m.returned ∨ i = e.index) : ApplyInv C s' := by
  have hidx := C.index_eq s.next e he
  have hla : s'.m.sm.lastApplied = s.next + 1 := by rw [hsm]; exact hidx
  have hgiven := h.given
  have hold : ∀ r ∈ s.m.kv, r ∈ s'.m.kv := by
    intro r hr
    rw [hkv]
    exact List.mem_append_left _ hr
  have hmono : s.m.sm.lastApplied ≤ s'.m.sm.lastApplied := by omega
  -- the entry itself is durable now
  have hself : s'.Durable C s.next := by
    intro e' he' _
    obtain rfl : e = e' := Option.some.inj (he.symm.trans he')
    refine ⟨by omega, fun r hr => ⟨?_, decodeKVRecord_payload hstore r hr⟩⟩
    rw [hkv]
    exact List.mem_append_right _ hr
  have hdur : ∀ n : Nat, (n : Int) < s'.m.sm.lastApplied → s'.Durable C n := by
    intro n hn e' he' hop
    have hidx' := C.index_eq n e' he'
    rcases Nat.lt_or_ge n s.next with hlt | hge
    · have hmem : e' ∈ C.entries.take s.next := by
        apply List.mem_of_getElem? (i := n)
        rw [List.getElem?_take_of_lt hlt, he']
      have hall := List.all_eq_true.mp hC e' hmem
      obtain ⟨op, hop'⟩ := Option.isSome_iff_exists.mp hop
      simp only [hop', Option.isNone_some, Bool.false_or, decide_eq_true_eq] at hall
      exact (h.law.durable n (by omega)).mono hmono hold e' he' hop
    · obtain rfl : n = s.next := by omega
      exact hself e' he' hop
  refine ⟨by omega, by omega, ?_, hdur, ?_⟩
  · rw [hsm]
    rw [hidx, show ((s.next : Int) + 1).toNat = s.next + 1 by omega, Replay.stateAt_succ he,
      caughtUp_skip hC h, h.law.data]
  · intro i hi n hin
    rcases hret i hi with hi | rfl
    · exact (h.law.waited i hi n hin).mono hmono hold
    · obtain rfl : n = s.next := by omega
      exact hself

theorem ApplyInv.step {ev : ApplyEvent} (h : ApplyInv C s) (hs : s.step C ev = some s')
    (hok : noneSkipped C s ev = true) (hshort : writesStorable C s ev = true) :
    ApplyInv C s' := by
  cases ev with
  | apply r =>
    obtain ⟨e, he, rfl⟩ := Option.map_eq_some_iff.mp hs
    by_cases hfail : writeFails e r = true
    · -- the write fails: some records may be there, nothing else
      have hm : s.m.apply e r = { s.m with kv := s.m.kv ++ kvWritten e r } := if_pos hfail
      rw [hm]
      exact h.frame rfl (Nat.le_succ _) (fun r hr => List.mem_append_left _ hr)
        fun i hi => .inl hi
    · have hm : s.m.apply e r =
          { s.m with sm := s.m.sm.apply e false, kv := s.m.kv ++ kvRecords e }.notifyWaiters
            e.index := if_neg hfail
      have hret : ∀ i ∈ (s.m.apply e r).returned, i ∈ s.m.returned ∨ i = e.index := by
        intro i hi
        rw [hm] at hi
        rcases List.mem_append.mp hi with hi | hi
        · exact .inl hi
        · exact .inr (by simpa using (List.mem_filter.mp hi).2)
      by_cases hwf : wellFormed e = true
      · have hC : caughtUp C s = true := by
          simpa [noneSkipped, he, hwf, hfail] using hok
        have hstore : storable e = true := by
          simpa [writesStorable, he, hfail] using hshort
        refine h.advance he hC hstore ?_ rfl ?_ hret
        · show (s.m.apply e r).sm = _
          rw [hm]
          show s.m.sm.apply e false = _
          rw [KVStateMachine.apply_eq, if_pos hwf]
        · show (s.m.apply e r).kv = _
          rw [hm]
          rfl
      · -- a malformed entry wakes its waiters and does nothing
        have hop : kvOp e = none := by
          by_contra hne
          exact hwf (wellFormed_of_kvOp (Option.isSome_iff_ne_none.mpr hne))
        have hidx := C.index_eq s.next e he
        refine h.frame ?_ (Nat.le_succ _) ?_ ?_
        · show (s.m.apply e r).sm = _
          rw [hm]
          show s.m.sm.apply e false = _
          rw [KVStateMachine.apply_eq, if_neg hwf, Replay.act_of_none hop]
        · intro x hx
          rw [hm]
          exact List.mem_append_left _ hx
        · intro i hi
          rcases hret i hi with hi | rfl
          · exact .inl hi
          · refine .inr fun n hin e' he' hop' => ?_
            obtain rfl : n = s.next := by omega
            obtain rfl : e = e' := Option.some.inj (he.symm.trans he')
            rw [hop] at hop'
            cases hop'
  | wait index =>
    obtain rfl := Option.some.inj hs
    unfold Machine.waitForIndex
    by_cases hle : index ≤ s.m.sm.lastApplied
    · rw [if_pos hle]
      refine h.frame rfl le_rfl (fun r hr => hr) fun i hi => ?_
      rcases List.mem_append.mp hi with hi | hi
      · exact .inl hi
      · rw [List.mem_singleton.mp hi]
        exact .inr fun n hin => h.law.durable n (by omega)
    · rw [if_neg hle]
      exact h.frame rfl le_rfl (fun r hr => hr) fun i hi => .inl hi
  | register j =>
    obtain ⟨m, hm, rfl⟩ := Option.map_eq_some_iff.mp hs
    obtain ⟨index, -, rfl⟩ := Option.map_eq_some_iff.mp hm
    exact h.frame rfl le_rfl (fun r hr => hr) fun i hi => .inl hi
  | cancel j =>
    obtain rfl := Option.some.inj hs
    exact h.frame rfl le_rfl (fun r hr => hr) fun i hi => .inl hi

/-- **Applied entries are durable**, in every run in which nothing is applied
behind a failed write, and the strings that are written fit into a record. -/
theorem applied_entries_durable (C : CommittedLog) {s : Applying}
    (h : Runs (Applying.step C)
      (fun s ev => noneSkipped C s ev = true ∧ writesStorable C s ev = true)
      ⟨Machine.initial, 0⟩ s) :
    s.Law C := by
  have h0 : ApplyInv C ⟨Machine.initial, 0⟩ :=
    ⟨le_rfl, le_rfl, rfl, fun n hn => absurd hn (by simp [Machine.initial, newKVStateMachine]),
      fun i hi => absurd hi List.not_mem_nil⟩
  exact (h.invariant (fun _ _ _ hinv hs hok => hinv.step hs hok.1 hok.2) h0).law

end

/-! ### Two entries, one failure -/

section

local instance twoKeysCodec : Codec := Codec.twoKeys

/-- `a` is set, then `b`. -/
def twoKeyLog : CommittedLog := .ofTexts [setA, setB]

/-- The write of the first entry fails, that of the second does not; then a client
waits for the first. -/
def failedThenApplied : List ApplyEvent := [.apply (.failed 0), .apply .ok, .wait 1]

/-- **A failed write is skipped.**  The client is told that entry `1` is applied. -/
theorem failed_write_skipped :
    ∃ s, Runs (Applying.step twoKeyLog) (fun _ _ => True) ⟨Machine.initial, 0⟩ s ∧
      (1 ∈ s.m.returned ∧ s.m.sm.data "a" = none ∧ s.m.sm.lastApplied = 2 ∧
        KvRecord.set "a" "1" 1 ∉ s.m.kv) ∧ ¬s.Law twoKeyLog := by
  refine Runs.exists_and_of_exec failedThenApplied (by decide +kernel) ?_
  rintro s _ ⟨_, _, hla, hkv⟩ hlaw
  have hdur := hlaw.durable 0 (by rw [hla]; decide) ⟨1, 1, entryTypeCommand, goString setA⟩ rfl
    (by decide +kernel)
  exact hkv (hdur.2 _ (by decide +kernel)).1

/-- The second write fails, after a client has waited for the first. -/
def appliedThenFailed : List ApplyEvent :=
  [.wait 1, .register 0, .apply .ok, .apply (.failed 1)]

/-- The same log without a success behind a failure. -/
theorem applied_entries_durable_failed :
    ∃ s, Runs (Applying.step twoKeyLog)
        (fun s ev => noneSkipped twoKeyLog s ev = true ∧ writesStorable twoKeyLog s ev = true)
        ⟨Machine.initial, 0⟩ s ∧
      (s.next = 2 ∧ s.m.sm.lastApplied = 1 ∧ s.m.returned = [1]) ∧ s.Law twoKeyLog :=
  Runs.exists_and_of_exec appliedThenFailed (by decide +kernel) fun _ hrun _ =>
    applied_entries_durable twoKeyLog hrun

end

end Raft
