/-
CoreX/Raft/KvSections.lean

`KVStateMachine` section by section.  `apply` makes four steps: the write to the store,
the update of the map under `mu`, the store of `lastApplied`, and the notification
under `waitMu`.  `WaitForIndex` looks at `lastApplied` and registers in a second step,
`RestoreSnapshot` sets map and `lastApplied` under `mu` and then notifies.  Each of
them is a step here, and the steps of different calls may come in any order; `Machine`
has `apply` in one piece (`exists_apply`).

Between the second and the third step the map is one entry ahead of `lastApplied`, and
this is what `TakeSnapshot` returns then (`snapshot_ahead_of_index`).  Unless that entry
leaves the map as it is, every other moment gives a pair that belongs together, and
no other (`snapshot_pairs`).

A caller that has found its index not applied can register after the notification for
it, and then nobody wakes it (`wakeup_lost`).  `timely` says what rules this out
(`no_lost_wakeup`).
-/
import CoreX.Raft.Machine

namespace Raft

open StepSystem

/-! ### The sections -/

/-- Where the goroutine of `apply` is. -/
inductive ApplyStage
  | idle
  /-- The entry is in the store. -/
  | written (e : LogEntry)
  /-- It is in the map. -/
  | updated (e : LogEntry)
  /-- It is `lastApplied`, and to be notified. -/
  | stored (e : LogEntry)
  /-- It does not parse, and is to be notified. -/
  | malformed (e : LogEntry)
  deriving DecidableEq, Repr

/-- A call of `RestoreSnapshot` between its two sections, with what `lastApplied` was
before. -/
structure Restoring where
  upTo : Int
  before : Int
  deriving DecidableEq, Repr

/-- The state machine and the goroutines at it. -/
structure KvThreads where
  m : Machine
  stage : ApplyStage
  /-- What is still to come through `applyCh`. -/
  incoming : List LogEntry
  restoring : List Restoring
  /-- The entries that have reached the map, a history that no section reads. -/
  applied : List LogEntry
  /-- The indexes of the entries and snapshots that are applied and notified, another. -/
  announced : List Int
  /-- The indexes of the entries that went by without being applied: the write to the store
  failed, or they do not parse. -/
  skipped : List Int

inductive KvAct
  | write (r : StoreResult)
  | update
  | store
  | notify
  | wait (index : Int)
  | register (j : Nat)
  | cancel (j : Nat)
  | restore (data : String → Option String) (lastApplied : Int)
  | wakeUpTo (j : Nat)

/-- `notifyAllWaitersUpTo`. -/
def Machine.notifyAllWaitersUpTo (m : Machine) (upTo : Int) : Machine :=
  { m with
    waiters := m.waiters.filter fun i => ¬i ≤ upTo
    returned := m.returned ++ m.waiters.filter fun i => i ≤ upTo }

namespace KvThreads

def initial (entries : List LogEntry) : KvThreads := ⟨.initial, .idle, entries, [], [], [], []⟩

section

variable [Codec] (s : KvThreads)

/-- `apply` up to the result of the store.  A malformed entry skips the rest, a failed
write ends the call. -/
def write (r : StoreResult) : Option KvThreads :=
  match s.stage, s.incoming with
  | .idle, e :: rest =>
      if !wellFormed e then some { s with stage := .malformed e, incoming := rest }
      else if writeFails e r then
        some { s with
          m := { s.m with kv := s.m.kv ++ kvWritten e r }
          incoming := rest
          skipped := s.skipped ++ [e.index] }
      else
        some { s with
          m := { s.m with kv := s.m.kv ++ kvRecords e }
          stage := .written e
          incoming := rest }
  | _, _ => none

/-- `apply`, the section under `mu`. -/
def update : Option KvThreads :=
  match s.stage with
  | .written e =>
      some { s with
        m := { s.m with sm := { s.m.sm with data := Replay.act kvOp s.m.sm.data e } }
        stage := .updated e
        applied := s.applied ++ [e] }
  | _ => none

/-- `sm.lastApplied.Store(entry.Index)`. -/
def store : Option KvThreads :=
  match s.stage with
  | .updated e =>
      some { s with
        m := { s.m with sm := { s.m.sm with lastApplied := e.index } }
        stage := .stored e }
  | _ => none

/-- `sm.notifyWaiters(entry.Index)`. -/
def notify : Option KvThreads :=
  match s.stage with
  | .stored e =>
      some { s with
        m := s.m.notifyWaiters e.index
        stage := .idle
        announced := s.announced ++ [e.index] }
  | .malformed e =>
      some { s with
        m := s.m.notifyWaiters e.index
        stage := .idle
        skipped := s.skipped ++ [e.index] }
  | _ => none

/-- `RestoreSnapshot`, the section under `mu`. -/
def restore (data : String → Option String) (lastApplied : Int) : KvThreads :=
  { s with
    m := { s.m with sm := ⟨data, lastApplied⟩ }
    restoring := s.restoring ++ [⟨lastApplied, s.m.sm.lastApplied⟩] }

/-- `RestoreSnapshot`, the notification. -/
def wakeUpTo (j : Nat) : Option KvThreads :=
  (s.restoring[j]?).map fun r =>
    { s with
      m := s.m.notifyAllWaitersUpTo r.upTo
      restoring := s.restoring.eraseIdx j
      announced := s.announced ++ [r.upTo] }

/-- One section. -/
def step : KvAct → Option KvThreads
  | .write r => s.write r
  | .update => s.update
  | .store => s.store
  | .notify => s.notify
  | .wait index => some { s with m := s.m.waitForIndex index }
  | .register j => (s.m.register j).map fun m => { s with m := m }
  | .cancel j => some { s with m := s.m.cancel j }
  | .restore data lastApplied => some (s.restore data lastApplied)
  | .wakeUpTo j => s.wakeUpTo j

/-- `TakeSnapshot`.  `lastApplied` is read first and the map cannot change meanwhile. -/
def takeSnapshot : (String → Option String) × Int := (s.m.sm.data, s.m.sm.lastApplied)

end

/-! ### What each section does -/

section

variable [Codec] {s s' : KvThreads} {r : StoreResult}

theorem write_cases (h : s.write r = some s') :
    s.stage = .idle ∧ ∃ e rest, s.incoming = e :: rest ∧
      ((wellFormed e = false ∧ s' = { s with stage := .malformed e, incoming := rest }) ∨
        (wellFormed e = true ∧ writeFails e r = true ∧
          s' = { s with
            m := { s.m with kv := s.m.kv ++ kvWritten e r }
            incoming := rest
            skipped := s.skipped ++ [e.index] }) ∨
        (wellFormed e = true ∧ writeFails e r = false ∧
          s' = { s with
            m := { s.m with kv := s.m.kv ++ kvRecords e }
            stage := .written e
            incoming := rest })) := by
  unfold write at h
  split at h
  · next e rest hstage hin =>
    refine ⟨hstage, e, rest, hin, ?_⟩
    split at h
    · next hbad =>
      exact .inl ⟨by simpa using hbad, (Option.some.inj h).symm⟩
    · next hwf =>
      split at h
      · next hfail => exact .inr (.inl ⟨by simpa using hwf, hfail, (Option.some.inj h).symm⟩)
      · next hok =>
        exact .inr (.inr ⟨by simpa using hwf, by simpa using hok, (Option.some.inj h).symm⟩)
  · cases h

theorem update_cases (h : s.update = some s') : ∃ e, s.stage = .written e ∧
    s' = { s with
      m := { s.m with sm := { s.m.sm with data := Replay.act kvOp s.m.sm.data e } }
      stage := .updated e
      applied := s.applied ++ [e] } := by
  unfold update at h
  split at h
  · next e hstage => exact ⟨e, hstage, (Option.some.inj h).symm⟩
  · cases h

omit [Codec] in
theorem store_cases (h : s.store = some s') : ∃ e, s.stage = .updated e ∧
    s' = { s with
      m := { s.m with sm := { s.m.sm with lastApplied := e.index } }
      stage := .stored e } := by
  unfold store at h
  split at h
  · next e hstage => exact ⟨e, hstage, (Option.some.inj h).symm⟩
  · cases h

omit [Codec] in
theorem notify_cases (h : s.notify = some s') :
    (∃ e, s.stage = .stored e ∧ s' = { s with
      m := s.m.notifyWaiters e.index
      stage := .idle
      announced := s.announced ++ [e.index] }) ∨
    ∃ e, s.stage = .malformed e ∧ s' = { s with
      m := s.m.notifyWaiters e.index
      stage := .idle
      skipped := s.skipped ++ [e.index] } := by
  unfold notify at h
  split at h
  · next e hstage => exact .inl ⟨e, hstage, (Option.some.inj h).symm⟩
  · next e hstage => exact .inr ⟨e, hstage, (Option.some.inj h).symm⟩
  · cases h

theorem exists_apply {e : LogEntry} {rest : List LogEntry} (r : StoreResult)
    (hstage : s.stage = .idle) (hin : s.incoming = e :: rest) :
    ∃ s', Runs step (fun _ _ => True) s s' ∧ s'.m = s.m.apply e r ∧ s'.stage = .idle ∧
      s'.incoming = rest := by
  rcases hwf : wellFormed e with - | -
  · -- malformed: only the notification follows
    have hop : kvOp e = none := by
      by_contra hne
      rw [wellFormed_of_kvOp (Option.isSome_iff_ne_none.mpr hne)] at hwf
      cases hwf
    have hfail : writeFails e r = false := by
      cases r with
      | ok => rfl
      | failed n => rw [writeFails, hop]; rfl
    have hsm : s.m.sm.apply e false = s.m.sm := by
      rw [KVStateMachine.apply_eq, hwf, Replay.act_of_none hop]
      rfl
    have hwrite : s.step (.write r) = some { s with stage := .malformed e, incoming := rest } := by
      simp [step, write, hstage, hin, hwf]
    refine ⟨_, ((Runs.refl s).tail hwrite trivial).tail (a := .notify) rfl trivial, ?_, rfl, rfl⟩
    rw [Machine.apply, hfail, if_neg Bool.false_ne_true, hsm, kvRecords, hop, List.append_nil]
  · rcases hfail : writeFails e r with - | -
    · -- all four steps
      have hwrite : s.step (.write r) = some { s with
          m := { s.m with kv := s.m.kv ++ kvRecords e }
          stage := .written e
          incoming := rest } := by
        simp [step, write, hstage, hin, hwf, hfail]
      refine ⟨_, ((((Runs.refl s).tail hwrite trivial).tail (a := .update) rfl trivial).tail
        (a := .store) rfl trivial).tail (a := .notify) rfl trivial, ?_, rfl, rfl⟩
      rw [Machine.apply, hfail, if_neg Bool.false_ne_true, KVStateMachine.apply_eq, hwf]
      rfl
    · have hwrite : s.step (.write r) = some { s with
          m := { s.m with kv := s.m.kv ++ kvWritten e r }
          incoming := rest
          skipped := s.skipped ++ [e.index] } := by
        simp [step, write, hstage, hin, hwf, hfail]
      refine ⟨_, (Runs.refl s).tail hwrite trivial, ?_, hstage, rfl⟩
      rw [Machine.apply, hfail, if_pos rfl]

end

end KvThreads

/-! ### Snapshots -/

/-- The entry that `lastApplied` does not count yet. -/
def ApplyStage.pending : ApplyStage → List LogEntry
  | .written e => [e]
  | .updated e => [e]
  | _ => []

/-- The map after some entries. -/
def foldOf [Codec] (es : List LogEntry) : String → Option String :=
  Replay.run kvOp (fun _ => none) es

namespace KvThreads

/-- The entries of the map that `lastApplied` counts. -/
def settled (s : KvThreads) : List LogEntry :=
  match s.stage with
  | .updated _ => s.applied.dropLast
  | _ => s.applied

section

variable [Codec] {s s' : KvThreads} {a : KvAct}

/-- The entries come in the order of their indexes, and `lastApplied` is that of the last
one that has been settled. -/
structure Ordered (s : KvThreads) : Prop where
  data : s.m.sm.data = foldOf s.applied
  below : ∀ e ∈ s.settled, e.index ≤ s.m.sm.lastApplied
  ahead : ∀ e, s.stage = .updated e → s.applied = s.settled ++ [e]
  order : (s.m.sm.lastApplied :: (s.stage.pending ++ s.incoming).map LogEntry.index).Pairwise
    (· < ·)

omit [Codec] in
theorem settled_of_ne (h : ∀ e, s.stage ≠ .updated e) : s.settled = s.applied := by
  unfold settled
  split
  · next e he => exact absurd he (h e)
  · rfl

/-- What `TakeSnapshot` should return: the map of the applied entries up to the index. -/
def Consistent (s : KvThreads) : Prop :=
  s.takeSnapshot.1 = foldOf (s.applied.filter fun e => e.index ≤ s.takeSnapshot.2)

/-- No entry is between its update of the map and the store of its index, or it leaves
the map as it is. -/
def NotAhead (s : KvThreads) : Prop :=
  ∀ e, s.stage = .updated e → Replay.act kvOp (foldOf s.settled) e = foldOf s.settled

theorem Ordered.filter_applied (h : s.Ordered) :
    (s.applied.filter fun e => e.index ≤ s.m.sm.lastApplied) = s.settled := by
  have hall : (s.settled.filter fun e => e.index ≤ s.m.sm.lastApplied) = s.settled :=
    List.filter_eq_self.mpr fun e he => decide_eq_true (h.below e he)
  by_cases hstage : ∃ e, s.stage = .updated e
  · obtain ⟨e, he⟩ := hstage
    have hlt : s.m.sm.lastApplied < e.index := by
      have horder := h.order
      rw [he] at horder
      exact (List.pairwise_cons.mp horder).1 _ List.mem_cons_self
    rw [h.ahead e he, List.filter_append, hall]
    simp [hlt]
  · rw [← settled_of_ne (not_exists.mp hstage)]
    exact hall

theorem Ordered.consistent_iff (h : s.Ordered) : s.Consistent ↔ s.NotAhead := by
  show s.m.sm.data = foldOf (s.applied.filter fun e => e.index ≤ s.m.sm.lastApplied) ↔ _
  rw [h.filter_applied, h.data]
  constructor
  · intro heq e he
    rw [h.ahead e he] at heq
    exact Replay.run_concat.symm.trans heq
  · intro hsame
    by_cases hstage : ∃ e, s.stage = .updated e
    · obtain ⟨e, he⟩ := hstage
      rw [h.ahead e he]
      exact Replay.run_concat.trans (hsame e he)
    · rw [settled_of_ne (not_exists.mp hstage)]

theorem Ordered.frame (h : s.Ordered) (hsm : s'.m.sm = s.m.sm) (hstage : s'.stage = s.stage)
    (hin : s'.incoming = s.incoming) (happlied : s'.applied = s.applied) : s'.Ordered := by
  have hsettled : s'.settled = s.settled := by
    unfold settled
    rw [hstage, happlied]
  refine ⟨?_, ?_, ?_, ?_⟩
  · rw [hsm, happlied, h.data]
  · rw [hsm, hsettled]
    exact h.below
  · rw [hstage, happlied, hsettled]
    exact h.ahead
  · rw [hsm, hstage, hin]
    exact h.order

/-- No snapshot is restored. -/
def applies : KvAct → Bool
  | .restore _ _ => false
  | _ => true

theorem Ordered.write (h : s.Ordered) {r : StoreResult} (hs : s.write r = some s') :
    s'.Ordered := by
  obtain ⟨hstage, e, rest, hin, hcases⟩ := write_cases hs
  have horder := h.order
  rw [hstage, hin] at horder
  have hsettled : s.settled = s.applied := settled_of_ne (by rw [hstage]; simp)
  have hbelow := h.below
  rw [hsettled] at hbelow
  -- an entry that is not written is dropped
  have hdrop := horder.sublist (List.Sublist.cons_cons _ (List.sublist_cons_self e.index _))
  rcases hcases with ⟨-, rfl⟩ | ⟨-, -, rfl⟩ | ⟨-, -, rfl⟩
  · exact ⟨h.data, hbelow, (fun x hx => nomatch hx), hdrop⟩
  · refine ⟨h.data, ?_, ?_, ?_⟩
    · show ∀ x ∈ settled _, _
      rw [settled_of_ne (by simp [hstage])]
      exact hbelow
    · intro x hx
      rw [show _ = ApplyStage.idle from hstage] at hx
      cases hx
    · rw [show _ = ApplyStage.idle from hstage]
      exact hdrop
  · exact ⟨h.data, hbelow, (fun x hx => nomatch hx), horder⟩

theorem Ordered.update (h : s.Ordered) (hs : s.update = some s') : s'.Ordered := by
  obtain ⟨e, hstage, rfl⟩ := update_cases hs
  have hsettled : s.settled = s.applied := settled_of_ne (by rw [hstage]; simp)
  have hlast : (s.applied ++ [e]).dropLast = s.applied := List.dropLast_concat
  have horder := h.order
  rw [hstage] at horder
  refine ⟨?_, ?_, ?_, horder⟩
  · show Replay.act kvOp s.m.sm.data e = Replay.run kvOp _ (s.applied ++ [e])
    rw [h.data, Replay.run_concat]
    rfl
  · show ∀ x ∈ (s.applied ++ [e]).dropLast, _
    rw [hlast, ← hsettled]
    exact h.below
  · intro x hx
    obtain rfl := ApplyStage.updated.inj hx
    show s.applied ++ [e] = (s.applied ++ [e]).dropLast ++ [e]
    rw [hlast]

theorem Ordered.store (h : s.Ordered) (hs : s.store = some s') : s'.Ordered := by
  obtain ⟨e, hstage, rfl⟩ := store_cases hs
  have horder := h.order
  rw [hstage] at horder
  obtain ⟨hlt, hrest⟩ := List.pairwise_cons.mp horder
  have he : s.m.sm.lastApplied < e.index := hlt _ List.mem_cons_self
  refine ⟨h.data, ?_, (fun x hx => nomatch hx), hrest⟩
  rw [h.ahead e hstage]
  intro x hx
  rcases List.mem_append.mp hx with hx | hx
  · exact (h.below x hx).trans he.le
  · rw [List.mem_singleton.mp hx]

theorem Ordered.notify (h : s.Ordered) (hs : s.notify = some s') : s'.Ordered := by
  have hframe : ∀ e, s.stage = .stored e ∨ s.stage = .malformed e →
      { s with m := s.m.notifyWaiters e.index, stage := .idle }.Ordered := by
    intro e he
    have hne : ∀ x, s.stage ≠ .updated x := by
      rintro x hx
      rcases he with he | he <;> rw [he] at hx <;> cases hx
    have hpending : s.stage.pending = [] := by
      rcases he with he | he <;> rw [he] <;> rfl
    have hbelow := h.below
    rw [settled_of_ne hne] at hbelow
    have horder := h.order
    rw [hpending] at horder
    exact ⟨h.data, hbelow, (fun x hx => nomatch hx), horder⟩
  rcases notify_cases hs with ⟨e, hstage, rfl⟩ | ⟨e, hstage, rfl⟩
  · exact (hframe e (.inl hstage)).frame rfl rfl rfl rfl
  · exact (hframe e (.inr hstage)).frame rfl rfl rfl rfl

theorem Ordered.step (h : s.Ordered) (hs : s.step a = some s') (ha : applies a = true) :
    s'.Ordered := by
  cases a with
  | write r => exact h.write hs
  | update => exact h.update hs
  | store => exact h.store hs
  | notify => exact h.notify hs
  | wait index =>
    obtain rfl := Option.some.inj hs
    refine h.frame ?_ rfl rfl rfl
    unfold Machine.waitForIndex
    split <;> rfl
  | register j =>
    obtain ⟨m, hm, rfl⟩ := Option.map_eq_some_iff.mp hs
    obtain ⟨index, -, rfl⟩ := Option.map_eq_some_iff.mp hm
    exact h.frame rfl rfl rfl rfl
  | cancel j =>
    obtain rfl := Option.some.inj hs
    exact h.frame rfl rfl rfl rfl
  | restore data lastApplied => cases ha
  | wakeUpTo j =>
    obtain ⟨r, -, rfl⟩ := Option.map_eq_some_iff.mp hs
    exact h.frame rfl rfl rfl rfl

/-- **Snapshots are consistent pairs**, exactly as long as `TakeSnapshot` does not come
between an update of the map that changes it and the store of its index. -/
theorem snapshot_pairs {entries : List LogEntry}
    (hentries : (0 :: entries.map LogEntry.index).Pairwise (· < ·)) {s : KvThreads}
    (h : Runs step (fun _ a => applies a = true) (initial entries) s) :
    s.Consistent ↔ s.NotAhead := by
  have h0 : (initial entries).Ordered :=
    ⟨rfl, fun e he => absurd he List.not_mem_nil, (fun e he => nomatch he), hentries⟩
  exact (h.invariant (fun _ _ _ hinv hs hok => hinv.step hs hok) h0).consistent_iff

end

section

local instance sectionsCodec : Codec := Codec.twoKeys

/-- The first entry in full, and the second up to the store of its index. -/
def beforeNotify : List KvAct := [.write .ok, .update, .store, .notify, .write .ok, .update, .store]

theorem snapshot_pairs_stored :
    ∃ s, Runs step (fun _ a => applies a = true) (initial twoKeyLog.entries) s ∧
      (s.stage = .stored ⟨2, 1, entryTypeCommand, goString setB⟩ ∧ s.takeSnapshot.2 = 2 ∧
        s.takeSnapshot.1 "b" = some "2") ∧ s.Consistent := by
  refine Runs.exists_and_of_exec beforeNotify (by decide +kernel) fun s hrun hend => ?_
  refine (snapshot_pairs (by decide) hrun).mpr fun e he => ?_
  rw [hend.1] at he
  cases he

/-- **A snapshot that is ahead of its index.**  The map has the first entry, and the index
is 0. -/
theorem snapshot_ahead_of_index :
    ∃ s, Runs step (fun _ a => applies a = true) (initial twoKeyLog.entries) s ∧
      (s.takeSnapshot.2 = 0 ∧ s.takeSnapshot.1 "a" = some "1" ∧
        foldOf (s.applied.filter fun e => e.index ≤ s.takeSnapshot.2) "a" = none) ∧
      ¬s.Consistent := by
  refine Runs.exists_and_of_exec [.write .ok, .update] (by decide +kernel) ?_
  rintro s _ ⟨_, hdata, hnone⟩ h
  rw [h, hnone] at hdata
  cases hdata

end

/-! ### Wake-ups -/

section

variable [Codec] (s : KvThreads)

/-- A notification that a caller for index `i` can count on: the index is not applied
yet and its entry has not gone by, or its entry is stored and to be notified, or the snapshot
that has taken `lastApplied` past it is. -/
def toCome (i : Int) : Bool :=
  decide (s.m.sm.lastApplied < i ∧ i ∉ s.skipped) ||
  (match s.stage with
    | .stored e => e.index == i && s.m.sm.lastApplied == i
    | _ => false) ||
  s.restoring.any fun r =>
    r.upTo == s.m.sm.lastApplied && decide (r.before < i) && decide (i ≤ r.upTo)

/-- The entry `e` is the next one: no index is left out between `lastApplied` and it, and no
snapshot has still to be notified. -/
def inTurn (e : LogEntry) : Bool :=
  decide (s.m.sm.lastApplied < e.index) && s.restoring.isEmpty &&
    (List.range (e.index - s.m.sm.lastApplied - 1).toNat).all fun k =>
      s.skipped.contains (s.m.sm.lastApplied + 1 + k)

/-- Callers register in time; no write of an entry that somebody waits for fails; entries are
applied in the order of their indexes, and snapshots only forward. -/
def timely : KvAct → Bool
  | .write r =>
      match s.incoming with
      | e :: _ => !(writeFails e r && s.m.waiters.contains e.index)
      | [] => true
  | .store =>
      match s.stage with
      | .updated e => s.inTurn e
      | _ => true
  | .register j => (s.m.checking[j]?).all s.toCome
  | .restore _ lastApplied => decide (s.m.sm.lastApplied < lastApplied)
  | _ => true

end

section

variable [Codec] {s s' : KvThreads} {a : KvAct}

/-- Nobody waits for an index up to one that has been announced.  The other fields say
that what has still to be announced is above what has been (the entry that is stored, and
the snapshots, each from where the last one ends), and that every caller is still to be
notified. -/
structure Announced (s : KvThreads) : Prop where
  known : ∀ n ∈ s.announced, n ≤ s.m.sm.lastApplied
  waiters : ∀ i ∈ s.m.waiters, ∀ n ∈ s.announced, n < i
  stored : ∀ e, s.stage = .stored e → e.index ≤ s.m.sm.lastApplied ∧
    (e.index = s.m.sm.lastApplied → ∀ n ∈ s.announced, n < e.index)
  restoring : ∀ r ∈ s.restoring, r.before < r.upTo ∧ r.upTo ≤ s.m.sm.lastApplied ∧
    (r.upTo = s.m.sm.lastApplied → ∀ n ∈ s.announced, n ≤ r.before) ∧
    ∀ e, s.stage = .stored e → e.index ≤ r.before
  inOrder : s.restoring.Pairwise fun r r' => r.upTo ≤ r'.before
  due : ∀ i ∈ s.m.waiters, (s.m.sm.lastApplied < i ∧ i ∉ s.skipped) ∨
    (∃ e, s.stage = .stored e ∧ e.index = i) ∨ ∃ r ∈ s.restoring, r.before < i ∧ i ≤ r.upTo

omit [Codec] in
theorem Announced.lt_of_toCome (h : s.Announced) {i : Int} (hi : s.toCome i = true) :
    ∀ n ∈ s.announced, n < i := by
  intro n hn
  rcases Bool.or_eq_true_iff.mp hi with hi | hi
  · rcases Bool.or_eq_true_iff.mp hi with hi | hi
    · exact (h.known n hn).trans_lt (of_decide_eq_true hi).1
    · split at hi
      · next e hstage =>
        simp only [Bool.and_eq_true, beq_iff_eq] at hi
        obtain ⟨rfl, hla⟩ := hi
        exact (h.stored e hstage).2 hla.symm n hn
      · cases hi
  · obtain ⟨r, hr, hi⟩ := List.any_eq_true.mp hi
    simp only [Bool.and_eq_true, beq_iff_eq, decide_eq_true_eq] at hi
    obtain ⟨⟨hla, hbefore⟩, -⟩ := hi
    exact ((h.restoring r hr).2.2.1 hla n hn).trans_lt hbefore

omit [Codec] in
theorem due_of_toCome {i : Int} (hi : s.toCome i = true) :
    (s.m.sm.lastApplied < i ∧ i ∉ s.skipped) ∨ (∃ e, s.stage = .stored e ∧ e.index = i) ∨
      ∃ r ∈ s.restoring, r.before < i ∧ i ≤ r.upTo := by
  rcases Bool.or_eq_true_iff.mp hi with hi | hi
  · rcases Bool.or_eq_true_iff.mp hi with hi | hi
    · exact .inl (of_decide_eq_true hi)
    · split at hi
      · next e hstage =>
        simp only [Bool.and_eq_true, beq_iff_eq] at hi
        exact .inr (.inl ⟨e, hstage, hi.1⟩)
      · cases hi
  · obtain ⟨r, hr, hi⟩ := List.any_eq_true.mp hi
    simp only [Bool.and_eq_true, decide_eq_true_eq] at hi
    exact .inr (.inr ⟨r, hr, hi.1.2, hi.2⟩)

omit [Codec] in
theorem inTurn_le {e : LogEntry} (h : s.inTurn e = true) {i : Int}
    (hi : s.m.sm.lastApplied < i) (hskip : i ∉ s.skipped) : e.index ≤ i := by
  simp only [inTurn, Bool.and_eq_true, List.all_eq_true, List.mem_range] at h
  by_contra hlt
  have hmem := h.2 (i - s.m.sm.lastApplied - 1).toNat (by omega)
  rw [show s.m.sm.lastApplied + 1 + ((i - s.m.sm.lastApplied - 1).toNat : Int) = i by omega] at hmem
  exact hskip (List.contains_iff_mem.mp hmem)

omit [Codec] in
theorem pairwise_other {α : Type*} {R : α → α → Prop} {l : List α} (h : l.Pairwise R) {j : Nat}
    {x y : α} (hx : l[j]? = some x) (hy : y ∈ l.eraseIdx j) : R x y ∨ R y x := by
  induction l generalizing j with
  | nil => cases hx
  | cons z l ih =>
    obtain ⟨hz, hl⟩ := List.pairwise_cons.mp h
    rcases j with - | j
    · obtain rfl := Option.some.inj hx
      exact .inl (hz y hy)
    · rcases List.mem_cons.mp hy with rfl | hy
      · exact .inr (hz x (List.mem_of_getElem? hx))
      · exact ih hl hx hy

omit [Codec] in
theorem Announced.frame (h : s.Announced)
    (hla : s'.m.sm.lastApplied = s.m.sm.lastApplied) (hwait : ∀ i ∈ s'.m.waiters, i ∈ s.m.waiters)
    (hstage : ∀ e, s'.stage = .stored e ↔ s.stage = .stored e)
    (hrestoring : s'.restoring = s.restoring) (hann : s'.announced = s.announced)
    (hskip : ∀ i ∈ s'.m.waiters, i ∈ s'.skipped → i ∈ s.skipped) : s'.Announced := by
  refine ⟨?_, ?_, ?_, ?_, ?_, ?_⟩
  · rw [hann, hla]
    exact h.known
  · rw [hann]
    exact fun i hi => h.waiters i (hwait i hi)
  · rw [hann, hla]
    exact fun e he => h.stored e ((hstage e).mp he)
  · rw [hann, hla, hrestoring]
    intro r hr
    obtain ⟨hlt, hle, hlast, hstored⟩ := h.restoring r hr
    exact ⟨hlt, hle, hlast, fun e he => hstored e ((hstage e).mp he)⟩
  · rw [hrestoring]
    exact h.inOrder
  · rw [hla, hrestoring]
    intro i hi
    rcases h.due i (hwait i hi) with ⟨hlt, hnot⟩ | ⟨e, he, hei⟩ | hr
    · exact .inl ⟨hlt, fun hmem => hnot (hskip i hi hmem)⟩
    · exact .inr (.inl ⟨e, (hstage e).mpr he, hei⟩)
    · exact .inr (.inr hr)

omit [Codec] in
theorem Announced.announce (h : s.Announced) {n : Int}
    (hla : s'.m.sm.lastApplied = s.m.sm.lastApplied) (hann : s'.announced = s.announced ++ [n])
    (hskip : s'.skipped = s.skipped) (hn : n ≤ s.m.sm.lastApplied)
    (hwait : ∀ i ∈ s'.m.waiters, i ∈ s.m.waiters ∧ n < i)
    (hstage : ∀ e, s'.stage = .stored e → s.stage = .stored e ∧
      (e.index = s.m.sm.lastApplied → n < e.index))
    (hstored : ∀ e, s.stage = .stored e → n < e.index → s'.stage = .stored e)
    (hrestoring : s'.restoring.Sublist s.restoring)
    (hkept : ∀ r ∈ s.restoring, n < r.upTo → r ∈ s'.restoring)
    (hlast : ∀ r ∈ s'.restoring, r.upTo = s.m.sm.lastApplied → n ≤ r.before) :
    s'.Announced := by
  have hall : ∀ {P : Int → Prop}, (∀ k ∈ s.announced, P k) → P n → ∀ k ∈ s'.announced, P k := by
    intro P hold hnew k hk
    rw [hann] at hk
    rcases List.mem_append.mp hk with hk | hk
    · exact hold k hk
    · rw [List.mem_singleton.mp hk]
      exact hnew
  refine ⟨?_, ?_, ?_, ?_, h.inOrder.sublist hrestoring, ?_⟩
  · rw [hla]
    exact hall h.known hn
  · intro i hi
    exact hall (h.waiters i (hwait i hi).1) (hwait i hi).2
  · rw [hla]
    intro e he
    obtain ⟨hold, hlt⟩ := hstage e he
    obtain ⟨hle, habove⟩ := h.stored e hold
    exact ⟨hle, fun heq => hall (habove heq) (hlt heq)⟩
  · rw [hla]
    intro r hr
    obtain ⟨hbefore, hup, hold, hbelow⟩ := h.restoring r (hrestoring.subset hr)
    exact ⟨hbefore, hup, fun heq => hall (hold heq) (hlast r hr heq),
      fun e he => hbelow e (hstage e he).1⟩
  · rw [hla, hskip]
    intro i hi
    obtain ⟨hi, hgt⟩ := hwait i hi
    rcases h.due i hi with hlt | ⟨e, he, hei⟩ | ⟨r, hr, hbefore, hup⟩
    · exact .inl hlt
    · exact .inr (.inl ⟨e, hstored e he (hei ▸ hgt), hei⟩)
    · exact .inr (.inr ⟨r, hkept r hr (hgt.trans_le hup), hbefore, hup⟩)

omit [Codec] in
theorem Announced.store (h : s.Announced) {e : LogEntry} (hstage : s.stage = .updated e)
    (hturn : s.inTurn e = true) :
    Announced { s with
      m := { s.m with sm := { s.m.sm with lastApplied := e.index } }
      stage := .stored e } := by
  have hnext := hturn
  simp only [inTurn, Bool.and_eq_true, decide_eq_true_eq, List.isEmpty_iff] at hnext
  obtain ⟨⟨hlt, hnone⟩, -⟩ := hnext
  refine ⟨?_, h.waiters, ?_, ?_, h.inOrder, ?_⟩
  · exact fun n hn => ((h.known n hn).trans_lt hlt).le
  · intro x hx
    obtain rfl := ApplyStage.stored.inj hx
    exact ⟨le_rfl, fun _ n hn => (h.known n hn).trans_lt hlt⟩
  · rw [hnone]
    exact fun r hr => absurd hr List.not_mem_nil
  · -- a caller waits for this entry or for a later one
    intro i hi
    rcases h.due i hi with ⟨hi, hskip⟩ | ⟨x, hx, -⟩ | ⟨r, hr, -⟩
    · rcases (inTurn_le hturn hi hskip).lt_or_eq with hgt | heq
      · exact .inl ⟨hgt, hskip⟩
      · exact .inr (.inl ⟨e, rfl, heq⟩)
    · cases hstage.symm.trans hx
    · rw [hnone] at hr
      cases hr

omit [Codec] in
theorem Announced.notify (h : s.Announced) (hs : s.notify = some s') : s'.Announced := by
  rcases notify_cases hs with ⟨e, hstage, rfl⟩ | ⟨e, hstage, rfl⟩
  · -- nobody is left below the entry: callers are due now or later
    have hall : ∀ i ∈ s.m.waiters, e.index ≤ i := by
      intro i hi
      rcases h.due i hi with ⟨hlt, -⟩ | ⟨x, hx, rfl⟩ | ⟨r, hr, hbefore, -⟩
      · exact ((h.stored e hstage).1.trans_lt hlt).le
      · rw [ApplyStage.stored.inj (hstage.symm.trans hx)]
      · exact (((h.restoring r hr).2.2.2 e hstage).trans_lt hbefore).le
    refine h.announce rfl rfl rfl (h.stored e hstage).1 ?_ (fun x hx => nomatch hx) ?_
      (List.Sublist.refl _) (fun r hr _ => hr) ?_
    · intro i hi
      obtain ⟨hi, hne⟩ := List.mem_filter.mp hi
      have hne : i ≠ e.index := of_decide_eq_true hne
      exact ⟨hi, lt_of_le_of_ne (hall i hi) hne.symm⟩
    · intro x hx hlt
      rw [ApplyStage.stored.inj (hstage.symm.trans hx)] at hlt
      exact absurd hlt (lt_irrefl _)
    · exact fun r hr _ => (h.restoring r hr).2.2.2 e hstage
  · refine h.frame rfl (fun i hi => (List.mem_filter.mp hi).1) ?_ rfl rfl ?_
    · exact fun x => ⟨fun hx => (nomatch hx), fun hx => (nomatch hstage.symm.trans hx)⟩
    · intro i hi hmem
      rcases List.mem_append.mp hmem with hmem | hmem
      · exact hmem
      · exact absurd (List.mem_singleton.mp hmem) (of_decide_eq_true (List.mem_filter.mp hi).2)

omit [Codec] in
theorem Announced.restore (h : s.Announced) {data : String → Option String} {lastApplied : Int}
    (hlt : s.m.sm.lastApplied < lastApplied) : (s.restore data lastApplied).Announced := by
  refine ⟨?_, h.waiters, ?_, ?_, ?_, ?_⟩
  · exact fun n hn => ((h.known n hn).trans_lt hlt).le
  · intro e he
    obtain ⟨hle, -⟩ := h.stored e he
    exact ⟨(hle.trans_lt hlt).le, fun heq => absurd heq (hle.trans_lt hlt).ne⟩
  · intro r hr
    rcases List.mem_append.mp hr with hr | hr
    · obtain ⟨hbefore, hle, -, hbelow⟩ := h.restoring r hr
      exact ⟨hbefore, (hle.trans_lt hlt).le, fun heq => absurd heq (hle.trans_lt hlt).ne, hbelow⟩
    · obtain rfl := List.mem_singleton.mp hr
      exact ⟨hlt, le_rfl, fun _ => h.known, fun e he => (h.stored e he).1⟩
  · refine List.pairwise_append.mpr ⟨h.inOrder, List.pairwise_singleton .., ?_⟩
    intro r hr r' hr'
    obtain rfl := List.mem_singleton.mp hr'
    exact (h.restoring r hr).2.1
  · intro i hi
    rcases h.due i hi with ⟨hi, hskip⟩ | hstored | ⟨r, hr, hi⟩
    · rcases lt_or_ge lastApplied i with hgt | hle
      · exact .inl ⟨hgt, hskip⟩
      · exact .inr (.inr ⟨_, List.mem_append_right _ (List.mem_singleton_self _), hi, hle⟩)
    · exact .inr (.inl hstored)
    · exact .inr (.inr ⟨r, List.mem_append_left _ hr, hi⟩)

omit [Codec] in
theorem Announced.wakeUpTo (h : s.Announced) {j : Nat} (hs : s.wakeUpTo j = some s') :
    s'.Announced := by
  obtain ⟨r, hr, rfl⟩ := Option.map_eq_some_iff.mp hs
  obtain ⟨hbefore, hup, -, hbelow⟩ := h.restoring r (List.mem_of_getElem? hr)
  refine h.announce rfl rfl rfl hup ?_ ?_ (fun e he _ => he) (List.eraseIdx_sublist ..) ?_ ?_
  · intro i hi
    obtain ⟨hi, hgt⟩ := List.mem_filter.mp hi
    exact ⟨hi, not_le.mp (of_decide_eq_true hgt)⟩
  · -- the entry was before the snapshot
    refine fun e he => ⟨he, fun heq => ?_⟩
    have hle := hbelow e he
    omega
  · intro r' hr' hlt
    obtain ⟨k, hk⟩ := List.mem_iff_getElem?.mp hr'
    refine List.mem_eraseIdx_iff_getElem?.mpr ⟨k, fun hkj => ?_, hk⟩
    rw [hkj, hr] at hk
    exact absurd (Option.some.inj hk ▸ hlt) (lt_irrefl _)
  · intro r' hr' heq
    rcases pairwise_other h.inOrder hr hr' with hle | hle
    · exact hle
    · omega

theorem Announced.write (h : s.Announced) {r : StoreResult} (hs : s.write r = some s')
    (ha : s.timely (.write r) = true) : s'.Announced := by
  obtain ⟨hstage, e, rest, hin, ⟨-, rfl⟩ | ⟨-, hfail, rfl⟩ | ⟨-, -, rfl⟩⟩ := write_cases hs
  · exact h.frame rfl (fun i hi => hi) (by simp [hstage]) rfl rfl (fun i _ hmem => hmem)
  · refine h.frame rfl (fun i hi => hi) (fun x => Iff.rfl) rfl rfl fun i hi hmem => ?_
    rcases List.mem_append.mp hmem with hmem | hmem
    · exact hmem
    · -- nobody waits for the entry whose write fails
      have hnot : e.index ∉ s.m.waiters := by simpa [timely, hin, hfail] using ha
      exact absurd (List.mem_singleton.mp hmem ▸ hi) hnot
  · exact h.frame rfl (fun i hi => hi) (by simp [hstage]) rfl rfl (fun i _ hmem => hmem)

theorem Announced.step (h : s.Announced) (hs : s.step a = some s') (ha : s.timely a = true) :
    s'.Announced := by
  cases a with
  | write r => exact h.write hs ha
  | update =>
    obtain ⟨e, hstage, rfl⟩ := update_cases hs
    exact h.frame rfl (fun i hi => hi) (by simp [hstage]) rfl rfl (fun i _ hmem => hmem)
  | store =>
    obtain ⟨e, hstage, rfl⟩ := store_cases hs
    exact h.store hstage (by simpa [timely, hstage] using ha)
  | notify => exact h.notify hs
  | wait index =>
    obtain rfl := Option.some.inj hs
    unfold Machine.waitForIndex
    split <;> exact h.frame rfl (fun i hi => hi) (fun x => Iff.rfl) rfl rfl (fun i _ hmem => hmem)
  | register j =>
    obtain ⟨m, hm, rfl⟩ := Option.map_eq_some_iff.mp hs
    obtain ⟨index, hindex, rfl⟩ := Option.map_eq_some_iff.mp hm
    have hcome : s.toCome index = true := by simpa [timely, hindex] using ha
    refine ⟨h.known, ?_, h.stored, h.restoring, h.inOrder, ?_⟩
    · intro i hi
      rcases List.mem_append.mp hi with hi | hi
      · exact h.waiters i hi
      · rw [List.mem_singleton.mp hi]
        exact h.lt_of_toCome hcome
    · intro i hi
      rcases List.mem_append.mp hi with hi | hi
      · exact h.due i hi
      · rw [List.mem_singleton.mp hi]
        exact due_of_toCome hcome
  | cancel j =>
    obtain rfl := Option.some.inj hs
    exact h.frame rfl (fun i hi => List.mem_of_mem_eraseIdx hi) (fun x => Iff.rfl) rfl rfl
      (fun i _ hmem => hmem)
  | restore data lastApplied =>
    obtain rfl := Option.some.inj hs
    exact h.restore (of_decide_eq_true ha)
  | wakeUpTo j => exact h.wakeUpTo hs

/-- **No wake-up is lost** in a run whose sections are all timely: once an entry or a
snapshot is applied and notified, nobody waits for an index up to it. -/
theorem no_lost_wakeup {entries : List LogEntry} {s : KvThreads}
    (h : Runs KvThreads.step (fun s a => s.timely a = true) (initial entries) s) :
    ∀ i ∈ s.m.waiters, ∀ n ∈ s.announced, ¬i ≤ n := by
  have h0 : (initial entries).Announced :=
    ⟨fun n hn => absurd hn List.not_mem_nil, fun i hi => absurd hi List.not_mem_nil,
      (fun e he => nomatch he), fun r hr => absurd hr List.not_mem_nil, List.Pairwise.nil,
      fun i hi => absurd hi List.not_mem_nil⟩
  have hinv := h.invariant (fun _ _ _ hinv hs hok => hinv.step hs hok) h0
  exact fun i hi n hn => not_le.mpr (hinv.waiters i hi n hn)

end

section

local instance wakeupCodec : Codec := Codec.twoKeys

/-- A caller registers between the store of its entry and the notification, and another
while a snapshot is being restored; the write that fails is of an entry nobody waits for. -/
def registeredInTime : List KvAct :=
  [.wait 1, .write .ok, .update, .store, .register 0, .notify, .write (.failed 0),
    .wait 5, .restore (fun _ => none) 7, .register 0, .wakeUpTo 0]

theorem no_lost_wakeup_in_time :
    ∃ s, Runs KvThreads.step (fun s a => s.timely a = true) (initial twoKeyLog.entries) s ∧
      (s.announced = [1, 7] ∧ s.m.returned = [1, 5]) ∧
      ∀ i ∈ s.m.waiters, ∀ n ∈ s.announced, ¬i ≤ n :=
  Runs.exists_and_of_exec registeredInTime (by decide +kernel) fun _ hrun _ => no_lost_wakeup hrun

/-- **A wake-up is lost.**  The caller has found entry 1 not applied; the entry is applied
and notified; then the caller registers. -/
theorem wakeup_lost :
    ∃ s, Runs KvThreads.step (fun _ _ => True) (initial twoKeyLog.entries) s ∧
      s.m.sm.lastApplied = 1 ∧ 1 ∈ s.announced ∧ 1 ∈ s.m.waiters :=
  Runs.exists_of_exec [.wait 1, .write .ok, .update, .store, .notify, .register 0]
    (by decide +kernel)

-- a write that fails leaves its caller behind when the next entry is applied
example : ((exec KvThreads.step (fun _ _ => True) (initial twoKeyLog.entries)
    [.wait 1, .register 0, .write (.failed 0), .write .ok, .update, .store, .notify]).any
      fun s => decide (2 ∈ s.announced ∧ 1 ∈ s.m.waiters)) = true := by
  decide +kernel

end

end KvThreads

end Raft
