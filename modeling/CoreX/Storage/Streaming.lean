/-
CoreX/Storage/Streaming.lean

Who may stream the write-ahead log.  `BecomeLeader` gives a `Streamer` to the server,
`BecomeFollower` and `BecomeStandalone` take it away, and a call of `StreamWAL` looks at
the two atomics once, when it starts.  After that it is in the loop of `Stream`, which
looks at the context of its own connection and at nothing else.
-/
import CoreX.Storage.Replication

namespace Kv

open StepSystem Wal

/-! ### The manager, the server and its calls -/

/-- `Streamer`: the file it was created with.  The channel comes from the writer. -/
structure Streamer where
  walFile : Nat
  deriving DecidableEq, Repr

/-- The calls of `ReplicationManager`, the first with what its factory returns. -/
inductive RoleChange
  | becomeLeader (streamer : Streamer)
  | becomeFollower
  | becomeStandalone
  deriving DecidableEq, Repr

/-- What such a call does next: `stopCurrent`, the two stores of `Activate` or
`Deactivate`, and the return. -/
inductive RoleSection
  | stopCurrent
  | firstStore
  | secondStore
  | done
  deriving DecidableEq, Repr

/-- The variables of `Stream`.  Channels are numbered; one is closed when the writer has
a later one. -/
structure StreamVars where
  file : Nat
  offset : Int
  compactionCh : Nat
  deriving DecidableEq, Repr

/-- Where a call of `StreamWAL` is: before `active.Load`, before `streamer.Load`, before
the first `compactionNotify`, at the `select` on top of the loop, before the
`compactionNotify` that follows a new file, before the read, at the `select` after the
end of the file, before the callback. -/
inductive StreamStage
  | called (startOffset : Int)
  | admitted (startOffset : Int)
  | loaded (streamer : Streamer) (startOffset : Int)
  | select (v : StreamVars)
  | reopened (v : StreamVars)
  | read (v : StreamVars)
  | wait (v : StreamVars)
  | send (v : StreamVars) (entry : RawEntry)
  | returned (err : StreamError)
  deriving DecidableEq, Repr

/-- A call, and whether the context of its connection is done. -/
structure StreamCall where
  stage : StreamStage
  done : Bool
  deriving DecidableEq, Repr

/-- The files, the one under the path, and the writer's channel. -/
structure WalFiles where
  inodes : Nat → List UInt8
  path : Nat
  compactionCh : Nat

/-- The log; `ManagedReplicationServer`; the field of `ReplicationManager`, a context by
the number of its call; the role change in progress and the last one that has returned;
the calls of `StreamWAL`, and what they have delivered. -/
structure Streaming where
  wal : WalFiles
  active : Bool
  streamer : Option Streamer
  stopStreamer : Option Nat
  changing : Option (RoleChange × RoleSection)
  role : Option RoleChange
  calls : List StreamCall
  sent : List (Nat × RawEntry)

/-- The cases of the two `select`s; `otherwise` is `default` in the first and the timer
in the second. -/
inductive SelectCase
  | done
  | compaction (opened : Bool)
  | otherwise
  deriving DecidableEq, Repr

inductive CallStep
  /-- A load, `compactionNotify` or a read. -/
  | go
  | select (case : SelectCase)
  /-- The callback, which may fail. -/
  | send (ok : Bool)
  /-- The connection ends. -/
  | cancel
  deriving DecidableEq, Repr

inductive StreamingStep
  /-- `Write`, of which `n` bytes reach the file. -/
  | write (now : UInt64) (payload : List UInt8) (n : Nat)
  /-- `RunExclusiveSwap` with a new file. -/
  | swap (file : List UInt8)
  | change (r : RoleChange)
  | advance
  | streamWAL (startOffset : Int)
  | call (i : Nat) (a : CallStep)

def RoleChange.deposes : RoleChange → Bool
  | .becomeLeader _ => false
  | .becomeFollower => true
  | .becomeStandalone => true

def notLeader : String := "replication: this node is not the current leader"

def notInitialised : String := "replication: streamer not initialised"

section

variable [Crc32]

/-- `Stream`, one read. -/
def StreamVars.readEntry (v : StreamVars) (file : List UInt8) : StreamStage :=
  match readRawEntry file v.offset with
  | .error (.read .eof) => .wait v
  | .error e => .returned e
  | .ok entry => .send v entry

/-- `StreamWAL` up to the loop, and the parts of the loop without a choice. -/
def StreamStage.go (s : Streaming) : StreamStage → Option StreamStage
  | .called start =>
      some (if s.active then .admitted start else .returned (.unavailable notLeader))
  | .admitted start =>
      some (match s.streamer with
        | none => .returned (.unavailable notInitialised)
        | some streamer => .loaded streamer start)
  | .loaded streamer start => some (.select ⟨streamer.walFile, start, s.wal.compactionCh⟩)
  | .reopened v => some (.select { v with compactionCh := s.wal.compactionCh })
  | .read v => some (v.readEntry (s.wal.inodes v.file))
  | _ => none

end

/-- `os.Open` on the path after the signal. -/
def StreamVars.reopen (v : StreamVars) (w : WalFiles) : Bool → StreamStage
  | true => .reopened { v with file := w.path, offset := 0 }
  | false => .returned .openFailed

/-- The two `select`s: `default` is taken only if no other case is ready, the timer may be
taken at any time. -/
def StreamCall.choose (w : WalFiles) (c : StreamCall) (case : SelectCase) : Option StreamStage :=
  match c.stage, case with
  | .select _, .done => if c.done then some (.returned .canceled) else none
  | .wait _, .done => if c.done then some (.returned .canceled) else none
  | .select v, .compaction opened =>
      if v.compactionCh < w.compactionCh then some (v.reopen w opened) else none
  | .wait v, .compaction opened =>
      if v.compactionCh < w.compactionCh then some (v.reopen w opened) else none
  | .select v, .otherwise =>
      if c.done ∨ v.compactionCh < w.compactionCh then none else some (.read v)
  | .wait v, .otherwise => some (.select v)
  | _, _ => none

def StreamCall.step [Crc32] (s : Streaming) (c : StreamCall) : CallStep → Option StreamCall
  | .go => (c.stage.go s).map fun stage => { c with stage := stage }
  | .select case => (c.choose s.wal case).map fun stage => { c with stage := stage }
  | .send ok =>
      match c.stage with
      | .send v entry =>
          some { c with
            stage := if ok then .select { v with offset := v.offset + entry.recordSize }
              else .returned .sendFailed }
      | _ => none
  | .cancel => some { c with done := true }

/-- The entry that a step of a call delivers. -/
def StreamCall.delivery (c : StreamCall) : CallStep → Option RawEntry
  | .send true =>
      match c.stage with
      | .send _ entry => some entry
      | _ => none
  | _ => none

namespace WalFiles

variable (w : WalFiles)

/-- Bytes at the end of the file under the path. -/
def append (bytes : List UInt8) : WalFiles :=
  { w with inodes := Function.update w.inodes w.path (w.inodes w.path ++ bytes) }

/-- `RunExclusiveSwap`: a new file, and the channel is closed. -/
def swap (file : List UInt8) : WalFiles :=
  ⟨Function.update w.inodes (w.path + 1) file, w.path + 1, w.compactionCh + 1⟩

end WalFiles

namespace Streaming

def initial (file : List UInt8) : Streaming :=
  ⟨⟨fun _ => file, 0, 0⟩, false, none, none, none, none, [], []⟩

/-- `stopCurrent`. -/
def stopCurrent (s : Streaming) : Streaming :=
  match s.stopStreamer with
  | none => s
  | some i =>
      { s with calls := s.calls.modify i fun c => { c with done := true }, stopStreamer := none }

/-- `Activate` stores the pointer first, `Deactivate` the flag. -/
def firstStore (s : Streaming) : RoleChange → Streaming
  | .becomeLeader streamer => { s with streamer := some streamer }
  | .becomeFollower => { s with active := false }
  | .becomeStandalone => { s with active := false }

def secondStore (s : Streaming) : RoleChange → Streaming
  | .becomeLeader _ => { s with active := true }
  | .becomeFollower => { s with streamer := none }
  | .becomeStandalone => { s with streamer := none }

/-- The next section of the role change in progress. -/
def advance (s : Streaming) : Option Streaming :=
  match s.changing with
  | none => none
  | some (r, .stopCurrent) => some { s.stopCurrent with changing := some (r, .firstStore) }
  | some (r, .firstStore) => some { s.firstStore r with changing := some (r, .secondStore) }
  | some (r, .secondStore) => some { s.secondStore r with changing := some (r, .done) }
  | some (r, .done) => some { s with changing := none, role := some r }

def step [Crc32] (s : Streaming) : StreamingStep → Option Streaming
  | .write now payload n =>
      some { s with wal := s.wal.append ((encode ⟨now, payload⟩).take n) }
  | .swap file => some { s with wal := s.wal.swap file }
  | .change r =>
      match s.changing with
      | none => some { s with changing := some (r, .stopCurrent) }
      | some _ => none
  | .advance => s.advance
  | .streamWAL start => some { s with calls := s.calls ++ [⟨.called start, false⟩] }
  | .call i a =>
      match s.calls[i]? with
      | none => none
      | some c =>
          (c.step s a).map fun c' =>
            { s with
              calls := s.calls.set i c'
              sent := s.sent ++ ((c.delivery a).map fun entry => (i, entry)).toList }

/-- `BecomeFollower` or `BecomeStandalone` has returned, and no `BecomeLeader` has been
called since. -/
def deposed (s : Streaming) : Bool :=
  s.role.any RoleChange.deposes && s.changing.all fun x => x.1.deposes

/-- Until the next `BecomeLeader`. -/
def NoLeader (_ : Streaming) : StreamingStep → Prop
  | .change r => r.deposes = true
  | _ => True

instance decidableNoLeader (s : Streaming) (a : StreamingStep) : Decidable (s.NoLeader a) := by
  cases a <;> unfold NoLeader <;> infer_instance

end Streaming

/-- The call is in the loop, and will not find its context done before it reads. -/
def StreamCall.inFlight (c : StreamCall) : Bool :=
  match c.stage with
  | .called _ => false
  | .admitted _ => false
  | .loaded _ _ => !c.done
  | .select _ => !c.done
  | .reopened _ => !c.done
  | .wait _ => !c.done
  | .read _ => true
  | .send _ _ => true
  | .returned _ => false

namespace Streaming

def InFlight (s : Streaming) (i : Nat) : Prop := ∃ c, s.calls[i]? = some c ∧ c.inFlight = true

/-! ### The flag and the pointer -/

/-- No call starts to stream. -/
structure Shut (s : Streaming) : Prop where
  active : s.active = false
  streamer : s.streamer = none

theorem Shut.congr {s s' : Streaming} (h : s.Shut) (hactive : s'.active = s.active)
    (hstreamer : s'.streamer = s.streamer) : s'.Shut :=
  ⟨hactive.trans h.active, hstreamer.trans h.streamer⟩

/-- What the sections of a role change have done so far.  `stop` is why `stopCurrent`
stops nothing. -/
structure Gated (s : Streaming) : Prop where
  stop : s.stopStreamer = none
  flag : ∀ r, s.changing = some (r, .secondStore) → r.deposes = true → s.active = false
  shut : ∀ r, s.changing = some (r, .done) → r.deposes = true → s.Shut
  deposed : s.deposed = true → s.Shut

variable {s s' : Streaming} {r : RoleChange}

theorem gated_initial (file : List UInt8) : (initial file).Gated where
  stop := rfl
  flag _ h := nomatch h
  shut _ h := nomatch h
  deposed h := nomatch h

theorem Gated.congr (h : s.Gated) (hactive : s'.active = s.active)
    (hstreamer : s'.streamer = s.streamer) (hstop : s'.stopStreamer = s.stopStreamer)
    (hchanging : s'.changing = s.changing) (hrole : s'.role = s.role) : s'.Gated := by
  refine ⟨hstop.trans h.stop, fun r hr hd => ?_, fun r hr hd => ?_, fun hd => ?_⟩
  · exact hactive.trans (h.flag r (hchanging ▸ hr) hd)
  · exact (h.shut r (hchanging ▸ hr) hd).congr hactive hstreamer
  · rw [Streaming.deposed, hrole, hchanging] at hd
    exact (h.deposed hd).congr hactive hstreamer

theorem Shut.firstStore (h : s.Shut) (hr : r.deposes = true) : (s.firstStore r).Shut := by
  cases r with
  | becomeLeader => cases hr
  | becomeFollower => exact ⟨rfl, h.streamer⟩
  | becomeStandalone => exact ⟨rfl, h.streamer⟩

theorem active_firstStore (hr : r.deposes = true) : (s.firstStore r).active = false := by
  cases r with
  | becomeLeader => cases hr
  | becomeFollower => rfl
  | becomeStandalone => rfl

theorem shut_secondStore (h : s.active = false) (hr : r.deposes = true) :
    (s.secondStore r).Shut := by
  cases r with
  | becomeLeader => cases hr
  | becomeFollower => exact ⟨h, rfl⟩
  | becomeStandalone => exact ⟨h, rfl⟩

theorem frame_firstStore (s : Streaming) (r : RoleChange) :
    s.firstStore r = { s with
      active := (s.firstStore r).active, streamer := (s.firstStore r).streamer } := by
  cases r <;> rfl

theorem frame_secondStore (s : Streaming) (r : RoleChange) :
    s.secondStore r = { s with
      active := (s.secondStore r).active, streamer := (s.secondStore r).streamer } := by
  cases r <;> rfl

theorem Gated.stopCurrent_eq (h : s.Gated) : s.stopCurrent = s := by
  rw [stopCurrent, h.stop]

theorem deposed_of_changing {x : RoleSection} (h : s.changing = some (r, x)) :
    s.deposed = (s.role.any RoleChange.deposes && r.deposes) := by
  rw [Streaming.deposed, h]
  rfl

variable [Crc32] {a : StreamingStep}

/-- What a step can do: the writer goes on, a role change begins, goes on or returns, a
call comes in or goes on. -/
inductive Moves (s : Streaming) : StreamingStep → Streaming → Prop
  | log {a : StreamingStep} (w : WalFiles) (hch : s.wal.compactionCh ≤ w.compactionCh) :
      Moves s a { s with wal := w }
  | change (r : RoleChange) (hch : s.changing = none) :
      Moves s (.change r) { s with changing := some (r, .stopCurrent) }
  | stopped (r : RoleChange) (hch : s.changing = some (r, .stopCurrent)) :
      Moves s .advance { s with changing := some (r, .firstStore) }
  | first (r : RoleChange) (hch : s.changing = some (r, .firstStore)) :
      Moves s .advance { s with
        active := (s.firstStore r).active
        streamer := (s.firstStore r).streamer
        changing := some (r, .secondStore) }
  | second (r : RoleChange) (hch : s.changing = some (r, .secondStore)) :
      Moves s .advance { s with
        active := (s.secondStore r).active
        streamer := (s.secondStore r).streamer
        changing := some (r, .done) }
  | returned (r : RoleChange) (hch : s.changing = some (r, .done)) :
      Moves s .advance { s with changing := none, role := some r }
  | streamWAL (start : Int) :
      Moves s (.streamWAL start) { s with calls := s.calls ++ [⟨.called start, false⟩] }
  | call {i : Nat} {c c' : StreamCall} {a : CallStep} (hc : s.calls[i]? = some c)
      (hstep : c.step s a = some c') :
      Moves s (.call i a) { s with
        calls := s.calls.set i c'
        sent := s.sent ++ ((c.delivery a).map fun entry => (i, entry)).toList }

theorem Gated.advance (h : s.Gated) (hs : s.advance = some s') : s.Moves .advance s' := by
  rw [Streaming.advance] at hs
  split at hs
  · cases hs
  · next r hch =>
    obtain rfl := Option.some.inj hs
    rw [h.stopCurrent_eq]
    exact .stopped r hch
  · next r hch =>
    obtain rfl := Option.some.inj hs
    rw [frame_firstStore]
    exact .first r hch
  · next r hch =>
    obtain rfl := Option.some.inj hs
    rw [frame_secondStore]
    exact .second r hch
  · next r hch =>
    obtain rfl := Option.some.inj hs
    exact .returned r hch

theorem Gated.moves (h : s.Gated) (hs : s.step a = some s') : s.Moves a s' := by
  cases a with
  | write now payload n =>
    obtain rfl := Option.some.inj hs
    exact .log _ le_rfl
  | swap file =>
    obtain rfl := Option.some.inj hs
    exact .log _ (Nat.le_succ _)
  | change r =>
    simp only [Streaming.step] at hs
    split at hs
    · next hch =>
      obtain rfl := Option.some.inj hs
      exact .change r hch
    · cases hs
  | advance => exact h.advance hs
  | streamWAL start =>
    obtain rfl := Option.some.inj hs
    exact .streamWAL start
  | call i a =>
    simp only [Streaming.step] at hs
    split at hs
    · cases hs
    · next c hc =>
      obtain ⟨c', hstep, rfl⟩ := Option.map_eq_some_iff.mp hs
      exact .call hc hstep

theorem Gated.step (h : s.Gated) (hs : s.Moves a s') : s'.Gated := by
  cases hs with
  | log w _ => exact h.congr rfl rfl rfl rfl rfl
  | change r hch =>
    refine ⟨h.stop, fun _ h' => (nomatch h'), fun _ h' => (nomatch h'), fun hd => ?_⟩
    have hdep : s.deposed = true := by
      rw [Streaming.deposed, hch, (Bool.and_eq_true_iff.mp hd).1]
      rfl
    exact (h.deposed hdep).congr rfl rfl
  | stopped r hch =>
    refine ⟨h.stop, fun _ h' => (nomatch h'), fun _ h' => (nomatch h'), fun hd => ?_⟩
    exact (h.deposed ((deposed_of_changing hch).trans hd)).congr rfl rfl
  | first r hch =>
    refine ⟨h.stop, ?_, fun _ h' => (nomatch h'), fun hd => ?_⟩
    · rintro _ ⟨⟩ hr
      exact active_firstStore hr
    · have hdep : s.deposed = true := (deposed_of_changing hch).trans hd
      have hr : r.deposes = true := (Bool.and_eq_true_iff.mp hd).2
      exact ((h.deposed hdep).firstStore hr).congr rfl rfl
  | second r hch =>
    -- the first store has cleared the flag, and this one clears the pointer
    have hshut : r.deposes = true → (s.secondStore r).Shut :=
      fun hr => shut_secondStore (h.flag r hch hr) hr
    refine ⟨h.stop, fun _ h' => (nomatch h'), ?_, fun hd => ?_⟩
    · rintro _ ⟨⟩ hr
      exact (hshut hr).congr rfl rfl
    · exact (hshut (Bool.and_eq_true_iff.mp hd).2).congr rfl rfl
  | returned r hch =>
    refine ⟨h.stop, fun _ h' => (nomatch h'), fun _ h' => (nomatch h'), fun hd => ?_⟩
    exact (h.shut r hch (Bool.and_eq_true_iff.mp hd).1).congr rfl rfl
  | streamWAL start => exact h.congr rfl rfl rfl rfl rfl
  | call hc hstep => exact h.congr rfl rfl rfl rfl rfl

theorem Moves.deposed (hs : s.Moves a s') (hd : s.deposed = true) (hok : s.NoLeader a) :
    s'.deposed = true := by
  cases hs with
  | log w _ => exact hd
  | change r hch => exact Bool.and_eq_true_iff.mpr ⟨(Bool.and_eq_true_iff.mp hd).1, hok⟩
  | stopped r hch => exact (deposed_of_changing hch).symm.trans hd
  | first r hch => exact (deposed_of_changing hch).symm.trans hd
  | second r hch => exact (deposed_of_changing hch).symm.trans hd
  | returned r hch =>
    rw [deposed_of_changing hch] at hd
    exact Bool.and_eq_true_iff.mpr ⟨(Bool.and_eq_true_iff.mp hd).2, rfl⟩
  | streamWAL start => exact hd
  | call hc hstep => exact hd

end Streaming

/-! ### The calls -/

namespace StreamCall

variable {s : Streaming} {c c' : StreamCall} {a : CallStep}

/-- Where the cases of a `select` lead. -/
inductive Chosen (w : WalFiles) (c : StreamCall) : StreamStage → Prop
  | ended (err : StreamError) : Chosen w c (.returned err)
  | reopened (v : StreamVars) (hstage : c.stage = .select v ∨ c.stage = .wait v) :
      Chosen w c (.reopened { v with file := w.path, offset := 0 })
  | read (v : StreamVars) (hstage : c.stage = .select v) (hdone : c.done = false) :
      Chosen w c (.read v)
  | retry (v : StreamVars) (hstage : c.stage = .wait v) : Chosen w c (.select v)

theorem chosen_reopen {w : WalFiles} {v : StreamVars}
    (hstage : c.stage = .select v ∨ c.stage = .wait v) (opened : Bool) :
    Chosen w c (v.reopen w opened) := by
  cases opened with
  | true => exact .reopened v hstage
  | false => exact .ended _

theorem chosen_of_choose {w : WalFiles} {case : SelectCase} {stage : StreamStage}
    (h : c.choose w case = some stage) : Chosen w c stage := by
  unfold choose at h
  split at h
  · split at h <;> cases h
    exact .ended _
  · split at h <;> cases h
    exact .ended _
  · next v opened hstage =>
    split at h <;> cases h
    exact chosen_reopen (.inl hstage) opened
  · next v opened hstage =>
    split at h <;> cases h
    exact chosen_reopen (.inr hstage) opened
  · next v hstage =>
    split at h
    · cases h
    · next hready =>
      cases h
      exact .read v hstage (Bool.eq_false_iff.mpr fun hd => hready (.inl hd))
  · next v hstage =>
    cases h
    exact .retry v hstage
  · cases h

theorem inFlight_of_chosen {w : WalFiles} {stage : StreamStage} (h : Chosen w c stage)
    (h' : inFlight ⟨stage, c.done⟩ = true) : c.inFlight = true := by
  rw [inFlight]
  cases h with
  | ended err => cases h'
  | reopened v hstage =>
    rcases hstage with hstage | hstage
    · rw [hstage]
      exact h'
    · rw [hstage]
      exact h'
  | read v hstage hdone => rw [hstage, hdone]; rfl
  | retry v hstage =>
    rw [hstage]
    exact h'

theorem inFlight_of_delivery {entry : RawEntry} (h : c.delivery a = some entry) :
    c.inFlight = true := by
  cases a with
  | send ok =>
    cases ok with
    | true =>
      rw [delivery] at h
      split at h
      · next v entry hstage => rw [inFlight, hstage]
      · cases h
    | false => cases h
  | go => cases h
  | select case => cases h
  | cancel => cases h

variable [Crc32]

theorem inFlight_of_go (hshut : s.Shut) {stage : StreamStage} (h : c.stage.go s = some stage)
    (h' : inFlight ⟨stage, c.done⟩ = true) : c.inFlight = true := by
  rw [inFlight]
  cases hstage : c.stage with
  -- the two loads are all that looks at the flag and the pointer
  | called start =>
    rw [hstage, StreamStage.go, hshut.active] at h
    cases h
    cases h'
  | admitted start =>
    rw [hstage, StreamStage.go, hshut.streamer] at h
    cases h
    cases h'
  | loaded streamer start =>
    rw [hstage] at h
    cases h
    exact h'
  | reopened v =>
    rw [hstage] at h
    cases h
    exact h'
  | read v => rfl
  | send v entry => rfl
  | select v =>
    rw [hstage] at h
    cases h
  | wait v =>
    rw [hstage] at h
    cases h
  | returned err =>
    rw [hstage] at h
    cases h

theorem inFlight_of_step (hshut : s.Shut) (h : c.step s a = some c') (h' : c'.inFlight = true) :
    c.inFlight = true := by
  cases a with
  | go =>
    obtain ⟨stage, hgo, rfl⟩ := Option.map_eq_some_iff.mp h
    exact inFlight_of_go hshut hgo h'
  | select case =>
    obtain ⟨stage, hchoose, rfl⟩ := Option.map_eq_some_iff.mp h
    exact inFlight_of_chosen (chosen_of_choose hchoose) h'
  | send ok =>
    rw [step] at h
    split at h
    · next v entry hstage => rw [inFlight, hstage]
    · cases h
  | cancel =>
    cases h
    rw [inFlight] at h' ⊢
    cases hstage : c.stage <;> simp_all

end StreamCall

/-! ### Runs of a deposed leader -/

namespace Streaming

/-- What was delivered between the two states came from calls that were in flight in the
first, and no other call is in flight in the second. -/
structure Leftover (s s' : Streaming) : Prop where
  inFlight : ∀ i, s'.InFlight i → s.InFlight i
  sent : ∃ more, s'.sent = s.sent ++ more ∧ ∀ d ∈ more, s.InFlight d.1

variable {s s' s'' : Streaming}

theorem Leftover.of_eq (hcalls : s'.calls = s.calls) (hsent : s'.sent = s.sent) :
    s.Leftover s' where
  inFlight i h := by rwa [InFlight, hcalls] at h
  sent := ⟨[], by rw [hsent, List.append_nil], fun _ hd => absurd hd List.not_mem_nil⟩

theorem Leftover.trans (h : s.Leftover s') (h' : s'.Leftover s'') : s.Leftover s'' where
  inFlight i hi := h.inFlight i (h'.inFlight i hi)
  sent := by
    obtain ⟨more, hsent, hmore⟩ := h.sent
    obtain ⟨more', hsent', hmore'⟩ := h'.sent
    refine ⟨more ++ more', by rw [hsent', hsent, List.append_assoc], fun d hd => ?_⟩
    rcases List.mem_append.mp hd with hd | hd
    · exact hmore d hd
    · exact h.inFlight _ (hmore' d hd)

theorem Leftover.streamWAL (s : Streaming) (start : Int) :
    s.Leftover { s with calls := s.calls ++ [⟨.called start, false⟩] } where
  inFlight i := by
    rintro ⟨c, hc, hfl⟩
    rcases Nat.lt_or_ge i s.calls.length with hi | hi
    · exact ⟨c, (List.getElem?_append_left hi).symm.trans hc, hfl⟩
    · rw [List.getElem?_append_right hi] at hc
      rw [List.mem_singleton.mp (List.mem_of_getElem? hc)] at hfl
      cases hfl
  sent := ⟨[], (List.append_nil _).symm, fun _ hd => absurd hd List.not_mem_nil⟩

variable [Crc32] {a : StreamingStep}

theorem Leftover.call (hshut : s.Shut) {i : Nat} {c c' : StreamCall} {a : CallStep}
    (hc : s.calls[i]? = some c) (hstep : c.step s a = some c') :
    s.Leftover { s with
      calls := s.calls.set i c'
      sent := s.sent ++ ((c.delivery a).map fun entry => (i, entry)).toList } where
  inFlight j := by
    rintro ⟨d, hd, hfl⟩
    have hi : i < s.calls.length := (List.getElem?_eq_some_iff.mp hc).1
    by_cases hij : i = j
    · subst hij
      rw [List.getElem?_set_self hi] at hd
      obtain rfl := Option.some.inj hd
      exact ⟨c, hc, StreamCall.inFlight_of_step hshut hstep hfl⟩
    · rw [List.getElem?_set_ne hij] at hd
      exact ⟨d, hd, hfl⟩
  sent := by
    refine ⟨_, rfl, fun d hd => ?_⟩
    obtain ⟨entry, hdel, rfl⟩ := Option.map_eq_some_iff.mp (Option.mem_toList.mp hd)
    exact ⟨c, hc, StreamCall.inFlight_of_delivery hdel⟩

theorem Leftover.step (h : s.Gated) (hd : s.deposed = true) (hs : s.Moves a s') :
    s.Leftover s' := by
  cases hs with
  | log w _ => exact .of_eq rfl rfl
  | change r hch => exact .of_eq rfl rfl
  | stopped r hch => exact .of_eq rfl rfl
  | first r hch => exact .of_eq rfl rfl
  | second r hch => exact .of_eq rfl rfl
  | returned r hch => exact .of_eq rfl rfl
  | streamWAL start => exact .streamWAL s start
  | call hc hstep => exact .call (h.deposed hd) hc hstep

end Streaming

/-- **What a deposed leader delivers.**  After `BecomeFollower` or `BecomeStandalone` has
returned and until the next `BecomeLeader`, nothing is delivered except by the calls that
were in flight. -/
theorem deposed_leader_delivers_in_flight [Crc32] {file : List UInt8} {s s' : Streaming}
    (h : Runs Streaming.step (fun _ _ => True) (Streaming.initial file) s)
    (hd : s.deposed = true) (h' : Runs Streaming.step Streaming.NoLeader s s') :
    ∃ more, s'.sent = s.sent ++ more ∧ ∀ d ∈ more, s.InFlight d.1 := by
  have hgated : s.Gated :=
    h.invariant (fun _ _ _ hg hs _ => hg.step (hg.moves hs)) (Streaming.gated_initial file)
  have hleft : s.Leftover s' :=
    Runs.relates (P := fun s => s.Gated ∧ s.deposed = true)
      (fun _ _ _ hg hs hok => ⟨hg.1.step (hg.1.moves hs), (hg.1.moves hs).deposed hg.2 hok⟩)
      (fun _ => .of_eq rfl rfl) (fun _ _ _ => Streaming.Leftover.trans)
      (fun _ _ _ hg hs _ => .step hg.1 hg.2 (hg.1.moves hs)) h' ⟨hgated, hd⟩
  exact hleft.sent

section

local instance streamingCrc : Crc32 := Crc32.ieee

/-- A leader with a replica at its `select`, and `BecomeFollower`. -/
def deposition : List StreamingStep :=
  [.write 1 [7] 21, .change (.becomeLeader ⟨0⟩), .advance, .advance, .advance, .advance,
    .streamWAL 0, .call 0 .go, .call 0 .go, .call 0 .go,
    .change .becomeFollower, .advance, .advance, .advance, .advance]

/-- **A deposed leader streams on.**  `BecomeFollower` has returned and nothing has been
delivered; then the call that was running delivers a record. -/
theorem deposed_leader_streams_on :
    ∃ s s', Runs Streaming.step (fun _ _ => True) (Streaming.initial []) s ∧
      Runs Streaming.step Streaming.NoLeader s s' ∧
      (s.deposed = true ∧ s.sent = [] ∧ s'.deposed = true) ∧
      s'.sent = [(0, ⟨0, encode ⟨1, [7]⟩, 21⟩)] :=
  Runs.exists_of_execs deposition
    [.call 0 (.select .otherwise), .call 0 .go, .call 0 (.send true)] (by decide +kernel)

/-- A leader delivers a record, the connection ends, and `BecomeStandalone`. -/
def drained : List StreamingStep :=
  [.write 1 [7] 21, .change (.becomeLeader ⟨0⟩), .advance, .advance, .advance, .advance,
    .streamWAL 0, .call 0 .go, .call 0 .go, .call 0 .go, .call 0 (.select .otherwise), .call 0 .go,
    .call 0 (.send true), .call 0 .cancel,
    .change .becomeStandalone, .advance, .advance, .advance, .advance]

/-- Nothing is delivered then, to the old connection or to a new one. -/
theorem deposed_leader_delivers_in_flight_drained :
    ∃ s s', Runs Streaming.step (fun _ _ => True) (Streaming.initial []) s ∧
      Runs Streaming.step Streaming.NoLeader s s' ∧
      (s.deposed = true ∧ s.sent.length = 1 ∧ s.calls = [⟨.select ⟨0, 21, 0⟩, true⟩] ∧
        s'.calls = [⟨.returned .canceled, true⟩, ⟨.returned (.unavailable notLeader), false⟩]) ∧
      s'.sent = s.sent := by
  refine Runs.exists_and_of_execs drained
    [.write 2 [8] 21, .call 0 (.select .done), .streamWAL 0, .call 1 .go] (by decide +kernel) ?_
  rintro s s' hs hs' ⟨hd, _, hcalls, _⟩
  obtain ⟨more, hmore, hfl⟩ := deposed_leader_delivers_in_flight hs hd hs'
  have hnone : ∀ i, ¬s.InFlight i := by
    rintro i ⟨c, hc, hfl⟩
    rw [hcalls] at hc
    rw [List.mem_singleton.mp (List.mem_of_getElem? hc)] at hfl
    cases hfl
  have hnil : more = [] := List.eq_nil_iff_forall_not_mem.mpr fun d hd => hnone _ (hfl d hd)
  rw [hmore, hnil, List.append_nil]

end

end Kv
