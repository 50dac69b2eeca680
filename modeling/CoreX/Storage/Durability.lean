/-
CoreX/Storage/Durability.lean

What survives crashes and failed writes.  A `Session` is one file over its whole
life: the writer, where the last acknowledged record ends, and every `Write` that
was ever attempted.  A `Write` may fail after any number of bytes, and a crash may
cut the file anywhere behind the last acknowledged record, with or without a
`Write` in progress; `NewWriter` then opens the file as it finds it.
-/
import CoreX.Lib.Run
import CoreX.Storage.Wal

namespace Wal

open StepSystem

/-! ### Sessions -/

/-- How a call of `Write` ended, if it ended. -/
inductive Outcome
  | acknowledged
  | failed
  | unfinished
  deriving DecidableEq, Repr

structure Attempt where
  payload : List UInt8
  outcome : Outcome
  deriving DecidableEq, Repr

structure Session where
  writer : Writer
  ackedEnd : Nat
  attempts : List Attempt
  deriving DecidableEq, Repr

/-- A new file. -/
def Session.initial : Session := ⟨newWriter [], 0, []⟩

inductive Event
  /-- `Write` returns `nil`. -/
  | write (now : UInt64) (payload : List UInt8)
  /-- `Write` returns an error; `n` bytes of the record are in the file, or all. -/
  | fail (now : UInt64) (payload : List UInt8) (n : Nat)
  /-- The machine stops while no `Write` is in progress, and the file is cut. -/
  | crash (cut : Nat)
  /-- The machine stops inside a `Write` that has written `n` bytes. -/
  | crashDuring (now : UInt64) (payload : List UInt8) (n : Nat) (cut : Nat)
  deriving DecidableEq, Repr

section

variable [Crc32]

namespace Session

variable (s : Session)

/-- The file is cut and opened again. -/
def reopen (cut : Nat) : Option Session :=
  if s.ackedEnd ≤ cut ∧ cut ≤ s.writer.file.length then
    some { s with writer := newWriter (s.writer.file.take cut) }
  else none

/-- A `Write` that has written `n` bytes and is not acknowledged. -/
def attempt (now : UInt64) (payload : List UInt8) (n : Nat) (outcome : Outcome) :
    Session :=
  { s with
    writer := s.writer.writeFailed now payload n
    attempts := s.attempts ++ [⟨payload, outcome⟩] }

def step : Event → Option Session
  | .write now payload =>
      some
        { writer := s.writer.write now payload
          ackedEnd := (s.writer.write now payload).file.length
          attempts := s.attempts ++ [⟨payload, .acknowledged⟩] }
  | .fail now payload n => some (s.attempt now payload n .failed)
  | .crash cut => s.reopen cut
  | .crashDuring now payload n cut => (s.attempt now payload n .unfinished).reopen cut

/-- What the reader finds in the file. -/
def scanned : List (List UInt8) := (readAll s.writer.file).1.map Record.data

/-- **The law of the log.**  The payloads found belong to attempts, in their order:
to every acknowledged one, to no failed one. -/
def KeepsAcknowledged : Prop :=
  ∃ kept : List Attempt, kept.Sublist s.attempts ∧
    (∀ a ∈ kept, a.outcome ≠ .failed) ∧
    kept.filter (·.outcome = .acknowledged) = s.attempts.filter (·.outcome = .acknowledged) ∧
    s.scanned = kept.map Attempt.payload

end Session

/-- The reader gets through to the end of the file. -/
def clean (file : List UInt8) : Bool := (readAll file).2.1 == []

/-- A `Write` starts behind a whole record, its size fits the header, and if it
fails, the record is not complete. -/
def orderly (s : Session) : Event → Bool
  | .write now payload => clean s.writer.file && decide (Record.Sized ⟨now, payload⟩)
  | .fail now payload n =>
      clean s.writer.file && decide (Record.Sized ⟨now, payload⟩) &&
        decide (n < (encode ⟨now, payload⟩).length)
  | .crash _ => true
  | .crashDuring now payload _ _ => clean s.writer.file && decide (Record.Sized ⟨now, payload⟩)

/-! ### The file as a stream of attempts -/

/-- The record of an attempt made at a given time. -/
def recordOf (k : UInt64 × Attempt) : Record := ⟨k.1, k.2.payload⟩

/-- The bytes of that record. -/
def frame (k : UInt64 × Attempt) : List UInt8 := encode (recordOf k)

/-- `file` consists of the records of attempts and a torn end; the last
acknowledged one ends at `ackedEnd`. -/
structure Holds (file : List UInt8) (ackedEnd : Nat) (attempts : List Attempt)
    (acked rest : List (UInt64 × Attempt)) (t : List UInt8) : Prop where
  file_eq : file = (acked ++ rest).flatMap frame ++ t
  torn : Frames.Torn frame (fun k => (recordOf k).Sized) t
  sized : ∀ k ∈ acked ++ rest, (recordOf k).Sized
  ackedEnd_eq : ackedEnd = (acked.flatMap frame).length
  unfinished : ∀ k ∈ rest, k.2.outcome = .unfinished
  not_failed : ∀ k ∈ acked, k.2.outcome ≠ .failed
  sublist : ((acked ++ rest).map Prod.snd).Sublist attempts
  acknowledged : (acked.map Prod.snd).filter (·.outcome = .acknowledged) =
    attempts.filter (·.outcome = .acknowledged)

variable {file t : List UInt8} {ackedEnd : Nat} {attempts : List Attempt}
  {acked rest : List (UInt64 × Attempt)}

omit [Crc32] in
theorem filter_unfinished (h : ∀ k ∈ rest, k.2.outcome = .unfinished) :
    (rest.map Prod.snd).filter (·.outcome = .acknowledged) = [] := by
  rw [List.filter_eq_nil_iff]
  intro a ha
  obtain ⟨k, hk, rfl⟩ := List.mem_map.mp ha
  rw [h k hk]
  decide

theorem flatMap_frame (ks : List (UInt64 × Attempt)) :
    ks.flatMap frame = (ks.map recordOf).flatMap encode := by
  rw [List.flatMap_map]
  rfl

theorem flatMap_frame_concat (ks : List (UInt64 × Attempt)) (now : UInt64) (a : Attempt) :
    (ks ++ [(now, a)]).flatMap frame = ks.flatMap frame ++ encode ⟨now, a.payload⟩ := by
  rw [List.flatMap_append, List.flatMap_singleton]
  rfl

namespace Holds

theorem torn_record (h : Holds file ackedEnd attempts acked rest t) :
    Frames.Torn encode Record.Sized t := by
  rcases h.torn with rfl | ⟨k, hk, hpre, hlt⟩
  · exact .nil
  · exact .inr ⟨recordOf k, hk, hpre, hlt⟩

theorem readAll_eq (h : Holds file ackedEnd attempts acked rest t) :
    ∃ e, readAll file = ((acked ++ rest).map recordOf, t, some e) := by
  have hsized : ∀ r ∈ (acked ++ rest).map recordOf, r.Sized := by
    intro r hr
    obtain ⟨k, hk, rfl⟩ := List.mem_map.mp hr
    exact h.sized k hk
  obtain ⟨e, he⟩ := readAll_stream hsized h.torn_record
  rw [← flatMap_frame, ← h.file_eq] at he
  exact ⟨_, he⟩

theorem of_clean (h : Holds file ackedEnd attempts acked rest t) (hc : clean file = true) :
    t = [] := by
  obtain ⟨e, he⟩ := h.readAll_eq
  rw [clean, he] at hc
  exact eq_of_beq hc

theorem write (h : Holds file ackedEnd attempts acked rest []) {now : UInt64}
    {payload : List UInt8} (hsized : Record.Sized ⟨now, payload⟩) :
    Holds (file ++ encode ⟨now, payload⟩) (file ++ encode ⟨now, payload⟩).length
      (attempts ++ [⟨payload, .acknowledged⟩])
      (acked ++ rest ++ [(now, ⟨payload, .acknowledged⟩)]) [] [] := by
  have hfile : file ++ encode ⟨now, payload⟩ =
      (acked ++ rest ++ [(now, (⟨payload, .acknowledged⟩ : Attempt))]).flatMap frame := by
    rw [h.file_eq, List.append_nil, flatMap_frame_concat]
  refine ⟨?_, .nil, ?_, ?_, ?_, ?_, ?_, ?_⟩
  · rw [hfile, List.append_nil, List.append_nil]
  · intro k hk
    rw [List.append_nil, List.mem_append, List.mem_singleton] at hk
    rcases hk with hk | rfl
    · exact h.sized k hk
    · exact hsized
  · rw [hfile]
  · exact fun k hk => absurd hk (List.not_mem_nil)
  · intro k hk
    rw [List.mem_append, List.mem_append, List.mem_singleton] at hk
    rcases hk with (hk | hk) | rfl
    · exact h.not_failed k hk
    · rw [h.unfinished k hk]
      decide
    · exact fun ho => nomatch ho
  · rw [List.append_nil, List.map_append]
    exact h.sublist.append (List.Sublist.refl _)
  · rw [List.map_append, List.filter_append, List.filter_append, ← h.acknowledged,
      List.map_append, List.filter_append, filter_unfinished h.unfinished, List.append_nil]
    rfl

theorem attempt_torn (h : Holds file ackedEnd attempts acked rest []) {now : UInt64}
    {payload : List UInt8} (hsized : Record.Sized ⟨now, payload⟩) {n : Nat}
    (hn : n < (encode ⟨now, payload⟩).length) {outcome : Outcome} (ho : outcome ≠ .acknowledged) :
    Holds (file ++ (encode ⟨now, payload⟩).take n) ackedEnd (attempts ++ [⟨payload, outcome⟩])
      acked rest ((encode ⟨now, payload⟩).take n) := by
  refine ⟨?_, ?_, h.sized, h.ackedEnd_eq, h.unfinished, h.not_failed, ?_, ?_⟩
  · rw [h.file_eq, List.append_nil]
  · show Frames.Torn frame _ ((frame (now, ⟨payload, outcome⟩)).take n)
    refine Frames.Torn.take ?_ ?_
    · exact hsized
    · exact hn
  · exact h.sublist.trans (List.sublist_append_left _ _)
  · rw [h.acknowledged, List.filter_append]
    simp [ho]

theorem attempt_whole (h : Holds file ackedEnd attempts acked rest []) {now : UInt64}
    {payload : List UInt8} (hsized : Record.Sized ⟨now, payload⟩) :
    Holds (file ++ encode ⟨now, payload⟩) ackedEnd (attempts ++ [⟨payload, .unfinished⟩])
      acked (rest ++ [(now, ⟨payload, .unfinished⟩)]) [] := by
  refine ⟨?_, .nil, ?_, h.ackedEnd_eq, ?_, h.not_failed, ?_, ?_⟩
  · rw [h.file_eq, List.append_nil, List.append_nil, ← List.append_assoc, flatMap_frame_concat]
  · intro k hk
    rw [← List.append_assoc, List.mem_append, List.mem_singleton] at hk
    rcases hk with hk | rfl
    · exact h.sized k hk
    · exact hsized
  · intro k hk
    rw [List.mem_append, List.mem_singleton] at hk
    rcases hk with hk | rfl
    · exact h.unfinished k hk
    · rfl
  · rw [← List.append_assoc, List.map_append]
    exact h.sublist.append (List.Sublist.refl _)
  · rw [h.acknowledged, List.filter_append]
    simp

theorem cut (h : Holds file ackedEnd attempts acked rest t) {c : Nat} (hc : ackedEnd ≤ c) :
    ∃ rest' t', Holds (file.take c) ackedEnd attempts acked rest' t' := by
  obtain ⟨bs, cs, u, hsplit, hu, htake, hkeep⟩ := Frames.Torn.exists_cut h.sized h.torn c
  rw [h.ackedEnd_eq] at hc
  obtain ⟨fs, rfl⟩ := hkeep acked rest rfl hc
  have hrest : rest = fs ++ cs := by
    rw [List.append_assoc] at hsplit
    exact List.append_cancel_left hsplit
  refine ⟨fs, u, ?_, hu, ?_, h.ackedEnd_eq, ?_, h.not_failed, ?_, h.acknowledged⟩
  · rw [h.file_eq, htake]
  · exact fun k hk => h.sized k (hsplit ▸ List.mem_append_left cs hk)
  · exact fun k hk => h.unfinished k (hrest ▸ List.mem_append_left cs hk)
  · have hsub := h.sublist
    rw [hsplit, List.map_append] at hsub
    exact (List.sublist_append_left _ _).trans hsub

end Holds

/-! ### Every orderly session -/

/-- The file of a session is such a stream. -/
def SessionInv (s : Session) : Prop :=
  ∃ acked rest t, Holds s.writer.file s.ackedEnd s.attempts acked rest t

theorem SessionInv.attempt {s : Session} (h : SessionInv s) (hc : clean s.writer.file = true)
    {now : UInt64} {payload : List UInt8} (hsized : Record.Sized ⟨now, payload⟩) (n : Nat)
    {outcome : Outcome} (ho : outcome ≠ .acknowledged)
    (hwhole : outcome ≠ .unfinished → n < (encode ⟨now, payload⟩).length) :
    SessionInv (s.attempt now payload n outcome) := by
  obtain ⟨acked, rest, t, h⟩ := h
  obtain rfl := h.of_clean hc
  rcases Nat.lt_or_ge n (encode ⟨now, payload⟩).length with hn | hn
  · exact ⟨acked, rest, _, h.attempt_torn hsized hn ho⟩
  · have hun : outcome = .unfinished := by
      by_contra hne
      have := hwhole hne
      omega
    subst hun
    refine ⟨acked, rest ++ [(now, ⟨payload, .unfinished⟩)], [], ?_⟩
    have hfile : (s.attempt now payload n .unfinished).writer.file =
        s.writer.file ++ encode ⟨now, payload⟩ := by
      show s.writer.file ++ (encode ⟨now, payload⟩).take n = _
      rw [List.take_of_length_le hn]
    rw [hfile]
    exact h.attempt_whole hsized

theorem SessionInv.reopen {s s' : Session} (h : SessionInv s) {cut : Nat}
    (hs : s.reopen cut = some s') : SessionInv s' := by
  obtain ⟨acked, rest, t, h⟩ := h
  unfold Session.reopen at hs
  split at hs
  · next hcut =>
    obtain rfl := Option.some.inj hs
    obtain ⟨rest', t', h'⟩ := h.cut hcut.1
    exact ⟨acked, rest', t', h'⟩
  · cases hs

theorem SessionInv.step {s s' : Session} {ev : Event} (h : SessionInv s)
    (hs : s.step ev = some s') (hok : orderly s ev = true) : SessionInv s' := by
  cases ev with
  | write now payload =>
    obtain rfl := Option.some.inj hs
    simp only [orderly, Bool.and_eq_true, decide_eq_true_eq] at hok
    obtain ⟨acked, rest, t, h⟩ := h
    obtain rfl := h.of_clean hok.1
    exact ⟨_, [], [], h.write hok.2⟩
  | fail now payload n =>
    obtain rfl := Option.some.inj hs
    simp only [orderly, Bool.and_eq_true, decide_eq_true_eq] at hok
    exact h.attempt hok.1.1 hok.1.2 n (by decide) fun _ => hok.2
  | crash cut => exact h.reopen hs
  | crashDuring now payload n cut =>
    simp only [orderly, Bool.and_eq_true, decide_eq_true_eq] at hok
    exact (h.attempt hok.1 hok.2 n (by decide) fun hne => absurd rfl hne).reopen hs

theorem SessionInv.keepsAcknowledged {s : Session} (h : SessionInv s) : s.KeepsAcknowledged := by
  obtain ⟨acked, rest, t, h⟩ := h
  obtain ⟨e, he⟩ := h.readAll_eq
  refine ⟨(acked ++ rest).map Prod.snd, h.sublist, ?_, ?_, ?_⟩
  · intro a ha
    obtain ⟨k, hk, rfl⟩ := List.mem_map.mp ha
    rcases List.mem_append.mp hk with hk | hk
    · exact h.not_failed k hk
    · rw [h.unfinished k hk]
      decide
  · rw [List.map_append, List.filter_append, filter_unfinished h.unfinished, List.append_nil,
      h.acknowledged]
  · rw [Session.scanned, he, List.map_map, List.map_map]
    rfl

/-- **Acknowledged records survive**, in every session whose writes start behind a
whole record. -/
theorem acknowledged_kept {s : Session}
    (h : Runs Session.step (fun s ev => orderly s ev = true) Session.initial s) :
    s.KeepsAcknowledged := by
  have h0 : SessionInv Session.initial :=
    ⟨[], [], [], rfl, .nil, by simp, rfl, by simp, by simp, List.Sublist.refl [], rfl⟩
  exact (h.invariant (fun _ _ _ hinv hs hok => hinv.step hs hok) h0).keepsAcknowledged

end

/-! ### Two sessions -/

section

local instance sessionCrc : Crc32 := Crc32.ieee

/-- One `Write` fails after a byte, the next is acknowledged. -/
def tornThenWritten : List Event := [.fail 1 [10] 1, .write 2 [11]]

/-- **An acknowledged record is lost**: it comes after the byte of a failed one, and
the reader finds nothing. -/
theorem acknowledged_record_lost :
    ∃ s, Runs Session.step (fun _ _ => True) Session.initial s ∧
      (s.scanned = [] ∧ s.attempts.filter (·.outcome = .acknowledged) = [⟨[11], .acknowledged⟩]) ∧
      ¬s.KeepsAcknowledged := by
  refine Runs.exists_and_of_exec tornThenWritten (by decide +kernel) ?_
  rintro s _ ⟨hscan, hacked⟩ ⟨kept, -, -, hkept, hpayload⟩
  rw [hscan] at hpayload
  rw [List.map_eq_nil_iff.mp hpayload.symm, hacked] at hkept
  cases hkept

/-- A crash inside a `Write`, one that cuts the torn record off, and a `Write` that
fails at once. -/
def orderlyCrashes : List Event :=
  [.write 1 [10], .crashDuring 2 [11] 7 27, .crash 21, .write 3 [12], .fail 4 [13] 0,
    .crashDuring 5 [14] 21 63]

theorem acknowledged_kept_after_crashes :
    ∃ s, Runs Session.step (fun s ev => orderly s ev = true) Session.initial s ∧
      s.scanned = [[10], [12], [14]] ∧ s.KeepsAcknowledged :=
  Runs.exists_and_of_exec orderlyCrashes (by decide +kernel) fun _ hrun _ => acknowledged_kept hrun

end

end Wal
