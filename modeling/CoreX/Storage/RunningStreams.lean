/-
CoreX/Storage/RunningStreams.lean

Streams that no change of the role ends.  A call in the loop of `Stream` whose context is
not done reaches its `select` again.  There a swap of the file wakes it up, it opens the
new file and reads it from the beginning, and nothing on this way asks for the role
(`running_stream_delivers`).
-/
import CoreX.Storage.Streaming

namespace Kv

open StepSystem Wal

namespace Streaming

variable [Crc32] {s₀ s : Streaming} {i : Nat} {stage stage' : StreamStage} {v : StreamVars}

/-- A run without `BecomeLeader` has brought the call to a stage, with nothing delivered on
the way. -/
structure Brought (s₀ s : Streaming) (i : Nat) (stage : StreamStage) : Prop where
  run : Runs Streaming.step NoLeader s₀ s
  call : s.calls[i]? = some ⟨stage, false⟩
  sent : s.sent = s₀.sent

theorem Brought.set {a : CallStep} (h : s₀.Brought s i stage)
    (hstep : StreamCall.step s ⟨stage, false⟩ a = some ⟨stage', false⟩)
    (hdel : StreamCall.delivery ⟨stage, false⟩ a = none) :
    ∃ s', s₀.Brought s' i stage' ∧ s'.wal = s.wal := by
  have hi : i < s.calls.length := (List.getElem?_eq_some_iff.mp h.call).1
  refine ⟨{ s with calls := s.calls.set i ⟨stage', false⟩ },
    ⟨h.run.tail (a := .call i a) ?_ trivial, List.getElem?_set_self hi, h.sent⟩, rfl⟩
  simp only [Streaming.step, h.call, hstep, hdel, Option.map_some, Option.map_none,
    Option.toList_none, List.append_nil]

theorem Brought.go (h : s₀.Brought s i stage) (hgo : stage.go s = some stage') :
    ∃ s', s₀.Brought s' i stage' ∧ s'.wal = s.wal :=
  h.set (a := .go) (by rw [StreamCall.step, hgo]; rfl) rfl

theorem Brought.choose (h : s₀.Brought s i stage) (case : SelectCase)
    (hchoose : StreamCall.choose s.wal ⟨stage, false⟩ case = some stage') :
    ∃ s', s₀.Brought s' i stage' ∧ s'.wal = s.wal :=
  h.set (a := .select case) (by rw [StreamCall.step, hchoose]; rfl) rfl

theorem Brought.swaps (h : s₀.Brought s i stage) (n : Nat) :
    ∃ s', s₀.Brought s' i stage ∧ n ≤ s'.wal.compactionCh := by
  induction n with
  | zero => exact ⟨s, h, Nat.zero_le _⟩
  | succ n ih =>
    obtain ⟨s', h', hn⟩ := ih
    exact ⟨_, ⟨h'.run.tail (a := .swap []) rfl trivial, h'.call, h'.sent⟩, Nat.succ_le_succ hn⟩

theorem delivers_at_send {c : StreamCall} {entry : RawEntry} (hc : s.calls[i]? = some c)
    (hstage : c.stage = .send v entry) :
    ∃ s', s.step (.call i (.send true)) = some s' ∧ s'.sent = s.sent ++ [(i, entry)] := by
  have hdel : c.delivery (.send true) = some entry := by rw [StreamCall.delivery, hstage]
  have hstep : ∃ c', c.step s (.send true) = some c' := by
    rw [StreamCall.step, hstage]
    exact ⟨_, rfl⟩
  obtain ⟨c', hstep⟩ := hstep
  refine ⟨{ s with calls := s.calls.set i c', sent := s.sent ++ [(i, entry)] }, ?_, rfl⟩
  simp only [Streaming.step, hc, hstep, hdel, Option.map_some, Option.toList_some]

theorem readEntry_first (r : Record) (hr : r.Sized) (v : StreamVars) (hv : v.offset = 0) :
    v.readEntry (encode r) = .send v ⟨0, encode r, (encode r).length⟩ := by
  have hrec : Wal.readRecordAt (encode r) 0 = .ok r := by
    have h : Wal.readRecordAt ([] ++ (encode r ++ [])) 0 = .ok r := readRecordAt_encode hr []
    rwa [List.nil_append, List.append_nil] at h
  have hraw : Wal.readAt (encode r) 0 (encode r).length = some (encode r) :=
    readAt_append _ [] _ (by rw [List.nil_append, List.append_nil]) rfl rfl
  have hentry : readRawEntry (encode r) 0 = .ok ⟨0, encode r, (encode r).length⟩ :=
    readRawEntry_of_ok hrec hraw
  simp only [StreamVars.readEntry, hv, hentry]

theorem Brought.delivers (h : s₀.Brought s i (.select v)) :
    ∃ s' entry, Runs Streaming.step NoLeader s₀ s' ∧ s'.sent = s₀.sent ++ [(i, entry)] := by
  obtain ⟨s, h, hch⟩ := h.swaps v.compactionCh
  have hswap : s₀.Brought { s with wal := s.wal.swap (encode ⟨0, []⟩) } i (.select v) :=
    ⟨h.run.tail (a := .swap (encode ⟨0, []⟩)) rfl trivial, h.call, h.sent⟩
  obtain ⟨s₂, hopened, hwal₂⟩ :=
    hswap.choose (.compaction true) (if_pos (Nat.lt_succ_of_le hch))
  obtain ⟨s₃, hselect, hwal₃⟩ := hopened.go rfl
  obtain ⟨s₄, hready, hwal₄⟩ := hselect.choose .otherwise (if_neg (by simp [hwal₃]))
  -- what it reads now is the record of the new file
  have hfile : s₄.wal.inodes (s.wal.path + 1) = encode ⟨0, []⟩ := by
    rw [hwal₄, hwal₃, hwal₂]
    exact Function.update_self _ _ _
  have hgo : StreamStage.go s₄ (.read ⟨s.wal.path + 1, 0, s₂.wal.compactionCh⟩) =
      some (.send ⟨s.wal.path + 1, 0, s₂.wal.compactionCh⟩
        ⟨0, encode ⟨0, []⟩, (encode ⟨0, []⟩).length⟩) := by
    rw [StreamStage.go, hfile, readEntry_first ⟨0, []⟩ (by decide) _ rfl]
  obtain ⟨s₅, hread, -⟩ := hready.go hgo
  obtain ⟨s', hsend, hsent⟩ := delivers_at_send hread.call rfl
  exact ⟨s', _, hread.run.tail hsend trivial, hsent.trans (by rw [hread.sent])⟩

end Streaming

theorem running_stream_delivers [Crc32] {s : Streaming} {i : Nat} {c : StreamCall}
    (hc : s.calls[i]? = some c) (hfl : c.inFlight = true) (hread : ∀ v, c.stage ≠ .read v) :
    ∃ s' entry, Runs Streaming.step Streaming.NoLeader s s' ∧ s'.sent = s.sent ++ [(i, entry)] := by
  obtain ⟨stage, done⟩ := c
  have hhere : (!done) = true → s.Brought s i stage := by
    intro hdone
    rw [Bool.not_eq_true'] at hdone
    exact ⟨.refl s, hdone ▸ hc, rfl⟩
  cases stage with
  | called start => cases hfl
  | admitted start => cases hfl
  | loaded streamer start =>
    obtain ⟨s₁, hselect, -⟩ := (hhere hfl).go rfl
    exact hselect.delivers
  | select v => exact (hhere hfl).delivers
  | reopened v =>
    obtain ⟨s₁, hselect, -⟩ := (hhere hfl).go rfl
    exact hselect.delivers
  | wait v =>
    obtain ⟨s₁, hselect, -⟩ := (hhere hfl).choose .otherwise rfl
    exact hselect.delivers
  | read v => exact absurd rfl (hread v)
  | send v entry =>
    obtain ⟨s', hsend, hsent⟩ := Streaming.delivers_at_send hc rfl
    exact ⟨s', entry, (Runs.refl s).tail hsend trivial, hsent⟩
  | returned err => cases hfl

end Kv
