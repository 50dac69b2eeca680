/-
CoreX/Lib/Channel.lean

Channels with a buffer, as Go has them.  A send that does not block either puts its
item into the buffer or drops it; sending on a closed channel and closing a closed
channel panic, here `none`.
-/
import Mathlib.Logic.Function.Basic
import Mathlib.Data.List.Nodup

structure Channel (α : Type*) where
  buf : List α
  cap : Nat
  closed : Bool
  deriving DecidableEq, Repr

namespace Channel

variable {α : Type*} {c c' : Channel α} {x : α}

/-- `make(chan α, cap)`. -/
def make (cap : Nat) : Channel α := ⟨[], cap, false⟩

/-- `select` with a send and a `default`. -/
def trySend (c : Channel α) (x : α) : Option (Channel α) :=
  if c.closed then none
  else if c.buf.length < c.cap then some { c with buf := c.buf ++ [x] }
  else some c

/-- `close`. -/
def close (c : Channel α) : Option (Channel α) :=
  if c.closed then none else some { c with closed := true }

/-- A receive: `none` while it blocks, no item once the channel is closed and empty. -/
def receive (c : Channel α) : Option (Option α × Channel α) :=
  match c.buf with
  | x :: rest => some (some x, { c with buf := rest })
  | [] => if c.closed then some (none, c) else none

theorem trySend_eq_none : c.trySend x = none ↔ c.closed = true := by
  unfold trySend
  split
  · next h => simp [h]
  · next h => split <;> simp [h]

theorem trySend_of_room (ho : c.closed = false) (hr : c.buf.length < c.cap) :
    c.trySend x = some { c with buf := c.buf ++ [x] } := by
  simp [trySend, ho, hr]

theorem closed_of_trySend (h : c.trySend x = some c') : c'.closed = c.closed := by
  unfold trySend at h
  split at h
  · cases h
  · split at h <;> cases h <;> rfl

theorem receive_some (h : c.receive = some (some x, c')) : c.buf = x :: c'.buf := by
  unfold receive at h
  split at h
  · next hbuf =>
    cases h
    exact hbuf
  · split at h <;> cases h

theorem closed_of_receive {r : Option α} (h : c.receive = some (r, c')) :
    c'.closed = c.closed := by
  unfold receive at h
  split at h
  · cases h
    rfl
  · split at h
    · cases h
      rfl
    · cases h

/-! ### Many channels -/

section

variable {κ : Type*} [DecidableEq κ]

/-- Close some of them, one after the other. -/
def closeAll : List κ → (κ → Channel α) → Option (κ → Channel α)
  | [], chans => some chans
  | k :: ks, chans => (chans k).close.bind fun c => closeAll ks (Function.update chans k c)

theorem closeAll_isSome {ks : List κ} {chans : κ → Channel α} (hnodup : ks.Nodup)
    (hopen : ∀ k ∈ ks, (chans k).closed = false) : (closeAll ks chans).isSome = true := by
  induction ks generalizing chans with
  | nil => rfl
  | cons k ks ih =>
    obtain ⟨hk, hnodup'⟩ := List.nodup_cons.mp hnodup
    have hclose : (chans k).close = some { chans k with closed := true } := by
      simp [close, hopen k List.mem_cons_self]
    rw [closeAll, hclose, Option.bind_some]
    apply ih hnodup'
    intro k' hk'
    have hne : k' ≠ k := by
      rintro rfl
      exact hk hk'
    rw [Function.update_of_ne hne]
    exact hopen k' (List.mem_cons_of_mem k hk')

end

end Channel
