/-
CoreX/Lib/Checked.lean

Index and slice expressions that can panic, as functions into `Option`: `none` is the
panic.  The bound of a slice is the length, not the capacity, so an expression that is
`some` stays within what the slice holds.

`field` is the common case, a number of fixed width read from a slice expression.
-/
import Mathlib.Data.List.Basic

namespace Checked

variable {α β : Type*}

/-- `l[i]`. -/
def index (l : List α) (i : Nat) : Option α := l[i]?

/-- `l[i:j]`. -/
def sub (l : List α) (i j : Nat) : Option (List α) :=
  if i ≤ j ∧ j ≤ l.length then some ((l.drop i).take (j - i)) else none

/-- A read of `w` items at the beginning, such as `binary.LittleEndian.Uint32`. -/
def read (w : Nat) (get : List α → β) (l : List α) : Option β :=
  if w ≤ l.length then some (get (l.take w)) else none

/-- The same from `l[i:j]`. -/
def field (w : Nat) (get : List α → β) (l : List α) (i j : Nat) : Option β :=
  (sub l i j).bind (read w get)

variable {l : List α} {get : List α → β} {w i j : Nat}

end Checked
