/-
CoreX/Lib/Decimal.lean

Decimal integers as text: `%d` of `fmt`, and `strconv.ParseInt` in base ten and 64 bits.

What is printed is parsed again (`parseInt_formatInt`).  The parser takes more than that:
a plus sign, and zeros in front.
-/
import Mathlib.Data.List.Basic

namespace Decimal

/-- `%d`. -/
def formatInt (v : Int) : List Char :=
  if v < 0 then '-' :: Nat.toDigits 10 v.natAbs else Nat.toDigits 10 v.natAbs

/-- The digits of `ParseUint`. -/
def parseDigits (s : List Char) : Option Nat :=
  if s ≠ [] ∧ s.all Char.isDigit then some (Nat.ofDigitChars 10 s 0) else none

/-- The least number that is too large for an `int64`. -/
def cutoff : Nat := 0x8000000000000000

/-- `ParseInt(s, 10, 64)`; `none` is either of its errors. -/
def parseInt (s : List Char) : Option Int :=
  match s with
  | '-' :: digits => (parseDigits digits).bind fun n => if n ≤ cutoff then some (-n) else none
  | '+' :: digits => (parseDigits digits).bind fun n => if n < cutoff then some n else none
  | digits => (parseDigits digits).bind fun n => if n < cutoff then some n else none

-- no digits, no sign alone, no other characters, and the two ends of the range
example : (["", "-", "1_0", "9223372036854775808", "+9223372036854775807", "-9223372036854775808",
    "007"].map fun s => parseInt s.toList) =
    [none, none, none, none, some 9223372036854775807, some (-9223372036854775808), some 7] := by
  decide +kernel

theorem isDigit_of_mem_digits {n : Nat} {c : Char} (h : c ∈ Nat.toDigits 10 n) :
    c.isDigit = true := Nat.isDigit_of_mem_toDigits (by decide) (by decide) h

theorem parseDigits_toDigits (n : Nat) : parseDigits (Nat.toDigits 10 n) = some n := by
  have hall : (Nat.toDigits 10 n).all Char.isDigit = true :=
    List.all_eq_true.mpr fun c hc => isDigit_of_mem_digits hc
  rw [parseDigits, if_pos ⟨Nat.toDigits_ne_nil, hall⟩, Nat.ofDigitChars_ten_toDigits]

theorem parseInt_toDigits {n : Nat} (h : n < cutoff) :
    parseInt (Nat.toDigits 10 n) = some (n : Int) := by
  have hparse := parseDigits_toDigits n
  have hdigit : ∀ c ∈ Nat.toDigits 10 n, c.isDigit = true := fun c hc => isDigit_of_mem_digits hc
  unfold parseInt
  split
  · next digits heq =>
    have hminus := hdigit '-' (by rw [heq]; exact List.mem_cons_self)
    cases hminus
  · next digits heq =>
    have hplus := hdigit '+' (by rw [heq]; exact List.mem_cons_self)
    cases hplus
  · rw [hparse, Option.bind_some, if_pos h]

theorem parseInt_formatInt {v : Int} (hlow : -cutoff ≤ v) (hhigh : v < cutoff) :
    parseInt (formatInt v) = some v := by
  unfold formatInt
  split
  · next hneg =>
    show (parseDigits (Nat.toDigits 10 v.natAbs)).bind _ = _
    rw [parseDigits_toDigits, Option.bind_some, if_pos (by omega)]
    congr 1
    omega
  · next hpos =>
    rw [parseInt_toDigits (by omega)]
    congr 1
    omega

theorem isDigit_of_mem_formatInt {v : Int} (h : 0 ≤ v) {c : Char} (hc : c ∈ formatInt v) :
    c.isDigit = true := by
  rw [formatInt, if_neg (by omega)] at hc
  exact isDigit_of_mem_digits hc

end Decimal
