/-
CoreX/Lib/Bytes.lean

Numbers in bytes.  `putLE w n` writes the lowest `w` bytes of `n`, the lowest
first, and `getLE` reads such a list back; `putBE` and `getBE` are the same from
the other end.  A number that does not fit loses its high part, as the conversion
to a machine word does, and `getLE_putLE` says so for every number.

`putInt` and `getInt` are the two's complement forms, `putIntBE` and `getIntBE` those with
the highest byte first.
-/
import Mathlib.Data.Nat.ModEq
import Mathlib.Tactic.Positivity
import Mathlib.Tactic.Ring
import Mathlib.Tactic.Zify

namespace Bytes

/-! ### Unsigned numbers -/

/-- The lowest `w` bytes of `n`, little-endian. -/
def putLE : Nat → Nat → List UInt8
  | 0, _ => []
  | w + 1, n => UInt8.ofNat n :: putLE w (n / 256)

/-- The number a little-endian list of bytes stands for. -/
def getLE : List UInt8 → Nat
  | [] => 0
  | b :: rest => b.toNat + 256 * getLE rest

variable (w : Nat) (bytes : List UInt8)

@[simp] theorem length_putLE (n : Nat) : (putLE w n).length = w := by
  induction w generalizing n with
  | zero => rfl
  | succ w ih => rw [putLE, List.length_cons, ih]

theorem getLE_putLE (n : Nat) : getLE (putLE w n) = n % 256 ^ w := by
  induction w generalizing n with
  | zero => rw [pow_zero, Nat.mod_one]; rfl
  | succ w ih =>
    rw [putLE, getLE, ih, pow_succ' 256 w, Nat.mod_mul, UInt8.toNat_ofNat']

theorem getLE_putLE_of_lt {w n : Nat} (h : n < 256 ^ w) : getLE (putLE w n) = n := by
  rw [getLE_putLE, Nat.mod_eq_of_lt h]

theorem getLE_lt : getLE bytes < 256 ^ bytes.length := by
  induction bytes with
  | nil => exact Nat.one_pos
  | cons b rest ih =>
    have hb := b.toNat_lt
    rw [getLE, List.length_cons, pow_succ]
    omega

theorem getLE_concat (b : UInt8) :
    getLE (bytes ++ [b]) = getLE bytes + 256 ^ bytes.length * b.toNat := by
  induction bytes with
  | nil => simp [getLE]
  | cons b' rest ih =>
    rw [List.cons_append, getLE, getLE, ih, List.length_cons, pow_succ]
    ring

/-- The lowest `w` bytes of `n`, big-endian. -/
def putBE (n : Nat) : List UInt8 := (putLE w n).reverse

/-- The number a big-endian list of bytes stands for. -/
def getBE : Nat := getLE bytes.reverse

@[simp] theorem length_putBE (n : Nat) : (putBE w n).length = w := by
  rw [putBE, List.length_reverse, length_putLE]

theorem getBE_putBE (n : Nat) : getBE (putBE w n) = n % 256 ^ w := by
  rw [getBE, putBE, List.reverse_reverse, getLE_putLE]

theorem getBE_putBE_of_lt {w n : Nat} (h : n < 256 ^ w) : getBE (putBE w n) = n := by
  rw [getBE_putBE, Nat.mod_eq_of_lt h]

theorem getBE_lt : getBE bytes < 256 ^ bytes.length := by
  rw [getBE, ← List.length_reverse]
  exact getLE_lt _

/-! ### Signed numbers -/

/-- The range of the signed numbers of `w` bytes. -/
def Fits (v : Int) : Prop := -(256 ^ w : Int) ≤ 2 * v ∧ 2 * v < 256 ^ w

instance (w : Nat) (v : Int) : Decidable (Fits w v) := inferInstanceAs (Decidable (_ ∧ _))

/-- Two's complement, little-endian. -/
def putInt (v : Int) : List UInt8 := putLE w (v % 256 ^ w).toNat

/-- The signed number of a little-endian list of bytes. -/
def getInt : Int :=
  if 2 * getLE bytes < 256 ^ bytes.length then getLE bytes
  else getLE bytes - 256 ^ bytes.length

@[simp] theorem length_putInt (v : Int) : (putInt w v).length = w := length_putLE w _

theorem getInt_putInt {w : Nat} {v : Int} (h : Fits w v) : getInt (putInt w v) = v := by
  obtain ⟨hlo, hhi⟩ := h
  have hpos : (0 : Int) < 256 ^ w := by positivity
  have hnonneg := Int.emod_nonneg v hpos.ne'
  have hlt := Int.emod_lt_of_pos v hpos
  have hget : (getLE (putInt w v) : Int) = v % 256 ^ w := by
    rw [putInt, getLE_putLE_of_lt]
    · exact Int.toNat_of_nonneg hnonneg
    · zify
      rw [Int.toNat_of_nonneg hnonneg]
      exact hlt
  have hcast : (2 * getLE (putInt w v) < 256 ^ w) ↔ 2 * (v % 256 ^ w) < (256 : Int) ^ w := by
    rw [← hget]
    norm_cast
  rw [getInt, length_putInt, hget]
  rcases le_or_gt 0 v with hv | hv
  · have hmod : v % 256 ^ w = v := Int.emod_eq_of_lt hv (by omega)
    rw [if_pos (hcast.mpr (by rw [hmod]; exact hhi)), hmod]
  · have hmod : v % 256 ^ w = v + 256 ^ w := by
      rw [← Int.add_emod_right, Int.emod_eq_of_lt (by omega) (by omega)]
    rw [if_neg (fun hc => by have := hcast.mp hc; rw [hmod] at this; omega), hmod]
    ring

/-- Two's complement, big-endian. -/
def putIntBE (v : Int) : List UInt8 := (putInt w v).reverse

/-- The signed number of a big-endian list of bytes. -/
def getIntBE : Int := getInt bytes.reverse

@[simp] theorem length_putIntBE (v : Int) : (putIntBE w v).length = w := by
  rw [putIntBE, List.length_reverse, length_putInt]

theorem getIntBE_putIntBE {w : Nat} {v : Int} (h : Fits w v) : getIntBE (putIntBE w v) = v := by
  rw [getIntBE, putIntBE, List.reverse_reverse, getInt_putInt h]

/-! ### Taking a fixed number of bytes -/

theorem take_append_of_length {α : Type*} {l rest : List α} {n : Nat} (h : l.length = n) :
    (l ++ rest).take n = l := by
  rw [← h, List.take_left]

theorem drop_append_of_length {α : Type*} {l rest : List α} {n : Nat} (h : l.length = n) :
    (l ++ rest).drop n = rest := by
  rw [← h, List.drop_left]

end Bytes
