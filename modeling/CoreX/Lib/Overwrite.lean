/-
CoreX/Lib/Overwrite.lean

Writing a slice of one list over another.  The entries of `src` at the positions
`p, ..., q - 1` are written into `old` one after the other: an entry with the right
key is left in place, the first one with another key is cut off together with
everything behind it, and what is missing is appended.

All of it is decided by one number, `kept`: how much of `old` stays.  The result is
`overwrite old src p q = old.take k ++ (src.take q).drop k`, and the facts about it
are facts about `k`.  If equal keys mean equal prefixes (`Matching`), the result has
the first `q` entries of `src` (`take_overwrite`); the longest common prefix with
`src` never gets shorter, with or without that (`commonLength_le_overwrite`).
-/
import Mathlib.Data.List.Basic
import Mathlib.Data.List.Infix

namespace Overwrite

variable {α β : Type*}

/-! ### The longest common prefix -/

section Common

variable [DecidableEq α]

/-- The length of the longest common prefix. -/
def commonLength : List α → List α → ℕ
  | x :: a, y :: b => if x = y then commonLength a b + 1 else 0
  | _, _ => 0

theorem le_commonLength_iff {a b : List α} {k : ℕ} :
    k ≤ commonLength a b ↔ k ≤ a.length ∧ k ≤ b.length ∧ a.take k = b.take k := by
  induction a generalizing b k with
  | nil =>
    constructor
    · intro h
      obtain rfl : k = 0 := Nat.le_zero.mp h
      simp
    · rintro ⟨h, _⟩
      simpa [commonLength] using h
  | cons x a ih =>
    cases b with
    | nil =>
      constructor
      · intro h
        obtain rfl : k = 0 := Nat.le_zero.mp h
        simp
      · rintro ⟨_, h, _⟩
        simpa [commonLength] using h
    | cons y b =>
      cases k with
      | zero => simp
      | succ k =>
        rw [commonLength]
        split
        · next hxy =>
          rw [Nat.add_le_add_iff_right, ih]
          simp [hxy]
        · next hxy => simp [hxy]

theorem commonLength_spec (a b : List α) :
    commonLength a b ≤ a.length ∧ commonLength a b ≤ b.length ∧
      a.take (commonLength a b) = b.take (commonLength a b) :=
  le_commonLength_iff.mp le_rfl

end Common

/-! ### What stays in place -/

variable [DecidableEq β] (key : α → β)

/-- How much of `old` stays when `m` entries of `src` are written from position `p`
on: all of it, or what precedes the first entry with another key. -/
def kept (old src : List α) : ℕ → ℕ → ℕ
  | _, 0 => old.length
  | p, m + 1 =>
      match old[p]?, src[p]? with
      | some x, some y => if key x = key y then kept old src (p + 1) m else p
      | _, _ => old.length

/-- `src` written over `old`, from position `p` up to `q`. -/
def overwrite (old src : List α) (p q : ℕ) : List α :=
  old.take (kept key old src p (q - p)) ++ (src.take q).drop (kept key old src p (q - p))

variable {key} {old src : List α}

variable (key old src) in
theorem kept_le (p m : ℕ) : kept key old src p m ≤ old.length := by
  induction m generalizing p with
  | zero => exact le_rfl
  | succ m ih =>
    unfold kept
    split
    · next x y hx hy =>
      split
      · exact ih (p + 1)
      · exact (List.getElem?_eq_some_iff.mp hx).1.le
    · exact le_rfl

variable (key old src) in
theorem kept_cases (p m : ℕ) :
    kept key old src p m = old.length ∨
      p ≤ kept key old src p m ∧ kept key old src p m < p + m ∧
        ∃ x y, old[kept key old src p m]? = some x ∧ src[kept key old src p m]? = some y ∧
          key x ≠ key y := by
  induction m generalizing p with
  | zero => exact .inl rfl
  | succ m ih =>
    unfold kept
    split
    · next x y hx hy =>
      split
      · rcases ih (p + 1) with h | ⟨hlo, hhi, h⟩
        · exact .inl h
        · exact .inr ⟨by omega, by omega, h⟩
      · next hne => exact .inr ⟨le_rfl, by omega, x, y, hx, hy, hne⟩
    · exact .inl rfl

theorem key_eq_of_lt_kept {p m i : ℕ} {x y : α} (hlo : p ≤ i) (hm : i < p + m)
    (hi : i < kept key old src p m) (hx : old[i]? = some x) (hy : src[i]? = some y) :
    key x = key y := by
  induction m generalizing p with
  | zero => omega
  | succ m ih =>
    rcases Nat.eq_or_lt_of_le hlo with rfl | hlt
    · by_contra hne
      have hk : kept key old src p (m + 1) = p := by
        rw [kept, hx, hy]
        exact if_neg hne
      omega
    · refine ih hlt (by omega) ?_
      unfold kept at hi
      split at hi
      · split at hi
        · exact hi
        · omega
      · next hnone =>
        have hpy := (List.getElem?_eq_some_iff.mp hy).1
        exact absurd (List.getElem?_eq_getElem (by omega : p < src.length))
          (hnone _ _ (List.getElem?_eq_getElem (by omega : p < old.length)))

theorem kept_eq_length {p m : ℕ}
    (h : ∀ i x y, p ≤ i → i < p + m → old[i]? = some x → src[i]? = some y → key x = key y) :
    kept key old src p m = old.length := by
  rcases kept_cases key old src p m with hk | ⟨hlo, hhi, x, y, hx, hy, hne⟩
  · exact hk
  · exact absurd (h _ x y hlo hhi hx hy) hne

theorem kept_eq_of_conflict {p m i : ℕ} {x y : α} (hlo : p ≤ i) (hhi : i < p + m)
    (hx : old[i]? = some x) (hy : src[i]? = some y) (hne : key x ≠ key y)
    (h : ∀ j x y, p ≤ j → j < i → old[j]? = some x → src[j]? = some y → key x = key y) :
    kept key old src p m = i := by
  rcases kept_cases key old src p m with hall | ⟨hklo, _, x', y', hx', hy', hne'⟩
  · have hlt := (List.getElem?_eq_some_iff.mp hx).1
    exact absurd (key_eq_of_lt_kept hlo hhi (hall ▸ hlt) hx hy) hne
  · rcases Nat.lt_trichotomy (kept key old src p m) i with hlt | heq | hgt
    · exact absurd (h _ x' y' hklo hlt hx' hy') hne'
    · exact heq
    · exact absurd (key_eq_of_lt_kept hlo hhi hgt hx hy) hne

/-! ### The result -/

theorem getElem?_overwrite (p q i : ℕ) :
    (overwrite key old src p q)[i]? =
      if i < kept key old src p (q - p) then old[i]? else (src.take q)[i]? := by
  have hk := kept_le key old src p (q - p)
  have hlen : (old.take (kept key old src p (q - p))).length = kept key old src p (q - p) := by
    rw [List.length_take]
    omega
  unfold overwrite
  split
  · next hi =>
    rw [List.getElem?_append_left (by omega), List.getElem?_take, if_pos hi]
  · next hi =>
    rw [List.getElem?_append_right (by omega), hlen, List.getElem?_drop]
    congr 1
    omega

theorem length_overwrite {p q : ℕ} (hq : q ≤ src.length) :
    (overwrite key old src p q).length = max (kept key old src p (q - p)) q := by
  have hk := kept_le key old src p (q - p)
  rw [overwrite, List.length_append, List.length_take, List.length_drop, List.length_take]
  omega

theorem take_kept_overwrite {p q k : ℕ} (hk : k ≤ kept key old src p (q - p)) :
    (overwrite key old src p q).take k = old.take k := by
  apply List.ext_getElem?
  intro i
  rw [List.getElem?_take, List.getElem?_take, getElem?_overwrite]
  split
  · rw [if_pos (by omega)]
  · rfl

theorem commonLength_le_overwrite [DecidableEq α] (p q : ℕ) :
    commonLength old src ≤ commonLength (overwrite key old src p q) src := by
  obtain ⟨hold, hsrc, heq⟩ := commonLength_spec old src
  -- a conflict lies behind the common prefix
  have hk : commonLength old src ≤ kept key old src p (q - p) := by
    rcases kept_cases key old src p (q - p) with
      hall | ⟨_, _, x, y, hx, hy, hne⟩
    · rw [hall]
      exact hold
    · by_contra hlt
      have hget := congrArg (fun l : List α => l[kept key old src p (q - p)]?) heq
      simp only [List.getElem?_take, if_pos (Nat.lt_of_not_le hlt), hx, hy] at hget
      exact hne (by rw [Option.some.inj hget])
  refine le_commonLength_iff.mpr ⟨?_, hsrc, ?_⟩
  · rw [overwrite, List.length_append, List.length_take]
    omega
  · rw [take_kept_overwrite hk, heq]

theorem drop_overwrite_of_no_conflict {p q : ℕ}
    (h : kept key old src p (q - p) = old.length) :
    (overwrite key old src p q).drop q = old.drop q := by
  apply List.ext_getElem?
  intro i
  rw [List.getElem?_drop, List.getElem?_drop, getElem?_overwrite, h]
  split
  · rfl
  · next hi =>
    rw [List.getElem?_take_eq_none (by omega), List.getElem?_eq_none (by omega)]

/-! ### Equal keys, equal prefixes -/

variable (key) in
/-- Entries of one position and one key are the same, and so is what precedes
them. -/
def Matching (old src : List α) : Prop :=
  ∀ (k : ℕ) (x y : α), old[k]? = some x → src[k]? = some y → key x = key y →
    old.take (k + 1) = src.take (k + 1)

theorem take_overwrite {p q : ℕ} (hm : Matching key old src) (hq : q ≤ src.length)
    (hp : old.take p = src.take p) : (overwrite key old src p q).take q = src.take q := by
  apply List.ext_getElem?
  intro i
  rw [List.getElem?_take, List.getElem?_take]
  split
  · next hi =>
    rw [getElem?_overwrite]
    split
    · next hik =>
      have hlt : i < old.length := lt_of_lt_of_le hik (kept_le key old src p (q - p))
      by_cases hip : i < p
      · have := congrArg (fun l : List α => l[i]?) hp
        simpa only [List.getElem?_take, if_pos hip] using this
      · have hkey := key_eq_of_lt_kept (by omega) (by omega) hik
          (List.getElem?_eq_getElem hlt) (List.getElem?_eq_getElem (by omega : i < src.length))
        have hpre := hm i _ _ (List.getElem?_eq_getElem hlt)
          (List.getElem?_eq_getElem (by omega : i < src.length)) hkey
        have := congrArg (fun l : List α => l[i]?) hpre
        simpa only [List.getElem?_take, if_pos (Nat.lt_succ_self i)] using this
    · rw [List.getElem?_take, if_pos hi]
  · rfl

theorem Matching.overwrite {p q : ℕ} (hm : Matching key old src) (hq : q ≤ src.length)
    (hp : old.take p = src.take p) : Matching key (overwrite key old src p q) src := by
  intro i x y hx hy hxy
  rw [getElem?_overwrite] at hx
  split at hx
  · next hik => rw [take_kept_overwrite (by omega), hm i x y hx hy hxy]
  · have hi : i < q := by
      have := (List.getElem?_eq_some_iff.mp hx).1
      rw [List.length_take] at this
      omega
    have hall := take_overwrite hm hq hp
    have := congrArg (List.take (i + 1)) hall
    rwa [List.take_take, List.take_take, Nat.min_eq_left hi] at this

end Overwrite
