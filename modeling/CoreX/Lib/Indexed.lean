/-
CoreX/Lib/Indexed.lean

Lists whose entries carry their own position.  `Indexed num b l` says that the
entries of `l` are numbered `b + 1, b + 2, ...`: a log whose first `b` entries
have been dropped.  Searching such a list for a number is indexing
(`find?_reverse`), cutting it at a number is `take` (`takeWhile_lt`), and keeping
the numbers from some point on is `drop` (`filter_le`).
-/
import Mathlib.Data.List.Basic
import Mathlib.Data.List.Infix
import Mathlib.Tactic.Linarith

variable {α : Type*}

/-- The entries of `l` are numbered `b + 1, b + 2, ...`. -/
def Indexed (num : α → ℤ) (b : ℤ) (l : List α) : Prop :=
  ∀ (i : ℕ) (e : α), l[i]? = some e → num e = b + i + 1

namespace Indexed

variable {num : α → ℤ} {b : ℤ} {l l' : List α}

theorem nil : Indexed num b [] := by
  intro i e h
  simp at h

/-! ### Building and cutting -/

theorem restrict (h : Indexed num b l) (hp : l' <+: l) : Indexed num b l' := by
  obtain ⟨r, rfl⟩ := hp
  intro i e hi
  have hlt : i < l'.length := (List.getElem?_eq_some_iff.mp hi).1
  exact h i e (by rw [List.getElem?_append_left hlt, hi])

theorem concat {e : α} (h : Indexed num b l) (he : num e = b + l.length + 1) :
    Indexed num b (l ++ [e]) := by
  intro i x hx
  rcases Nat.lt_or_ge i l.length with hlt | hge
  · rw [List.getElem?_append_left hlt] at hx
    exact h i x hx
  · have hi : i = l.length := by
      have := (List.getElem?_eq_some_iff.mp hx).1
      simp at this
      omega
    subst hi
    simp at hx
    rw [← hx, he]

theorem drop (h : Indexed num b l) (k : ℕ) : Indexed num (b + k) (l.drop k) := by
  intro i e hi
  rw [List.getElem?_drop] at hi
  have := h (k + i) e hi
  omega

theorem append (h : Indexed num b l) (h' : Indexed num (b + l.length) l') :
    Indexed num b (l ++ l') := by
  intro i e hi
  rcases Nat.lt_or_ge i l.length with hlt | hge
  · rw [List.getElem?_append_left hlt] at hi
    exact h i e hi
  · rw [List.getElem?_append_right hge] at hi
    have := h' (i - l.length) e hi
    omega

theorem cons_iff {e : α} :
    Indexed num b (e :: l) ↔ num e = b + 1 ∧ Indexed num (b + 1) l := by
  constructor
  · intro h
    refine ⟨by simpa using h 0 e rfl, ?_⟩
    simpa using h.drop 1
  · rintro ⟨he, hl⟩
    have h1 : Indexed num b [e] := concat nil (by simpa using he)
    simpa using h1.append (by simpa using hl)

/-! ### Reading -/

theorem mem_iff (h : Indexed num b l) {e : α} :
    e ∈ l ↔ b < num e ∧ l[(num e - b - 1).toNat]? = some e := by
  constructor
  · intro he
    obtain ⟨i, hi⟩ := List.getElem?_of_mem he
    have hnum := h i e hi
    have hpos : (num e - b - 1).toNat = i := by omega
    rw [hpos]
    exact ⟨by omega, hi⟩
  · rintro ⟨_, he⟩
    exact List.mem_of_getElem? he

theorem map_num (h : Indexed num b l) :
    l.map num = (List.range l.length).map fun i : ℕ => b + i + 1 := by
  apply List.ext_getElem?
  intro i
  rw [List.getElem?_map, List.getElem?_map]
  rcases Nat.lt_or_ge i l.length with hlt | hge
  · rw [List.getElem?_eq_getElem hlt, List.getElem?_range hlt]
    simpa using h i _ (List.getElem?_eq_getElem hlt)
  · rw [List.getElem?_eq_none hge, List.getElem?_eq_none (by simpa using hge)]
    rfl

theorem iff_map_num :
    Indexed num b l ↔ l.map num = (List.range l.length).map fun i : ℕ => b + i + 1 := by
  refine ⟨map_num, fun h i e hi => ?_⟩
  have hlt := (List.getElem?_eq_some_iff.mp hi).1
  have hat := congrArg (fun m : List ℤ => m[i]?) h
  simp only [List.getElem?_map, hi, List.getElem?_range hlt, Option.map_some] at hat
  exact Option.some.inj hat

instance : Decidable (Indexed num b l) := decidable_of_iff _ iff_map_num.symm

theorem find?_reverse (h : Indexed num b l) (i : ℤ) :
    l.reverse.find? (fun e => num e == i) = if b < i then l[(i - b - 1).toNat]? else none := by
  rcases hf : l.reverse.find? (fun e => num e == i) with - | e
  · have hno : ∀ e ∈ l, num e ≠ i := by
      intro e he
      simpa using List.find?_eq_none.mp hf e (List.mem_reverse.mpr he)
    split
    · next hlt =>
      rcases hi : l[(i - b - 1).toNat]? with - | e
      · rfl
      · exact absurd (by have := h _ e hi; omega) (hno e (List.mem_of_getElem? hi))
    · rfl
  · have hnum : num e = i := by simpa using List.find?_some hf
    have hmem : e ∈ l := List.mem_reverse.mp (List.mem_of_find?_eq_some hf)
    obtain ⟨hlt, hget⟩ := h.mem_iff.mp hmem
    rw [hnum] at hlt hget
    rw [if_pos hlt, hget]

theorem getLast?_num (h : Indexed num b l) {e : α} (he : l.getLast? = some e) :
    num e = b + l.length := by
  rw [List.getLast?_eq_getElem?] at he
  have hlen : l.length - 1 < l.length := (List.getElem?_eq_some_iff.mp he).1
  have := h _ e he
  omega

/-! ### Cutting at a number -/

theorem takeWhile_lt (h : Indexed num b l) (i : ℤ) :
    l.takeWhile (fun e => decide (num e < i)) = l.take (i - b - 1).toNat := by
  induction l generalizing b with
  | nil => simp
  | cons e l ih =>
    obtain ⟨he, hl⟩ := cons_iff.mp h
    by_cases hlt : num e < i
    · have hk : (i - b - 1).toNat = (i - (b + 1) - 1).toNat + 1 := by omega
      rw [List.takeWhile_cons_of_pos (by simpa using hlt), hk, List.take_succ_cons, ih hl]
    · have hk : (i - b - 1).toNat = 0 := by omega
      rw [List.takeWhile_cons_of_neg (by simpa using hlt), hk, List.take_zero]

theorem dropWhile_le (h : Indexed num b l) (i : ℤ) :
    l.dropWhile (fun e => decide (num e ≤ i)) = l.drop (i - b).toNat := by
  induction l generalizing b with
  | nil => simp
  | cons e l ih =>
    obtain ⟨he, hl⟩ := cons_iff.mp h
    by_cases hle : num e ≤ i
    · have hk : (i - b).toNat = (i - (b + 1)).toNat + 1 := by omega
      rw [List.dropWhile_cons_of_pos (by simpa using hle), hk, List.drop_succ_cons, ih hl]
    · have hk : (i - b).toNat = 0 := by omega
      rw [List.dropWhile_cons_of_neg (by simpa using hle), hk, List.drop_zero]

theorem filter_le (h : Indexed num b l) (i : ℤ) :
    l.filter (fun e => decide (i ≤ num e)) = l.drop (i - b - 1).toNat := by
  induction l generalizing b with
  | nil => simp
  | cons e l ih =>
    obtain ⟨he, hl⟩ := cons_iff.mp h
    by_cases hle : i ≤ num e
    · -- everything from here on is large enough
      have hk : (i - b - 1).toNat = 0 := by omega
      have hk' : (i - (b + 1) - 1).toNat = 0 := by omega
      rw [List.filter_cons_of_pos (by simpa using hle), ih hl, hk, hk', List.drop_zero,
        List.drop_zero]
    · have hk : (i - b - 1).toNat = (i - (b + 1) - 1).toNat + 1 := by omega
      rw [List.filter_cons_of_neg (by simpa using hle), ih hl, hk, List.drop_succ_cons]

theorem filter_lt (h : Indexed num b l) (i : ℤ) :
    l.filter (fun e => decide (i < num e)) = l.drop (i - b).toNat := by
  have hle := h.filter_le (i + 1)
  have hk : (i + 1 - b - 1).toNat = (i - b).toNat := by omega
  rw [hk] at hle
  congr 1

theorem takeWhile_append_filter (h : Indexed num b l) (i : ℤ) :
    l.takeWhile (fun e => decide (num e < i)) ++ l.filter (fun e => decide (i ≤ num e)) = l := by
  rw [h.takeWhile_lt, h.filter_le, List.take_append_drop]

theorem dropWhile_eq_filter (h : Indexed num b l) (i : ℤ) :
    l.dropWhile (fun e => decide (num e ≤ i)) = l.filter fun e => decide (i < num e) := by
  rw [h.dropWhile_le, h.filter_lt]

end Indexed
