/-
CoreX/Lib/Highest.lean

The highest `k` elements of a set in a linear order: those that have fewer than `k` others
above them.  Of a list in decreasing order these are the first `k`.
-/
import Mathlib.Data.Set.Card

namespace Highest

variable {α : Type*} [LinearOrder α]

/-- The elements with fewer than `k` others above them. -/
def highest (s : Set α) (k : Nat) : Set α := {a | a ∈ s ∧ {b | b ∈ s ∧ a < b}.ncard < k}

variable {s : Set α} {l : List α} {a x : α} {k : Nat}

theorem above_cons (hx : ∀ b ∈ l, b < x) (ha : a ∈ l) :
    {b | b ∈ x :: l ∧ a < b}.ncard = {b | b ∈ l ∧ a < b}.ncard + 1 := by
  have hset : {b | b ∈ x :: l ∧ a < b} = insert x {b | b ∈ l ∧ a < b} := by
    ext b
    simp only [List.mem_cons, Set.mem_ofPred_eq, Set.mem_insert_iff]
    constructor
    · rintro ⟨rfl | hb, hlt⟩
      · exact .inl rfl
      · exact .inr ⟨hb, hlt⟩
    · rintro (rfl | ⟨hb, hlt⟩)
      · exact ⟨.inl rfl, hx a ha⟩
      · exact ⟨.inr hb, hlt⟩
  rw [hset]
  apply Set.ncard_insert_of_notMem
  · rintro ⟨hmem, -⟩
    exact lt_irrefl x (hx x hmem)
  · exact (List.finite_toSet l).subset fun b hb => hb.1

theorem mem_highest_iff (hl : l.Pairwise fun a b => b < a) (hs : ∀ a, a ∈ s ↔ a ∈ l) :
    a ∈ highest s k ↔ a ∈ l.take k := by
  obtain rfl : s = {a | a ∈ l} := Set.ext hs
  show a ∈ l ∧ {b | b ∈ l ∧ a < b}.ncard < k ↔ a ∈ l.take k
  induction l generalizing k with
  | nil => simp
  | cons x l ih =>
    obtain ⟨hx, hrest⟩ := List.pairwise_cons.mp hl
    cases k with
    | zero => simp
    | succ k =>
      rw [List.take_succ_cons, List.mem_cons, List.mem_cons]
      by_cases hax : a = x
      · have hnone : {b | b ∈ x :: l ∧ a < b} = ∅ := by
          rw [Set.eq_empty_iff_forall_notMem]
          rintro b ⟨hb, hlt⟩
          rcases List.mem_cons.mp hb with rfl | hb
          · exact lt_irrefl b (hax ▸ hlt)
          · exact lt_asymm (hax ▸ hlt) (hx b hb)
        rw [hnone, Set.ncard_empty]
        simp [hax]
      · rw [← ih hrest fun _ => Iff.rfl]
        simp only [hax, false_or]
        apply and_congr_right
        intro ha
        rw [above_cons hx ha]
        omega

end Highest
