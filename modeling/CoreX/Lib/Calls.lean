/-
CoreX/Lib/Calls.lean

A list of calls in progress, of which the `j`th goes on or returns, and the list of their
parts in something else: `filterMap f` with the part `f c` of a call `c`, if it has one.

Where the order of the parts does not matter, a step of a call is an exchange with the parts
that are elsewhere (`perm_set`).
-/
import Mathlib.Data.List.Perm.Basic

namespace Calls

variable {α β : Type*} {f : α → Option β} {l : List α} {j : Nat} {c : α}

theorem mem_eraseIdx_of_ne {b : α} (hj : l[j]? = some c) (hb : b ∈ l) (hne : b ≠ c) :
    b ∈ l.eraseIdx j := by
  obtain ⟨i, hi⟩ := List.getElem?_of_mem hb
  refine List.mem_eraseIdx_iff_getElem?.mpr ⟨i, ?_, hi⟩
  rintro rfl
  exact hne (Option.some.inj (hi.symm.trans hj))

theorem filterMap_eraseIdx_of_none (hj : l[j]? = some c) (hc : f c = none) :
    (l.eraseIdx j).filterMap f = l.filterMap f := by
  induction l generalizing j with
  | nil => cases hj
  | cons a l ih =>
    cases j with
    | zero =>
      cases hj
      rw [List.eraseIdx_cons_zero, List.filterMap_cons_none hc]
    | succ j =>
      rw [List.eraseIdx_cons_succ, List.filterMap_cons, List.filterMap_cons, ih hj]

theorem filterMap_set_of_eq {c' : α} (hj : l[j]? = some c) (hc : f c' = f c) :
    (l.set j c').filterMap f = l.filterMap f := by
  induction l generalizing j with
  | nil => cases hj
  | cons a l ih =>
    cases j with
    | zero =>
      cases hj
      rw [List.set_cons_zero, List.filterMap_cons, List.filterMap_cons, hc]
    | succ j =>
      rw [List.set_cons_succ, List.filterMap_cons, List.filterMap_cons, ih hj]

theorem filterMap_eraseIdx_of_some {y : β} (hj : l[j]? = some c) (hc : f c = some y) :
    ∃ i, (l.filterMap f)[i]? = some y ∧
      (l.eraseIdx j).filterMap f = (l.filterMap f).eraseIdx i := by
  induction l generalizing j with
  | nil => cases hj
  | cons a l ih =>
    cases j with
    | zero =>
      cases hj
      rw [List.filterMap_cons_some hc]
      exact ⟨0, rfl, rfl⟩
    | succ j =>
      obtain ⟨i, hi, heq⟩ := ih hj
      rw [List.eraseIdx_cons_succ]
      rcases ha : f a with - | b
      · rw [List.filterMap_cons_none ha, List.filterMap_cons_none ha]
        exact ⟨i, hi, heq⟩
      · rw [List.filterMap_cons_some ha, List.filterMap_cons_some ha, heq]
        exact ⟨i + 1, hi, rfl⟩

/-! ### The parts up to their order -/

theorem perm_eraseIdx (hj : l[j]? = some c) :
    (l.filterMap f).Perm ((f c).toList ++ (l.eraseIdx j).filterMap f) := by
  obtain ⟨hlt, rfl⟩ := List.getElem?_eq_some_iff.mp hj
  have h := (List.getElem_cons_eraseIdx_perm hlt).symm.filterMap f
  cases hc : f l[j] with
  | none => simpa [hc] using h
  | some y => simpa [hc] using h

theorem perm_set (hj : l[j]? = some c) {c' : α} {a b : List β}
    (h : ((f c).toList ++ a).Perm ((f c').toList ++ b)) :
    (a ++ l.filterMap f).Perm (b ++ (l.set j c').filterMap f) := by
  have hj' : (l.set j c')[j]? = some c' :=
    List.getElem?_set_self (List.getElem?_eq_some_iff.mp hj).1
  have hafter := perm_eraseIdx (f := f) hj'
  rw [List.eraseIdx_set_eq] at hafter
  classical
  refine List.perm_iff_count.mpr fun x => ?_
  have hcount := h.count_eq x
  have hbefore := (perm_eraseIdx (f := f) hj).count_eq x
  have hafter := hafter.count_eq x
  simp only [List.count_append] at hcount hbefore hafter ⊢
  omega

end Calls
