/-
CoreX/Lib/Circle.lean

Points on a circle.  The points are a sorted list of an ordered type, and the place `k`
belongs to the first point at or after `k`, or, past the last one, to the first of all
(`firstFrom`).

In a sorted list the first element with a property is the least one
(`find?_eq_some_iff`), so `firstFrom` depends on which points there are, not on how often
each is listed (`firstFrom_congr`), and a point that remains keeps its places when others
go (`firstFrom_of_subset`).  Binary search finds that element (`getElem?_search`).
-/
import Mathlib.Data.List.Basic
import Mathlib.Order.Bounds.Basic

namespace Circle

/-! ### Binary search -/

/-- `sort.Search`, on the indexes from `i` to `j`. -/
def search (f : Nat → Bool) (i j : Nat) : Nat :=
  if i < j then
    let h := (i + j) / 2
    if f h then search f i h else search f (h + 1) j
  else i
termination_by j - i

theorem search_le {f : Nat → Bool} {i j : Nat} (hij : i ≤ j) : search f i j ≤ j := by
  fun_induction search f i j with
  | case1 i j hlt h hh ih => exact (ih (by omega)).trans (by omega)
  | case2 i j hlt h hh ih => exact ih (by omega)
  | case3 i j hge => exact hij

theorem search_spec {f : Nat → Bool} (hf : ∀ a b, a ≤ b → f a = true → f b = true) {i j : Nat}
    (hij : i ≤ j) : (∀ k, i ≤ k → k < search f i j → f k = false) ∧
      (search f i j < j → f (search f i j) = true) := by
  fun_induction search f i j with
  | case1 i j hlt h hh ih =>
    -- the left half, and `f` holds at its end
    obtain ⟨hbefore, hat⟩ := ih (by omega)
    refine ⟨hbefore, fun _ => ?_⟩
    rcases (search_le (f := f) (show i ≤ h by omega)).lt_or_eq with hlt' | heq
    · exact hat hlt'
    · rw [heq]
      exact hh
  | case2 i j hlt h hh ih =>
    obtain ⟨hbefore, hat⟩ := ih (by omega)
    refine ⟨fun k hik hk => ?_, hat⟩
    rcases Nat.lt_or_ge h k with hhk | hkh
    · exact hbefore k hhk hk
    · exact Bool.eq_false_iff.mpr fun hfk => hh (hf k h hkh hfk)
  | case3 i j hge =>
    exact ⟨fun k hik hk => by omega, fun hlt => absurd hlt hge⟩

theorem getElem?_search {l : List α} {P : α → Bool}
    (hP : l.Pairwise fun a b => P a = true → P b = true) :
    l[search (fun i => (l[i]?).all P) 0 l.length]? = l.find? P := by
  have hmono : ∀ a b : Nat, a ≤ b → (l[a]?).all P = true → (l[b]?).all P = true := by
    intro a b hab ha
    rcases Nat.lt_or_ge b l.length with hb | hb
    · rcases Nat.eq_or_lt_of_le hab with rfl | hab
      · exact ha
      · rw [List.getElem?_eq_getElem (by omega)] at ha
        rw [List.getElem?_eq_getElem hb]
        exact List.pairwise_iff_getElem.mp hP a b (by omega) hb hab ha
    · rw [List.getElem?_eq_none hb]
      rfl
  obtain ⟨hbefore, hat⟩ := search_spec hmono (Nat.zero_le l.length)
  have hle := search_le (f := fun i => (l[i]?).all P) (Nat.zero_le l.length)
  generalize search (fun i => (l[i]?).all P) 0 l.length = k at hle hbefore hat
  rcases Nat.eq_or_lt_of_le hle with rfl | hlt
  · rw [List.getElem?_eq_none (Nat.le_refl _), eq_comm, List.find?_eq_none]
    intro x hx
    obtain ⟨n, hn, rfl⟩ := List.mem_iff_getElem.mp hx
    have hno := hbefore n (Nat.zero_le n) hn
    rw [List.getElem?_eq_getElem hn] at hno
    simpa using hno
  · rw [List.getElem?_eq_getElem hlt, eq_comm, List.find?_eq_some_iff_getElem]
    have hk := hat hlt
    rw [List.getElem?_eq_getElem hlt] at hk
    refine ⟨hk, k, hlt, rfl, fun n hn => ?_⟩
    have hno := hbefore n (Nat.zero_le n) hn
    rw [List.getElem?_eq_getElem (by omega)] at hno
    simpa using hno

/-! ### Points -/

variable {α : Type*} [LE α] [Std.IsPartialOrder α] {l l' : List α} {k p : α}

theorem find?_eq_some_iff (hs : l.Pairwise (· ≤ ·)) {P : α → Bool} :
    l.find? P = some p ↔ IsLeast {q | q ∈ l ∧ P q = true} p := by
  have hleast : ∀ {q}, l.find? P = some q → IsLeast {q | q ∈ l ∧ P q = true} q := by
    intro q hq
    obtain ⟨hP, as, bs, rfl, hbefore⟩ := List.find?_eq_some_iff_append.mp hq
    refine ⟨⟨by simp, hP⟩, ?_⟩
    rintro x ⟨hx, hPx⟩
    rcases List.mem_append.mp hx with hx | hx
    · exact absurd hPx (by simpa using hbefore x hx)
    · rcases List.mem_cons.mp hx with rfl | hx
      · exact Std.le_refl x
      · exact (List.pairwise_cons.mp (List.pairwise_append.mp hs).2.1).1 x hx
  refine ⟨hleast, fun h => ?_⟩
  rcases hq : l.find? P with - | q
  · exact absurd h.1.2 (List.find?_eq_none.mp hq p h.1.1)
  · rw [Std.le_antisymm ((hleast hq).2 h.1) (h.2 (hleast hq).1)]

theorem find?_congr (hs : l.Pairwise (· ≤ ·)) (hs' : l'.Pairwise (· ≤ ·))
    (h : ∀ p, p ∈ l ↔ p ∈ l') (P : α → Bool) : l.find? P = l'.find? P := by
  apply Option.ext
  intro p
  rw [find?_eq_some_iff hs, find?_eq_some_iff hs']
  simp only [h]

variable [DecidableLE α]

/-- The point to which `k` belongs. -/
def firstFrom (l : List α) (k : α) : Option α :=
  (l.find? fun p => decide (k ≤ p)).or l.head?

omit [Std.IsPartialOrder α] in
theorem mem_of_firstFrom (h : firstFrom l k = some p) : p ∈ l := by
  rw [firstFrom, Option.or_eq_some_iff] at h
  rcases h with hfind | ⟨-, hhead⟩
  · exact List.mem_of_find?_eq_some hfind
  · exact List.mem_of_mem_head? hhead

omit [Std.IsPartialOrder α] in
theorem firstFrom_eq_none : firstFrom l k = none ↔ l = [] := by
  rw [firstFrom, Option.or_eq_none_iff, List.head?_eq_none_iff]
  exact and_iff_right_of_imp fun h => h ▸ rfl

theorem firstFrom_eq_search (hs : l.Pairwise (· ≤ ·)) (k : α) : firstFrom l k =
    let idx := search (fun i => (l[i]?).all fun p => decide (k ≤ p)) 0 l.length
    l[if idx = l.length then 0 else idx]? := by
  have hmono : l.Pairwise fun a b => decide (k ≤ a) = true → decide (k ≤ b) = true := by
    refine hs.imp fun {a b} hab ha => ?_
    exact decide_eq_true (Std.le_trans (of_decide_eq_true ha) hab)
  have hfind := getElem?_search hmono
  have hle := search_le (f := fun i => (l[i]?).all fun p => decide (k ≤ p)) (Nat.zero_le l.length)
  rw [firstFrom, ← hfind]
  dsimp only
  rcases hle.lt_or_eq with hlt | heq
  · rw [if_neg hlt.ne, List.getElem?_eq_getElem hlt]
    rfl
  · rw [if_pos heq, heq, List.getElem?_eq_none (Nat.le_refl _), List.head?_eq_getElem?]
    rfl

theorem firstFrom_of_mem (hs : l.Pairwise (· ≤ ·)) (h : k ∈ l) : firstFrom l k = some k := by
  have hfind : l.find? (fun p => decide (k ≤ p)) = some k := by
    rw [find?_eq_some_iff hs]
    exact ⟨⟨h, by simp⟩, fun q hq => by simpa using hq.2⟩
  rw [firstFrom, hfind]
  rfl

omit [LE α] [Std.IsPartialOrder α] [DecidableLE α] in
theorem head?_eq_find? (l : List α) : l.head? = l.find? fun _ => true := by
  cases l <;> rfl

theorem firstFrom_congr (hs : l.Pairwise (· ≤ ·)) (hs' : l'.Pairwise (· ≤ ·))
    (h : ∀ p, p ∈ l ↔ p ∈ l') (k : α) : firstFrom l k = firstFrom l' k := by
  rw [firstFrom, firstFrom, head?_eq_find?, head?_eq_find?, find?_congr hs hs' h,
    find?_congr hs hs' h]

theorem firstFrom_of_subset (hs : l.Pairwise (· ≤ ·)) (hs' : l'.Pairwise (· ≤ ·))
    (hsub : l' ⊆ l) (hp : p ∈ l') (h : firstFrom l k = some p) : firstFrom l' k = some p := by
  have hleast : ∀ {P : α → Bool}, l.find? P = some p → l'.find? P = some p := by
    intro P hP
    rw [find?_eq_some_iff hs] at hP
    rw [find?_eq_some_iff hs']
    exact ⟨⟨hp, hP.1.2⟩, fun q hq => hP.2 ⟨hsub hq.1, hq.2⟩⟩
  rw [firstFrom, Option.or_eq_some_iff] at h ⊢
  rcases h with hfind | ⟨hnone, hhead⟩
  · exact .inl (hleast hfind)
  · refine .inr ⟨?_, ?_⟩
    · rw [List.find?_eq_none] at hnone ⊢
      exact fun q hq => hnone q (hsub hq)
    · rw [head?_eq_find?] at hhead ⊢
      exact hleast hhead

end Circle
