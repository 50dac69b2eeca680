/-
CoreX/Lib/Quorum.lean

Quorum systems.  All that an agreement argument needs of "a majority" is that
any two of them meet; `Quorums` packages a predicate on finite sets with that
fact, and `Quorums.majority` is the instance every replicated log uses: more
than half of a fixed set of members.

Half of a set is not enough.  `exists_halves` splits two sets of even size, both
at once, such that two given elements come to lie on different sides.
-/
import Mathlib.Algebra.Ring.Parity
import Mathlib.Data.Finset.Card

/-- A family of finite sets any two of which have a member in common. -/
structure Quorums (ι : Type*) where
  isQuorum : Finset ι → Prop
  meet : ∀ A B, isQuorum A → isQuorum B → ∃ v, v ∈ A ∧ v ∈ B

namespace Quorums

variable {ι : Type*} [DecidableEq ι]

/-- The majorities of `M`. -/
def majority (M : Finset ι) : Quorums ι where
  isQuorum A := A ⊆ M ∧ M.card < 2 * A.card
  meet A B hA hB := by
    obtain ⟨v, hv⟩ := Finset.inter_nonempty_of_card_lt_card_add_card hA.1 hB.1 (by omega)
    rw [Finset.mem_inter] at hv
    exact ⟨v, hv⟩

theorem majority_isQuorum {M A : Finset ι} :
    (majority M).isQuorum A ↔ A ⊆ M ∧ M.card < 2 * A.card := Iff.rfl

end Quorums

/-! ### Halves -/

section Halves

variable {ι : Type*} [DecidableEq ι] {x y : ι} {T V W : Finset ι}

theorem exists_side (hxy : x ≠ y) {k : ℕ} (hx : x ∈ T → 1 ≤ k) (hk : k ≤ (T.erase y).card) :
    ∃ U ⊆ T, U.card = k ∧ (x ∈ T → x ∈ U) ∧ y ∉ U := by
  have hsub : T ∩ {x} ⊆ T.erase y := by
    intro z hz
    obtain ⟨hzT, hzx⟩ := Finset.mem_inter.mp hz
    rw [Finset.mem_singleton.mp hzx] at hzT ⊢
    exact Finset.mem_erase.mpr ⟨hxy, hzT⟩
  have hcard : (T ∩ {x}).card ≤ k := by
    by_cases hmem : x ∈ T
    · rw [Finset.inter_singleton_of_mem hmem, Finset.card_singleton]
      exact hx hmem
    · rw [Finset.inter_singleton_of_notMem hmem, Finset.card_empty]
      exact Nat.zero_le k
  obtain ⟨U, hlo, hhi, hU⟩ := Finset.exists_subsuperset_card_eq hsub hcard hk
  refine ⟨U, hhi.trans (Finset.erase_subset _ _), hU, fun hmem => hlo ?_, fun hy => ?_⟩
  · exact Finset.mem_inter.mpr ⟨hmem, Finset.mem_singleton_self x⟩
  · exact Finset.notMem_erase y T (hhi hy)

/-- The set `T` has room for `k` elements on the side of `x`, and for the others
on the side of `y`. -/
def Room (x y : ι) (T : Finset ι) (k : ℕ) : Prop := (x ∈ T → 1 ≤ k) ∧ k ≤ (T.erase y).card

theorem room_half (hT : Even T.card) : Room x y T (T.card / 2) := by
  obtain ⟨k, hk⟩ := hT
  refine ⟨fun hx => ?_, ?_⟩
  · have := Finset.card_pos.mpr ⟨x, hx⟩
    omega
  · by_cases hy : y ∈ T
    · have := Finset.card_pos.mpr ⟨y, hy⟩
      rw [Finset.card_erase_of_mem hy]
      omega
    · rw [Finset.erase_eq_of_notMem hy]
      omega

theorem room_lower (hT : ¬Even T.card) (hx : T ≠ {x}) : Room x y T (T.card / 2) := by
  rw [Nat.not_even_iff_odd] at hT
  obtain ⟨k, hk⟩ := hT
  refine ⟨fun hmem => ?_, ?_⟩
  · have hne : T.card ≠ 1 := fun h1 => hx (by
      obtain ⟨z, rfl⟩ := Finset.card_eq_one.mp h1
      rw [Finset.mem_singleton.mp hmem])
    omega
  · have := Finset.pred_card_le_card_erase (s := T) (a := y)
    omega

theorem room_upper (hT : ¬Even T.card) (hy : T ≠ {y}) : Room x y T (T.card / 2 + 1) := by
  rw [Nat.not_even_iff_odd] at hT
  obtain ⟨k, hk⟩ := hT
  refine ⟨fun _ => by omega, ?_⟩
  by_cases hmem : y ∈ T
  · have hne : T.card ≠ 1 := fun h1 => hy (by
      obtain ⟨z, rfl⟩ := Finset.card_eq_one.mp h1
      rw [Finset.mem_singleton.mp hmem])
    rw [Finset.card_erase_of_mem hmem]
    omega
  · rw [Finset.erase_eq_of_notMem hmem]
    omega

theorem exists_sizes (hxy : x ≠ y) (hV : Even V.card) (hW : Even W.card)
    (hswap : ¬(V \ W = {x} ∧ W \ V = {y})) (hswap' : ¬(V \ W = {y} ∧ W \ V = {x})) :
    ∃ p q r, Room x y (V \ W) p ∧ Room x y (V ∩ W) q ∧ Room x y (W \ V) r ∧
      2 * (p + q) = V.card ∧ 2 * (r + q) = W.card := by
  have hcV : (V \ W).card + (V ∩ W).card = V.card := Finset.card_sdiff_add_card_inter V W
  have hcW : (W \ V).card + (V ∩ W).card = W.card := by
    rw [Finset.inter_comm]
    exact Finset.card_sdiff_add_card_inter W V
  by_cases he : Even (V ∩ W).card
  · have hP : Even (V \ W).card := by
      rw [← hcV, Nat.even_add] at hV
      exact hV.mpr he
    have hR : Even (W \ V).card := by
      rw [← hcW, Nat.even_add] at hW
      exact hW.mpr he
    refine ⟨_, _, _, room_half hP, room_half he, room_half hR, ?_, ?_⟩
    · obtain ⟨a, ha⟩ := hP
      obtain ⟨b, hb⟩ := he
      omega
    · obtain ⟨a, ha⟩ := hR
      obtain ⟨b, hb⟩ := he
      omega
  · have hP : ¬Even (V \ W).card := by
      rw [← hcV, Nat.even_add] at hV
      exact fun h => he (hV.mp h)
    have hR : ¬Even (W \ V).card := by
      rw [← hcW, Nat.even_add] at hW
      exact fun h => he (hW.mp h)
    have hsum : ∀ {a b c : ℕ}, a + b = c → ¬Even a → ¬Even b →
        2 * (a / 2 + (b / 2 + 1)) = c ∧ 2 * (a / 2 + 1 + b / 2) = c := by
      intro a b c hab ha hb
      obtain ⟨i, hi⟩ := Nat.not_even_iff_odd.mp ha
      obtain ⟨j, hj⟩ := Nat.not_even_iff_odd.mp hb
      omega
    -- either the common part gives its larger half to `x`, or the other two do
    by_cases hup : V ∩ W ≠ {y} ∧ V \ W ≠ {x} ∧ W \ V ≠ {x}
    · exact ⟨_, _, _, room_lower hP hup.2.1, room_upper he hup.1, room_lower hR hup.2.2,
        (hsum hcV hP he).1, (hsum hcW hR he).1⟩
    · have hlow : V ∩ W ≠ {x} ∧ V \ W ≠ {y} ∧ W \ V ≠ {y} := by
        have hone : V ∩ W = {y} ∨ V \ W = {x} ∨ W \ V = {x} := by
          by_contra hno
          simp only [not_or] at hno
          exact hup hno
        have hdis : ∀ {z}, V ∩ W = {z} → V \ W ≠ {z} ∧ W \ V ≠ {z} := by
          intro z hz
          have hmem : z ∈ V ∩ W := hz ▸ Finset.mem_singleton_self z
          obtain ⟨hzV, hzW⟩ := Finset.mem_inter.mp hmem
          refine ⟨fun h => ?_, fun h => ?_⟩
          · exact (Finset.mem_sdiff.mp (h ▸ Finset.mem_singleton_self z)).2 hzW
          · exact (Finset.mem_sdiff.mp (h ▸ Finset.mem_singleton_self z)).2 hzV
        have hne : ∀ {T : Finset ι}, T = {x} → T ≠ {y} :=
          fun h h' => hxy (Finset.singleton_injective (h.symm.trans h'))
        rcases hone with h1 | h1 | h1
        · exact ⟨fun h => hne h h1, (hdis h1).1, (hdis h1).2⟩
        · exact ⟨fun h => (hdis h).1 h1, hne h1, fun h => hswap ⟨h1, h⟩⟩
        · exact ⟨fun h => (hdis h).2 h1, fun h => hswap' ⟨h, h1⟩, hne h1⟩
      exact ⟨_, _, _, room_upper hP hlow.2.1, room_lower he hlow.1, room_upper hR hlow.2.2,
        (hsum hcV hP he).2, (hsum hcW hR he).2⟩

theorem exists_halves (hxy : x ≠ y) (hV : Even V.card) (hW : Even W.card)
    (hswap : ¬(V \ W = {x} ∧ W \ V = {y})) (hswap' : ¬(V \ W = {y} ∧ W \ V = {x})) :
    ∃ A ⊆ V ∪ W, 2 * (V ∩ A).card = V.card ∧ 2 * (W ∩ A).card = W.card ∧
      (x ∈ V ∪ W → x ∈ A) ∧ y ∉ A := by
  obtain ⟨p, q, r, hp, hq, hr, hpq, hqr⟩ := exists_sizes hxy hV hW hswap hswap'
  obtain ⟨A, hA, hAc, hAx, hAy⟩ := exists_side hxy hp.1 hp.2
  obtain ⟨B, hB, hBc, hBx, hBy⟩ := exists_side hxy hq.1 hq.2
  obtain ⟨C, hC, hCc, hCx, hCy⟩ := exists_side hxy hr.1 hr.2
  have hVs : V ∩ (A ∪ B ∪ C) = A ∪ B := by
    clear hp hq hr hswap hswap'
    grind
  have hWs : W ∩ (A ∪ B ∪ C) = C ∪ B := by
    clear hp hq hr hswap hswap'
    grind
  have hAB : Disjoint A B := (Finset.disjoint_sdiff_inter V W).mono hA hB
  have hCB : Disjoint C B := by
    rw [Finset.inter_comm] at hB
    exact (Finset.disjoint_sdiff_inter W V).mono hC hB
  refine ⟨A ∪ B ∪ C, ?_, ?_, ?_, ?_, ?_⟩
  · clear hp hq hr hswap hswap'
    grind
  · rw [hVs, Finset.card_union_of_disjoint hAB, hAc, hBc]
    exact hpq
  · rw [hWs, Finset.card_union_of_disjoint hCB, hCc, hBc]
    exact hqr
  · clear hp hq hr hswap hswap'
    grind
  · simp only [Finset.mem_union, not_or]
    exact ⟨⟨hAy, hBy⟩, hCy⟩

end Halves
