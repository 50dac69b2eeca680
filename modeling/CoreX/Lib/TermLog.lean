/-
CoreX/Lib/TermLog.lean

Logs whose entries carry a term.  The entries are of an arbitrary type `α`
with a term `τ : α → ℤ`; a log is a list, oldest entry first.

The reversal of the usual two-part Log Matching property into *one* predicate:
fix, for every term `t`, the log `L t` of the leader of that term.  A log `l` is
`Valid` with respect to `L` when each of its prefixes that ends in an entry `e`
is also a prefix of `L (τ e)`.  Two valid logs that carry the same term at the
same position agree up to there (`Valid.take_eq`), because both prefixes are
prefixes of the same leader log.

`Linked R` says that every entry stands in the relation `R` to the entries before it.
`UpToDate` is the order in which candidates are compared with voters,
`Merge` is what a batch taken from one log may do to another, and `Common k` says
that two logs begin with the same `k` entries.
-/
import Mathlib.Data.List.Infix
import Mathlib.Data.Int.Basic
import Mathlib.Tactic.Linarith

namespace TermLog

variable {α : Type*} (τ : α → ℤ) {e : α}

/-! ### Prefixes -/

theorem concat_cases {p : List α} (h : p <+: l ++ [e]) :
    p <+: l ∨ p = l ++ [e] := by
  rcases List.prefix_concat_iff.mp h with rfl | h
  · exact .inr rfl
  · exact .inl h

theorem exists_ends_of_mem (h : e ∈ l) :
    ∃ p, p ++ [e] <+: l := by
  obtain ⟨p, q, rfl⟩ := List.append_of_mem h
  exact ⟨p, q, by simp⟩

theorem getElem?_of_prefix_of_lt (h : l <+: l') {i : ℕ} (hi : i < l.length) : l'[i]? = l[i]? := by
  obtain ⟨r, rfl⟩ := h
  exact List.getElem?_append_left hi

/-! ### Links -/

/-- Every entry of `l` stands in the relation `R` to the entries before it. -/
def Linked (R : List α → α → Prop) (l : List α) : Prop := ∀ p e, p ++ [e] <+: l → R p e

variable {R : List α → α → Prop} {l : List α}

theorem Linked.nil : Linked R [] := by
  intro p e h
  simp at h

theorem Linked.concat (h : Linked R l) (he : R l e) : Linked R (l ++ [e]) := by
  intro p x hpx
  rcases concat_cases hpx with hpl | heq
  · exact h p x hpl
  · obtain ⟨rfl, hx⟩ := List.append_inj' heq rfl
    obtain rfl : x = e := by simpa using hx
    exact he

/-! ### Validity -/

/-- Every prefix of `l` that ends in `e` is a prefix of the log of `e`'s term. -/
def Valid (L : ℤ → List α) (l : List α) : Prop :=
  ∀ p e, p ++ [e] <+: l → p ++ [e] <+: L (τ e)

variable {τ} {L L' : ℤ → List α} {l' : List α}

theorem Valid.nil : Valid τ L [] := Linked.nil

theorem Valid.restrict (h : Valid τ L l) (hp : l' <+: l) : Valid τ L l' :=
  fun p e hpe => h p e (hpe.trans hp)

theorem Valid.mono (h : Valid τ L l) (hL : ∀ t, L t <+: L' t) : Valid τ L' l :=
  fun p e hpe => (h p e hpe).trans (hL _)

theorem Valid.concat (h : Valid τ L l) (he : l ++ [e] <+: L (τ e)) :
    Valid τ L (l ++ [e]) := Linked.concat h he

theorem Valid.last {p : List α} (h : Valid τ L (p ++ [e])) :
    p ++ [e] <+: L (τ e) :=
  h p e (List.prefix_refl _)

theorem Valid.ne_nil (h : Valid τ L l) (he : e ∈ l) : L (τ e) ≠ [] := by
  obtain ⟨p, hp⟩ := exists_ends_of_mem he
  intro hnil
  have := h p e hp
  rw [hnil] at this
  simp at this

theorem Valid.take_prefix (h : Valid τ L l) {k : ℕ} {x : α} (hx : l[k]? = some x) :
    l.take (k + 1) <+: L (τ x) := by
  have htake : l.take (k + 1) = l.take k ++ [x] := by
    rw [List.take_add_one, hx]
    rfl
  rw [htake]
  apply h
  rw [← htake]
  exact List.take_prefix _ _

theorem Valid.take_eq (h : Valid τ L l) (h' : Valid τ L l') {k : ℕ} {x y : α}
    (hx : l[k]? = some x) (hy : l'[k]? = some y) (hτ : τ x = τ y) :
    l.take (k + 1) = l'.take (k + 1) := by
  have hlt := (List.getElem?_eq_some_iff.mp hx).1
  have hlt' := (List.getElem?_eq_some_iff.mp hy).1
  have hlen : (l.take (k + 1)).length = (l'.take (k + 1)).length := by
    rw [List.length_take, List.length_take]
    omega
  have hpre := h'.take_prefix hy
  rw [← hτ] at hpre
  exact (List.prefix_of_prefix_length_le (h.take_prefix hx) hpre hlen.le).eq_of_length hlen

theorem Valid.getElem?_eq (h : Valid τ L l) (h' : Valid τ L l') {i j : ℕ} {x : α}
    (hx : l'[i]? = some x) (he : l[j]? = some e) (hτ : τ x = τ e) (hij : i ≤ j) :
    l[i]? = some x := by
  have hlt := (List.getElem?_eq_some_iff.mp hx).1
  have hlt' := (List.getElem?_eq_some_iff.mp he).1
  have hx' := getElem?_of_prefix_of_lt (h'.take_prefix hx) (i := i)
    (by rw [List.length_take]; omega)
  have he' := getElem?_of_prefix_of_lt (h.take_prefix he) (i := i)
    (by rw [List.length_take]; omega)
  rw [← hτ, hx', List.getElem?_take, List.getElem?_take, if_pos (by omega),
    if_pos (by omega)] at he'
  rw [← he', hx]

theorem Valid.sorted (h : Valid τ L l) (hb : ∀ t, ∀ e ∈ L t, τ e ≤ t) {p : List α}
    (hp : p ++ [e] <+: l) : ∀ x ∈ p, τ x ≤ τ e := by
  intro x hx
  exact hb _ x ((h p e hp).subset (by simp [hx]))

theorem Valid.pairwise (h : Valid τ L l) (hb : ∀ t, ∀ e ∈ L t, τ e ≤ t) :
    l.Pairwise fun x y => τ x ≤ τ y := by
  induction l using List.reverseRecOn with
  | nil => exact List.Pairwise.nil
  | append_singleton p e ih =>
    rw [List.pairwise_append]
    refine ⟨ih (h.restrict (List.prefix_append _ _)), List.pairwise_singleton _ _, ?_⟩
    intro x hx y hy
    rw [List.mem_singleton.mp hy]
    exact h.sorted hb (List.prefix_refl _) x hx

theorem Valid.linked (h : Valid τ L l) (hL : ∀ t, Linked R (L t)) : Linked R l :=
  fun p e hp => hL _ p e (h p e hp)

theorem prefix_update {t : ℤ} (h : L t <+: l) (s : ℤ) : L s <+: Function.update L t l s := by
  rcases eq_or_ne s t with rfl | hne
  · rwa [Function.update_self]
  · rw [Function.update_of_ne hne]

/-! ### Candidate order -/

variable (τ)

/-- The term of the last entry; `0` for the empty log. -/
def lastTerm (l : List α) : ℤ := (l.getLast?.map τ).getD 0

@[simp] theorem lastTerm_nil : lastTerm τ ([] : List α) = 0 := rfl

@[simp] theorem lastTerm_concat (l : List α) (e : α) : lastTerm τ (l ++ [e]) = τ e := by
  simp [lastTerm]

variable {τ} in
theorem lastTerm_le {l : List α} {b : ℤ} (hb : 0 ≤ b) (h : ∀ e ∈ l, τ e ≤ b) :
    lastTerm τ l ≤ b := by
  rcases List.eq_nil_or_concat' l with rfl | ⟨p, e, rfl⟩
  · exact hb
  · rw [lastTerm_concat]
    exact h e (by simp)

/-- The candidate's log `lc` is at least as up to date as the voter's `lv`. -/
def UpToDate (lc lv : List α) : Prop :=
  lastTerm τ lv < lastTerm τ lc ∨
    (lastTerm τ lv = lastTerm τ lc ∧ lv.length ≤ lc.length)

theorem UpToDate.refl (l : List α) : UpToDate τ l l := .inr ⟨rfl, le_rfl⟩

variable {τ}

theorem UpToDate.carries {P lc lv : List α} {T : ℤ} (hT : 0 < T)
    (hb : ∀ t, ∀ e ∈ L t, τ e ≤ t) (hlc : Valid τ L lc) (hlv : Valid τ L lv)
    (hPT : P <+: L T) (hlast : lastTerm τ P = T) (hP : P <+: lv)
    (hbetween : ∀ t, T < t → t = lastTerm τ lc → lc ≠ [] → P <+: L t)
    (hup : UpToDate τ lc lv) : P <+: lc := by
  rcases List.eq_nil_or_concat' P with rfl | ⟨p, e, rfl⟩
  · exact List.nil_prefix
  rw [lastTerm_concat] at hlast
  -- the voter's log is not empty: its last term is at least `T`
  have hlvne : lv ≠ [] := by
    rintro rfl
    simp at hP
  obtain ⟨q, x, rfl⟩ := (List.eq_nil_or_concat' lv).resolve_left hlvne
  have hTx : T ≤ τ x := by
    rcases concat_cases hP with hPq | heq
    · have := hlv.sorted hb (List.prefix_refl _) e (hPq.subset (by simp))
      omega
    · have : e = x := by simpa using congrArg List.getLast? heq
      rw [← this, hlast]
  have hlcne : lc ≠ [] := by
    rintro rfl
    rcases hup with h | ⟨_, h⟩
    · rw [lastTerm_concat, lastTerm_nil] at h
      omega
    · simp at h
  obtain ⟨r, y, rfl⟩ := (List.eq_nil_or_concat' lc).resolve_left hlcne
  have hlcy := hlc.last
  rcases hup with h | ⟨h, hlen⟩
  · -- a later last term: its leader log extends `P`, and `P` is the shorter one
    rw [lastTerm_concat, lastTerm_concat] at h
    have hPy : p ++ [e] <+: L (τ y) :=
      hbetween (τ y) (by omega) (lastTerm_concat τ r y).symm hlcne
    rcases List.prefix_or_prefix_of_prefix hPy hlcy with hgood | hbad
    · exact hgood
    · have hy : τ y ≤ T := hb T y ((hbad.trans hPT).subset (by simp))
      omega
  · -- the same last term: both logs are prefixes of one leader log
    rw [lastTerm_concat, lastTerm_concat] at h
    have hlvx := hlv.last
    rw [h] at hlvx
    exact hP.trans (List.prefix_of_prefix_length_le hlvx hlcy hlen)

/-! ### Merging a batch -/

/-- `res` may be what is left of `old` after a batch taken from `src`: it is
`old` or a prefix of `src`, and no prefix of `old` on which `src` agrees is
lost. -/
structure Merge (old src res : List α) : Prop where
  shape : res = old ∨ res <+: src
  keeps : ∀ p, p <+: old → p <+: src ∨ src <+: p → p <+: res

theorem Merge.same (old src : List α) : Merge old src old :=
  ⟨.inl rfl, fun _ h _ => h⟩

theorem Merge.extend {old src res res' : List α} (h : Merge old src res) (hres : res <+: res')
    (hsrc : res' <+: src) : Merge old src res' :=
  ⟨.inr hsrc, fun p hp hc => (h.keeps p hp hc).trans hres⟩

theorem Merge.cut {old src : List α} {k : ℕ} {x y : α} (hk : old.take k = src.take k)
    (hx : old[k]? = some x) (hy : src[k]? = some y) (hne : x ≠ y) :
    Merge old src (old.take k) := by
  refine ⟨.inr (hk ▸ List.take_prefix k src), ?_⟩
  intro p hp hc
  have hlt := (List.getElem?_eq_some_iff.mp hy).1
  rcases Nat.lt_or_ge k p.length with hlong | hshort
  · -- a longer common prefix would contain the difference
    have hpx : p[k]? = some x := by rw [← hx, getElem?_of_prefix_of_lt hp hlong]
    have hpy : p[k]? = some y := by
      rw [← hy]
      rcases hc with hc | hc
      · exact (getElem?_of_prefix_of_lt hc hlong).symm
      · exact getElem?_of_prefix_of_lt hc hlt
    exact absurd (Option.some.inj (hpx.symm.trans hpy)) hne
  · exact List.prefix_take_iff.mpr ⟨hp, hshort⟩

theorem Merge.valid {old src res : List α} (h : Merge old src res)
    (hold : Valid τ L old) (hsrc : Valid τ L src) : Valid τ L res := by
  rcases h.shape with rfl | hp
  · exact hold
  · exact hsrc.restrict hp

/-! ### Logs that begin alike -/

/-- The first `k` entries of the two logs are the same. -/
def Common (k : ℕ) (l l' : List α) : Prop := ∃ p : List α, p.length = k ∧ p <+: l ∧ p <+: l'

namespace Common

variable {k : ℕ} {l₁ : List α}

theorem extend_left (h : Common k l l') (hl : l <+: l₁) : Common k l₁ l' := by
  obtain ⟨p, hk, hp, hp'⟩ := h
  exact ⟨p, hk, hp.trans hl, hp'⟩

theorem extend_right (h : Common k l l') (hl : l' <+: l₁) : Common k l l₁ := by
  obtain ⟨p, hk, hp, hp'⟩ := h
  exact ⟨p, hk, hp, hp'.trans hl⟩

theorem le {k' : ℕ} (h : Common k l l') (hk : k' ≤ k) : Common k' l l' := by
  obtain ⟨p, rfl, hp, hp'⟩ := h
  exact ⟨p.take k', by rw [List.length_take]; omega, (List.take_prefix _ _).trans hp,
    (List.take_prefix _ _).trans hp'⟩

theorem trans {l'' : List α} (h : Common k l l') (h' : Common k l' l'') : Common k l l'' := by
  obtain ⟨p, hk, hp, hp'⟩ := h
  obtain ⟨q, hk', hq, hq'⟩ := h'
  have heq : p = q := (List.prefix_of_prefix_length_le hp' hq (by omega)).eq_of_length (by omega)
  exact ⟨p, hk, hp, heq ▸ hq'⟩

theorem of_take_eq (hk : k ≤ l.length) (h : l.take k = l'.take k) : Common k l l' :=
  ⟨l.take k, by rw [List.length_take]; omega, List.take_prefix k l, h ▸ List.take_prefix k l'⟩

theorem getElem? (h : Common k l l') {i : ℕ} (hi : i < k) :
    ∃ e, l[i]? = some e ∧ l'[i]? = some e := by
  obtain ⟨p, rfl, hp, hp'⟩ := h
  refine ⟨p[i], ?_, ?_⟩
  · rw [getElem?_of_prefix_of_lt hp hi, List.getElem?_eq_getElem hi]
  · rw [getElem?_of_prefix_of_lt hp' hi, List.getElem?_eq_getElem hi]

theorem merge {src res : List α} (h : Common k l l') (hsrc : src <+: l)
    (hm : Merge l' src res) : Common k l res := by
  obtain ⟨p, hk, hp, hp'⟩ := h
  exact ⟨p, hk, hp, hm.keeps p hp' (List.prefix_or_prefix_of_prefix hp hsrc)⟩

end Common

end TermLog
