/-
CoreX/Lib/Completeness.lean

Leader completeness for the strict protocol, in which batches come from the log
of the leader that sends them.

A prefix `P` of the leader log of term `T` is *chosen* when its last entry is of
term `T` and a quorum has acknowledged it in that term.  The theorem
(`AckInv.complete`) is that every leader of a later term has `P`, and with it
that two chosen prefixes never contradict each other (`chosen_agree`) and that a
node which holds a chosen prefix keeps it for ever (`justified_log_moves`).

The argument avoids the usual circularity.  Whether a node still holds what it
acknowledged depends on the later leaders, which is what is to be shown; so
`AckInv` only says that it *either* still holds it *or* lost it to a leader of a
term it has already reached (`LostBetween`).  That is kept by every move without
any appeal to completeness, and the bound on the term turns the theorem into an
induction on terms.
-/
import CoreX.Lib.Protocol

namespace Consensus

open TermLog

variable {ι α : Type*} {Q : Quorums ι} {τ num : α → ℤ} {s s' : State ι α}

/-! ### Acknowledged prefixes -/

/-- `P` is part of what `a` acknowledged. -/
def State.Covers (s : State ι α) (a : Ack ι) (P : List α) : Prop :=
  P <+: s.leaderLog a.term ∧ P.length ≤ a.len

/-- Some leader of a term after `T`, up to `W`, does not have `P`. -/
def State.LostBetween (s : State ι α) (T W : ℤ) (P : List α) : Prop :=
  ∃ U, T < U ∧ U ≤ W ∧ s.Led U ∧ ¬ P <+: s.leaderLog U

/-- `P` is in the log `l`, or a leader between `T` and `W` does not have it. -/
def State.KeptOrLost (s : State ι α) (l : List α) (T W : ℤ) (P : List α) : Prop :=
  P <+: l ∨ s.LostBetween T W P

/-- What the strict protocol keeps about acknowledgements. -/
structure AckInv (τ : α → ℤ) (s : State ι α) : Prop where
  term_bound : ∀ v, ∀ e ∈ s.log v, τ e ≤ s.term v
  ack_le : ∀ a ∈ s.acks, a.term ≤ s.term a.node
  ack_led : ∀ a ∈ s.acks, s.Led a.term
  ack_len : ∀ a ∈ s.acks, a.len ≤ (s.leaderLog a.term).length
  kept : ∀ a ∈ s.acks, ∀ P, s.Covers a P →
    s.KeptOrLost (s.log a.node) a.term (s.term a.node) P
  voted : ∀ a ∈ s.acks, ∀ x ∈ s.votes, x.voter = a.node → a.term < x.term →
    ∀ P, s.Covers a P → s.KeptOrLost x.log a.term x.term P
  /-- The votes that elected a leader were cast before it led. -/
  elected : ∀ w ∈ s.wins, ∀ v ∈ w.quorum, ∃ x ∈ s.votes, x.voter = v ∧ x.term = w.term ∧
    x.cand = w.node ∧ ∀ a ∈ s.acks, a.node = v → a.term < w.term →
      ∀ P, s.Covers a P → s.KeptOrLost x.log a.term (w.term - 1) P

theorem ackInv_init : AckInv τ (State.init : State ι α) where
  term_bound := by simp [State.init]
  ack_le := by simp [State.init]
  ack_led := by simp [State.init]
  ack_len := by simp [State.init]
  kept := by simp [State.init]
  voted := by simp [State.init]
  elected := by simp [State.init]

/-! ### Growing leader logs -/

/-- In `s'` there may be more winners, and the leader logs that existed in `s`
have grown by entries of their own term. -/
structure Extends (τ : α → ℤ) (s s' : State ι α) : Prop where
  wins : s.wins ⊆ s'.wins
  logs : ∀ t, s.Led t → ∃ own, s'.leaderLog t = s.leaderLog t ++ own ∧ ∀ e ∈ own, τ e = t

theorem Extends.led (h : Extends τ s s') {t : ℤ} (ht : s.Led t) : s'.Led t := by
  obtain ⟨w, hw, hwt⟩ := ht
  exact ⟨w, h.wins hw, hwt⟩

theorem Extends.grow (h : Extends τ s s') {t : ℤ} (ht : s.Led t) :
    s.leaderLog t <+: s'.leaderLog t := by
  obtain ⟨own, hown, _⟩ := h.logs t ht
  exact ⟨own, hown.symm⟩

variable {P : List α}

theorem Extends.covers (h : Extends τ s s') {a : Ack ι} (hled : s.Led a.term)
    (hlen : a.len ≤ (s.leaderLog a.term).length) (hP : s'.Covers a P) :
    s.Covers a P :=
  ⟨List.prefix_of_prefix_length_le hP.1 (h.grow hled) (hP.2.trans hlen), hP.2⟩

theorem Extends.lost (h : Extends τ s s') {T W W' : ℤ} (hold : ∀ e ∈ P, τ e ≤ T) (hW : W ≤ W')
    (hP : s.LostBetween T W P) :
    s'.LostBetween T W' P := by
  obtain ⟨U, hTU, hUW, hled, hno⟩ := hP
  refine ⟨U, hTU, hUW.trans hW, h.led hled, ?_⟩
  intro hyes
  obtain ⟨own, hlog, hown⟩ := h.logs U hled
  rw [hlog] at hyes
  rcases List.prefix_or_prefix_of_prefix hyes (List.prefix_append _ own) with hl | ⟨r, rfl⟩
  · exact hno hl
  · rw [List.prefix_append_right_inj] at hyes
    rcases r with - | ⟨e, r⟩
    · exact hno (by simp)
    · have hU : τ e = U := hown e (hyes.subset (by simp))
      have hT : τ e ≤ T := hold e (by simp)
      omega

theorem Extends.keptOrLost (h : Extends τ s s') (hi : LogInv Q τ num s) {a : Ack ι} {l l' : List α}
    {W W' : ℤ} (hc : s.Covers a P) (hW : W ≤ W') (hl : P <+: l → P <+: l')
    (hP : s.KeptOrLost l a.term W P) : s'.KeptOrLost l' a.term W' P := by
  rcases hP with hP | hP
  · exact .inl (hl hP)
  · exact .inr (h.lost (fun e he => hi.leaderLog_le _ e (hc.1.subset he)) hW hP)

/-! ### Preservation -/

section

variable [DecidableEq ι]

theorem Step.extends {strict : Prop} (hi : LogInv Q τ num s) (hu : s'.WinsUnique)
    (h : Step Q τ num strict s s') : Extends τ s s' := by
  refine ⟨h.wins_subset, ?_⟩
  intro t ht
  cases h with
  | adopt | stand | grant | accept | ack => exact ⟨[], by simp [State.adopt, State.stand,
      State.grant, State.accept, State.ack], by simp⟩
  | win z A hA hstand hvotes hfresh =>
    have hne : t ≠ s.term z := by
      rintro rfl
      exact not_led_of_fresh hu hfresh ht
    exact ⟨[], by simp [State.win, Function.update_of_ne hne], by simp⟩
  | propose z e hlead hτ hnum =>
    rcases eq_or_ne t (s.term z) with rfl | hne
    · obtain ⟨w, hw, rfl, hwt⟩ := hlead
      exact ⟨[e], by simp [State.propose, ← hwt, ← hi.leader_log w hw hwt.symm],
        by simpa using hτ⟩
    · exact ⟨[], by simp [State.propose, Function.update_of_ne hne], by simp⟩

/-- Nothing that was recorded is lost, and leader logs only grow. -/
structure Grows (s s' : State ι α) : Prop where
  stands : s.stands ⊆ s'.stands
  votes : s.votes ⊆ s'.votes
  wins : s.wins ⊆ s'.wins
  acks : s.acks ⊆ s'.acks
  logs : ∀ t, s.leaderLog t <+: s'.leaderLog t

omit [DecidableEq ι] in
theorem Grows.refl (s : State ι α) : Grows s s :=
  ⟨List.Subset.refl _, List.Subset.refl _, List.Subset.refl _, List.Subset.refl _,
    fun _ => List.prefix_refl _⟩

omit [DecidableEq ι] in
theorem Grows.trans {s₁ s₂ s₃ : State ι α} (h : Grows s₁ s₂) (h' : Grows s₂ s₃) :
    Grows s₁ s₃ :=
  ⟨List.Subset.trans h.stands h'.stands, List.Subset.trans h.votes h'.votes,
    List.Subset.trans h.wins h'.wins, List.Subset.trans h.acks h'.acks,
    fun t => (h.logs t).trans (h'.logs t)⟩

theorem Step.grows {strict : Prop} (hi : LogInv Q τ num s) (hu : s'.WinsUnique)
    (h : Step Q τ num strict s s') : Grows s s' where
  stands := by
    cases h <;> simp [State.adopt, State.stand, State.grant, State.win, State.propose,
      State.accept, State.ack]
  votes := h.votes_subset
  wins := h.wins_subset
  acks := by
    cases h <;> simp [State.adopt, State.stand, State.grant, State.win, State.propose,
      State.accept, State.ack]
  logs t := by
    by_cases ht : s.Led t
    · exact (h.extends hi hu).grow ht
    · -- nobody led that term
      rw [not_imp_comm.mp (hi.led_of_log t) ht]
      exact List.nil_prefix

theorem Moves.grows {strict : Prop} (hi : LogInv Q τ num s) (h : Moves Q τ num strict s s')
    (hu : s'.WinsUnique) : Grows s s' := by
  induction h with
  | refl => exact Grows.refl s
  | tail hrun hstep ih =>
    have hu₁ := hu.anti hstep.wins_subset
    exact (ih hu₁).trans (hstep.grows (hi.moves hrun hu₁) hu)

omit [DecidableEq ι] in
theorem AckInv.carry (h : AckInv τ s) (hi : LogInv Q τ num s) (hx : Extends τ s s')
    (hacks : s'.acks = s.acks) (hterm : ∀ v, s.term v ≤ s'.term v)
    (hvotes : s.votes ⊆ s'.votes)
    (hbound : ∀ v, ∀ e ∈ s'.log v, τ e ≤ s'.term v)
    (hkept : ∀ a ∈ s.acks, ∀ P, s.Covers a P → P <+: s.log a.node →
      s'.KeptOrLost (s'.log a.node) a.term (s'.term a.node) P)
    (hvoted : ∀ x ∈ s'.votes, x ∈ s.votes ∨ s.term x.voter ≤ x.term ∧ x.log = s.log x.voter)
    (hwins : ∀ w ∈ s'.wins, w ∈ s.wins ∨ ¬ s.Led w.term ∧ ∀ v ∈ w.quorum, ∃ x ∈ s.votes,
      x.voter = v ∧ x.term = w.term ∧ x.cand = w.node) : AckInv τ s' := by
  have hback : ∀ a ∈ s.acks, ∀ P, s'.Covers a P → s.Covers a P := fun a ha P hP =>
    hx.covers (h.ack_led a ha) (h.ack_len a ha) hP
  refine ⟨hbound, ?_, ?_, ?_, ?_, ?_, ?_⟩
  · rw [hacks]
    exact fun a ha => (h.ack_le a ha).trans (hterm _)
  · rw [hacks]
    exact fun a ha => hx.led (h.ack_led a ha)
  · rw [hacks]
    exact fun a ha => (h.ack_len a ha).trans (hx.grow (h.ack_led a ha)).length_le
  · rw [hacks]
    intro a ha P hP'
    have hP := hback a ha P hP'
    rcases h.kept a ha P hP with hin | hlost
    · exact hkept a ha P hP hin
    · exact hx.keptOrLost hi hP (hterm _) (l := []) (fun h => by simp_all) (.inr hlost)
  · rw [hacks]
    intro a ha x hx' hxa hlt P hP'
    have hP := hback a ha P hP'
    rcases hvoted x hx' with hold | ⟨hle, hlog⟩
    · exact hx.keptOrLost hi hP le_rfl id (h.voted a ha x hold hxa hlt P hP)
    · -- a new vote is cast with the log the voter holds
      rw [hxa] at hle hlog
      rw [hlog]
      exact hx.keptOrLost hi hP hle id (h.kept a ha P hP)
  · intro w hw v hv
    rw [hacks]
    rcases hwins w hw with hold | ⟨hnl, hnew⟩
    · obtain ⟨x, hx', hxv, hxt, hxc, hall⟩ := h.elected w hold v hv
      refine ⟨x, hvotes hx', hxv, hxt, hxc, ?_⟩
      intro a ha hav hlt P hP'
      have hP := hback a ha P hP'
      exact hx.keptOrLost hi hP le_rfl id (hall a ha hav hlt P hP)
    · obtain ⟨x, hx', hxv, hxt, hxc⟩ := hnew v hv
      refine ⟨x, hvotes hx', hxv, hxt, hxc, ?_⟩
      intro a ha hav hlt P hP'
      have hP := hback a ha P hP'
      have hkl := h.voted a ha x hx' (hxv.trans hav.symm) (hxt ▸ hlt) P hP
      refine hx.keptOrLost hi hP le_rfl id ?_
      rcases hkl with hin | ⟨U, hTU, hUW, hled, hno⟩
      · exact .inl hin
      · -- nobody led the new term before
        have hne : U ≠ w.term := by
          rintro rfl
          exact hnl hled
        exact .inr ⟨U, hTU, by omega, hled, hno⟩

omit [DecidableEq ι] in
theorem keptOrLost_accept {v : ι} {t : ℤ} {src res P : List α} {a : Ack ι} (h : AckInv τ s)
    (ha : a ∈ s.acks) (hav : a.node = v) (hle : s.term v ≤ t) (hled : s.Led t)
    (hown : src <+: s.leaderLog t) (hmerge : Merge (s.log v) src res) (hc : s.Covers a P)
    (hP : P <+: s.log v) : s.KeptOrLost res a.term t P := by
  by_cases hPt : P <+: s.leaderLog t
  · exact .inl (hmerge.keeps P hP (List.prefix_or_prefix_of_prefix hPt hown))
  · have hat : a.term ≤ t := (hav ▸ h.ack_le a ha).trans hle
    have hne : a.term ≠ t := fun heq => hPt (heq ▸ hc.1)
    exact .inr ⟨t, by omega, le_rfl, hled, hPt⟩

theorem AckInv.step (h : AckInv τ s) (hi : LogInv Q τ num s) (hu : s'.WinsUnique)
    (hs : Step Q τ num True s s') : AckInv τ s' := by
  have hx := hs.extends hi hu
  have hvotes := hs.votes_subset
  cases hs with
  | adopt v t hle =>
    refine h.carry hi hx rfl (le_update_term hle) hvotes ?_ (fun a ha P hc hP => .inl hP)
      (fun x hx => .inl hx) (fun w hw => .inl hw)
    exact fun u e he => (h.term_bound u e he).trans (le_update_term hle u)
  | stand c t hlt =>
    refine h.carry hi hx rfl (le_update_term hlt.le) hvotes ?_ (fun a ha P hc hP => .inl hP)
      ?_ (fun w hw => .inl hw)
    · exact fun u e he => (h.term_bound u e he).trans (le_update_term hlt.le u)
    · rintro x (_ | ⟨_, hx⟩)
      · exact .inr ⟨hlt.le, rfl⟩
      · exact .inl hx
  | grant v t c hle hup =>
    refine h.carry hi hx rfl (le_update_term hle) hvotes ?_ (fun a ha P hc hP => .inl hP)
      ?_ (fun w hw => .inl hw)
    · exact fun u e he => (h.term_bound u e he).trans (le_update_term hle u)
    · rintro x (_ | ⟨_, hx⟩)
      · exact .inr ⟨hle, rfl⟩
      · exact .inl hx
  | win z A hA hstand hv hfresh =>
    refine h.carry hi hx rfl (fun _ => le_rfl) hvotes h.term_bound
      (fun a ha P hc hP => .inl hP) (fun x hx => .inl hx) ?_
    rintro w (_ | ⟨_, hw⟩)
    · exact .inr ⟨not_led_of_fresh hu hfresh, hv⟩
    · exact .inl hw
  | propose z e hlead hτ hnum =>
    refine h.carry hi hx rfl (fun _ => le_rfl) hvotes ?_ ?_ (fun x hx => .inl hx)
      (fun w hw => .inl hw)
    · intro u x hxu
      rcases eq_or_ne u z with rfl | hne
      · have hxu' : x ∈ s.log u ∨ x = e := by simpa [State.propose] using hxu
        rcases hxu' with hxu' | rfl
        · exact h.term_bound u x hxu'
        · exact hτ.le
      · exact h.term_bound u x (by simpa [State.propose, Function.update_of_ne hne] using hxu)
    · intro a ha P hc hP
      rcases eq_or_ne a.node z with heq | hne
      · rw [heq] at hP ⊢
        exact .inl (by simpa [State.propose] using hP.trans (List.prefix_append _ [e]))
      · exact .inl (by simpa [State.propose, Function.update_of_ne hne] using hP)
  | accept v t src res hle hled hsrc hown hmerge =>
    obtain ⟨w₀, hw₀, _, hw₀t⟩ := hled
    refine h.carry hi hx rfl (le_update_term hle) hvotes ?_ ?_ (fun x hx => .inl hx)
      (fun w hw => .inl hw)
    · intro u x hxu
      rcases eq_or_ne u v with rfl | hne
      · have hxu' : x ∈ res := by simpa [State.accept] using hxu
        have hgoal : τ x ≤ t := by
          rcases hmerge.shape with rfl | hp
          · exact (h.term_bound u x hxu').trans hle
          · exact hi.leaderLog_le t x ((hown trivial).subset (hp.subset hxu'))
        simpa [State.accept, State.adopt] using hgoal
      · have hxu' : x ∈ s.log u := by simpa [State.accept, Function.update_of_ne hne] using hxu
        exact (h.term_bound u x hxu').trans (le_update_term hle u)
    · intro a ha P hc hP
      rcases eq_or_ne a.node v with heq | hne
      · rw [heq] at hP ⊢
        have hkl := keptOrLost_accept h ha heq hle ⟨w₀, hw₀, hw₀t⟩ (hown trivial) hmerge hc hP
        have hlog : (s.accept v t res).log v = res := by simp [State.accept]
        have hterm : (s.accept v t res).term v = t := by simp [State.accept, State.adopt]
        rw [hlog, hterm]
        exact hx.keptOrLost hi hc le_rfl id hkl
      · exact .inl (by simpa [State.accept, Function.update_of_ne hne] using hP)
  | ack v n hled hn hlog =>
    refine ⟨h.term_bound, ?_, ?_, ?_, ?_, ?_, ?_⟩
    · rintro a (_ | ⟨_, ha⟩)
      · exact le_rfl
      · exact h.ack_le a ha
    · rintro a (_ | ⟨_, ha⟩)
      · exact hled
      · exact h.ack_led a ha
    · rintro a (_ | ⟨_, ha⟩)
      · exact hn
      · exact h.ack_len a ha
    · rintro a (_ | ⟨_, ha⟩) P hP
      · have htake : P <+: (s.leaderLog (s.term v)).take n :=
          List.prefix_take_iff.mpr ⟨hP.1, hP.2⟩
        exact .inl (htake.trans hlog)
      · exact h.kept a ha P hP
    · rintro a (_ | ⟨_, ha⟩) x hx hxa hlt P hP
      · have := hi.vote_le x hx
        simp only at hxa hlt
        rw [hxa] at this
        omega
      · exact h.voted a ha x hx hxa hlt P hP
    · intro w hw u hu'
      obtain ⟨x, hx, hxv, hxt, hxc, hall⟩ := h.elected w hw u hu'
      refine ⟨x, hx, hxv, hxt, hxc, ?_⟩
      rintro a (_ | ⟨_, ha⟩) hau hlt P hP
      · have := hi.quorum_le hw hu'
        simp only at hau hlt
        rw [hau] at hlt
        omega
      · exact hall a ha hau hlt P hP

theorem AckInv.moves (h : AckInv τ s) (hi : LogInv Q τ num s)
    (hs : Moves Q τ num True s s') (hu : s'.WinsUnique) : AckInv τ s' := by
  induction hs with
  | refl => exact h
  | tail hrun hstep ih =>
    have hu₁ := hu.anti hstep.wins_subset
    exact (ih hu₁).step (hi.moves hrun hu₁) hu hstep

end

/-! ### Leader completeness -/

/-- `P` ends in an entry of term `T` and a quorum acknowledged it in that
term. -/
def State.Chosen (s : State ι α) (Q : Quorums ι) (τ : α → ℤ) (T : ℤ) (P : List α) : Prop :=
  P <+: s.leaderLog T ∧ lastTerm τ P = T ∧
    ∃ A, Q.isQuorum A ∧ ∀ v ∈ A, ∃ a ∈ s.acks, a.node = v ∧ a.term = T ∧ P.length ≤ a.len

theorem AckInv.complete (h : AckInv τ s) (hi : LogInv Q τ num s) {T : ℤ} (hP : s.Chosen Q τ T P)
    {U : ℤ} (hTU : T < U) (hU : s.Led U) : P <+: s.leaderLog U := by
  obtain ⟨hPT, hlast, A, hA, hacks⟩ := hP
  have hpos : 0 < T := by
    obtain ⟨v, hv, _⟩ := Q.meet A A hA hA
    obtain ⟨a, ha, _, rfl, _⟩ := hacks v hv
    exact hi.led_pos (h.ack_led a ha)
  -- by induction on the distance between the two terms
  obtain ⟨n, hn⟩ : ∃ n : ℕ, (n : ℤ) = U - T := ⟨(U - T).toNat, by omega⟩
  induction n using Nat.strong_induction_on generalizing U with
  | _ n ih =>
    have hbetween : ∀ t, T < t → t < U → s.Led t → P <+: s.leaderLog t := by
      intro t hTt htU ht
      exact ih (t - T).toNat (by omega) hTt ht (by omega)
    obtain ⟨w, hw, rfl⟩ := hU
    obtain ⟨v, hvA, hvw⟩ := Q.meet A w.quorum hA (hi.win_quorum w hw)
    obtain ⟨a, ha, hav, rfl, hlen⟩ := hacks v hvA
    obtain ⟨x, hx, hxv, hxt, hxc, hall⟩ := h.elected w hw v hvw
    obtain ⟨d, hd, hdc, hdt, hold, own, hlog, _⟩ := hi.win_stand w hw
    obtain ⟨d', hd', hdc', hdt', hup⟩ := hi.vote_stand x hx
    have hsame : d.log = d'.log := hi.stand_unique d hd d' hd'
      (hdc.trans (hxc.symm.trans hdc'.symm)) (hdt.trans (hxt.symm.trans hdt'.symm))
    rcases hall a ha hav hTU P ⟨hPT, hlen⟩ with hin | ⟨t, hTt, htU, hled, hno⟩
    · have hcar : P <+: d.log := by
        refine UpToDate.carries hpos hi.leaderLog_le (hi.valid_stand d hd) (hi.valid_vote x hx)
          hPT hlast hin ?_ (hsame ▸ hup)
        intro t hTt htl hne
        -- the last term of the candidate's log had a leader before this one
        obtain ⟨p, e, hpe⟩ := (List.eq_nil_or_concat' d.log).resolve_left hne
        have hte : t = τ e := by rw [htl, hpe, lastTerm_concat]
        have he : e ∈ d.log := by simp [hpe]
        rw [hte] at hTt ⊢
        exact hbetween _ hTt (hold e he) (hi.led_of_mem (hi.valid_stand d hd) he)
      rw [hlog]
      exact hcar.trans (List.prefix_append _ own)
    · exact absurd (hbetween t hTt (by omega) hled) hno

theorem AckInv.chosen_le (h : AckInv τ s) (hi : LogInv Q τ num s) {T U : ℤ} (hP : s.Chosen Q τ T P)
    (hTU : T ≤ U) (hU : s.Led U) : P <+: s.leaderLog U := by
  rcases eq_or_lt_of_le hTU with rfl | hlt
  · exact hP.1
  · exact h.complete hi hP hlt hU

theorem AckInv.chosen_led (h : AckInv τ s) {T : ℤ} (hP : s.Chosen Q τ T P) :
    s.Led T := by
  obtain ⟨_, _, A, hA, hacks⟩ := hP
  obtain ⟨v, hv, _⟩ := Q.meet A A hA hA
  obtain ⟨a, ha, _, rfl, _⟩ := hacks v hv
  exact h.ack_led a ha

theorem AckInv.chosen_agree (h : AckInv τ s) (hi : LogInv Q τ num s) {T T' : ℤ} {P' : List α}
    (hP : s.Chosen Q τ T P) (hP' : s.Chosen Q τ T' P') :
    P <+: P' ∨ P' <+: P := by
  rcases le_total T T' with hle | hle
  · exact List.prefix_or_prefix_of_prefix (h.chosen_le hi hP hle (h.chosen_led hP')) hP'.1
  · exact List.prefix_or_prefix_of_prefix hP.1 (h.chosen_le hi hP' hle (h.chosen_led hP))

theorem AckInv.chosen_held (h : AckInv τ s) (hi : LogInv Q τ num s) {T : ℤ}
    (hP : s.Chosen Q τ T P) : ∃ A, Q.isQuorum A ∧ ∀ v ∈ A, P <+: s.log v := by
  obtain ⟨hPT, hlast, A, hA, hacks⟩ := hP
  refine ⟨A, hA, fun v hv => ?_⟩
  obtain ⟨a, ha, rfl, rfl, hlen⟩ := hacks v hv
  refine (h.kept a ha P ⟨hPT, hlen⟩).resolve_right ?_
  rintro ⟨U, hlt, _, hled, hnot⟩
  exact hnot (h.complete hi ⟨hPT, hlast, A, hA, hacks⟩ hlt hled)

/-! ### Justified commit indices -/

/-- The first `c` entries of `l` are part of something chosen, and `l` has all of that.
Where logs are replaced by snapshots (`u`) it may have only a part, if what was chosen is
not of a later term than `b`. -/
def State.Justified (s : State ι α) (Q : Quorums ι) (τ : α → ℤ) (u : Prop) (b : ℤ) (l : List α)
    (c : ℤ) : Prop :=
  c ≤ 0 ∨ ∃ T P, s.Chosen Q τ T P ∧ Common c.toNat P l ∧ (P <+: l ∨ u ∧ T ≤ b)

section

variable {u u' : Prop} {b b' c c' : ℤ} {l l' : List α}

theorem State.Justified.trans (h : s.Justified Q τ u b l c) (hl : l <+: l') :
    s.Justified Q τ u b l' c := by
  rcases h with h | ⟨T, P, hP, hcom, hPl⟩
  · exact .inl h
  · exact .inr ⟨T, P, hP, hcom.extend_right hl, hPl.imp_left fun h => h.trans hl⟩

theorem State.Justified.le (h : s.Justified Q τ u b l c) (hc : c' ≤ c) :
    s.Justified Q τ u b l c' := by
  rcases h with h | ⟨T, P, hP, hcom, hPl⟩
  · exact .inl (hc.trans h)
  · exact .inr ⟨T, P, hP, hcom.le (Int.toNat_le_toNat hc), hPl⟩

theorem State.Justified.weaken (h : s.Justified Q τ u b l c) (hu : u → u') (hb : b ≤ b') :
    s.Justified Q τ u' b' l c := by
  rcases h with h | ⟨T, P, hP, hcom, hPl⟩
  · exact .inl h
  · exact .inr ⟨T, P, hP, hcom, hPl.imp_right fun h => ⟨hu h.1, h.2.trans hb⟩⟩

theorem State.Justified.part (hu : u) (h : s.Justified Q τ u b l c) (hT : ∀ e ∈ l, τ e ≤ b)
    (hb : 0 ≤ b) (hl : Common c.toNat l l') : s.Justified Q τ u b l' c := by
  rcases h with h | ⟨T, P, hP, hcom, hPl⟩
  · exact .inl h
  · refine .inr ⟨T, P, hP, hcom.trans hl, .inr ⟨hu, ?_⟩⟩
    rcases hPl with hPl | hPl
    · rw [← hP.2.1]
      exact lastTerm_le hb fun e he => hT e (hPl.subset he)
    · exact hPl.2

theorem State.Justified.le_length (h : s.Justified Q τ u b l c) : c ≤ l.length := by
  rcases h with h | ⟨T, P, _, ⟨p, hp, _, hpl⟩, _⟩
  · omega
  · have := hpl.length_le
    omega

end

section

variable [DecidableEq ι]

theorem State.Chosen.step {strict : Prop} (hi : LogInv Q τ num s) (hu : s'.WinsUnique)
    (h : AckInv τ s) (hs : Step Q τ num strict s s') {T : ℤ} {P : List α}
    (hP : s.Chosen Q τ T P) : s'.Chosen Q τ T P := by
  have hled := h.chosen_led hP
  obtain ⟨hPT, hlast, A, hA, hacks⟩ := hP
  refine ⟨hPT.trans ((hs.extends hi hu).grow hled), hlast, A, hA, ?_⟩
  intro v hv
  obtain ⟨a, ha, hrest⟩ := hacks v hv
  refine ⟨a, ?_, hrest⟩
  cases hs with
  | ack => exact List.mem_cons_of_mem _ ha
  | adopt | stand | grant | win | propose | accept => exact ha

theorem State.Justified.step {strict : Prop} (hi : LogInv Q τ num s) (hu : s'.WinsUnique)
    (h : AckInv τ s) (hs : Step Q τ num strict s s') {u : Prop} {b : ℤ} {l : List α} {c : ℤ}
    (hj : s.Justified Q τ u b l c) : s'.Justified Q τ u b l c := by
  rcases hj with hj | ⟨T, P, hP, hPl⟩
  · exact .inl hj
  · exact .inr ⟨T, P, hP.step hi hu h hs, hPl⟩

theorem justified_log_step (hi : LogInv Q τ num s) (hu : s'.WinsUnique) (h : AckInv τ s)
    (hs : Step Q τ num True s s') {v : ι} {u : Prop} {c : ℤ}
    (hj : s.Justified Q τ u (s.term v) (s.log v) c) :
    s'.Justified Q τ u (s'.term v) (s'.log v) c := by
  have hj' := hj.step hi hu h hs
  cases hs with
  | win | ack => exact hj'
  | adopt z t hle | grant z t _ hle => exact hj'.weaken (fun h => h) (le_update_term hle v)
  | stand z t hlt => exact hj'.weaken (fun h => h) (le_update_term hlt.le v)
  | propose z e hlead hτ hnum =>
    refine hj'.trans ?_
    rcases eq_or_ne v z with rfl | hne
    · simp [State.propose]
    · simp [State.propose, Function.update_of_ne hne]
  | accept z t src res hle hled hsrc hown hmerge =>
    rcases eq_or_ne v z with rfl | hne
    · rcases hj with hj | ⟨T, P, hP, hcom, hPl⟩
      · exact .inl hj
      · obtain ⟨w, hw, _, hwt⟩ := hled
        -- the chosen term is no later than the node's, hence the leader's
        have hT : T ≤ s.term v := by
          rcases hPl with hPl | hPl
          · rw [← hP.2.1]
            exact lastTerm_le (hi.term_nonneg v) fun e he => h.term_bound v e (hPl.subset he)
          · exact hPl.2
        have hPt := h.chosen_le hi hP (hT.trans hle) ⟨w, hw, hwt⟩
        have hkeep := (hcom.extend_left hPt).merge (hown trivial) hmerge
        have hpart : Common c.toNat P res := by
          obtain ⟨p, hp, hpP, _⟩ := hcom
          obtain ⟨q, hq, hqt, hqr⟩ := hkeep
          have hqp : q = p := (List.prefix_of_prefix_length_le hqt (hpP.trans hPt)
            (by omega)).eq_of_length (by omega)
          exact ⟨p, hp, hpP, hqp ▸ hqr⟩
        refine .inr ⟨T, P, hP, by simpa [State.accept] using hpart, ?_⟩
        refine hPl.imp (fun hPl => ?_) fun hPl => ⟨hPl.1, ?_⟩
        · simpa [State.accept] using
            hmerge.keeps P hPl (List.prefix_or_prefix_of_prefix hPt (hown trivial))
        · simpa [State.accept, State.adopt] using hT.trans hle
    · simpa [State.accept, State.adopt, Function.update_of_ne hne] using hj'

theorem chosen_moves (hi : LogInv Q τ num s) (h : AckInv τ s) (hs : Moves Q τ num True s s')
    (hu : s'.WinsUnique) {T : ℤ} {P : List α} (hP : s.Chosen Q τ T P) : s'.Chosen Q τ T P := by
  induction hs with
  | refl => exact hP
  | tail hrun hstep ih =>
    have hu₁ := hu.anti hstep.wins_subset
    exact (ih hu₁).step (hi.moves hrun hu₁) hu (h.moves hi hrun hu₁) hstep

theorem justified_moves (hi : LogInv Q τ num s) (h : AckInv τ s)
    (hs : Moves Q τ num True s s') (hu : s'.WinsUnique) {u : Prop} {b : ℤ} {l : List α} {c : ℤ}
    (hj : s.Justified Q τ u b l c) : s'.Justified Q τ u b l c :=
  hj.imp_right fun ⟨T, P, hP, hrest⟩ => ⟨T, P, chosen_moves hi h hs hu hP, hrest⟩

theorem justified_log_moves (hi : LogInv Q τ num s) (h : AckInv τ s)
    (hs : Moves Q τ num True s s') (hu : s'.WinsUnique) {v : ι} {u : Prop} {c : ℤ}
    (hj : s.Justified Q τ u (s.term v) (s.log v) c) :
    s'.Justified Q τ u (s'.term v) (s'.log v) c := by
  induction hs with
  | refl => exact hj
  | tail hrun hstep ih =>
    have hu₁ := hu.anti hstep.wins_subset
    exact justified_log_step (hi.moves hrun hu₁) hu (h.moves hi hrun hu₁) hstep (ih hu₁)

end

theorem justified_agree (hi : LogInv Q τ num s) (h : AckInv τ s) {u u' : Prop} {b b' : ℤ}
    {l l' : List α} {c c' : ℤ} (hj : s.Justified Q τ u b l c) (hj' : s.Justified Q τ u' b' l' c')
    {i : ℕ} (hc : (i : ℤ) < c) (hc' : (i : ℤ) < c') : l[i]? = l'[i]? ∧ i < l.length := by
  obtain ⟨T, P, hP, hcom, _⟩ := hj.resolve_left (by omega)
  obtain ⟨T', P', hP', hcom', _⟩ := hj'.resolve_left (by omega)
  obtain ⟨e, hPe, hle⟩ := hcom.getElem? (i := i) (by omega)
  obtain ⟨e', hPe', hle'⟩ := hcom'.getElem? (i := i) (by omega)
  refine ⟨?_, (List.getElem?_eq_some_iff.mp hle).1⟩
  have hlt := (List.getElem?_eq_some_iff.mp hPe).1
  have hlt' := (List.getElem?_eq_some_iff.mp hPe').1
  rw [hle, hle', ← hPe, ← hPe']
  rcases h.chosen_agree hi hP hP' with hpp | hpp
  · exact (getElem?_of_prefix_of_lt hpp hlt).symm
  · exact getElem?_of_prefix_of_lt hpp hlt'

end Consensus
