/-
CoreX/Lib/Protocol.lean

The abstract replicated log.  Every node has a term and a log; terms only grow.
The state also remembers what the safety argument speaks about, long after the
nodes have moved on:

* `leaderLog t` — the log of the leader of term `t`, as long as it led;
* `stands`, `votes`, `wins` — who stood for election with which log, who voted
  for whom holding which log, who won with which quorum;
* `acks` — which node confirmed which length of a leader's log.

The moves are those of a leader-based protocol, without any message: a message
in flight is a promise that its move stays enabled, so a lost, delayed,
reordered or duplicated message is a move that is made late, never or twice.

`Step strict` has one switch.  A node may take over a batch cut from *any* valid
log; under `strict` the batch has to come from the log of the leader in whose
term it was sent.  Log Matching needs no more than the loose moves and that a
term has at most one winner (`LogInv`, `LogInv.moves`).
-/
import Mathlib.Logic.Relation
import CoreX.Lib.Indexed
import CoreX.Lib.Quorum
import CoreX.Lib.TermLog

namespace Consensus

open TermLog

variable {ι α : Type*}

/-! ### States -/

/-- Node `cand` stood for election in `term`, holding `log`. -/
structure Stand (ι α : Type*) where
  cand : ι
  term : ℤ
  log : List α

/-- Node `voter` voted for `cand` in `term`, holding `log`. -/
structure Vote (ι α : Type*) where
  voter : ι
  term : ℤ
  cand : ι
  log : List α

/-- Node `node` won `term` with the votes of `quorum`. -/
structure Win (ι : Type*) where
  node : ι
  term : ℤ
  quorum : Finset ι

/-- Node `node` held, in `term`, the first `len` entries of that term's leader
log. -/
structure Ack (ι : Type*) where
  node : ι
  term : ℤ
  len : ℕ

/-- The abstract state: the nodes, and the record of elections and
acknowledgements. -/
structure State (ι α : Type*) where
  term : ι → ℤ
  log : ι → List α
  leaderLog : ℤ → List α
  stands : List (Stand ι α)
  votes : List (Vote ι α)
  wins : List (Win ι)
  acks : List (Ack ι)

/-- The initial state: term `0`, nothing logged, nothing recorded. -/
def State.init : State ι α where
  term _ := 0
  log _ := []
  leaderLog _ := []
  stands := []
  votes := []
  wins := []
  acks := []

variable (s : State ι α)

/-- Term `t` has a winner. -/
def State.Led (t : ℤ) : Prop := ∃ w ∈ s.wins, w.term = t

/-- Node `z` won term `t`. -/
def State.Won (z : ι) (t : ℤ) : Prop := ∃ w ∈ s.wins, w.node = z ∧ w.term = t

/-- Node `v` voted for `c` in term `t`. -/
def State.Voted (v : ι) (t : ℤ) (c : ι) : Prop :=
  ∃ x ∈ s.votes, x.voter = v ∧ x.term = t ∧ x.cand = c

/-- Node `v` acknowledged at least `n` entries in term `t`. -/
def State.Acked (v : ι) (t : ℤ) (n : ℤ) : Prop :=
  ∃ a ∈ s.acks, a.node = v ∧ a.term = t ∧ n ≤ a.len

/-- A term has at most one winner. -/
def State.WinsUnique : Prop :=
  ∀ w ∈ s.wins, ∀ w' ∈ s.wins, w.term = w'.term → w.node = w'.node

/-- A node votes for at most one candidate in a term. -/
def State.VotesUnique : Prop :=
  ∀ x ∈ s.votes, ∀ y ∈ s.votes, x.voter = y.voter → x.term = y.term → x.cand = y.cand

section

variable [DecidableEq ι]

namespace State

variable (s : State ι α)

/-- `v` moves to term `t`. -/
def adopt (v : ι) (t : ℤ) : State ι α :=
  { s with term := Function.update s.term v t }

/-- `c` stands for election in term `t` and votes for itself. -/
def stand (c : ι) (t : ℤ) : State ι α :=
  { s.adopt c t with
    stands := ⟨c, t, s.log c⟩ :: s.stands
    votes := ⟨c, t, c, s.log c⟩ :: s.votes }

/-- `v` votes for `c` in term `t`. -/
def grant (v : ι) (t : ℤ) (c : ι) : State ι α :=
  { s.adopt v t with votes := ⟨v, t, c, s.log v⟩ :: s.votes }

/-- `z` wins its term with the quorum `A`. -/
def win (z : ι) (A : Finset ι) : State ι α :=
  { s with
    wins := ⟨z, s.term z, A⟩ :: s.wins
    leaderLog := Function.update s.leaderLog (s.term z) (s.log z) }

/-- The leader `z` appends `e`. -/
def propose (z : ι) (e : α) : State ι α :=
  { s with
    log := Function.update s.log z (s.log z ++ [e])
    leaderLog := Function.update s.leaderLog (s.term z) (s.log z ++ [e]) }

/-- `v` moves to term `t` and its log becomes `res`. -/
def accept (v : ι) (t : ℤ) (res : List α) : State ι α :=
  { s.adopt v t with log := Function.update s.log v res }

/-- `v` confirms the first `n` entries of its term's leader log. -/
def ack (v : ι) (n : ℕ) : State ι α :=
  { s with acks := ⟨v, s.term v, n⟩ :: s.acks }

end State

/-! ### Moves -/

variable (Q : Quorums ι) (τ num : α → ℤ)

/-- One move of the protocol.  Under `strict`, batches come from the log of the
leader that sends them. -/
inductive Step (strict : Prop) (s : State ι α) : State ι α → Prop
  | adopt (v : ι) (t : ℤ) (hle : s.term v ≤ t) : Step strict s (s.adopt v t)
  | stand (c : ι) (t : ℤ) (hlt : s.term c < t) : Step strict s (s.stand c t)
  | grant (v : ι) (t : ℤ) (c : ι) (hle : s.term v ≤ t)
      (hup : ∃ d ∈ s.stands, d.cand = c ∧ d.term = t ∧ UpToDate τ d.log (s.log v)) :
      Step strict s (s.grant v t c)
  | win (z : ι) (A : Finset ι) (hA : Q.isQuorum A)
      (hstand : ∃ d ∈ s.stands, d.cand = z ∧ d.term = s.term z)
      (hvotes : ∀ v ∈ A, ∃ x ∈ s.votes, x.voter = v ∧ x.term = s.term z ∧ x.cand = z)
      (hfresh : ∀ w ∈ s.wins, w.node = z → w.term ≠ s.term z) :
      Step strict s (s.win z A)
  | propose (z : ι) (e : α) (hlead : ∃ w ∈ s.wins, w.node = z ∧ w.term = s.term z)
      (hτ : τ e = s.term z) (hnum : num e = (s.log z).length + 1) :
      Step strict s (s.propose z e)
  | accept (v : ι) (t : ℤ) (src res : List α) (hle : s.term v ≤ t)
      (hled : ∃ w ∈ s.wins, w.node ≠ v ∧ w.term = t)
      (hsrc : Valid τ s.leaderLog src) (hown : strict → src <+: s.leaderLog t)
      (hmerge : Merge (s.log v) src res) : Step strict s (s.accept v t res)
  | ack (v : ι) (n : ℕ) (hled : s.Led (s.term v))
      (hn : n ≤ (s.leaderLog (s.term v)).length)
      (hlog : (s.leaderLog (s.term v)).take n <+: s.log v) : Step strict s (s.ack v n)

/-- Any number of moves. -/
def Moves (strict : Prop) : State ι α → State ι α → Prop :=
  Relation.ReflTransGen (Step Q τ num strict)

end

variable {Q : Quorums ι} {τ : α → ℤ} {num : α → ℤ}

/-! ### The log invariant -/

/-- What the loose protocol keeps as long as no term has two winners. -/
structure LogInv (Q : Quorums ι) (τ num : α → ℤ) (s : State ι α) : Prop where
  term_nonneg : ∀ v, 0 ≤ s.term v
  vote_le : ∀ x ∈ s.votes, x.term ≤ s.term x.voter
  vote_stand : ∀ x ∈ s.votes, ∃ d ∈ s.stands, d.cand = x.cand ∧ d.term = x.term ∧
    UpToDate τ d.log x.log
  stand_le : ∀ d ∈ s.stands, d.term ≤ s.term d.cand
  stand_pos : ∀ d ∈ s.stands, 0 < d.term
  stand_unique : ∀ d ∈ s.stands, ∀ d' ∈ s.stands, d.cand = d'.cand → d.term = d'.term →
    d.log = d'.log
  stand_log : ∀ d ∈ s.stands, s.term d.cand = d.term → ¬ s.Led d.term →
    s.log d.cand = d.log
  win_quorum : ∀ w ∈ s.wins, Q.isQuorum w.quorum
  win_votes : ∀ w ∈ s.wins, ∀ v ∈ w.quorum, ∃ x ∈ s.votes, x.voter = v ∧
    x.term = w.term ∧ x.cand = w.node
  /-- The winner's log starts with the log it stood with, all of older terms,
  and goes on with entries of its own term. -/
  win_stand : ∀ w ∈ s.wins, ∃ d ∈ s.stands, d.cand = w.node ∧ d.term = w.term ∧
    (∀ e ∈ d.log, τ e < w.term) ∧
    ∃ own, s.leaderLog w.term = d.log ++ own ∧ ∀ e ∈ own, τ e = w.term
  led_of_log : ∀ t, s.leaderLog t ≠ [] → s.Led t
  leader_log : ∀ w ∈ s.wins, s.term w.node = w.term → s.log w.node = s.leaderLog w.term
  valid_log : ∀ v, Valid τ s.leaderLog (s.log v)
  valid_leader : ∀ t, Valid τ s.leaderLog (s.leaderLog t)
  valid_stand : ∀ d ∈ s.stands, Valid τ s.leaderLog d.log
  valid_vote : ∀ x ∈ s.votes, Valid τ s.leaderLog x.log
  numbered : ∀ t, Indexed num 0 (s.leaderLog t)
  /-- Whoever elected the leader of a term that a candidate's log already knows
  can no longer vote for that candidate. -/
  late : ∀ d ∈ s.stands, ∀ e ∈ d.log, d.term < τ e → ∀ w ∈ s.wins, w.term = τ e →
    ∀ x ∈ s.votes, x.term = d.term → x.cand = d.cand → x.voter ∉ w.quorum

theorem logInv_init : LogInv Q τ num (State.init : State ι α) where
  term_nonneg := by simp [State.init]
  vote_le := by simp [State.init]
  vote_stand := by simp [State.init]
  stand_le := by simp [State.init]
  stand_pos := by simp [State.init]
  stand_unique := by simp [State.init]
  stand_log := by simp [State.init]
  win_quorum := by simp [State.init]
  win_votes := by simp [State.init]
  win_stand := by simp [State.init]
  led_of_log := by simp [State.init]
  leader_log := by simp [State.init]
  valid_log := fun _ => Valid.nil
  valid_leader := fun _ => Valid.nil
  valid_stand := by simp [State.init]
  valid_vote := by simp [State.init]
  numbered := fun _ => Indexed.nil
  late := by simp [State.init]

namespace LogInv

variable {s : State ι α}

theorem led_of_mem (h : LogInv Q τ num s) {l : List α} (hl : Valid τ s.leaderLog l)
    {e : α} (he : e ∈ l) : s.Led (τ e) :=
  h.led_of_log _ (hl.ne_nil he)

theorem led_pos (h : LogInv Q τ num s) {t : ℤ} (ht : s.Led t) : 0 < t := by
  obtain ⟨w, hw, rfl⟩ := ht
  obtain ⟨d, hd, _, hdt, _⟩ := h.win_stand w hw
  rw [← hdt]
  exact h.stand_pos d hd

theorem win_le (h : LogInv Q τ num s) {w : Win ι} (hw : w ∈ s.wins) :
    w.term ≤ s.term w.node := by
  obtain ⟨d, hd, hdn, hdt, _⟩ := h.win_stand w hw
  rw [← hdn, ← hdt]
  exact h.stand_le d hd

theorem quorum_le (h : LogInv Q τ num s) {w : Win ι} (hw : w ∈ s.wins) {v : ι}
    (hv : v ∈ w.quorum) : w.term ≤ s.term v := by
  obtain ⟨x, hx, hxv, hxt, _⟩ := h.win_votes w hw v hv
  rw [← hxv, ← hxt]
  exact h.vote_le x hx

theorem leaderLog_le (h : LogInv Q τ num s) (t : ℤ) : ∀ e ∈ s.leaderLog t, τ e ≤ t := by
  intro e he
  obtain ⟨w, hw, rfl⟩ := h.led_of_log t (List.ne_nil_of_mem he)
  obtain ⟨d, _, _, _, hold, own, hlog, hown⟩ := h.win_stand w hw
  rw [hlog, List.mem_append] at he
  rcases he with he | he
  · exact le_of_lt (hold e he)
  · exact le_of_eq (hown e he)

theorem numbered_of_valid (h : LogInv Q τ num s) {l : List α}
    (hl : Valid τ s.leaderLog l) : Indexed num 0 l := by
  rcases List.eq_nil_or_concat' l with rfl | ⟨p, e, rfl⟩
  · exact Indexed.nil
  · exact (h.numbered _).restrict hl.last

end LogInv

/-! ### Preservation, one lemma per move -/

section

variable [DecidableEq ι] {s : State ι α}

theorem le_update_term {v : ι} {t : ℤ} (hle : s.term v ≤ t) (u : ι) :
    s.term u ≤ Function.update s.term v t u := by
  rcases eq_or_ne u v with rfl | hne
  · simpa using hle
  · simp [Function.update_of_ne hne]

theorem term_eq_of_update {v u : ι} {t r : ℤ} (hle : s.term v ≤ t) (hr : r ≤ s.term u)
    (h : Function.update s.term v t u = r) : s.term u = r := by
  have := le_update_term hle u
  omega

theorem logInv_adopt {v : ι} {t : ℤ} (h : LogInv Q τ num s) (hle : s.term v ≤ t) :
    LogInv Q τ num (s.adopt v t) where
  __ := h
  term_nonneg u := (h.term_nonneg u).trans (le_update_term hle u)
  vote_le x hx := (h.vote_le x hx).trans (le_update_term hle _)
  stand_le d hd := (h.stand_le d hd).trans (le_update_term hle _)
  stand_log d hd ht hnl := h.stand_log d hd (term_eq_of_update hle (h.stand_le d hd) ht) hnl
  leader_log w hw ht := h.leader_log w hw (term_eq_of_update hle (h.win_le hw) ht)

theorem logInv_grant {v c : ι} {t : ℤ} (h : LogInv Q τ num s) (hle : s.term v ≤ t)
    (hup : ∃ d ∈ s.stands, d.cand = c ∧ d.term = t ∧ UpToDate τ d.log (s.log v)) :
    LogInv Q τ num (s.grant v t c) where
  __ := logInv_adopt h hle
  vote_le := by
    rintro x (_ | ⟨_, hx⟩)
    · simp [State.grant, State.adopt]
    · exact (logInv_adopt h hle).vote_le x hx
  vote_stand := by
    rintro x (_ | ⟨_, hx⟩)
    · exact hup
    · exact h.vote_stand x hx
  win_votes w hw u hu := by
    obtain ⟨x, hx, hrest⟩ := h.win_votes w hw u hu
    exact ⟨x, List.mem_cons_of_mem _ hx, hrest⟩
  valid_vote := by
    rintro x (_ | ⟨_, hx⟩)
    · exact h.valid_log v
    · exact h.valid_vote x hx
  late d hd e he hlt w hw hwt x hx hxt hxc hq := by
    rcases hx with _ | ⟨_, hx⟩
    · -- the new voter would have reached the later term already
      have := h.quorum_le hw hq
      simp only at hxt this
      omega
    · exact h.late d hd e he hlt w hw hwt x hx hxt hxc hq

theorem logInv_stand {c : ι} {t : ℤ} (h : LogInv Q τ num s) (hlt : s.term c < t) :
    LogInv Q τ num (s.stand c t) := by
  have ha := logInv_adopt h hlt.le
  -- nothing was recorded for `c` in term `t` before
  have hnew : ∀ d ∈ s.stands, d.cand = c → d.term ≠ t := by
    rintro d hd rfl rfl
    have := h.stand_le d hd
    omega
  have hnovote : ∀ x ∈ s.votes, x.cand = c → x.term ≠ t := by
    intro x hx hxc hxt
    obtain ⟨d, hd, hdc, hdt, _⟩ := h.vote_stand x hx
    exact hnew d hd (hdc.trans hxc) (hdt.trans hxt)
  refine { ha with
    vote_le := ?_, vote_stand := ?_, stand_le := ?_, stand_pos := ?_,
    stand_unique := ?_, stand_log := ?_, win_votes := ?_, win_stand := ?_,
    valid_stand := ?_, valid_vote := ?_, late := ?_ }
  · rintro x (_ | ⟨_, hx⟩)
    · simp [State.stand, State.adopt]
    · exact ha.vote_le x hx
  · rintro x (_ | ⟨_, hx⟩)
    · exact ⟨_, List.mem_cons_self .., rfl, rfl, UpToDate.refl τ _⟩
    · obtain ⟨d, hd, hrest⟩ := h.vote_stand x hx
      exact ⟨d, List.mem_cons_of_mem _ hd, hrest⟩
  · rintro d (_ | ⟨_, hd⟩)
    · simp [State.stand, State.adopt]
    · exact ha.stand_le d hd
  · rintro d (_ | ⟨_, hd⟩)
    · exact lt_of_le_of_lt (h.term_nonneg c) hlt
    · exact h.stand_pos d hd
  · rintro d (_ | ⟨_, hd⟩) d' (_ | ⟨_, hd'⟩) hc ht
    · rfl
    · exact absurd ht.symm (hnew d' hd' hc.symm)
    · exact absurd ht (hnew d hd hc)
    · exact h.stand_unique d hd d' hd' hc ht
  · rintro d (_ | ⟨_, hd⟩) ht hnl
    · rfl
    · exact ha.stand_log d hd ht hnl
  · intro w hw u hu
    obtain ⟨x, hx, hrest⟩ := h.win_votes w hw u hu
    exact ⟨x, List.mem_cons_of_mem _ hx, hrest⟩
  · intro w hw
    obtain ⟨d, hd, hrest⟩ := h.win_stand w hw
    exact ⟨d, List.mem_cons_of_mem _ hd, hrest⟩
  · rintro d (_ | ⟨_, hd⟩)
    · exact h.valid_log c
    · exact h.valid_stand d hd
  · rintro x (_ | ⟨_, hx⟩)
    · exact h.valid_log c
    · exact h.valid_vote x hx
  · rintro d (_ | ⟨_, hd⟩) e he hde w hw hwt x (_ | ⟨_, hx⟩) hxt hxc hq
    · have := h.quorum_le hw hq
      simp only at hde this
      omega
    · exact hnovote x hx hxc hxt
    · exact hnew d hd hxc.symm hxt.symm
    · exact h.late d hd e he hde w hw hwt x hx hxt hxc hq

theorem logInv_accept {v : ι} {t : ℤ} {src res : List α} (h : LogInv Q τ num s)
    (hu : s.WinsUnique) (hle : s.term v ≤ t)
    (hled : ∃ w ∈ s.wins, w.node ≠ v ∧ w.term = t) (hsrc : Valid τ s.leaderLog src)
    (hmerge : Merge (s.log v) src res) : LogInv Q τ num (s.accept v t res) := by
  have ha := logInv_adopt h hle
  obtain ⟨w₀, hw₀, hne, hw₀t⟩ := hled
  refine { ha with stand_log := ?_, leader_log := ?_, valid_log := ?_ }
  · intro d hd ht hnl
    have hdv : d.cand ≠ v := by
      intro hdv
      have : t = d.term := by simpa [State.accept, State.adopt, hdv] using ht
      exact hnl ⟨w₀, hw₀, hw₀t.trans this⟩
    simpa [State.accept, State.adopt, Function.update_of_ne hdv] using ha.stand_log d hd ht hnl
  · intro w hw ht
    have hwv : w.node ≠ v := by
      intro hwv
      have : t = w.term := by simpa [State.accept, State.adopt, hwv] using ht
      exact hne ((hu w₀ hw₀ w hw (hw₀t.trans this)).trans hwv)
    simpa [State.accept, State.adopt, Function.update_of_ne hwv] using ha.leader_log w hw ht
  · intro u
    rcases eq_or_ne u v with rfl | huv
    · simpa [State.accept, State.adopt] using hmerge.valid (h.valid_log u) hsrc
    · simpa [State.accept, State.adopt, Function.update_of_ne huv] using h.valid_log u

omit [DecidableEq ι] in
theorem logInv_ack {v : ι} {n : ℕ} (h : LogInv Q τ num s) : LogInv Q τ num (s.ack v n) where
  __ := h

omit [DecidableEq ι] in
theorem not_led_of_fresh {z : ι} {A : Finset ι} (hu : (s.win z A).WinsUnique)
    (hfresh : ∀ w ∈ s.wins, w.node = z → w.term ≠ s.term z) : ¬ s.Led (s.term z) := by
  rintro ⟨w, hw, hwt⟩
  have hz : w.node = z :=
    hu w (List.mem_cons_of_mem _ hw) ⟨z, s.term z, A⟩ (List.mem_cons_self ..) hwt
  exact hfresh w hw hz hwt

omit [DecidableEq ι] in
theorem log_lt_of_win {z : ι} {A : Finset ι} (h : LogInv Q τ num s) (hA : Q.isQuorum A)
    (hstand : ∃ d ∈ s.stands, d.cand = z ∧ d.term = s.term z)
    (hvotes : ∀ v ∈ A, ∃ x ∈ s.votes, x.voter = v ∧ x.term = s.term z ∧ x.cand = z)
    (hnl : ¬ s.Led (s.term z)) :
    ∃ d ∈ s.stands, d.cand = z ∧ d.term = s.term z ∧ s.log z = d.log ∧
      ∀ e ∈ d.log, τ e < s.term z := by
  obtain ⟨d, hd, rfl, hdt⟩ := hstand
  have hlog : s.log d.cand = d.log := h.stand_log d hd hdt.symm (hdt ▸ hnl)
  refine ⟨d, hd, rfl, hdt, hlog, ?_⟩
  intro e he
  by_contra hge
  have hled := h.led_of_mem (h.valid_stand d hd) he
  rcases eq_or_lt_of_le (not_lt.mp hge) with heq | hgt
  · rw [← heq] at hled
    exact hnl hled
  · obtain ⟨w, hw, hwt⟩ := hled
    obtain ⟨v, hvA, hvw⟩ := Q.meet A w.quorum hA (h.win_quorum w hw)
    obtain ⟨x, hx, hxv, hxt, hxc⟩ := hvotes v hvA
    refine h.late d hd e he (hdt ▸ hgt) w hw hwt x hx (hxt.trans hdt.symm) hxc ?_
    rw [hxv]
    exact hvw

omit [DecidableEq ι] in
theorem logInv_win {z : ι} {A : Finset ι} (h : LogInv Q τ num s)
    (hu : (s.win z A).WinsUnique) (hA : Q.isQuorum A)
    (hstand : ∃ d ∈ s.stands, d.cand = z ∧ d.term = s.term z)
    (hvotes : ∀ v ∈ A, ∃ x ∈ s.votes, x.voter = v ∧ x.term = s.term z ∧ x.cand = z)
    (hfresh : ∀ w ∈ s.wins, w.node = z → w.term ≠ s.term z) :
    LogInv Q τ num (s.win z A) := by
  have hnl := not_led_of_fresh hu hfresh
  have hnil : s.leaderLog (s.term z) = [] := by
    by_contra hne
    exact hnl (h.led_of_log _ hne)
  have hgrow : ∀ t, s.leaderLog t <+: (s.win z A).leaderLog t := by
    intro t
    rcases eq_or_ne t (s.term z) with rfl | hne
    · rw [hnil]
      exact List.nil_prefix
    · simp [State.win, Function.update_of_ne hne]
  have hother : ∀ w ∈ s.wins, w.term ≠ s.term z := fun w hw ht => hnl ⟨w, hw, ht⟩
  obtain ⟨d₀, hd₀, hd₀c, hd₀t, hlog, hold⟩ := log_lt_of_win h hA hstand hvotes hnl
  refine { h with
    stand_log := ?_, win_quorum := ?_, win_votes := ?_, win_stand := ?_,
    led_of_log := ?_, leader_log := ?_, valid_log := ?_, valid_leader := ?_,
    valid_stand := ?_, valid_vote := ?_, numbered := ?_, late := ?_ }
  · intro d hd ht hnl'
    exact h.stand_log d hd ht fun ⟨w, hw, hwt⟩ => hnl' ⟨w, List.mem_cons_of_mem _ hw, hwt⟩
  · rintro w (_ | ⟨_, hw⟩)
    · exact hA
    · exact h.win_quorum w hw
  · rintro w (_ | ⟨_, hw⟩) v hv
    · exact hvotes v hv
    · exact h.win_votes w hw v hv
  · rintro w (_ | ⟨_, hw⟩)
    · exact ⟨d₀, hd₀, hd₀c, hd₀t, hold, [], by simp [State.win, hlog], by simp⟩
    · have hne := hother w hw
      obtain ⟨d, hd, hdc, hdt, hlt, own, hl, hown⟩ := h.win_stand w hw
      exact ⟨d, hd, hdc, hdt, hlt, own, by
        simpa [State.win, Function.update_of_ne hne] using hl, hown⟩
  · intro t ht
    rcases eq_or_ne t (s.term z) with rfl | hne
    · exact ⟨_, List.mem_cons_self .., rfl⟩
    · have ht' : s.leaderLog t ≠ [] := by
        simpa [State.win, Function.update_of_ne hne] using ht
      obtain ⟨w, hw, hwt⟩ := h.led_of_log t ht'
      exact ⟨w, List.mem_cons_of_mem _ hw, hwt⟩
  · rintro w (_ | ⟨_, hw⟩) ht
    · simp [State.win]
    · simpa [State.win, Function.update_of_ne (hother w hw)] using h.leader_log w hw ht
  · exact fun v => (h.valid_log v).mono hgrow
  · intro t
    rcases eq_or_ne t (s.term z) with rfl | hne
    · simpa [State.win] using (h.valid_log z).mono hgrow
    · simpa [State.win, Function.update_of_ne hne] using (h.valid_leader t).mono hgrow
  · exact fun d hd => (h.valid_stand d hd).mono hgrow
  · exact fun x hx => (h.valid_vote x hx).mono hgrow
  · intro t
    rcases eq_or_ne t (s.term z) with rfl | hne
    · simpa [State.win] using h.numbered_of_valid (h.valid_log z)
    · simpa [State.win, Function.update_of_ne hne] using h.numbered t
  · rintro d hd e he hde w (_ | ⟨_, hw⟩) hwt x hx hxt hxc hq
    · -- a log that knows the new term would already have had its leader
      have hled := h.led_of_mem (h.valid_stand d hd) he
      rw [← hwt] at hled
      exact hnl hled
    · exact h.late d hd e he hde w hw hwt x hx hxt hxc hq

theorem logInv_propose {z : ι} {e : α} (h : LogInv Q τ num s) (hu : s.WinsUnique)
    (hlead : ∃ w ∈ s.wins, w.node = z ∧ w.term = s.term z) (hτ : τ e = s.term z)
    (hnum : num e = (s.log z).length + 1) : LogInv Q τ num (s.propose z e) := by
  obtain ⟨w₀, hw₀, rfl, hw₀t⟩ := hlead
  have hown : s.log w₀.node = s.leaderLog (s.term w₀.node) :=
    hw₀t ▸ h.leader_log w₀ hw₀ hw₀t.symm
  have hgrow : ∀ t, s.leaderLog t <+: (s.propose w₀.node e).leaderLog t := by
    intro t
    rcases eq_or_ne t (s.term w₀.node) with rfl | hne
    · simp [State.propose, ← hown]
    · simp [State.propose, Function.update_of_ne hne]
  have hself : s.log w₀.node ++ [e] <+: (s.propose w₀.node e).leaderLog (τ e) := by
    simp [State.propose, hτ]
  have hvalid : Valid τ (s.propose w₀.node e).leaderLog (s.log w₀.node ++ [e]) :=
    ((h.valid_log w₀.node).mono hgrow).concat hself
  refine { h with
    stand_log := ?_, win_stand := ?_, led_of_log := ?_, leader_log := ?_,
    valid_log := ?_, valid_leader := ?_, valid_stand := ?_, valid_vote := ?_,
    numbered := ?_ }
  · intro d hd ht hnl
    have hne : d.cand ≠ w₀.node := by
      intro heq
      have ht' : s.term d.cand = d.term := ht
      exact hnl ⟨w₀, hw₀, by rw [hw₀t, ← heq, ht']⟩
    simpa [State.propose, Function.update_of_ne hne] using h.stand_log d hd ht hnl
  · intro w hw
    obtain ⟨d, hd, hdc, hdt, hlt, own, hl, hall⟩ := h.win_stand w hw
    rcases eq_or_ne w.term (s.term w₀.node) with heq | hne
    · refine ⟨d, hd, hdc, hdt, hlt, own ++ [e], ?_, ?_⟩
      · simp only [State.propose, heq, Function.update_self]
        rw [hown, ← heq, hl, List.append_assoc]
      · intro x hx
        rw [List.mem_append, List.mem_singleton] at hx
        rcases hx with hx | rfl
        · exact hall x hx
        · rw [hτ, heq]
    · exact ⟨d, hd, hdc, hdt, hlt, own, by
        simpa [State.propose, Function.update_of_ne hne] using hl, hall⟩
  · intro t ht
    rcases eq_or_ne t (s.term w₀.node) with rfl | hne
    · exact ⟨w₀, hw₀, hw₀t⟩
    · exact h.led_of_log t (by simpa [State.propose, Function.update_of_ne hne] using ht)
  · intro w hw ht
    have ht' : s.term w.node = w.term := ht
    rcases eq_or_ne w.term (s.term w₀.node) with heq | hne
    · have hnode : w.node = w₀.node := hu w hw w₀ hw₀ (heq.trans hw₀t.symm)
      simp [State.propose, hnode, heq]
    · have hnode : w.node ≠ w₀.node := fun hn => hne (by rw [← ht', hn])
      simpa [State.propose, Function.update_of_ne hne, Function.update_of_ne hnode] using
        h.leader_log w hw ht'
  · intro v
    rcases eq_or_ne v w₀.node with rfl | hne
    · simpa [State.propose] using hvalid
    · simpa [State.propose, Function.update_of_ne hne] using (h.valid_log v).mono hgrow
  · intro t
    rcases eq_or_ne t (s.term w₀.node) with rfl | hne
    · simpa [State.propose] using hvalid
    · simpa [State.propose, Function.update_of_ne hne] using (h.valid_leader t).mono hgrow
  · exact fun d hd => (h.valid_stand d hd).mono hgrow
  · exact fun x hx => (h.valid_vote x hx).mono hgrow
  · intro t
    rcases eq_or_ne t (s.term w₀.node) with rfl | hne
    · simpa [State.propose] using (h.numbered_of_valid (h.valid_log w₀.node)).concat
        (by simpa using hnum)
    · simpa [State.propose, Function.update_of_ne hne] using h.numbered t

/-! ### Whole runs -/

variable {strict : Prop} {s' : State ι α}

theorem Step.wins_subset (h : Step Q τ num strict s s') : s.wins ⊆ s'.wins := by
  cases h <;> simp [State.adopt, State.stand, State.grant, State.win, State.propose,
    State.accept, State.ack]

theorem Step.votes_subset (h : Step Q τ num strict s s') : s.votes ⊆ s'.votes := by
  cases h <;> simp [State.adopt, State.stand, State.grant, State.win, State.propose,
    State.accept, State.ack]

theorem Moves.wins_subset (h : Moves Q τ num strict s s') : s.wins ⊆ s'.wins := by
  induction h with
  | refl => exact List.Subset.refl _
  | tail _ hstep ih => exact List.Subset.trans ih hstep.wins_subset

omit [DecidableEq ι] in
theorem State.WinsUnique.anti (hu : s'.WinsUnique) (h : s.wins ⊆ s'.wins) : s.WinsUnique :=
  fun w hw w' hw' => hu w (h hw) w' (h hw')

omit [DecidableEq ι] in
theorem State.VotesUnique.anti (hu : s'.VotesUnique) (h : s.votes ⊆ s'.votes) :
    s.VotesUnique :=
  fun x hx y hy => hu x (h hx) y (h hy)

theorem LogInv.step (h : LogInv Q τ num s) (hs : Step Q τ num strict s s')
    (hu : s'.WinsUnique) : LogInv Q τ num s' := by
  have hu₀ := hu.anti hs.wins_subset
  cases hs with
  | adopt v t hle => exact logInv_adopt h hle
  | stand c t hlt => exact logInv_stand h hlt
  | grant v t c hle hup => exact logInv_grant h hle hup
  | win z A hA hstand hvotes hfresh => exact logInv_win h hu hA hstand hvotes hfresh
  | propose z e hlead hτ hnum => exact logInv_propose h hu₀ hlead hτ hnum
  | accept v t src res hle hled hsrc _ hmerge =>
    exact logInv_accept h hu₀ hle hled hsrc hmerge
  | ack v n hled hn hlog => exact logInv_ack h

theorem LogInv.moves (h : LogInv Q τ num s) (hs : Moves Q τ num strict s s')
    (hu : s'.WinsUnique) : LogInv Q τ num s' := by
  induction hs with
  | refl => exact h
  | tail _ hstep ih => exact (ih (hu.anti hstep.wins_subset)).step hstep hu

theorem winsUnique_step (h : LogInv Q τ num s) (hu : s.WinsUnique)
    (hs : Step Q τ num strict s s') (hv : s'.VotesUnique) : s'.WinsUnique := by
  cases hs with
  | win z A hA hstand hvotes hfresh =>
    -- an older winner of this term shares a voter with the new one
    have key : ∀ w ∈ s.wins, w.term = s.term z → w.node = z := by
      intro w hw hwt
      obtain ⟨v, hvA, hvw⟩ := Q.meet A w.quorum hA (h.win_quorum w hw)
      obtain ⟨x, hx, hxv, hxt, hxc⟩ := hvotes v hvA
      obtain ⟨y, hy, hyv, hyt, hyc⟩ := h.win_votes w hw v hvw
      rw [← hyc, ← hxc]
      exact hv y hy x hx (hyv.trans hxv.symm) (by rw [hyt, hxt, hwt])
    rintro w (_ | ⟨_, hw⟩) w' (_ | ⟨_, hw'⟩) ht
    · rfl
    · exact (key w' hw' ht.symm).symm
    · exact key w hw ht
    · exact hu w hw w' hw' ht
  | adopt | stand | grant | propose | accept | ack => exact hu

theorem winsUnique_moves (h : LogInv Q τ num s) (hu : s.WinsUnique)
    (hs : Moves Q τ num strict s s') (hv : s'.VotesUnique) : s'.WinsUnique := by
  induction hs with
  | refl => exact hu
  | tail hrun hstep ih =>
    have hu₁ := ih (hv.anti hstep.votes_subset)
    exact winsUnique_step (h.moves hrun hu₁) hu₁ hstep hv

/-! ### Leaders acknowledge their own log -/

/-- `z` wins its term and acknowledges the log it won with. -/
def State.lead (s : State ι α) (z : ι) (A : Finset ι) : State ι α :=
  (s.win z A).ack z (s.log z).length

/-- The leader `z` appends `e` and acknowledges it. -/
def State.extend (s : State ι α) (z : ι) (e : α) : State ι α :=
  (s.propose z e).ack z ((s.log z).length + 1)

theorem moves_lead {z : ι} {A : Finset ι} (hA : Q.isQuorum A)
    (hstand : ∃ d ∈ s.stands, d.cand = z ∧ d.term = s.term z)
    (hvotes : ∀ v ∈ A, s.Voted v (s.term z) z) (hfresh : ¬ s.Won z (s.term z)) :
    Moves Q τ num strict s (s.lead z A) := by
  have hwin : Step Q τ num strict s (s.win z A) :=
    .win z A hA hstand hvotes fun w hw hz ht => hfresh ⟨w, hw, hz, ht⟩
  have hlog : (s.win z A).leaderLog ((s.win z A).term z) = s.log z := by simp [State.win]
  have hack : Step Q τ num strict (s.win z A) (s.lead z A) := by
    refine .ack z _ ⟨_, List.mem_cons_self .., rfl⟩ (by rw [hlog]) ?_
    rw [hlog, List.take_length]
    exact List.prefix_refl _
  exact (Relation.ReflTransGen.single hwin).tail hack

theorem moves_extend {z : ι} {e : α} (hlead : s.Won z (s.term z)) (hτ : τ e = s.term z)
    (hnum : num e = (s.log z).length + 1) : Moves Q τ num strict s (s.extend z e) := by
  have hprop : Step Q τ num strict s (s.propose z e) := .propose z e hlead hτ hnum
  have hlog : (s.propose z e).leaderLog ((s.propose z e).term z) = s.log z ++ [e] := by
    simp [State.propose]
  have hack : Step Q τ num strict (s.propose z e) (s.extend z e) := by
    obtain ⟨w, hw, _, hwt⟩ := hlead
    refine .ack z _ ⟨w, hw, hwt⟩ (by rw [hlog]; simp) ?_
    rw [hlog, List.take_of_length_le (by simp)]
    simp [State.propose]
  exact (Relation.ReflTransGen.single hprop).tail hack

/-- Every winner has acknowledged all of its leader log. -/
def State.SelfAcked (s : State ι α) : Prop :=
  ∀ w ∈ s.wins, s.Acked w.node w.term (s.leaderLog w.term).length

omit [DecidableEq ι] in
theorem State.SelfAcked.keep (h : s.SelfAcked) (hwins : s'.wins = s.wins)
    (hlogs : s'.leaderLog = s.leaderLog) (hacks : s.acks ⊆ s'.acks) : s'.SelfAcked := by
  intro w hw
  obtain ⟨a, ha, hrest⟩ := h w (hwins ▸ hw)
  exact ⟨a, hacks ha, hlogs ▸ hrest⟩

omit [DecidableEq ι] in
theorem State.SelfAcked.lead (h : s.SelfAcked) {z : ι} {A : Finset ι}
    (hu : (s.lead z A).WinsUnique) : (s.lead z A).SelfAcked := by
  have hz : (⟨z, s.term z, A⟩ : Win ι) ∈ (s.lead z A).wins := List.mem_cons_self ..
  intro w hw
  rcases eq_or_ne w.term (s.term z) with heq | hne
  · -- the new leader, its log just recorded
    have hnode : w.node = z := hu w hw _ hz heq
    refine ⟨⟨z, s.term z, (s.log z).length⟩, List.mem_cons_self .., hnode.symm, heq.symm, ?_⟩
    simp [State.lead, State.win, State.ack, heq]
  · rcases List.mem_cons.mp hw with rfl | hw
    · exact absurd rfl hne
    · obtain ⟨a, ha, han, hat, hlen⟩ := h w hw
      refine ⟨a, List.mem_cons_of_mem _ ha, han, hat, ?_⟩
      simpa [State.lead, State.win, State.ack, Function.update_of_ne hne] using hlen

theorem State.SelfAcked.extend (h : s.SelfAcked) (hu : s.WinsUnique) {z : ι} {e : α}
    (hlead : s.Won z (s.term z)) : (s.extend z e).SelfAcked := by
  obtain ⟨wz, hwz, hwzn, hwzt⟩ := hlead
  intro w hw
  rcases eq_or_ne w.term (s.term z) with heq | hne
  · have hnode : w.node = z := (hu w hw wz hwz (heq.trans hwzt.symm)).trans hwzn
    refine ⟨⟨z, s.term z, (s.log z).length + 1⟩, List.mem_cons_self .., hnode.symm, heq.symm, ?_⟩
    simp [State.extend, State.propose, State.ack, heq]
  · obtain ⟨a, ha, han, hat, hlen⟩ := h w hw
    refine ⟨a, List.mem_cons_of_mem _ ha, han, hat, ?_⟩
    simpa [State.extend, State.propose, State.ack, Function.update_of_ne hne] using hlen

end

end Consensus
