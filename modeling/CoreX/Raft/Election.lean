/-
CoreX/Raft/Election.lean

Election safety: with a static membership, saves that succeed and no crash, no
two nodes ever lead the same term, as long as no step-down on a vote response
takes the node back into a term in which it has voted (`election_safety`).

The votes of a cluster whose nodes each vote once in a term elect one winner in a
term; that is the abstract protocol's `winsUnique_moves`, and `PlainTracks.run` carries
it over to whole runs of the cluster.
-/
import CoreX.Raft.Simulation
import CoreX.Raft.Votes

namespace Raft

open Consensus StepSystem

/-! ### Votes once -/

/-- No member votes twice in a term. -/
def VotesOnce (C : Cluster) (w : World) : Prop := ∀ a ∈ C.members, OneVotePerTerm (w a).votes

instance (C : Cluster) (w : World) : Decidable (VotesOnce C w) :=
  inferInstanceAs (Decidable (∀ a ∈ C.members, OneVotePerTerm (w a).votes))

variable {C : Cluster} {w : World}

theorem votesUnique_of_recorded {s : Abs} (hrec : Recorded C w s) (hv : VotesOnce C w) :
    s.VotesUnique := by
  intro x hx y hy hvoter hterm
  obtain ⟨hmem, hxc, hxv⟩ := hrec x hx
  obtain ⟨_, hyc, hyv⟩ := hrec y hy
  rw [← hvoter] at hyv
  exact C.idOf_inj _ hxc _ hyc (hv _ hmem _ hxv _ hyv hterm)

theorem World.votes_subset [Codec] {w' : World} {e : Addr × Act} (h : World.step C w e = some w')
    (b : Addr) : (w b).votes ⊆ (w' b).votes := by
  obtain ⟨a, act⟩ := e
  obtain ⟨_, _, s', hs, rfl⟩ := World.step_cases h
  rcases eq_or_ne b a with rfl | hne
  · rw [Function.update_self]
    exact hs.ballotChange.votes_subset
  · rw [Function.update_of_ne hne]
    exact List.Subset.refl _

theorem VotesOnce.before [Codec] {w' : World} {e : Addr × Act} (hv : VotesOnce C w')
    (h : World.step C w e = some w') : VotesOnce C w :=
  fun a ha x hx y hy => hv a ha x (World.votes_subset h a hx) y (World.votes_subset h a hy)

theorem VotesOnce.admissible {strict : Prop} {s : Abs} (hv : VotesOnce C w) (hi : C.LogInv s)
    (hu : s.WinsUnique) : Admissible C strict w s :=
  fun _ hmoves hrec _ => winsUnique_moves hi hu hmoves (votesUnique_of_recorded hrec hv)

theorem PlainTracks.run [Codec] {strict : Prop} {ok : World → Addr × Act → Prop} {w' : World}
    {s : Abs} (hok : ∀ w e w', ok w e → World.step C w e = some w' → e.2.plain = true ∧
      (w e.1).raft.currentTerm ≤ (w' e.1).raft.currentTerm ∧
      (strict → buildsAsLeader (w e.1) e.2 = true)) (h : PlainTracks C strict w s)
    (hrun : Runs (World.step C) ok w w') (hv : VotesOnce C w') :
    ∃ s', C.Moves strict s s' ∧ PlainTracks C strict w' s' := by
  revert hv
  refine hrun.invariant (P := fun w' => VotesOnce C w' → ∃ s', C.Moves strict s s' ∧
    PlainTracks C strict w' s') ?_ fun _ => ⟨s, Relation.ReflTransGen.refl, h⟩
  intro u e u' hP hstep hokay hv
  obtain ⟨s₁, hm₁, ht₁⟩ := hP (hv.before hstep)
  obtain ⟨hplain, hterm, hbuild⟩ := hok u e u' hokay hstep
  obtain ⟨s₂, hm₂, ht₂, _⟩ := ht₁.step hstep hplain hterm hbuild
    (hv.admissible ht₁.tracks.inv ht₁.tracks.unique)
  exact ⟨s₂, hm₁.trans hm₂, ht₂⟩

/-! ### Election safety -/

theorem Node.BallotChange.term_le {s : Node} {act : Act} {b : Ballot} {votes : List VoteRecord}
    (h : Node.BallotChange s act b votes) (hdown : stepDownKeepsVote s act)
    (hrestart : act ≠ .restart) : s.raft.currentTerm ≤ b.currentTerm := by
  have hobs : ∀ t fault, s.raft.currentTerm ≤ (s.raft.ballot.observed t fault).currentTerm := by
    intro t fault
    unfold Ballot.observed
    split
    · next hlt => exact hlt.le
    · exact le_rfl
  cases h with
  | keep | aborted => exact le_rfl
  | stood f =>
    show s.raft.currentTerm ≤ s.raft.currentTerm + 1
    omega
  | voteLowered c addr term granted hl ht =>
    simp only [stepDownKeepsVote, hl, decide_eq_true_eq] at hdown
    show s.raft.currentTerm ≤ term
    rcases hdown ht with hlt | ⟨heq, _⟩ <;> omega
  | ackLowered r cfg addr res hl hr ht => exact ht.le
  | observed c f hle => exact hobs _ _
  | granted c args f hreq hle hv => exact hobs _ _
  | reloaded => exact absurd rfl hrestart

/-- The condition of election safety: static sections, saves that succeed, and
step-downs that keep the vote. -/
def electionOk (w : World) (e : Addr × Act) : Bool :=
  e.2.plain && savesSucceed e.2 && stepDownKeepsVote (w e.1) e.2

theorem voteOk_of_electionOk {a : Addr} {act : Act} (hst : Static C w) (havail : w.available a act)
    (hok : electionOk w (a, act)) : voteOk (w a) act := by
  simp only [electionOk, Bool.and_eq_true] at hok
  obtain ⟨⟨_, hsave⟩, hdown⟩ := hok
  cases act with
  | startElection f =>
    have hf : f.saveVote = false := by simpa [savesSucceed] using hsave
    simp [voteOk, RaftNode.saveFails, hf]
  | deliver c f =>
    have hsent : c ∈ (w c.src).sent := by simpa [World.available] using havail
    have hcall := (hst c.src).sent c hsent
    simp only [voteOk]
    split
    · next args hreq =>
      rw [hcall.vote args hreq]
      exact decide_eq_true (C.idOf_ne _ hcall.member)
    · rfl
  | _ => exact hdown

theorem voteInv_of_runs [Codec]
    (hrun : Runs (World.step C) (fun w e => electionOk w e) (World.init C) w) :
    Static C w ∧ ∀ a ∈ C.members, VoteInv (w a).raft.ballot (w a).votes := by
  refine hrun.invariant (P := fun w => Static C w ∧ ∀ a ∈ C.members,
    VoteInv (w a).raft.ballot (w a).votes) ?_ ⟨static_init C, fun a ha =>
      voteInv_fresh a (C.idOf_ne a ha) _ _ _ _ _⟩
  rintro w ⟨a, act⟩ w' ⟨hst, hv⟩ hstep hok
  have hplain : act.plain = true := by
    simp only [electionOk, Bool.and_eq_true] at hok
    exact hok.1.1
  refine ⟨hst.step hstep hplain, ?_⟩
  obtain ⟨ha, havail, s', hs, rfl⟩ := World.step_cases hstep
  intro b hb
  rcases eq_or_ne b a with rfl | hne
  · rw [Function.update_self]
    refine (hv b hb).section hs (voteOk_of_electionOk hst havail hok) ?_
    rintro rfl
    cases hplain
  · rw [Function.update_of_ne hne]
    exact hv b hb

theorem tracks_of_electionOk [Codec] {w e w'} (hok : electionOk w e = true)
    (hstep : World.step C w e = some w') : e.2.plain = true ∧
      (w e.1).raft.currentTerm ≤ (w' e.1).raft.currentTerm ∧
      (False → buildsAsLeader (w e.1) e.2 = true) := by
  simp only [electionOk, Bool.and_eq_true] at hok
  refine ⟨hok.1.1, ?_, False.elim⟩
  obtain ⟨_, _, s', hs, rfl⟩ := World.step_cases hstep
  rw [Function.update_self]
  refine hs.ballotChange.term_le hok.2 fun hr => ?_
  have := hok.1.1
  rw [hr] at this
  cases this

/-- **Election safety.**  Two members that lead the same term, at the same time or
one after the other, are the same member. -/
theorem election_safety [Codec] {C : Cluster} {w₁ w₂ : World} {a b : Addr}
    (h₁ : Runs (World.step C) (fun w e => electionOk w e) (World.init C) w₁)
    (h₂ : Runs (World.step C) (fun w e => electionOk w e) w₁ w₂)
    (ha : (w₁ a).raft.role = .leader) (hb : (w₂ b).raft.role = .leader)
    (ht : (w₁ a).raft.currentTerm = (w₂ b).raft.currentTerm) : a = b := by
  have hv₁ : VotesOnce C w₁ := fun v hv => ((voteInv_of_runs h₁).2 v hv).unique
  have hv₂ : VotesOnce C w₂ := fun v hv => ((voteInv_of_runs (h₁.trans h₂)).2 v hv).unique
  obtain ⟨s₁, _, ht₁⟩ := PlainTracks.run (fun _ _ _ => tracks_of_electionOk)
    (plainTracks_init C False) h₁ hv₁
  obtain ⟨s₂, hm₂, ht₂⟩ := PlainTracks.run (fun _ _ _ => tracks_of_electionOk) ht₁ h₂ hv₂
  -- the first leader's win is still on record
  obtain ⟨x, hx, hxa, hxt⟩ := (ht₁.tracks.sim.node a).leader ha
  obtain ⟨y, hy, hyb, hyt⟩ := (ht₂.tracks.sim.node b).leader hb
  rw [← hxa, ← hyb]
  exact ht₂.tracks.unique x (hm₂.wins_subset hx) y hy (by rw [hxt, hyt, ht])

/-! ### Two leaders in one term -/

section

local instance : Codec := Codec.silent

/-- Three members with a meta store and a log store each. -/
def trio : Cluster where
  members := ["a", "b", "c"]
  nodup := by decide
  idOf a := a
  idOf_inj _ _ _ _ h := h
  idOf_ne := by decide
  peersOf a := ["a", "b", "c"].erase a
  peers_perm _ _ := List.Perm.refl _
  storesOf _ := ⟨true, true, false, none⟩

/-- The three members with all stores, which take a snapshot after every entry. -/
def snapshotTrio : Cluster := { trio with storesOf := fun _ => ⟨true, true, true, some ⟨1, 2⟩⟩ }

/-- `a`, a follower or freshly started, stands for election. -/
def campaign (a : Addr) : List (Addr × Act) :=
  [(a, .dispatch), (a, .timeout), (a, .dispatch), (a, .startElection Faults.none),
    (a, .openCampaign)]

/-- `a` gives up its election and stands in the next term. -/
def recampaign (a : Addr) : List (Addr × Act) := (a, .timeout) :: (campaign a).drop 2

/-- `voter` receives the request that `a` sent with its `call`-th call. -/
def requestVote (a : Addr) (call : Nat) (term : Int) (voter : Addr) : Addr × Act :=
  (voter, .deliver ⟨a, call, voter, .vote ⟨term, a, 0, 0⟩⟩ Faults.none)

/-- `b` receives the request that `a` sent with its `call`-th call. -/
def appendEntries (a : Addr) (call : Nat) (b : Addr) (args : AppendEntriesArgs) : Addr × Act :=
  (b, .deliver ⟨a, call, b, .append args⟩ Faults.none)

/-- The answer of `b` to a batch it has taken. -/
def acked (a : Addr) (term : Int) (b : Addr) : Addr × Act :=
  (a, .ackResult b (some ⟨term, true, 0, 0⟩))

/-- `a` and `c` stand in term 1, `c` in term 2 and answers `a`'s request; `b` stands
in term 2 and gets `a`'s vote.  Now `a` reads the answer of `c`, steps down "to"
term 2 and forgets that it has voted there, and votes for `c`. -/
def twoLeadersRun : List (Addr × Act) :=
  campaign "a" ++ campaign "c" ++ recampaign "c" ++ [requestVote "a" 0 1 "c"] ++
    campaign "b" ++ recampaign "b" ++
    [requestVote "b" 1 2 "a", ("b", .voteResult "a" (some (2, true))),
      ("a", .voteResult "c" (some (2, false))), requestVote "c" 1 2 "a",
      ("c", .voteResult "a" (some (2, true)))]

/-- **A forgotten vote elects two leaders in one term.** -/
theorem two_leaders_in_one_term :
    ∃ w, exec (World.step trio) (fun _ e => e.2.plain && savesSucceed e.2) (World.init trio)
        twoLeadersRun = some w ∧
      (w "b").raft.role = .leader ∧ (w "c").raft.role = .leader ∧
      (w "b").raft.currentTerm = 2 ∧ (w "c").raft.currentTerm = 2 := by
  exact exists_of_any (by decide +kernel)

/-- `a` wins term 1 with the vote of `b`. -/
def electedRun : List (Addr × Act) :=
  campaign "a" ++ [requestVote "a" 0 1 "b", ("a", .voteResult "b" (some (1, true)))]

/-- `c` stands in the same term, is refused, and stands again in the next. -/
def refusedRun : List (Addr × Act) :=
  campaign "c" ++ [requestVote "c" 0 1 "b", ("c", .voteResult "b" (some (1, false)))] ++
    recampaign "c"

theorem election_safety_elected :
    ∃ w₁ w₂, Runs (World.step trio) (fun w e => electionOk w e) (World.init trio) w₁ ∧
      Runs (World.step trio) (fun w e => electionOk w e) w₁ w₂ ∧
      ((w₁ "a").raft.role = .leader ∧ (w₁ "a").raft.currentTerm = 1 ∧
        (w₂ "a").raft.role = .leader ∧ (w₂ "c").raft.currentTerm = 2) ∧
      ∀ b, (w₂ b).raft.role = .leader → (w₂ b).raft.currentTerm = 1 → "a" = b := by
  refine Runs.exists_and_of_execs electedRun refusedRun (by decide +kernel) ?_
  rintro w₁ w₂ h₁ h₂ ⟨hrole, hterm, _⟩ b hb ht
  exact election_safety h₁ h₂ hrole hb (hterm.trans ht.symm)

end

end Raft
