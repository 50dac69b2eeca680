/-
CoreX/Raft/Frontier.lean

Who knows how far the cluster has committed.  An entry is committed by the leader
of its own term, or later together with an entry of a later leader.  So whatever
commit index a node has, the leader of the last entry's term has it too, as long
as it leads, unless a later term has a leader already (`Heard`).

For a leader that holds nothing but entries of its own term above its commit index this
means that it knows of every commit, or that it has been overtaken
(`Knows.le_or_overtaken`).
-/
import CoreX.Raft.Commit
import CoreX.Raft.Leadership

namespace Raft

open Consensus StepSystem TermLog

/-! ### Commit indices and the leaders that know them -/

/-- Each of the first entries of a log, `p`, is known to be committed by the leader of its
term, while it leads, or a later term has a leader. -/
structure Heard (C : Cluster) (w : World) (s : Abs) (p : List LogEntry) : Prop where
  led : ∀ e ∈ p, s.Led e.term
  known : ∀ (i : Nat) (e : LogEntry), p[i]? = some e →
    (∀ b, Leads C w b e.term → (i : Int) + 1 ≤ (w b).raft.commitIndex) ∨
      ∃ y ∈ s.wins, e.term < y.term

theorem heard_knowledge (C : Cluster) (w : World) (s : Abs) : Knowledge (Heard C w s) where
  nil := ⟨by simp, by simp⟩
  restrict p q hq hp := by
    refine ⟨fun e he => hp.led e (hq.subset he), fun i e he => hp.known i e ?_⟩
    rw [getElem?_of_prefix_of_lt hq (List.getElem?_eq_some_iff.mp he).1]
    exact he

/-- The leader `n` holds nothing above its commit index but entries of its own term. -/
def RaftNode.ownAbove (n : RaftNode) : Bool :=
  decide (n.snapshotIndex ≤ n.commitIndex) &&
    n.log.all fun e => decide (e.index ≤ n.commitIndex ∨ e.term = n.currentTerm)

section

variable {C : Cluster} {K : List LogEntry → Prop} {w w' : World} {past : Past} {s s' : Abs}
variable {a : Addr} {act : Act}

theorem Knows.le_or_overtaken {u : Prop} {b c : Int} {l : List LogEntry}
    (h : Knows C (Heard C w s) s u b l c) (hcom : Committed C K (w, past) s) (ha : a ∈ C.members)
    (hrole : (w a).raft.role = .leader) (hown : (w a).raft.ownAbove = true) :
    c ≤ (w a).raft.commitIndex ∨ ∃ y ∈ s.wins, (w a).raft.currentTerm < y.term := by
  have hi := hcom.tracks.inv
  have hcov : (w a).raft.Covers (past a) := (hcom.tracks.sim.node a).covers
  obtain ⟨v, hv, hvn, hvt⟩ := (hcom.tracks.sim.node a).leader hrole
  simp only [RaftNode.ownAbove, Bool.and_eq_true, decide_eq_true_eq, List.all_eq_true] at hown
  by_contra hnot
  rw [not_or, Int.not_le] at hnot
  obtain ⟨hlt, hlast⟩ := hnot
  have hlen := hcov.length
  -- what is committed is in the leader's history
  obtain ⟨T, P, hP, hcommon, _⟩ := h.justified.resolve_left (by omega)
  have hT : T ≤ (w a).raft.currentTerm := by
    obtain ⟨y, hy, rfl⟩ := hcom.acks.chosen_led hP
    by_contra hgt
    exact hlast ⟨y, hy, Int.not_le.mp hgt⟩
  have hPa : P <+: past a ++ (w a).raft.log := by
    rw [← hcom.tracks.sim.leaderLog_eq hi hrole]
    exact hcom.acks.chosen_le hi hP hT ⟨v, hv, hvt⟩
  obtain ⟨x, hxP, hxl⟩ := hcommon.getElem? (i := (c - 1).toNat) (by omega)
  have hxa : (past a ++ (w a).raft.log)[(c - 1).toNat]? = some x := by
    rw [getElem?_of_prefix_of_lt hPa (List.getElem?_eq_some_iff.mp hxP).1]
    exact hxP
  -- the last entry of it lies above the commit index, so it is the leader's own
  have hindex : x.index = c := by
    have := hcov.indexed _ x hxa
    omega
  have hterm : x.term = (w a).raft.currentTerm := by
    rw [List.getElem?_append_right (by omega)] at hxa
    refine (hown.2 x (List.mem_of_getElem? hxa)).resolve_left ?_
    omega
  have htake : (l.take c.toNat)[(c - 1).toNat]? = some x := by
    rw [List.getElem?_take_of_lt (by omega)]
    exact hxl
  rcases h.known.known _ x htake with hknown | ⟨y, hy, hlater⟩
  · have := hknown a ⟨ha, hrole, hterm.symm⟩
    omega
  · exact hlast ⟨y, hy, hterm ▸ hlater⟩

theorem Heard.carry {p : List LogEntry} (h : Heard C w s p) (hg : Grows s s')
    (ht' : Tracks C True (w', past) s')
    (hleads : ∀ b t, Leads C w' b t →
      Leads C w b t ∧ (w b).raft.commitIndex ≤ (w' b).raft.commitIndex ∨ ¬ s.Won b t) :
    Heard C w' s' p := by
  refine ⟨fun e he => ?_, fun i e he => ?_⟩
  · obtain ⟨y, hy, hyt⟩ := h.led e he
    exact ⟨y, hg.wins hy, hyt⟩
  · rcases h.known i e he with hknown | ⟨y, hy, hlater⟩
    · left
      intro b hb
      rcases hleads b e.term hb with ⟨hold, hle⟩ | hnew
      · exact (hknown b hold).trans hle
      · -- the term had its leader already, and that is `b`
        exfalso
        obtain ⟨y, hy, hyt⟩ := h.led e (List.mem_of_getElem? he)
        obtain ⟨z, hz, hzb, hzt⟩ := (ht'.sim.node b).leader hb.2.1
        have hsame := ht'.unique y (hg.wins hy) z hz (by rw [hyt, hzt]; exact hb.2.2.symm)
        exact hnew ⟨y, hy, hsame ▸ hzb, hyt⟩
    · exact .inr ⟨y, hg.wins hy, hlater⟩

theorem Committed.heard [Codec] {x' : Node} (h : Committed C K (w, past) s) (hg : Grows s s')
    (ht' : Tracks C True (Function.update w a x', past.follow C w (a, act)) s')
    (hs : Node.Section (w a) act x') (hact : act.counts = true)
    (hlt : (w a).raft.commitIndex < x'.raft.commitIndex) :
    Heard C (Function.update w a x') s'
      ((historyOf (w, past) a).take x'.raft.commitIndex.toNat) := by
  have hi := h.tracks.inv
  have hcov : (w a).raft.Covers (past a) := (h.tracks.sim.node a).covers
  have hvalid := h.tracks.valid a
  rcases hs.recommit with heq | ⟨term, cfg, _, hl, _, _, hadv⟩ | ⟨c, args, f, rfl, _⟩
    | ⟨i, t, data, _, hev, _⟩ | ⟨rfl, _⟩
  · omega
  · obtain ⟨_, y, hy, hyt, _⟩ := hadv.resolve_left (by omega)
    obtain ⟨_, hget⟩ := hcov.getElem?_of_entryAt hy
    obtain ⟨z, hz, hzn, hzt⟩ : s.Won a term := by
      have hloop := (h.tracks.sim.node a).loop
      rcases hl with ⟨hl, _⟩ | ⟨r, hl, rfl⟩ <;>
        rw [show ((w, past).1 a).loop = _ from hl] at hloop <;> exact hloop
    refine ⟨fun e he => ?_, fun i e he => ?_⟩
    · obtain ⟨v, hv, hvt⟩ := hi.led_of_mem hvalid (List.mem_of_mem_take he)
      exact ⟨v, hg.wins hv, hvt⟩
    · have hilt : i < x'.raft.commitIndex.toNat := by
        have := (List.getElem?_eq_some_iff.mp he).1
        rw [List.length_take] at this
        omega
      rw [List.getElem?_take_of_lt hilt] at he
      -- the entries up to the new index are of the leader's term, or older
      have hterm : e.term ≤ term := by
        obtain ⟨hk, rfl⟩ := List.getElem?_eq_some_iff.mp he
        obtain ⟨hk', hyk⟩ := List.getElem?_eq_some_iff.mp hget
        rcases Nat.lt_or_ge i (x'.raft.commitIndex - 1).toNat with hlt' | hge
        · rw [← hyt, ← hyk]
          exact List.pairwise_iff_getElem.mp (hvalid.pairwise hi.leaderLog_le) _ _ hk hk' hlt'
        · obtain rfl : i = (x'.raft.commitIndex - 1).toNat := by omega
          rw [← hyt, ← hyk]
          exact le_rfl
      rcases Int.lt_or_eq_of_le hterm with hold | hown
      · exact .inr ⟨z, hg.wins hz, hzt ▸ hold⟩
      · left
        intro b hb
        obtain ⟨z', hz', hzb, hzt'⟩ := (ht'.sim.node b).leader hb.2.1
        have hsame := ht'.unique z (hg.wins hz) z' hz'
          (by rw [hzt, hzt', ← hown]; exact hb.2.2.symm)
        obtain rfl : b = a := by rw [← hzb, ← hzn, hsame]
        rw [Function.update_self]
        omega
  · cases hact
  · cases act with
    | build | ackResult => cases hev
    | _ => cases hact
  · cases hact

end

/-! ### What the sections do to the traffic -/

namespace Node.Section

variable [Codec] {x x' : Node} {act : Act}

theorem calls_le (h : Section x act x') : x.calls ≤ x'.calls := by
  cases h with
  | openCampaign | build | confirm | transferStart => exact Nat.le_succ _
  | _ => exact le_rfl

theorem replied_term (h : Section x act x') {c : Call} {res : AppendEntriesResult}
    (hc : (c, Response.append res) ∈ x'.replies) :
    (c, Response.append res) ∈ x.replies ∨ (∃ f, act = .deliver c f) ∧
      res.term = x'.raft.currentTerm := by
  refine (h.replied hc).imp_right ?_
  rintro ⟨args, f, hact, _, hr, rfl⟩
  refine ⟨⟨f, hact⟩, ?_⟩
  rw [hr]
  rcases RaftNode.handleAppendEntries_cases x.raft args f with ⟨_, heq⟩ | ⟨_, honly, ht⟩
  · rw [heq]
  · rw [ht, honly.currentTerm]

end Node.Section

/-! ### The frontier -/

/-- The cluster and who knows what of it. -/
structure Frontier (C : Cluster) (x : World × Past) (s : Abs) : Prop where
  committed : Committed C (Heard C x.1 s) x s
  /-- Nobody stands in a term it has won. -/
  fresh : ∀ a t, (x.1 a).loop.standTerm = some t → ¬ s.Won a t
  calls : ∀ a, ∀ c ∈ (x.1 a).sent, c.id < (x.1 a).calls
  asked : ∀ a c res, (c, .append res) ∈ (x.1 a).replies → c ∈ (x.1 c.src).sent

section

variable {C : Cluster} {w w' : World} {past : Past} {s s' : Abs} {a : Addr} {act : Act} {x' : Node}

theorem won_of_newWins (hwins : NewWins C w' s s') {b : Addr} {t : Int} (h : s'.Won b t) :
    s.Won b t ∨ Leads C w' b t := by
  obtain ⟨y, hy, rfl, rfl⟩ := h
  exact (hwins y hy).imp (fun hold => ⟨y, hold, rfl, rfl⟩) id

theorem Frontier.leads [Codec] (h : Frontier C (w, past) s) (hs : Node.Section (w a) act x')
    (hle : act ≠ .restart → (w a).raft.commitIndex ≤ x'.raft.commitIndex) (b : Addr) (t : Int)
    (hb : Leads C (Function.update w a x') b t) :
    Leads C w b t ∧ (w b).raft.commitIndex ≤ (Function.update w a x' b).raft.commitIndex ∨
      ¬ s.Won b t := by
  obtain ⟨hb, hrole, rfl⟩ := hb
  rcases eq_or_ne b a with rfl | hne
  · rw [Function.update_self] at hrole ⊢
    rcases hs.leads hrole with ⟨hold, hterm⟩ | ⟨hstand, _⟩
    · refine .inl ⟨⟨hb, hold, hterm.symm⟩, hle ?_⟩
      rintro rfl
      cases hs
      cases (RaftNode.restart_volatile (w b).raft (w b).boot).1.symm.trans hrole
    · exact .inr (h.fresh b _ hstand)
  · rw [Function.update_of_ne hne] at hrole ⊢
    exact .inl ⟨⟨hb, hrole, rfl⟩, le_rfl⟩

theorem Frontier.stands [Codec] (h : Frontier C (w, past) s) (hs : Node.Section (w a) act x')
    (hwins : NewWins C (Function.update w a x') s s') (b : Addr) (t : Int)
    (hstand : (Function.update w a x' b).loop.standTerm = some t) : ¬ s'.Won b t := by
  have hsim := h.committed.tracks.sim
  have hterm_eq : ∀ b, s.term b = (w b).raft.currentTerm := fun b => (hsim.node b).term
  have hleader : ∀ b, (w b).raft.role = .leader → s.Won b (w b).raft.currentTerm :=
    fun b => (hsim.node b).leader
  intro hwon
  rcases won_of_newWins hwins hwon with hold | ⟨_, hrole, hterm⟩
  · rcases eq_or_ne b a with rfl | hne
    · rw [Function.update_self] at hstand
      rcases hs.stands hstand with hstand' | ⟨hlt, _⟩
      · exact h.fresh b t hstand' hold
      · -- it had not reached that term
        obtain ⟨y, hy, rfl, rfl⟩ := hold
        have hle := h.committed.tracks.inv.win_le hy
        rw [hterm_eq] at hle
        omega
    · rw [Function.update_of_ne hne] at hstand
      exact h.fresh b t hstand hold
  · rcases eq_or_ne b a with rfl | hne
    · rw [Function.update_self] at hstand hrole hterm
      rcases hs.stands hstand with hstand' | ⟨_, hno⟩
      · rcases hs.leads hrole with ⟨hlead, hsame⟩ | ⟨_, hrun, _⟩
        · refine h.fresh b t hstand' ?_
          rw [← hterm, hsame]
          exact hleader b hlead
        · rw [hrun] at hstand
          cases hstand
      · exact hno hrole
    · rw [Function.update_of_ne hne] at hstand hrole hterm
      exact h.fresh b t hstand (hterm ▸ hleader b hrole)

theorem Frontier.step [Codec] (h : Frontier C (w, past) s)
    (hstep : World.step C w (a, act) = some w') (hok : commitTest C (w, past) (a, act) = true)
    (hterm : (w a).raft.currentTerm ≤ (w' a).raft.currentTerm) (hadm : Admissible C True w' s) :
    ∃ s', C.Moves True s s' ∧ NewWins C w' s s' ∧ Frontier C (w', past.follow C w (a, act)) s' ∧
      ∀ p, Heard C w s p → Heard C w' s' p := by
  have hi := h.committed.tracks.inv
  obtain ⟨s', hmoves, ht', hwins, hafter⟩ :=
    h.committed.track (heard_knowledge C w s) hstep hok hterm hadm
  have hg := hmoves.grows hi ht'.unique
  have hle := (hafter (fun _ => True) ⟨trivial, fun _ _ _ _ => trivial⟩ (fun _ _ => trivial)
    fun _ _ => trivial).2
  obtain ⟨_, havail, x', hs, rfl⟩ := World.step_cases hstep
  rw [Function.update_self] at hle hafter
  have hcarry : ∀ p, Heard C w s p → Heard C (Function.update w a x') s' p := fun p hp =>
    hp.carry hg ht' (h.leads hs hle)
  have hcom := (hafter _ (heard_knowledge C _ s') hcarry (h.committed.heard hg ht' hs)).1
  -- an answer is given to a call, and calls are never forgotten
  have hmono : ∀ d, ∀ c ∈ (w d).sent, c ∈ (Function.update w a x' d).sent := by
    intro d c hc
    rcases eq_or_ne d a with rfl | hne
    · rw [Function.update_self]
      exact hs.sent_subset hc
    · rw [Function.update_of_ne hne]
      exact hc
  refine ⟨s', hmoves, hwins, ⟨hcom, h.stands hs hwins, fun b => ?_, fun b c res hc => ?_⟩, hcarry⟩
  · dsimp only
    rcases eq_or_ne b a with rfl | hne
    · rw [Function.update_self]
      intro c hc
      rcases hs.sends hc with hold | ⟨⟨_, hid, hlt⟩, _⟩
      · exact (h.calls b c hold).trans_le hs.calls_le
      · exact hid ▸ hlt
    · rw [Function.update_of_ne hne]
      exact h.calls b
  · dsimp only at hc ⊢
    rcases eq_or_ne b a with rfl | hne
    · rw [Function.update_self] at hc
      rcases hs.replied_term hc with hold | ⟨⟨f, rfl⟩, _⟩
      · exact hmono _ _ (h.asked b c res hold)
      · exact hmono _ _ (by simpa [World.available] using havail)
    · rw [Function.update_of_ne hne] at hc
      exact hmono _ _ (h.asked b c res hc)

theorem World.replied_term [Codec] {e : Addr × Act} (hstep : World.step C w e = some w') {b : Addr}
    {c : Call} {res : AppendEntriesResult} (hc : (c, .append res) ∈ (w' b).replies) :
    (c, .append res) ∈ (w b).replies ∨ res.term = (w' b).raft.currentTerm := by
  obtain ⟨a, act⟩ := e
  obtain ⟨_, _, x', hs, rfl⟩ := World.step_cases hstep
  rcases eq_or_ne b a with rfl | hne
  · rw [Function.update_self] at hc ⊢
    exact (hs.replied_term hc).imp_right And.right
  · rw [Function.update_of_ne hne] at hc
    exact .inl hc

theorem frontier_init [Codec] (C : Cluster) :
    Frontier C (World.init C, fun _ => []) State.init where
  committed := Committed.init C (heard_knowledge _ _ _)
  fresh a t ht := by cases ht
  calls a c hc := by cases hc
  asked a c res hc := by cases hc

end

end Raft
