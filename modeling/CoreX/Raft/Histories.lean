/-
CoreX/Raft/Histories.lean

Log Matching while the membership changes, logs are compacted and nodes restart.
Which quorums elect a leader does not matter here: if no two nodes lead the same
term and no term goes back, every term has one log, that of its leader, and
whatever a node has appended or received is a prefix of such logs (`Histories`).

The record `Past` keeps the entries that a node's snapshot covers.  A history is
what a node would have in its log if nothing had been compacted.  A snapshot that is
received stands for the history, up to its last entry, of any node that has this entry.
What holds of every entry and the history before it when a leader proposes the entry
holds in all histories (`histories_of_visits`).
-/
import CoreX.Raft.Leadership
import CoreX.Raft.LogMatching
import CoreX.Raft.Past

namespace Raft

open StepSystem TermLog

/-! ### Who has led which term -/

/-- What is known about terms and leaders after the states `ws`. -/
structure Tenures (C : Cluster) (ws : List World) (w : World) : Prop where
  nonneg : ∀ a, 0 ≤ (w a).raft.currentTerm
  standing : ∀ a t, (w a).loop.standTerm = some t → 0 < t
  leading : ∀ a t, Leads C w a t → 0 < t
  bound : ∀ u ∈ ws, ∀ a t, Leads C u a t → t ≤ (w a).raft.currentTerm
  /-- Nobody stands in a term that it has led. -/
  fresh : ∀ u ∈ ws, ∀ a t, Leads C u a t → (w a).loop.standTerm ≠ some t

section

variable [Codec] {C : Cluster} {ws : List World} {w w' : World} {a : Addr} {act : Act}

theorem Tenures.leads (h : Tenures C ws w) (hstep : World.step C w (a, act) = some w') {b : Addr}
    {t : Int} (hl : Leads C w' b t) :
    Leads C w b t ∨ b = a ∧ 0 < t ∧ (w' a).loop = .run ∧ ∀ u ∈ ws, ¬Leads C u b t := by
  obtain ⟨_, _, x', hs, rfl⟩ := World.step_cases hstep
  obtain ⟨hb, hrole, hterm⟩ := hl
  rcases eq_or_ne b a with rfl | hne
  · rw [Function.update_self] at hrole hterm ⊢
    rcases hs.leads hrole with ⟨hold, hsame⟩ | ⟨hstand, hrun, _⟩
    · exact .inl ⟨hb, hold, hsame.symm.trans hterm⟩
    · rw [hterm] at hstand
      exact .inr ⟨rfl, h.standing b t hstand, hrun, fun u hu hled => h.fresh u hu b t hled hstand⟩
  · rw [Function.update_of_ne hne] at hrole hterm
    exact .inl ⟨hb, hrole, hterm⟩

theorem Tenures.step (h : Tenures C ws w) (hw : w ∈ ws)
    (hstep : World.step C w (a, act) = some w') (hkept : termsKept C w (a, act) = true) :
    Tenures C (w' :: ws) w' := by
  have hterm : ∀ b, (w b).raft.currentTerm ≤ (w' b).raft.currentTerm := by
    intro b
    obtain ⟨_, _, x', _, hx⟩ := World.step_cases hstep
    rcases eq_or_ne b a with rfl | hne
    · simpa [termsKept, hstep] using hkept
    · rw [hx, Function.update_of_ne hne]
  have hstands : ∀ b t, (w' b).loop.standTerm = some t →
      (w b).loop.standTerm = some t ∨ (w b).raft.currentTerm < t ∧ (w' b).raft.role ≠ .leader := by
    intro b t ht
    obtain ⟨_, _, x', hs, rfl⟩ := World.step_cases hstep
    rcases eq_or_ne b a with rfl | hne
    · rw [Function.update_self] at ht ⊢
      exact hs.stands ht
    · rw [Function.update_of_ne hne] at ht
      exact .inl ht
  -- a node does not start to stand in a term that it has led
  have hfresh : ∀ u ∈ ws, ∀ b t, Leads C u b t → (w' b).loop.standTerm ≠ some t := by
    intro u hu b t hl hst
    rcases hstands b t hst with hold | ⟨hlt, _⟩
    · exact h.fresh u hu b t hl hold
    · exact absurd (h.bound u hu b t hl) (Int.not_le.mpr hlt)
  refine ⟨fun b => (h.nonneg b).trans (hterm b), fun b t ht => ?_, fun b t hl => ?_,
    List.forall_mem_cons.mpr ⟨fun b t hl => hl.2.2.ge, fun u hu b t hl =>
      (h.bound u hu b t hl).trans (hterm b)⟩,
    List.forall_mem_cons.mpr ⟨fun b t hl hst => ?_, hfresh⟩⟩
  · rcases hstands b t ht with hold | ⟨hlt, _⟩
    · exact h.standing b t hold
    · exact (h.nonneg b).trans_lt hlt
  · rcases h.leads hstep hl with hold | ⟨_, hpos, _⟩
    · exact h.leading b t hold
    · exact hpos
  · rcases h.leads hstep hl with hold | ⟨rfl, _, hrun, _⟩
    · exact hfresh w hw b t hold hst
    · rw [hrun] at hst
      cases hst

end

/-! ### The logs of the terms -/

/-- An entry is numbered in its place, has a term, and stands in the relation `R` to
what precedes it. -/
def Placed (R : List LogEntry → LogEntry → Prop) (p : List LogEntry) (e : LogEntry) : Prop :=
  e.index = p.length + 1 ∧ 0 < e.term ∧ R p e

theorem indexed_of_linked {R : List LogEntry → LogEntry → Prop} {l : List LogEntry}
    (h : Linked (Placed R) l) : Indexed LogEntry.index 0 l := by
  intro i e he
  have hlt := (List.getElem?_eq_some_iff.mp he).1
  have hpre : l.take i ++ [e] <+: l := by
    have htake : l.take (i + 1) = l.take i ++ [e] := by rw [List.take_add_one, he]; rfl
    rw [← htake]
    exact List.take_prefix _ _
  rw [(h _ e hpre).1, List.length_take, Nat.min_eq_left hlt.le]
  omega

theorem pos_of_linked {R : List LogEntry → LogEntry → Prop} {l : List LogEntry}
    (h : Linked (Placed R) l) : ∀ e ∈ l, 0 < e.term := by
  intro e he
  obtain ⟨p, hp⟩ := exists_ends_of_mem he
  exact (h p e hp).2.1

/-- The batches that the node has sent are cut from logs of the terms. -/
def SendsCuts (L : Int → List LogEntry) (x : Node) : Prop :=
  ∀ c ∈ x.sent, ∀ args, c.req = .append args → ∃ src, Valid LogEntry.term L src ∧ Cut src args

/-- **The histories of the nodes** after the states `ws`: the log of each term is `L`. -/
structure Histories (C : Cluster) (R : List LogEntry → LogEntry → Prop) (ws : List World)
    (w : World) (past : Past) (L : Int → List LogEntry) : Prop where
  covers : ∀ a, (w a).raft.Covers (past a)
  valid : ∀ a, Valid LogEntry.term L (past a ++ (w a).raft.log)
  linked : ∀ t, Linked (Placed R) (L t)
  leader : ∀ a t, Leads C w a t → L t = past a ++ (w a).raft.log
  led : ∀ t, L t ≠ [] → ∃ u ∈ ws, ∃ a, Leads C u a t
  sent : ∀ a, SendsCuts L (w a)

/-- The condition on the sections: no term goes back, peers get entries from above the
snapshot, and the tests. -/
def followOk [Codec] (C : Cluster) (x : World × Past) (e : Addr × Act) : Bool :=
  termsKept C x.1 e && sendsAbove (x.1 e.1) e.2 &&
    followTest C x e.1 ((x.1 e.1).recordEvent e.2)

section

variable [Codec] {C : Cluster} {R : List LogEntry → LogEntry → Prop} {ws : List World}
    {w w' : World}
variable {past : Past} {L L' : Int → List LogEntry} {a : Addr} {act : Act} {x' : Node}

theorem Histories.sends (h : Histories C R ws w past L) (hs : Node.Section (w a) act x')
    (hcut : sendsCut (w a) act = true) : SendsCuts L x' := by
  intro c hc args hreq
  rcases hs.sends hc with hc | ⟨_, hsends⟩
  · exact h.sent a c hc args hreq
  · exact ⟨_, h.valid a, (h.covers a).cut_sends hcut (hreq ▸ hsends)⟩

omit [Codec] in
theorem Histories.update (h : Histories C R ws w past L) {p : List LogEntry}
    (hsent : SendsCuts L x')
    (hL : ∀ t, L t <+: L' t) (hlinked : ∀ t, Linked (Placed R) (L' t)) (hc : x'.raft.Covers p)
    (hvalid : Valid LogEntry.term L' (p ++ x'.raft.log))
    (hlead : ∀ t, Leads C (Function.update w a x') a t → L' t = p ++ x'.raft.log)
    (hothers : ∀ b t, b ≠ a → Leads C w b t → L' t = L t)
    (hled : ∀ t, L' t ≠ [] → L t ≠ [] ∨ Leads C (Function.update w a x') a t) :
    Histories C R (Function.update w a x' :: ws) (Function.update w a x')
      (Function.update past a p) L' := by
  refine ⟨fun b => ?_, fun b => ?_, hlinked, fun b t hl => ?_, fun t hne => ?_, fun b => ?_⟩
  · rcases eq_or_ne b a with rfl | hne
    · rwa [Function.update_self, Function.update_self]
    · rw [Function.update_of_ne hne, Function.update_of_ne hne]
      exact h.covers b
  · rcases eq_or_ne b a with rfl | hne
    · rwa [Function.update_self, Function.update_self]
    · rw [Function.update_of_ne hne, Function.update_of_ne hne]
      exact (h.valid b).mono hL
  · rcases eq_or_ne b a with rfl | hne
    · rw [Function.update_self, Function.update_self]
      exact hlead t hl
    · have hl' : Leads C w b t := by
        simpa only [Leads, Function.update_of_ne hne] using hl
      rw [Function.update_of_ne hne, Function.update_of_ne hne, hothers b t hne hl']
      exact h.leader b t hl'
  · rcases hled t hne with hold | hnew
    · obtain ⟨u, hu, b, hb⟩ := h.led t hold
      exact ⟨u, List.mem_cons_of_mem _ hu, b, hb⟩
    · exact ⟨_, List.mem_cons_self .., a, hnew⟩
  · have hold : ∀ {args}, (∃ src, Valid LogEntry.term L src ∧ Cut src args) →
        ∃ src, Valid LogEntry.term L' src ∧ Cut src args :=
      fun ⟨src, hv, hcut⟩ => ⟨src, hv.mono hL, hcut⟩
    rcases eq_or_ne b a with rfl | hne
    · rw [Function.update_self]
      exact fun c hc args hreq => hold (hsent c hc args hreq)
    · rw [Function.update_of_ne hne]
      exact fun c hc args hreq => hold (h.sent b c hc args hreq)

omit [Codec] in
theorem leads_update_self {t : Int} : Leads C (Function.update w a x') a t ↔
    a ∈ C.members ∧ x'.raft.role = .leader ∧ x'.raft.currentTerm = t := by
  simp only [Leads, Function.update_self]

omit [Codec] in
theorem Histories.lead (h : Histories C R ws w past L) {p : List LogEntry} (hw : w ∈ ws)
    (hsent : SendsCuts L x')
    (hu : OneLeaderPerTerm C (Function.update w a x' :: ws)) (hc : x'.raft.Covers p)
    (hsame : p ++ x'.raft.log = past a ++ (w a).raft.log) {t : Int}
    (hl : Leads C (Function.update w a x') a t) (hnever : ∀ u ∈ ws, ¬Leads C u a t) :
    ∃ L', Histories C R (Function.update w a x' :: ws) (Function.update w a x')
      (Function.update past a p) L' := by
  have hnil : L t = [] := by
    by_contra hne
    obtain ⟨u, hum, b, hb⟩ := h.led t hne
    obtain rfl := hu.eq_of_leads (List.mem_cons_of_mem _ hum) (List.mem_cons_self ..) hb hl
    exact hnever u hum hb
  have hL : ∀ s, L s <+: Function.update L t (past a ++ (w a).raft.log) s :=
    prefix_update (by rw [hnil]; exact List.nil_prefix)
  refine ⟨_, h.update hsent hL (fun s => ?_) hc ?_ (fun s hl' => ?_) (fun b s hne hb => ?_)
    fun s hne => ?_⟩
  · rcases eq_or_ne s t with rfl | hst
    · rw [Function.update_self]
      exact (h.valid a).linked h.linked
    · rw [Function.update_of_ne hst]
      exact h.linked s
  · rw [hsame]
    exact (h.valid a).mono hL
  · obtain rfl : s = t := hl'.2.2.symm.trans hl.2.2
    rw [Function.update_self, hsame]
  · rcases eq_or_ne s t with rfl | hst
    · exact absurd (hu.eq_of_leads (List.mem_cons_of_mem _ hw) (List.mem_cons_self ..) hb hl) hne
    · rw [Function.update_of_ne hst]
  · rcases eq_or_ne s t with rfl | hst
    · exact .inr hl
    · rw [Function.update_of_ne hst] at hne
      exact .inl hne

omit [Codec] in
theorem Histories.propose (h : Histories C R ws w past L) {p : List LogEntry} (hw : w ∈ ws)
    (ht : Tenures C ws w) (hsent : SendsCuts L x')
    (hu : OneLeaderPerTerm C ws) (hl : Leads C w a (w a).raft.currentTerm)
    (hl' : Leads C (Function.update w a x') a (w a).raft.currentTerm) (hc : x'.raft.Covers p)
    {type : EntryType} {data : Bytes}
    (hnew : p ++ x'.raft.log = past a ++ (w a).raft.log ++ [(w a).raft.entryOf type data])
    (hR : R (past a ++ (w a).raft.log) ((w a).raft.entryOf type data)) :
    ∃ L', Histories C R (Function.update w a x' :: ws) (Function.update w a x')
      (Function.update past a p) L' := by
  have hlog := h.leader a _ hl
  have hL : ∀ s, L s <+: Function.update L (w a).raft.currentTerm
      (past a ++ (w a).raft.log ++ [(w a).raft.entryOf type data]) s :=
    prefix_update (by rw [hlog]; exact List.prefix_append _ _)
  have hplaced : Placed R (past a ++ (w a).raft.log) ((w a).raft.entryOf type data) := by
    refine ⟨?_, ht.leading a _ hl, hR⟩
    show (w a).raft.lastEntry.1 + 1 = _
    rw [RaftNode.lastEntry_index (h.covers a).contiguous, ← (h.covers a).length, List.length_append]
    rfl
  refine ⟨_, h.update hsent hL (fun s => ?_) hc ?_ (fun s hs' => ?_) (fun b s hne hb => ?_)
    fun s hne => ?_⟩
  · rcases eq_or_ne s (w a).raft.currentTerm with rfl | hst
    · rw [Function.update_self]
      exact ((h.valid a).linked h.linked).concat hplaced
    · rw [Function.update_of_ne hst]
      exact h.linked s
  · rw [hnew]
    refine ((h.valid a).mono hL).concat ?_
    show _ <+: Function.update L _ _ (w a).raft.currentTerm
    rw [Function.update_self]
  · obtain rfl : s = (w a).raft.currentTerm := hs'.2.2.symm.trans hl'.2.2
    rw [Function.update_self, hnew]
  · rcases eq_or_ne s (w a).raft.currentTerm with rfl | hst
    · exact absurd (hu.eq_of_leads hw hw hb hl) hne
    · rw [Function.update_of_ne hst]
  · rcases eq_or_ne s (w a).raft.currentTerm with rfl | hst
    · exact .inr hl'
    · rw [Function.update_of_ne hst] at hne
      exact .inl hne

theorem Histories.receive (h : Histories C R ws w past L) {src : List LogEntry}
    {args : AppendEntriesArgs} {f : Faults}
    (hsent : SendsCuts L x')
    (hsrc : Valid LogEntry.term L src)
    (hmerge : Merge (past a ++ (w a).raft.log) src (past a ++ x'.raft.log))
    (hcov : x'.raft.Covers (past a))
    (hr : x'.raft = ((w a).raft.handleAppendEntries args f).1) :
    Histories C R (Function.update w a x' :: ws) (Function.update w a x')
      (Function.update past a (past a)) L := by
  refine h.update hsent (fun t => List.prefix_rfl) h.linked hcov
    (hmerge.valid (h.valid a) hsrc) (fun t hl => ?_) (fun _ _ _ _ => rfl) fun t hne => .inl hne
  -- only a stale request leaves a leader
  obtain ⟨hmem, hrole, hterm⟩ := leads_update_self.mp hl
  by_cases hstale : args.term < (w a).raft.currentTerm
  · have hsame : x'.raft = (w a).raft := by
      rw [hr, RaftNode.handleAppendEntries, if_pos hstale]
    rw [hsame]
    exact h.leader a t ⟨hmem, hsame ▸ hrole, hsame ▸ hterm⟩
  · rw [hr, RaftNode.role_handleAppendEntries (Int.not_lt.mp hstale)] at hrole
    cases hrole

theorem Histories.same (h : Histories C R ws w past L) {p : List LogEntry} (ht : Tenures C ws w)
    (hw : w ∈ ws) (hstep : World.step C w (a, act) = some (Function.update w a x'))
    (hsent : SendsCuts L x')
    (hu : OneLeaderPerTerm C (Function.update w a x' :: ws)) (hc : x'.raft.Covers p)
    (hsame : p ++ x'.raft.log = past a ++ (w a).raft.log) :
    ∃ L', Histories C R (Function.update w a x' :: ws) (Function.update w a x')
      (Function.update past a p) L' := by
  by_cases hwin : ∃ t, Leads C (Function.update w a x') a t ∧ ¬Leads C w a t
  · obtain ⟨t, hl, hnot⟩ := hwin
    obtain ⟨_, _, _, hnever⟩ := (ht.leads hstep hl).resolve_left hnot
    exact h.lead hw hsent hu hc hsame hl hnever
  · refine ⟨L, h.update hsent (fun t => List.prefix_rfl) h.linked hc (hsame ▸ h.valid a)
      (fun t hl => ?_) (fun _ _ _ _ => rfl) fun t hne => .inl hne⟩
    rw [hsame]
    refine h.leader a t ?_
    by_contra hnot
    exact hwin ⟨t, hl, hnot⟩

theorem Histories.outcome (h : Histories C R ws w past L) (ht : Tenures C ws w) (hw : w ∈ ws)
    (hstep : World.step C w (a, act) = some (Function.update w a x')) {p : List LogEntry}
    (hsent : SendsCuts L x')
    (hu : OneLeaderPerTerm C (Function.update w a x' :: ws))
    (hout : HistoryStep (w a) x' act (past a) p)
    (hR : ∀ type data, (w a).proposal act = some (type, data) → (w a).raft.role = .leader →
      R (past a ++ (w a).raft.log) ((w a).raft.entryOf type data)) :
    ∃ L', Histories C R (Function.update w a x' :: ws) (Function.update w a x')
      (Function.update past a p) L' := by
  obtain ⟨hmem, havail, _⟩ := World.step_cases hstep
  rcases hout with ⟨hc, hsame⟩ | ⟨type, data, hp, hlead, hrole, hterm, hc, hnew⟩ |
      ⟨c, args, f, ⟨g, rfl⟩, hreq, hfit, rfl, hr⟩
  · exact h.same ht hw hstep hsent hu hc hsame
  · exact h.propose hw ht hsent hu.tail ⟨hmem, hlead, rfl⟩
      (leads_update_self.mpr ⟨hmem, hrole.trans hlead, hterm⟩) hc hnew (hR type data hp hlead)
  · refine ⟨L, ?_⟩
    have hc : c ∈ (w c.src).sent := by simpa [World.available] using havail
    obtain ⟨src, hsrc, hcut⟩ := h.sent c.src c hc args hreq
    have hlinked := (h.valid a).linked h.linked
    obtain ⟨hmerge, hcov, _⟩ := (h.covers a).handleAppendEntries_merge f hfit
      (pos_of_linked hlinked) (indexed_of_linked (hsrc.linked h.linked)) hcut
      fun k x y hk hk' => (h.valid a).take_eq hsrc hk hk'
    rw [← hr] at hmerge hcov
    exact h.receive hsent hsrc hmerge hcov hr

theorem Histories.follow (h : Histories C R ws w past L) (ht : Tenures C ws w) (hw : w ∈ ws)
    (hstep : World.step C w (a, act) = some w') (hok : followOk C (w, past) (a, act) = true)
    (hu : OneLeaderPerTerm C (w' :: ws))
    (hR : ∀ type data, (w a).proposal act = some (type, data) → (w a).raft.role = .leader →
      R (past a ++ (w a).raft.log) ((w a).raft.entryOf type data)) :
    ∃ L', Histories C R (w' :: ws) w' (past.follow C w (a, act)) L' := by
  obtain ⟨hpre, htest⟩ := Bool.and_eq_true_iff.mp hok
  obtain ⟨_, habove⟩ := Bool.and_eq_true_iff.mp hpre
  obtain ⟨x', _, _, hx, rfl⟩ := World.step_some hstep
  have hsent := h.sends (Node.step_section hx) (Bool.or_eq_true_iff.mpr (.inr habove))
  rw [follow_eq_update]
  have hfollow := follow_step (h.covers a) hx htest
  generalize past.follow C w (a, act) a = p at hfollow ⊢
  rcases hfollow with ⟨_, hout⟩ | ⟨args, data, b, _, hrole, hb, hr⟩
  · exact h.outcome ht hw hstep hsent hu hout hR
  · -- the node does not lead, and the logs of the terms stay as they are
    have hvalid := (h.valid b).restrict
      (List.take_prefix args.lastIncludedIndex.toNat (historyOf (w, past) b))
    have hlog : x'.raft.log = [] := by rw [hr]; rfl
    have hcov : x'.raft.Covers _ := hr ▸ covers_installDiscard data
      (indexed_of_linked ((h.valid b).linked h.linked)) hb
    refine ⟨L, h.update hsent (fun t => List.prefix_rfl) h.linked hcov ?_ (fun t hl => ?_)
      (fun _ _ _ _ => rfl) fun t hne => .inl hne⟩
    · rw [hlog, List.append_nil]
      exact hvalid
    · obtain ⟨_, hlead, _⟩ := leads_update_self.mp hl
      rw [hr] at hlead
      exact absurd hlead hrole

end

/-! ### Every run -/

/-- All nodes as they are first started, each with its own peers and stores. -/
def Booted [Codec] (w : World) : Prop :=
  ∀ a, ∃ id boot metaStore logStore sm snapshots,
    w a = Node.fresh a id boot metaStore logStore sm snapshots

theorem booted_init [Codec] (C : Cluster) : Booted (World.init C) :=
  fun _ => ⟨_, _, _, _, _, _, rfl⟩

section

variable [Codec] {C : Cluster} {R : List LogEntry → LogEntry → Prop} {w : World}

theorem Booted.tenures (h : Booted w) : Tenures C [w] w := by
  have hfresh : ∀ a, (w a).raft.currentTerm = 0 ∧ (w a).raft.role = .follower ∧
      (w a).loop = .run := by
    intro a
    obtain ⟨id, boot, metaStore, logStore, sm, snapshots, hw⟩ := h a
    rw [hw, Node.raft_fresh]
    exact ⟨by cases metaStore <;> rfl, rfl, rfl⟩
  have hno : ∀ a t, ¬Leads C w a t := by
    intro a t hl
    have hrole := hl.2.1
    rw [(hfresh a).2.1] at hrole
    cases hrole
  refine ⟨fun a => (hfresh a).1.ge, fun a t ht => ?_, fun a t hl => absurd hl (hno a t),
    List.forall_mem_singleton.mpr fun a t hl => absurd hl (hno a t),
    List.forall_mem_singleton.mpr fun a t hl => absurd hl (hno a t)⟩
  rw [(hfresh a).2.2] at ht
  cases ht

theorem Booted.histories (h : Booted w) : Histories C R [w] w (fun _ => []) (fun _ => []) := by
  have hfresh : ∀ a, (w a).raft.log = [] ∧ (w a).raft.snapshotIndex = 0 ∧
      (w a).raft.snapshotTerm = 0 ∧ (w a).raft.role = .follower ∧ (w a).sent = [] := by
    intro a
    obtain ⟨id, boot, metaStore, logStore, sm, snapshots, hw⟩ := h a
    rw [hw, Node.raft_fresh]
    exact ⟨rfl, rfl, rfl, rfl, rfl⟩
  refine ⟨fun a => ?_, fun a => ?_, fun _ => Linked.nil, fun a t hl => ?_, by simp, fun a => ?_⟩
  · obtain ⟨hlog, hsi, hst, _⟩ := hfresh a
    exact ⟨by rw [hlog]; exact Indexed.nil, hsi.symm, hst.symm⟩
  · rw [(hfresh a).1]
    exact Valid.nil
  · have hrole := hl.2.1
    rw [(hfresh a).2.2.2.1] at hrole
    cases hrole
  · intro c hc
    rw [(hfresh a).2.2.2.2] at hc
    cases hc

end

end Raft
