/-
CoreX/Raft/LogMatching.lean

Log Matching: in every run of a static cluster in which a term has at most one
leader and no term goes back, two logs with an entry of the same index and term
are identical up to it, and every log is numbered `1, 2, ...` with terms that do
not decrease (`log_matching`).

The store operations may fail, requests may be built by a node that has been
deposed, and batches may come late, twice and out of order: the abstract protocol
takes any batch that was cut from a valid log.
-/
import CoreX.Raft.Election

namespace Raft

open Consensus StepSystem TermLog

/-- In the given states no two members lead the same term. -/
def OneLeaderPerTerm (C : Cluster) (ws : List World) : Prop :=
  ∀ u ∈ ws, ∀ v ∈ ws, ∀ a ∈ C.members, ∀ b ∈ C.members, (u a).raft.role = .leader →
    (v b).raft.role = .leader → (u a).raft.currentTerm = (v b).raft.currentTerm → a = b

instance (C : Cluster) (ws : List World) : Decidable (OneLeaderPerTerm C ws) :=
  inferInstanceAs (Decidable (∀ u ∈ ws, ∀ v ∈ ws, ∀ a ∈ C.members, ∀ b ∈ C.members,
    (u a).raft.role = .leader → (v b).raft.role = .leader →
      (u a).raft.currentTerm = (v b).raft.currentTerm → a = b))

/-- `f` names the only node that leads a term. -/
def LedBy (C : Cluster) (f : Int → Addr) (ws : List World) : Prop :=
  ∀ u ∈ ws, ∀ a ∈ C.members, (u a).raft.role = .leader → a = f (u a).raft.currentTerm

instance (C : Cluster) (f : Int → Addr) (ws : List World) : Decidable (LedBy C f ws) :=
  inferInstanceAs (Decidable (∀ u ∈ ws, ∀ a ∈ C.members, (u a).raft.role = .leader →
    a = f (u a).raft.currentTerm))

variable {C : Cluster} {ws : List World}

theorem LedBy.oneLeaderPerTerm {f : Int → Addr} (h : LedBy C f ws) : OneLeaderPerTerm C ws := by
  intro u hu v hv a ha b hb hla hlb ht
  calc
    a = f (u a).raft.currentTerm := h u hu a ha hla
    _ = f (v b).raft.currentTerm := congrArg f ht
    _ = b := (h v hv b hb hlb).symm

section

variable {σ α : Type*} {step : σ → α → Option σ} {ok : σ → α → Prop} [∀ s a, Decidable (ok s a)]
variable {s : σ} {C : Cluster} {g : σ → World} {P : σ → Prop} [DecidablePred P]

theorem exists_led (f : Int → Addr) (as : List α) (h : ((trace step ok [] s as).any fun r =>
      decide (LedBy C f ((r.1 :: r.2).map g) ∧ P r.1)) = true) :
    ∃ x us, Visits step ok s (x :: us) ∧ OneLeaderPerTerm C ((x :: us).map g) ∧ P x := by
  obtain ⟨x, us, hrun, hled, hP⟩ := Visits.exists_of_trace
    (P := fun x us => LedBy C f ((x :: us).map g) ∧ P x) as h
  exact ⟨x, us, hrun, hled.oneLeaderPerTerm, hP⟩

theorem exists_and_led {Q : σ → List σ → Prop} (f : Int → Addr) (as : List α)
    (h : ((trace step ok [] s as).any fun r =>
      decide (LedBy C f ((r.1 :: r.2).map g) ∧ P r.1)) = true)
    (hQ : ∀ x us, Visits step ok s (x :: us) → OneLeaderPerTerm C ((x :: us).map g) → P x →
      Q x us) :
    ∃ x us, Visits step ok s (x :: us) ∧ OneLeaderPerTerm C ((x :: us).map g) ∧ P x ∧ Q x us := by
  obtain ⟨x, us, hrun, hu, hP⟩ := exists_led f as h
  exact ⟨x, us, hrun, hu, hP, hQ x us hrun hu hP⟩

end

theorem exists_led_world {α : Type*} {step : World → α → Option World} {ok : World → α → Prop}
    [∀ w a, Decidable (ok w a)] {w₀ : World} {P : World → Prop} [DecidablePred P]
    {Q : World → List World → Prop} (f : Int → Addr) (as : List α)
    (h : ((trace step ok [] w₀ as).any fun r =>
      decide (LedBy C f ((r.1 :: r.2).map id) ∧ P r.1)) = true)
    (hQ : ∀ w us, Visits step ok w₀ (w :: us) → OneLeaderPerTerm C (w :: us) → P w → Q w us) :
    ∃ w us, Visits step ok w₀ (w :: us) ∧ OneLeaderPerTerm C (w :: us) ∧ P w ∧ Q w us := by
  have hled := exists_and_led (Q := Q) f as h fun w us hrun hu hP =>
    hQ w us hrun (by rwa [List.map_id] at hu) hP
  simpa only [List.map_id] using hled

/-- The term of the acting node does not go back; the others' do not change. -/
def termsKept [Codec] (C : Cluster) (w : World) (e : Addr × Act) : Bool :=
  match World.step C w e with
  | none => true
  | some w' => decide ((w e.1).raft.currentTerm ≤ (w' e.1).raft.currentTerm)

theorem OneLeaderPerTerm.eq_of_leads {u v : World} {a b : Addr} {t : Int}
    (hu : OneLeaderPerTerm C ws) (hum : u ∈ ws) (hvm : v ∈ ws) (ha : Leads C u a t)
    (hb : Leads C v b t) : a = b :=
  hu u hum v hvm a ha.1 b hb.1 ha.2.1 hb.2.1 (ha.2.2.trans hb.2.2.symm)

/-- The winners of the abstract protocol are leaders that the run has visited. -/
def Seen (C : Cluster) (ws : List World) (s : Abs) : Prop :=
  ∀ x ∈ s.wins, ∃ u ∈ ws, Leads C u x.node x.term

theorem Seen.next {s s' : Abs} {v : World} (h : Seen C ws s) (hnew : NewWins C v s s') :
    Seen C (v :: ws) s' := by
  intro x hx
  rcases hnew x hx with hx | hx
  · obtain ⟨z, hz, hlead⟩ := h x hx
    exact ⟨z, List.mem_cons_of_mem _ hz, hlead⟩
  · exact ⟨v, List.mem_cons_self .., hx⟩

theorem Seen.admissible {strict : Prop} {s : Abs} {v : World} (h : Seen C ws s)
    (hu : OneLeaderPerTerm C (v :: ws)) : Admissible C strict v s := by
  intro s' _ _ hnew x hx y hy hxy
  obtain ⟨z, hz, hxl⟩ := h.next hnew x hx
  obtain ⟨z', hz', hyl⟩ := h.next hnew y hy
  exact hu.eq_of_leads hz hz' hxl (hxy ▸ hyl)

theorem OneLeaderPerTerm.tail {v : World} (hu : OneLeaderPerTerm C (v :: ws)) :
    OneLeaderPerTerm C ws :=
  fun x hx y hy => hu x (List.mem_cons_of_mem _ hx) y (List.mem_cons_of_mem _ hy)

theorem tracks_of_visits [Codec]
    (hrun : Visits (World.step C) (fun w e => e.2.plain && termsKept C w e) (World.init C) ws)
    (hu : OneLeaderPerTerm C ws) :
    ∃ w us s, ws = w :: us ∧ PlainTracks C False w s ∧ Seen C ws s := by
  induction hrun with
  | start => exact ⟨_, _, State.init, rfl, plainTracks_init C False, by simp [Seen, State.init]⟩
  | @next u v us e h hstep hok ih =>
    obtain ⟨_, _, s, heq, ht, hseen⟩ := ih hu.tail
    cases heq
    obtain ⟨hplain, hkept⟩ : e.2.plain = true ∧ termsKept C u e = true := by
      simpa using hok
    have hterm : (u e.1).raft.currentTerm ≤ (v e.1).raft.currentTerm := by
      simpa [termsKept, hstep] using hkept
    obtain ⟨s', _, ht', hnew⟩ := ht.step hstep hplain hterm False.elim (hseen.admissible hu)
    exact ⟨v, u :: us, s', rfl, ht', hseen.next hnew⟩

/-- **Log Matching.** -/
theorem log_matching [Codec] {C : Cluster} {w : World} {us : List World}
    (hrun : Visits (World.step C) (fun w e => e.2.plain && termsKept C w e) (World.init C)
      (w :: us)) (hu : OneLeaderPerTerm C (w :: us)) :
    (∀ a b, ∀ x ∈ (w a).raft.log, ∀ y ∈ (w b).raft.log, x.index = y.index → x.term = y.term →
      ∀ i ≤ x.index, (w a).raft.entryAt i = (w b).raft.entryAt i) ∧
    ∀ a, (w a).raft.log.map LogEntry.index
        = (List.range (w a).raft.log.length).map (fun i : Nat => (i : Int) + 1) ∧
      (w a).raft.log.Pairwise fun x y => x.term ≤ y.term := by
  obtain ⟨_, _, s, heq, ht, _⟩ := tracks_of_visits hrun hu
  cases heq
  have hidx : ∀ a, Indexed LogEntry.index 0 (w a).raft.log := ht.tracks.indexed
  have hvalid : ∀ a, Valid LogEntry.term s.leaderLog (w a).raft.log := ht.tracks.valid
  refine ⟨?_, fun a => ⟨?_, (hvalid a).pairwise ht.tracks.inv.leaderLog_le⟩⟩
  · intro a b x hx y hy hindex hterm i hi
    obtain ⟨hpos, hxk⟩ := (hidx a).mem_iff.mp hx
    obtain ⟨_, hyk⟩ := (hidx b).mem_iff.mp hy
    rw [← hindex] at hyk
    have htake := (hvalid a).take_eq (hvalid b) hxk hyk hterm
    rw [RaftNode.entryAt_eq (hidx a) le_rfl, RaftNode.entryAt_eq (hidx b) le_rfl]
    split
    · -- both lookups fall into the common part
      have hlt : (i - 0 - 1).toNat < (x.index - 0 - 1).toNat + 1 := by omega
      rw [← List.getElem?_take_of_lt hlt, htake, List.getElem?_take_of_lt hlt]
    · rfl
  · simpa using (hidx a).map_num

/-! ### A replicated entry -/

section

local instance : Codec := Codec.silent

/-- The entry that `a` proposes in term 1. -/
def proposed : LogEntry := ⟨1, 1, entryTypeCommand, [120]⟩

/-- `a` is elected, proposes an entry and sends it; `b` takes it, and the same
request again, and then stands for election. -/
def replicatedRun : List (Addr × Act) :=
  let batch : Addr × Act :=
    ("b", .deliver ⟨"a", 1, "b", .append ⟨1, "a", 0, 0, [proposed.toPb], 0⟩⟩ Faults.none)
  electedRun ++ [("a", .dispatch), ("a", .enterLeader), ("a", .propose [120] Faults.none),
    ("a", .tick), ("a", .build), batch, batch] ++ campaign "b"

theorem log_matching_replicated :
    ∃ w us, Visits (World.step trio) (fun w e => e.2.plain && termsKept trio w e)
        (World.init trio) (w :: us) ∧ OneLeaderPerTerm trio (w :: us) ∧
      (proposed ∈ (w "a").raft.log ∧ proposed ∈ (w "b").raft.log ∧
        (w "b").raft.currentTerm = 2) ∧
      (∀ i ≤ 1, (w "a").raft.entryAt i = (w "b").raft.entryAt i) ∧
      ∀ a, (w a).raft.log.Pairwise fun x y => x.term ≤ y.term := by
  refine exists_led_world (fun _ => "a") replicatedRun (by decide +kernel) ?_
  rintro w us hrun hu ⟨ha, hb, _⟩
  obtain ⟨hmatch, hshape⟩ := log_matching hrun hu
  exact ⟨hmatch "a" "b" proposed ha proposed hb rfl rfl, fun a => (hshape a).2⟩

end

end Raft
