/-
CoreX/Service/ReadBack.lean

Does a client read what it has written, through whatever node?  The write and the read
each have a local and a forwarded path, and these end in different stores: the map of the
Raft group and the event store of the owner.  A write at the owner is not found through
any other node, and a forwarded write is not found at the owner
(`other_route_misses_write`).
-/
import CoreX.Raft.MvccAgreement
import CoreX.Service.Routes
import CoreX.Storage.Landed

namespace Service

open Raft Kv StepSystem Calls
open Wal (Crc32)

namespace Site

/-! ### The event stores -/

section

variable [Crc32] {T : Topology} {S S' : Site} {a b : Addr} {es : List Event}

omit [Crc32] in
theorem pendingAt_of_ne {c : IngestCall} (h : c.owner ≠ b) : c.pendingAt b = none := by
  unfold IngestCall.pendingAt
  split
  · rw [if_neg h]
  · rfl

/-- The event of a call is in the file, and in the index, as far as the call has come. -/
def CallSettled (w : Writers) (es : List Event) (c : IngestCall) : Prop :=
  match c.stage with
  | .received => True
  | .appended n offset => w.Placed es c.event n offset
  | .indexed n offset => w.Landed es c.event n offset

theorem CallSettled.imp {w w' : Writers} {es' : List Event} {c : IngestCall}
    (h : CallSettled w es c)
    (hp : ∀ n offset, w.Placed es c.event n offset → w'.Placed es' c.event n offset)
    (hl : ∀ n offset, w.Landed es c.event n offset → w'.Landed es' c.event n offset) :
    CallSettled w' es' c := by
  unfold CallSettled at h ⊢
  cases hstage : c.stage with
  | received => trivial
  | appended n offset =>
    rw [hstage] at h
    exact hp n offset h
  | indexed n offset =>
    rw [hstage] at h
    exact hl n offset h

/-- The event store of `b`, the calls that write to it and the posts that have. -/
structure Settled (S : Site) (b : Addr) (es : List Event) : Prop where
  inv : (S.writers b).Inv es
  calls : ∀ c ∈ S.ingests, c.owner = b → CallSettled (S.writers b) es c
  posts : ∀ post ∈ S.accepted, ∀ n, post.landing = .event b n →
    ∃ offset, (S.writers b).Landed es post.event n offset

namespace Settled

theorem frame (h : Settled S b es) (hw : S'.writers b = S.writers b)
    (hc : ∀ c ∈ S'.ingests, c.owner = b → CallSettled (S.writers b) es c)
    (hp : ∀ post ∈ S'.accepted, ∀ n, post.landing = .event b n → post ∈ S.accepted) :
    Settled S' b es where
  inv := by
    rw [hw]
    exact h.inv
  calls := by
    rw [hw]
    exact hc
  posts post hpost n hland := by
    rw [hw]
    exact h.posts post (hp post hpost n hland) n hland

theorem elsewhere (h : Settled S b es) {j : Nat} {c : IngestCall} {cs : List IngestCall}
    (hc : S.ingests[j]? = some c) (hne : c.owner ≠ b) (hcs : ∀ c' ∈ cs, c'.owner = c.owner)
    (hst : S'.stores b = S.stores b) (happ : S'.appended b = S.appended b)
    (hi : S'.ingests = S.ingests.eraseIdx j ++ cs)
    (hp : ∀ post ∈ S'.accepted, ∀ n, post.landing = .event b n → post ∈ S.accepted) :
    Settled S' b es := by
  have hcs' : ∀ c' ∈ cs, c'.owner ≠ b := fun c' hc' => hcs c' hc' ▸ hne
  refine h.frame ?_ (fun c' hc' hown => ?_) hp
  · unfold writers
    rw [hst, happ, hi, List.filterMap_append, filterMap_eraseIdx_of_none hc (pendingAt_of_ne hne),
      List.filterMap_eq_nil_iff.mpr fun c' hc' => pendingAt_of_ne (hcs' c' hc'), List.append_nil]
  · rw [hi] at hc'
    rcases List.mem_append.mp hc' with hc' | hc'
    · exact h.calls c' (List.mem_of_mem_eraseIdx hc') hown
    · exact absurd hown (hcs' c' hc')

theorem append (h : Settled S a es) {j : Nat} {now : UInt64}
    (hproper : ∀ c ∈ S.ingests[j]?, c.event.Proper) (hs : S.append a j now = some S') :
    ∃ es', Settled S' a es' := by
  obtain ⟨c, hc, hown, hstage, hS'⟩ := append_some hs
  have he : c.event.Proper := hproper c hc
  have hpend : c.pendingAt a = none := by
    unfold IngestCall.pendingAt
    rw [hstage]
  have hw : S'.writers a = ⟨((S.stores a).writeEventOffset now c.event).2,
      (S.writers a).pending ++ [(c.event.source, ((S.stores a).writeEventOffset now c.event).1)],
      S.appended a ++ [c.event]⟩ := by
    simp only [hS', writers, Function.update_self, List.filterMap_append,
      filterMap_eraseIdx_of_none hc hpend, IngestCall.pendingAt, hown, if_true,
      List.filterMap_cons, List.filterMap_nil]
    rfl
  refine ⟨es ++ [{ c.event with receivedAt := now }], ?_, fun c' hc' hown' => ?_,
    fun post hpost n hland => ?_⟩ <;> rw [hw]
  · exact h.inv.append he now
  · rw [hS'] at hc'
    rcases List.mem_append.mp hc' with hc' | hc'
    · exact (h.calls c' (List.mem_of_mem_eraseIdx hc') hown').imp
        (fun _ _ hplaced => hplaced.append now rfl) fun _ _ hlanded => hlanded.append now rfl rfl
    · rw [List.mem_singleton.mp hc']
      exact Writers.placed_append h.inv he now rfl
  · rw [hS'] at hpost
    obtain ⟨offset, hlanded⟩ := h.posts post hpost n hland
    exact ⟨offset, hlanded.append now rfl rfl⟩

theorem setIndex (h : Settled S a es) {j : Nat}
    (hok : ∀ c ∈ S.ingests[j]?, ∀ p ∈ c.pendingAt a, (S.stores a).index.hasRoom p.1 = true ∧
      ∀ o ∈ (S.stores a).index.get p.1, o ≤ p.2)
    (hs : S.setIndex a j = some S') : Settled S' a es := by
  obtain ⟨c, n, offset, hc, hown, hstage, hS'⟩ := setIndex_cases hs
  have hpend : c.pendingAt a = some (bytes c.source, offset) := by
    unfold IngestCall.pendingAt
    rw [hstage]
    exact if_pos hown
  obtain ⟨hroom, hback⟩ := hok c hc _ hpend
  obtain ⟨idx, hidx⟩ := HashIndex.set_of_hasRoom hroom offset
  have hset : (S.stores a).setIndex (bytes c.source) offset =
      ({ S.stores a with index := idx }, none) := by
    rw [EventStore.setIndex, hidx]
  rcases hS' with ⟨store, hstore, hS'⟩ | ⟨⟨_, _, herr⟩, _⟩
  · obtain rfl : { S.stores a with index := idx } = store :=
      congrArg Prod.fst (hset.symm.trans hstore)
    obtain ⟨i, hi, herase⟩ := filterMap_eraseIdx_of_some hc hpend
    have hw : S'.writers a =
        ⟨{ S.stores a with index := idx }, (S.writers a).pending.eraseIdx i, S.appended a⟩ := by
      simp only [hS', writers, Function.update_self, List.filterMap_append, herase,
        IngestCall.pendingAt, List.filterMap_cons, List.filterMap_nil, List.append_nil]
    have hknown : (S.writers a).Known (bytes c.source) offset := .inr (List.mem_of_getElem? hi)
    have hget := HashIndex.get_set hidx
    refine ⟨?_, fun c' hc' hown' => ?_, fun post hpost n' hland => ?_⟩ <;> rw [hw]
    · have hinv := h.inv.setIndex hi hroom hback
      rwa [show (S.writers a).store.setIndex (bytes c.source) offset = _ from hset] at hinv
    · rw [hS'] at hc'
      rcases List.mem_append.mp hc' with hc' | hc'
      · exact (h.calls c' (List.mem_of_mem_eraseIdx hc') hown').imp
          (fun _ _ hplaced => hplaced.frame rfl)
          fun _ _ hlanded => hlanded.setIndex h.inv hknown hback rfl hget
      · rw [List.mem_singleton.mp hc']
        have hold := h.calls c (List.mem_of_getElem? hc) hown
        unfold CallSettled at hold
        rw [hstage] at hold
        refine hold.land rfl ?_
        show idx.get (bytes c.source) = some offset
        rw [hget, Function.update_self]
    · rw [hS'] at hpost
      obtain ⟨offset', hlanded⟩ := h.posts post hpost n' hland
      exact ⟨offset', hlanded.setIndex h.inv hknown hback rfl hget⟩
  · rw [hset] at herr
    cases herr

theorem submit (h : Settled S a es) {j : Nat} (hs : S.submit T a j = some S') :
    Settled S' a es := by
  obtain ⟨c, n, offset, hc, hown, hstage, jobs, accepted, rfl, hacc⟩ := submit_cases hs
  have hpend : c.pendingAt a = none := by
    unfold IngestCall.pendingAt
    rw [hstage]
  have hw : ({ S with ingests := S.ingests.eraseIdx j, jobs := jobs, accepted := accepted } :
      Site).writers a = S.writers a := by
    simp only [writers, filterMap_eraseIdx_of_none hc hpend]
  refine ⟨?_, fun c' hc' hown' => ?_, fun post hpost n' hland => ?_⟩ <;> rw [hw]
  · exact h.inv
  · exact h.calls c' (List.mem_of_mem_eraseIdx hc') hown'
  · rcases hacc with rfl | rfl
    · exact h.posts post hpost n' hland
    rcases List.mem_append.mp hpost with hpost | hpost
    · exact h.posts post hpost n' hland
    · -- the post of this call, whose event has landed
      obtain rfl := List.mem_singleton.mp hpost
      cases hland
      have hold := h.calls c (List.mem_of_getElem? hc) hown
      unfold CallSettled at hold
      rw [hstage] at hold
      exact ⟨offset, hold⟩

theorem giveUp (h : Settled S b es) {j : Nat} (hs : S.giveUp a j = some S') : Settled S' b es := by
  obtain ⟨c, hc, rfl⟩ := giveUp_some hs
  refine h.frame ?_ (fun c' hc' hown => ?_) fun _ hpost _ _ => hpost
  · have hsame : IngestCall.pendingAt b { c with awaited := false } = c.pendingAt b := rfl
    simp only [writers, filterMap_set_of_eq hc hsame]
  · rcases List.mem_or_eq_of_mem_set hc' with hc' | rfl
    · exact h.calls c' hc' hown
    · exact h.calls c (List.mem_of_getElem? hc) hown

theorem crash [Codec] (h : Settled S b es) {keep : Nat} {results : LogEntry → StoreResult}
    {size : Nat}
    (hsize : (S.stores a).wal.length ≤ size)
    (hcard : ((S.appended a).map Event.source).toFinset.card ≤ (S.stores a).index.maxKeys)
    (hs : S.crash T a keep results size = some S') : Settled S' b es := by
  obtain ⟨D, store, count, _, hreopen, hS'⟩ := crash_some hs
  have hcalls : ∀ c ∈ S'.ingests, c.owner ≠ a ∧
      ∃ c₀ ∈ S.ingests, c.owner = c₀.owner ∧ c.event = c₀.event ∧ c.stage = c₀.stage := by
    intro c hc
    rw [hS'] at hc
    obtain ⟨c₀, hc₀, rfl⟩ := List.mem_map.mp hc
    obtain ⟨hc₀, hown⟩ := List.mem_filter.mp hc₀
    have hown : c₀.owner ≠ a := of_decide_eq_true hown
    split
    · exact ⟨hown, c₀, hc₀, rfl, rfl, rfl⟩
    · exact ⟨hown, c₀, hc₀, rfl, rfl, rfl⟩
  have hold : ∀ c ∈ S'.ingests, c.owner = b → CallSettled (S.writers b) es c := by
    intro c hc hown
    obtain ⟨_, c₀, hc₀, hown₀, hevent, hstage⟩ := hcalls c hc
    have hsettled := h.calls c₀ hc₀ (hown₀ ▸ hown)
    unfold CallSettled at hsettled ⊢
    rw [hstage, hevent]
    exact hsettled
  rcases eq_or_ne b a with rfl | hne
  · have hwhole : cutFile (S.stores b) size = S.stores b := by
      unfold cutFile
      rw [List.take_of_length_le hsize, EventStore.wal, Function.update_eq_self]
    obtain ⟨store', count', hreopen', hidx, hinv⟩ := h.inv.reopen hcard
    rw [hwhole] at hreopen
    obtain rfl : store' = store :=
      congrArg Prod.fst ((hreopen'.symm.trans hreopen : (store', count', none) = _))
    have hpend : S'.ingests.filterMap (IngestCall.pendingAt b) = [] :=
      List.filterMap_eq_nil_iff.mpr fun c hc => pendingAt_of_ne (hcalls c hc).1
    have hw : S'.writers b = ⟨store', [], S.appended b⟩ := by
      unfold writers
      rw [hpend, hS']
      simp only [Function.update_self]
    refine ⟨?_, fun c hc hown => absurd hown (hcalls c hc).1, fun post hpost n hland => ?_⟩ <;>
      rw [hw]
    · exact hinv
    · rw [hS'] at hpost
      obtain ⟨offset, hlanded⟩ := h.posts post hpost n hland
      exact ⟨offset, hlanded.reopen rfl hidx⟩
  · refine h.frame ?_ hold fun post hpost _ _ => by rw [hS'] at hpost; exact hpost
    have hpend : S'.ingests.filterMap (IngestCall.pendingAt b) =
        S.ingests.filterMap (IngestCall.pendingAt b) := by
      rw [hS']
      simp only [List.filterMap_map, List.filterMap_filter]
      refine List.filterMap_congr fun c _ => ?_
      split
      · next hown =>
        show IngestCall.pendingAt b (if c.src = a then { c with awaited := false } else c) = _
        split <;> rfl
      · next hown =>
        have hown : c.owner = a := by simpa using hown
        exact (pendingAt_of_ne (hown ▸ hne.symm)).symm
    unfold writers
    rw [hpend, hS']
    simp only [Function.update_of_ne hne]

end Settled

end

/-! ### The site -/

section

variable [Codec] [Crc32] {T : Topology} {S S' : Site} {a : Addr}

/-- The sections under which a written source can be read back on the same route.  The
processes keep what they acknowledge.  A restart finds the whole event file, and its
sources have room in the index.  An event has lengths of two bytes; the index has room
for it and is not moved back. -/
def reliable (C : CommittedLog) (T : Topology) (S : Site) (e : Addr × SiteAct) : Prop :=
  match e.2 with
  | .process act => (S.deployment e.1).lasting C act
  | .crash keep results size => (S.deployment e.1).lasting C (.crash keep results) ∧
      (S.stores e.1).wal.length ≤ size ∧
      ((S.appended e.1).map Event.source).toFinset.card ≤ (S.stores e.1).index.maxKeys
  | .post source _ _ data f =>
      T.target e.1 source = none → (S.deployment e.1).lasting C (.request .kv data f)
  | .append j _ => ∀ c ∈ S.ingests[j]?, c.event.Proper
  | .setIndex j => ∀ c ∈ S.ingests[j]?, ∀ p ∈ c.pendingAt e.1,
      (S.stores e.1).index.hasRoom p.1 = true ∧ ∀ o ∈ (S.stores e.1).index.get p.1, o ≤ p.2
  | _ => True

/-- **The invariant.** -/
structure SiteInv (C : CommittedLog) (T : Topology) (S : Site) : Prop where
  processes : ∀ a, (S.deployment a).Reliable C
  routes : S.Routes T
  events : ∀ b, ∃ es, S.Settled b es

variable {C : CommittedLog} {e : Addr × SiteAct}

omit [Crc32] in
theorem reliable_deployment {D D' : Deployment} {act : ProcessAct} (h : ∀ a, (D a).Reliable C)
    (hok : (D a).lasting C act) (hs : Deployment.step T.cluster D (a, act) = some D') :
    ∀ b, (D' b).Reliable C := by
  obtain ⟨p, _, _, hp, rfl⟩ := Deployment.step_cases hs
  intro b
  rcases eq_or_ne b a with rfl | hne
  · rw [Function.update_self]
    exact (h b).step hok hp
  · rw [Function.update_of_ne hne]
    exact h b

omit [Crc32] in
theorem lasting_read (C : CommittedLog) (p : Process) {act : Act}
    (hact : act = .readIndex ∨ ∃ i, act = .confirm i) : p.lasting C (.node act) := by
  have hrestoring : p.restoring act = none := by
    rcases hact with rfl | ⟨i, rfl⟩ <;> rfl
  refine ⟨?_, ?_, fun keep results hcrash => by cases hcrash⟩
  · rcases hs : p.node.step act with - | s
    · simp [Process.keepsEntries, Process.wakesOwners, hrestoring, hs]
    · have hraft : s.raft = p.node.raft := by
        rcases hact with rfl | ⟨i, rfl⟩ <;> cases Node.step_section hs <;> rfl
      simp [Process.keepsEntries, Process.wakesOwners, hrestoring, hs, hraft]
  · simp only [Process.forward, hrestoring]
    rcases hact with rfl | ⟨i, rfl⟩ <;> intro h <;> cases h

theorem processes_step (h : ∀ a, (S.deployment a).Reliable C) (hok : S.reliable C T e)
    (hs : S.step T e = some S') :
    ∀ a, (S'.deployment a).Reliable C := by
  obtain ⟨a, act⟩ := e
  have hread : ∀ {act : ReadAct} {S₁ : Site}, S.read T a act = some S₁ →
      ∀ b, (S₁.deployment b).Reliable C := by
    intro act S₁ hS₁
    obtain ⟨D, readers, returned, rfl, rfl | ⟨nodeAct, hact, hD⟩⟩ := read_some hS₁
    · exact h
    · exact reliable_deployment h (lasting_read C _ hact) hD
  unfold Site.step at hs
  split at hs
  · cases act with
    | process act =>
      simp only at hs
      split at hs
      · obtain ⟨D, hD, rfl⟩ := advance_some hs
        exact reliable_deployment h hok hD
      · cases hs
    | crash keep results size =>
      obtain ⟨D, store, count, hD, _, rfl⟩ := crash_some hs
      exact reliable_deployment h hok.1 hD
    | post source payload healthy data f =>
      rcases post_cases hs with rfl | ⟨_, _, rfl⟩ | ⟨ht, _, S₁, hS₁, hS'⟩
      · exact h
      · exact h
      · obtain ⟨D, hD, rfl⟩ := advance_some hS₁
        have hstep := reliable_deployment h (hok ht) hD
        rcases hS' with rfl | ⟨_, _, rfl⟩ <;> exact hstep
    | append j now =>
      obtain ⟨_, _, _, _, rfl⟩ := append_some hs
      exact h
    | setIndex j =>
      obtain ⟨_, _, _, _, _, _, ⟨_, _, rfl⟩ | ⟨_, rfl⟩⟩ := setIndex_cases hs <;> exact h
    | submit j =>
      obtain ⟨_, _, _, _, _, _, _, _, rfl, _⟩ := submit_cases hs
      exact h
    | giveUp j =>
      obtain ⟨_, _, rfl⟩ := giveUp_some hs
      exact h
    | work =>
      simp only [work] at hs
      split at hs <;> cases hs
      exact h
    | get key healthy =>
      rcases get_cases hs with rfl | ⟨_, _, rfl⟩ | ⟨_, S₁, _, hS₁, rfl⟩
      · exact h
      · exact h
      · have hS' := hread hS₁
        exact hS'
    | read act => exact hread hs
    | getNext j =>
      obtain ⟨_, _, rfl, _⟩ := getNext_some hs
      exact h
    | getTimeout j =>
      rw [getTimeout_some hs]
      exact h
  · cases hs

theorem settled_step (h : ∀ b, ∃ es, S.Settled b es) (hok : S.reliable C T e)
    (hs : S.step T e = some S') : ∀ b, ∃ es, S'.Settled b es := by
  intro b
  obtain ⟨es, hb⟩ := h b
  obtain ⟨a, act⟩ := e
  -- most sections leave the stores and the calls to them alone
  have hsame : S'.writers b = S.writers b → S'.ingests = S.ingests → S'.accepted = S.accepted →
      ∃ es, S'.Settled b es := fun hw hi ha =>
    ⟨es, hb.frame hw (fun c hc => hb.calls c (hi ▸ hc)) fun _ hp _ _ => ha ▸ hp⟩
  have hadvance : ∀ {act : ProcessAct} {S₁ : Site}, S.advance T a act = some S₁ →
      S₁.Settled b es := by
    intro act S₁ hS₁
    obtain ⟨D, _, rfl⟩ := advance_some hS₁
    exact hb.frame rfl hb.calls fun _ hp _ _ => hp
  unfold Site.step at hs
  split at hs
  · cases act with
    | process act =>
      simp only at hs
      split at hs
      · exact ⟨es, hadvance hs⟩
      · cases hs
    | crash keep results size => exact ⟨es, hb.crash hok.2.1 hok.2.2 hs⟩
    | post source payload healthy data f =>
      rcases post_cases hs with rfl | ⟨target, _, rfl⟩ | ⟨_, _, S₁, hS₁, hS'⟩
      · exact ⟨es, hb⟩
      · -- a call that has not written anything
        refine ⟨es, hb.frame ?_ (fun c hc hown => ?_) fun _ hp _ _ => hp⟩
        · simp only [writers, List.filterMap_append, List.filterMap_cons, List.filterMap_nil,
            IngestCall.pendingAt, List.append_nil]
        · rcases List.mem_append.mp hc with hc | hc
          · exact hb.calls c hc hown
          · rw [List.mem_singleton.mp hc]
            trivial
      · have hb₁ := hadvance hS₁
        rcases hS' with rfl | ⟨_, _, rfl⟩
        · exact ⟨es, hb₁⟩
        · exact ⟨es, hb₁.frame rfl hb₁.calls fun _ hp _ _ => hp⟩
    | append j now =>
      obtain ⟨c, hc, hown, _, hS'⟩ := append_some hs
      rcases eq_or_ne b a with rfl | hne
      · exact hb.append hok hs
      · refine ⟨es, hb.elsewhere hc (hown ▸ hne.symm) ?_ ?_ ?_ (by rw [hS'])
          fun _ hp _ _ => by rw [hS'] at hp; exact hp⟩
        · intro c' hc'
          rw [List.mem_singleton.mp hc']
        · rw [hS']
          exact Function.update_of_ne hne _ _
        · rw [hS']
          exact Function.update_of_ne hne _ _
    | setIndex j =>
      rcases eq_or_ne b a with rfl | hne
      · exact ⟨es, hb.setIndex hok hs⟩
      · obtain ⟨c, n, offset, hc, hown, _, ⟨store, _, rfl⟩ | ⟨_, rfl⟩⟩ := setIndex_cases hs
        · refine ⟨es, hb.elsewhere hc (hown ▸ hne.symm) (fun c' hc' => ?_)
            (Function.update_of_ne hne _ _) rfl rfl fun _ hp _ _ => hp⟩
          rw [List.mem_singleton.mp hc']
        · exact ⟨es, hb.elsewhere hc (hown ▸ hne.symm) (fun c' hc' => absurd hc' List.not_mem_nil)
            rfl rfl (List.append_nil _).symm fun _ hp _ _ => hp⟩
    | submit j =>
      rcases eq_or_ne b a with rfl | hne
      · exact ⟨es, hb.submit hs⟩
      · obtain ⟨c, n, offset, hc, hown, _, jobs, accepted, rfl, hacc⟩ := submit_cases hs
        refine ⟨es, hb.elsewhere hc (hown ▸ hne.symm) (fun c' hc' => absurd hc' List.not_mem_nil)
          rfl rfl (List.append_nil _).symm fun post hp m hland => ?_⟩
        rcases hacc with rfl | rfl
        · exact hp
        rcases List.mem_append.mp hp with hp | hp
        · exact hp
        · rw [List.mem_singleton.mp hp] at hland
          cases hland
          exact absurd rfl hne
    | giveUp j => exact ⟨es, hb.giveUp hs⟩
    | work =>
      simp only [work] at hs
      split at hs <;> cases hs
      exact hsame rfl rfl rfl
    | get key healthy =>
      rcases get_cases hs with rfl | ⟨_, _, rfl⟩ | ⟨_, S₁, _, hS₁, rfl⟩
      · exact ⟨es, hb⟩
      · exact hsame rfl rfl rfl
      · obtain ⟨_, _, _, rfl, _⟩ := read_some hS₁
        exact hsame rfl rfl rfl
    | read act =>
      obtain ⟨_, _, _, rfl, _⟩ := read_some hs
      exact hsame rfl rfl rfl
    | getNext j =>
      obtain ⟨_, _, rfl, _⟩ := getNext_some hs
      exact hsame rfl rfl rfl
    | getTimeout j =>
      have hS' := getTimeout_some hs
      subst hS'
      exact hsame rfl rfl rfl
  · cases hs

theorem SiteInv.step (h : SiteInv C T S) (hok : S.reliable C T e) (hs : S.step T e = some S') :
    SiteInv C T S' :=
  ⟨processes_step h.processes hok hs, h.routes.step hs, settled_step h.events hok hs⟩

theorem siteInv_init (C : CommittedLog) (T : Topology) (cfg : Addr → SnapshotConfig) :
    SiteInv C T (init T cfg) where
  processes a := Process.reliable_fresh C a (T.cluster.idOf a) (some (T.cluster.peersOf a)) (cfg a)
  routes :=
    ⟨fun _ h => absurd h List.not_mem_nil, fun _ h => absurd h List.not_mem_nil,
      fun _ h => absurd h List.not_mem_nil, fun _ h => absurd h List.not_mem_nil⟩
  events _ :=
    ⟨[], Writers.inv_initial T.maxKeys, fun _ h => absurd h List.not_mem_nil,
      fun _ h => absurd h List.not_mem_nil⟩

theorem SiteInv.readMap (h : SiteInv C T S) {post : Post} {entry : LogEntry}
    (hland : post.landing = .log entry) (hacc : S.Accepted post) (hundist : S.Undisturbed C post) :
    S.readMap post.node post.source = .value post.source post.payload := by
  simp only [Accepted, hland] at hacc
  simp only [Undisturbed, hland] at hundist
  obtain ⟨e, hland', _, _, hop⟩ := h.routes.proposed post hacc.1
  obtain rfl : entry = e := by
    rw [hland] at hland'
    cases hland'
    rfl
  unfold Site.readMap
  rw [(h.processes post.node).served hacc.2 rfl hop hundist]

theorem SiteInv.readStore (h : SiteInv C T S) {post : Post} {owner : Addr} {n : Nat}
    (hland : post.landing = .event owner n) (hacc : S.Accepted post)
    (hundist : S.Undisturbed C post) :
    S.readStore owner post.source = .event (bytes post.source) (bytes post.payload) := by
  simp only [Accepted, hland] at hacc
  simp only [Undisturbed, hland] at hundist
  obtain ⟨es, hsettled⟩ := h.events owner
  obtain ⟨offset, hlanded⟩ := hsettled.posts post hacc n hland
  have hget := hlanded.get hsettled.inv fun ⟨m, x, hlt, hx, hsource⟩ =>
    hundist m x hlt hx hsource
  have hget' : ((S.stores owner).get (bytes post.source)).map Event.kv =
      .ok (bytes post.source, bytes post.payload) := hget
  unfold Site.readStore
  rcases hr : (S.stores owner).get (bytes post.source) with err | e
  · rw [hr] at hget'
    cases hget'
  · rw [hr] at hget'
    obtain ⟨hsource, hpayload⟩ := Prod.mk.inj (Except.ok.inj hget')
    rw [← hsource, ← hpayload]

/-- **A client reads its own write on the same route.**  In every run of every cluster whose
sections are reliable: a `GET` that is served answers with the payload of a post that was
accepted before, if there was no other write to its source and both requests are forwarded
or neither is. -/
theorem reads_back {C : CommittedLog} {T : Topology} {cfg : Addr → SnapshotConfig} {S : Site}
    (hrun : Runs (Site.step T) (Site.reliable C T) (init T cfg) S) {post : Post}
    (hacc : S.Accepted post) (hundist : S.Undisturbed C post) {e : Addr × SiteAct}
    {response : GetResponse} (hanswer : S.answer T e = some (post.source, response))
    (hserved : response.served = true)
    (hroute : (T.target e.1 post.source).isSome = (T.target post.node post.source).isSome) :
    response.payload = some (bytes post.payload) := by
  have hinv : SiteInv C T S :=
    hrun.invariant (fun _ _ _ h hs hok => h.step hok hs) (siteInv_init C T cfg)
  obtain ⟨g, hg, hnode, hkey, hread⟩ := answer_served hanswer hserved
  have hrouted := hinv.routes.gets g hg
  have hget := hrouted.route
  rw [hnode, hkey] at hget
  rcases hinv.routes.landing hacc with ⟨entry, hland, hmem, hnone⟩ | ⟨owner, n, hland, hsome⟩
  · -- the post was not forwarded, so that the read is not either
    rw [hnone, Option.isSome_none, Option.isSome_eq_false_iff, Option.isNone_iff_eq_none] at hroute
    obtain hsame : e.1 = post.node :=
      Topology.owner_unique (hnode ▸ hrouted.member) hmem hroute hnone
    rcases hread with ⟨owner, hstage, _⟩ | ⟨_, rfl⟩
    · rw [hroute, hstage] at hget
      cases hget
    · rw [hsame, hinv.readMap hland hacc hundist]
      rfl
  · obtain ⟨m, hm, hmaddr⟩ := Option.map_eq_some_iff.mp hsome
    rw [hm, Option.isSome_some] at hroute
    obtain ⟨m', hm'⟩ := Option.isSome_iff_exists.mp hroute
    obtain rfl := Topology.target_unique hm hm'
    rw [hm', Option.map_some, hmaddr] at hget
    rcases hread with ⟨owner', hstage, rfl⟩ | ⟨hstage, _⟩
    · rw [hstage] at hget
      cases hget
      rw [hinv.readStore hland hacc hundist]
      rfl
    · rw [hstage] at hget
      cases hget

/-- `reliable` as a test, for runs in which no snapshot is installed. -/
def reliableAlone (C : CommittedLog) (T : Topology) (S : Site) (e : Addr × SiteAct) : Bool :=
  match e.2 with
  | .process act => (S.deployment e.1).lastingAlone C act
  | .crash keep results size => (S.deployment e.1).lastingAlone C (.crash keep results) &&
      decide ((S.stores e.1).wal.length ≤ size ∧
        ((S.appended e.1).map Event.source).toFinset.card ≤ (S.stores e.1).index.maxKeys)
  | .post source _ _ data f =>
      (T.target e.1 source).isSome || (S.deployment e.1).lastingAlone C (.request .kv data f)
  | .append j _ => decide (∀ c ∈ S.ingests[j]?, c.event.Proper)
  | .setIndex j => decide (∀ c ∈ S.ingests[j]?, ∀ p ∈ c.pendingAt e.1,
      (S.stores e.1).index.hasRoom p.1 = true ∧ ∀ o ∈ (S.stores e.1).index.get p.1, o ≤ p.2)
  | _ => true

omit [Crc32] in
theorem reliable_of_alone (h : S.reliableAlone C T e = true) : S.reliable C T e := by
  obtain ⟨a, act⟩ := e
  cases act with
  | process act => exact Process.lasting_of_alone h
  | crash keep results size =>
    obtain ⟨hlast, hdec⟩ := Bool.and_eq_true_iff.mp h
    exact ⟨Process.lasting_of_alone hlast, of_decide_eq_true hdec⟩
  | post source payload healthy data f =>
    intro ht
    rcases Bool.or_eq_true_iff.mp h with hsome | hlast
    · rw [ht] at hsome
      cases hsome
    · exact Process.lasting_of_alone hlast
  | append j now =>
    simp only [reliableAlone, decide_eq_true_eq] at h
    exact h
  | setIndex j =>
    simp only [reliableAlone, decide_eq_true_eq] at h
    exact h
  | _ => trivial

end

/-! ### The two stores -/

section

open Raft.Deployment

local instance siteCodec : Codec := Codec.twoKeys
local instance siteCrc : Crc32 := Crc32.ieee

/-- Three nodes with one point each; `a` owns the keys below. -/
def trioSite : Topology where
  cluster := trio
  ring := (((Ring.newRing 1).addNode ⟨"a", "a"⟩).addNode ⟨"b", "b"⟩).addNode ⟨"c", "c"⟩
  nonempty := by decide +kernel
  bufferDepth := 4
  maxKeys := 4

def trioSiteInit : Site := init trioSite fun _ => ⟨0, 2⟩

def onSite (l : List (Addr × ProcessAct)) : List (Addr × SiteAct) :=
  l.map fun x => (x.1, .process x.2)

/-- `a` leads; it proposes `a=1`, commits it with `b` and answers 204. -/
def postAtOwner : List (Addr × SiteAct) :=
  onSite (electWith "a" 1 "b") ++ [("a", .post "a" "1" true entryA.data .none)] ++
    onSite (waitForIndex "a" ++ commitWith "a" 1 "b" entryA ++ applyAndAnswer "a")

/-- `b` forwards `b=2` to `a` and answers 202. -/
def postForwarded : List (Addr × SiteAct) :=
  [("b", .post "b" "2" true [] .none), ("a", .append 0 7), ("a", .setIndex 0), ("a", .submit 0)]

/-- A read at the leader `a`, which `c` confirms, up to the map. -/
def getAtOwner (key : String) (call : Nat) (args : AppendEntriesArgs) (res : AppendEntriesResult) :
    List (Addr × SiteAct) :=
  [("a", .get key true), ("a", .read (.readConfig 0)), ("a", .read (.confirm 0))] ++
    onSite (onNodes [appendEntries "a" call "c" args]) ++
    [("a", .read (.answer 0 "c" (some res))), ("a", .getNext 0), ("a", .getNext 0)]

/-- What the two clients are told. -/
def ownerPost : Post := ⟨"a", "a", "1", .log entryA⟩
def forwardedPost : Post := ⟨"b", "b", "2", .event "a" 0⟩

instance decidableAccepted (S : Site) (post : Post) : Decidable (S.Accepted post) := by
  unfold Accepted
  split <;> infer_instance

theorem undisturbed_ownerPost {S : Site} (h : (S.deployment "a").reached ≤ 1) :
    S.Undisturbed oneEntryLog ownerPost := by
  intro x hx hlt hle
  have hone : (1 : Int) < x.index := hlt
  have hreach : x.index ≤ (S.deployment "a").reached := hle
  omega

theorem undisturbed_forwardedPost {S : Site} (h : (S.appended "a").length ≤ 1) :
    S.Undisturbed oneEntryLog forwardedPost := by
  intro m x hlt hx
  have := (List.getElem?_eq_some_iff.mp hx).1
  omega

/-- **The other route misses the write.**  In both runs there is a single write and every
section is reliable.  The owner `a` has answered 204, and a `GET` at `b` is answered with
404 from the event store of `a`.  `b` has answered 202, and a `GET` at `a` is answered with
404 from the map. -/
theorem other_route_misses_write :
    (∃ S, Runs (Site.step trioSite) (Site.reliable oneEntryLog trioSite) trioSiteInit S ∧
      S.Accepted ownerPost ∧ S.Undisturbed oneEntryLog ownerPost ∧ S.accepted = [] ∧
      S.answer trioSite ("b", .getNext 0) = some ("a", .notFound)) ∧
    ∃ S, Runs (Site.step trioSite) (Site.reliable oneEntryLog trioSite) trioSiteInit S ∧
      S.Accepted forwardedPost ∧ S.Undisturbed oneEntryLog forwardedPost ∧ S.proposed = [] ∧
      S.answer trioSite ("a", .getNext 0) = some ("b", .notFound) := by
  constructor
  · obtain ⟨S, hS, hacc, hreach, hnone, hans⟩ := exists_of_any
      (o := exec (Site.step trioSite) (fun S e => S.reliableAlone oneEntryLog trioSite e = true)
        trioSiteInit (postAtOwner ++ [("b", .get "a" true)]))
      (P := fun S => S.Accepted ownerPost ∧ (S.deployment "a").reached ≤ 1 ∧ S.accepted = [] ∧
        S.answer trioSite ("b", .getNext 0) = some ("a", .notFound)) (by decide +kernel)
    exact ⟨S, (Runs.of_exec hS).weaken fun _ _ => reliable_of_alone, hacc,
      undisturbed_ownerPost hreach, hnone, hans⟩
  · obtain ⟨S, hS, hacc, hlen, hnone, hans⟩ := exists_of_any
      (o := exec (Site.step trioSite) (fun S e => S.reliableAlone oneEntryLog trioSite e = true)
        trioSiteInit (onSite (electWith "a" 1 "b") ++ postForwarded ++
          getAtOwner "b" 1 ⟨1, "a", 0, 0, [], 0⟩ ⟨1, true, 0, 0⟩))
      (P := fun S => S.Accepted forwardedPost ∧ (S.appended "a").length ≤ 1 ∧ S.proposed = [] ∧
        S.answer trioSite ("a", .getNext 0) = some ("b", .notFound)) (by decide +kernel)
    exact ⟨S, (Runs.of_exec hS).weaken fun _ _ => reliable_of_alone, hacc,
      undisturbed_forwardedPost hlen, hnone, hans⟩

/-- Both posts, a crash of `c`, a read of the first at `a` and of the second at `c`. -/
def sameRouteRun : List (Addr × SiteAct) :=
  postAtOwner ++ postForwarded ++ [("c", .crash 0 (fun _ => .ok) 0)] ++
    getAtOwner "a" 2 ⟨1, "a", 1, 1, [], 1⟩ ⟨1, false, 1, 0⟩ ++ [("c", .get "b" true)]

theorem reads_back_same_route :
    ∃ S, Runs (Site.step trioSite) (Site.reliable oneEntryLog trioSite) trioSiteInit S ∧
      S.Accepted ownerPost ∧ S.Accepted forwardedPost ∧
      (∃ r, S.answer trioSite ("a", .getNext 0) = some ("a", r) ∧ r.payload = some (bytes "1")) ∧
      ∃ r, S.answer trioSite ("c", .getNext 1) = some ("b", r) ∧ r.payload = some (bytes "2") := by
  obtain ⟨S, hS, hacc, hacc', hreach, hlen, hans, hans'⟩ := exists_of_any
    (o := exec (Site.step trioSite) (fun S e => S.reliableAlone oneEntryLog trioSite e = true)
      trioSiteInit sameRouteRun)
    (P := fun S => S.Accepted ownerPost ∧ S.Accepted forwardedPost ∧
      (S.deployment "a").reached ≤ 1 ∧ (S.appended "a").length ≤ 1 ∧
      S.answer trioSite ("a", .getNext 0) = some ("a", .value "a" "1") ∧
      S.answer trioSite ("c", .getNext 1) = some ("b", .event (bytes "b") (bytes "2")))
    (by decide +kernel)
  have hrun := (Runs.of_exec hS).weaken fun _ _ => reliable_of_alone
  exact ⟨S, hrun, hacc, hacc',
    ⟨_, hans, reads_back hrun hacc (undisturbed_ownerPost hreach) hans rfl rfl⟩,
    ⟨_, hans', reads_back hrun hacc' (undisturbed_forwardedPost hlen) hans' rfl
      (by decide +kernel)⟩⟩

end

end Site

end Service
