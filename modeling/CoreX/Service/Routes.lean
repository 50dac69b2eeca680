/-
CoreX/Service/Routes.lean

Who serves a request.  All nodes look the source up in the same ring, so that whoever
forwards a request forwards it to the same node, and only one member does not forward.
Every post and every call in progress is where the ring sends it (`Routes`), along every
run.
-/
import CoreX.Service.Site

namespace Service

open Raft Kv StepSystem
open Wal (Crc32)

/-! ### The ring -/

namespace Topology

variable {T : Topology} {a b : Addr} {key : String} {m n : RingNode}

theorem target_some (h : T.target a key = some m) : T.ring.lookup key = some m := by
  unfold target at h
  split at h
  · next target hl =>
    split at h <;> cases h
    exact hl
  · cases h

theorem target_unique (ha : T.target a key = some m) (hb : T.target b key = some n) : m = n :=
  Option.some.inj ((target_some ha).symm.trans (target_some hb))

theorem target_none (h : T.target a key = none) :
    ∃ m, T.ring.lookup key = some m ∧ m.id = T.cluster.idOf a := by
  obtain ⟨m, hm⟩ := Option.isSome_iff_exists.mp (T.ring.lookup_isSome T.nonempty key)
  refine ⟨m, hm, ?_⟩
  by_contra hne
  simp [target, hm, hne] at h

theorem owner_unique (ha : a ∈ T.cluster.members) (hb : b ∈ T.cluster.members)
    (h : T.target a key = none) (h' : T.target b key = none) : a = b := by
  obtain ⟨m, hm, hid⟩ := target_none h
  obtain ⟨n, hn, hid'⟩ := target_none h'
  obtain rfl : m = n := Option.some.inj (hm.symm.trans hn)
  exact T.cluster.idOf_inj a ha b hb (hid.symm.trans hid')

end Topology

/-- A handler of `GET` at a member, on its way to the owner or at the owner. -/
structure GetCall.Routed (T : Topology) (g : GetCall) : Prop where
  member : g.node ∈ T.cluster.members
  route : (T.target g.node g.key).map RingNode.addr = g.stage.owner

theorem GetCall.Routed.congr {T : Topology} {g g' : GetCall} (h : g.Routed T)
    (hn : g'.node = g.node) (hk : g'.key = g.key) (ho : g'.stage.owner = g.stage.owner) :
    g'.Routed T where
  member := hn ▸ h.member
  route := by
    rw [hn, hk, ho]
    exact h.route

theorem GetCall.Routed.wake {T : Topology} {g : GetCall} (h : g.Routed T) (a : Addr)
    (woken : Int → Bool) : (g.wake a woken).Routed T := by
  unfold GetCall.wake
  split
  · next i hstage =>
    split
    · exact h.congr rfl rfl (by rw [hstage]; rfl)
    · exact h
  · exact h

/-! ### Posts and calls -/

namespace Site

section

variable [Codec] {T : Topology} {S S' : Site} {a b : Addr}

/-- Posts and calls are where the ring sends them. -/
structure Routes (T : Topology) (S : Site) : Prop where
  proposed : ∀ post ∈ S.proposed, ∃ e, post.landing = .log e ∧
    post.node ∈ T.cluster.members ∧ T.target post.node post.source = none ∧
    kvOp e = some (post.source, some post.payload)
  accepted : ∀ post ∈ S.accepted, ∃ owner n, post.landing = .event owner n ∧
    (T.target post.node post.source).map RingNode.addr = some owner
  ingests : ∀ c ∈ S.ingests, (T.target c.src c.source).map RingNode.addr = some c.owner
  gets : ∀ g ∈ S.gets, g.Routed T

namespace Routes

theorem landing (h : Routes T S) {post : Post} (hacc : S.Accepted post) :
    (∃ e, post.landing = .log e ∧ post.node ∈ T.cluster.members ∧
      T.target post.node post.source = none) ∨
    ∃ owner n, post.landing = .event owner n ∧
      (T.target post.node post.source).map RingNode.addr = some owner := by
  unfold Accepted at hacc
  split at hacc
  · next e hland =>
    obtain ⟨e', hland', hmem, hnone, _⟩ := h.proposed post hacc.1
    exact .inl ⟨e, hland, hmem, hnone⟩
  · exact .inr (h.accepted post hacc)

theorem frame (h : Routes T S) (hp : S'.proposed = S.proposed) (ha : S'.accepted = S.accepted)
    (hi : ∀ c ∈ S'.ingests, ∃ c₀ ∈ S.ingests, c.src = c₀.src ∧ c.source = c₀.source ∧
      c.owner = c₀.owner)
    (hg : ∀ g ∈ S'.gets, g.Routed T) : Routes T S' where
  proposed := hp ▸ h.proposed
  accepted := ha ▸ h.accepted
  ingests c hc := by
    obtain ⟨c₀, hc₀, hsrc, hsource, howner⟩ := hi c hc
    rw [hsrc, hsource, howner]
    exact h.ingests c₀ hc₀
  gets := hg

theorem same (h : Routes T S) (hp : S'.proposed = S.proposed) (ha : S'.accepted = S.accepted)
    (hi : S'.ingests = S.ingests) (hg : ∀ g ∈ S'.gets, g.Routed T) : Routes T S' :=
  h.frame hp ha (fun c hc => ⟨c, hi ▸ hc, rfl, rfl, rfl⟩) hg

theorem move (h : Routes T S) {j : Nat} {c : IngestCall} {cs : List IngestCall}
    (hc : S.ingests[j]? = some c) (hi : S'.ingests = S.ingests.eraseIdx j ++ cs)
    (hcs : ∀ c' ∈ cs, c'.src = c.src ∧ c'.source = c.source ∧ c'.owner = c.owner)
    (hp : S'.proposed = S.proposed) (ha : S'.accepted = S.accepted) (hg : S'.gets = S.gets) :
    Routes T S' := by
  refine h.frame hp ha (fun c' hc' => ?_) (hg ▸ h.gets)
  rw [hi] at hc'
  rcases List.mem_append.mp hc' with hc' | hc'
  · exact ⟨c', List.mem_of_mem_eraseIdx hc', rfl, rfl, rfl⟩
  · exact ⟨c, List.mem_of_getElem? hc, hcs c' hc'⟩

theorem advance (h : Routes T S) {act : ProcessAct} (hs : S.advance T a act = some S') :
    Routes T S' := by
  obtain ⟨D, _, rfl⟩ := advance_some hs
  refine h.same rfl rfl rfl fun g hg => ?_
  obtain ⟨g₀, hg₀, rfl⟩ := List.mem_map.mp hg
  exact (h.gets g₀ hg₀).wake a _

theorem post (h : Routes T S) (ha : a ∈ T.cluster.members) {source payload : String}
    {healthy : Bool} {data : Bytes} {f : Faults}
    (hs : S.post T a source payload healthy data f = some S') : Routes T S' := by
  rcases post_cases hs with rfl | ⟨target, ht, rfl⟩ | ⟨ht, hdata, S₁, hS₁, hS'⟩
  · exact h
  · refine ⟨h.proposed, h.accepted, fun c hc => ?_, h.gets⟩
    rcases List.mem_append.mp hc with hc | hc
    · exact h.ingests c hc
    · rw [List.mem_singleton.mp hc, ht]
      rfl
  · have h₁ := h.advance hS₁
    rcases hS' with rfl | ⟨i, t, rfl⟩
    · exact h₁
    · refine ⟨fun p hp => ?_, h₁.accepted, h₁.ingests, h₁.gets⟩
      rcases List.mem_append.mp hp with hp | hp
      · exact h.proposed p hp
      · rw [List.mem_singleton.mp hp]
        refine ⟨_, rfl, ha, ht, ?_⟩
        unfold kvOp
        rw [hdata]
        rfl

theorem submit (h : Routes T S) {j : Nat} (hs : S.submit T a j = some S') : Routes T S' := by
  obtain ⟨c, n, offset, hc, rfl, _, jobs, accepted, rfl, hacc⟩ := submit_cases hs
  refine ⟨h.proposed, fun p hp => ?_, fun c' hc' => h.ingests c' (List.mem_of_mem_eraseIdx hc'),
    h.gets⟩
  rcases hacc with rfl | rfl
  · exact h.accepted p hp
  · rcases List.mem_append.mp hp with hp | hp
    · exact h.accepted p hp
    · rw [List.mem_singleton.mp hp]
      exact ⟨_, _, rfl, h.ingests c (List.mem_of_getElem? hc)⟩

theorem get (h : Routes T S) (ha : a ∈ T.cluster.members) {key : String} {healthy : Bool}
    (hs : S.get T a key healthy = some S') : Routes T S' := by
  rcases get_cases hs with rfl | ⟨target, ht, rfl⟩ | ⟨ht, S₁, q, hS₁, rfl⟩
  · exact h
  · refine h.same rfl rfl rfl fun g hg => ?_
    rcases List.mem_append.mp hg with hg | hg
    · exact h.gets g hg
    · rw [List.mem_singleton.mp hg]
      exact ⟨ha, by rw [ht]; rfl⟩
  · obtain ⟨D, readers, returned, rfl, _⟩ := read_some hS₁
    refine h.same rfl rfl rfl fun g hg => ?_
    rcases List.mem_append.mp hg with hg | hg
    · exact h.gets g hg
    · rw [List.mem_singleton.mp hg]
      exact ⟨ha, by rw [ht]; rfl⟩

theorem step [Crc32] (h : Routes T S) {e : Addr × SiteAct} (hs : S.step T e = some S') :
    Routes T S' := by
  obtain ⟨a, act⟩ := e
  unfold Site.step at hs
  split at hs
  · next ha =>
    cases act with
    | process act =>
      simp only at hs
      split at hs
      · exact h.advance hs
      · cases hs
    | crash keep results size =>
      obtain ⟨D, store, count, _, _, rfl⟩ := crash_some hs
      refine h.frame rfl rfl (fun c hc => ?_) fun g hg => h.gets g (List.mem_of_mem_filter hg)
      obtain ⟨c₀, hc₀, rfl⟩ := List.mem_map.mp hc
      refine ⟨c₀, List.mem_of_mem_filter hc₀, ?_⟩
      split <;> exact ⟨rfl, rfl, rfl⟩
    | post source payload healthy data f => exact h.post ha hs
    | append j now =>
      obtain ⟨c, hc, _, _, rfl⟩ := append_some hs
      exact h.move hc rfl
        (fun c' hc' => by rw [List.mem_singleton.mp hc']; exact ⟨rfl, rfl, rfl⟩) rfl rfl rfl
    | setIndex j =>
      obtain ⟨c, n, offset, hc, _, _, ⟨store, _, rfl⟩ | ⟨_, rfl⟩⟩ := setIndex_cases hs
      · exact h.move hc rfl
          (fun c' hc' => by rw [List.mem_singleton.mp hc']; exact ⟨rfl, rfl, rfl⟩) rfl rfl rfl
      · exact h.move hc (List.append_nil _).symm
          (fun c' hc' => absurd hc' List.not_mem_nil) rfl rfl rfl
    | submit j => exact h.submit hs
    | giveUp j =>
      obtain ⟨c, hc, rfl⟩ := giveUp_some hs
      refine h.frame rfl rfl (fun c' hc' => ?_) h.gets
      rcases List.mem_or_eq_of_mem_set hc' with hc' | rfl
      · exact ⟨c', hc', rfl, rfl, rfl⟩
      · exact ⟨c, List.mem_of_getElem? hc, rfl, rfl, rfl⟩
    | work =>
      simp only [work] at hs
      split at hs <;> cases hs
      exact h.same rfl rfl rfl h.gets
    | get key healthy => exact h.get ha hs
    | read act =>
      obtain ⟨D, readers, returned, rfl, _⟩ := read_some hs
      exact h.same rfl rfl rfl h.gets
    | getNext j =>
      obtain ⟨gets, returned, rfl, hgets⟩ := getNext_some hs
      refine h.same rfl rfl rfl fun g hg => ?_
      obtain ⟨g₀, hg₀, hn, hk, ho⟩ := hgets g hg
      exact (h.gets g₀ hg₀).congr hn hk ho
    | getTimeout j =>
      rw [getTimeout_some hs]
      exact h.same rfl rfl rfl fun g hg => h.gets g (List.mem_of_mem_eraseIdx hg)
  · cases hs

end Routes

end

end Site

end Service
