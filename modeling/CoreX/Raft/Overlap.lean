/-
CoreX/Raft/Overlap.lean

Do two quorums of the same configuration share a node?  The voter lists leave the
proposer out and every node copies them as they are, while `quorumFor` adds one
for "self" on whichever node counts.  A node that stands in the list itself, and
has dialled itself, therefore needs only half of the list.

`Splits V W x y` is the whole answer: a set of nodes that holds exactly half of
both lists, with `x` inside and `y` outside.  In the stable configuration two
quorums may miss each other exactly if there is such a set, in the joint one
exactly if there is one and both nodes count their own vote when they are voters
(`quorums_intersect_iff`).  For lists without duplicates this is a matter of
parity (`splits_iff`).
-/
import CoreX.Lib.Quorum
import CoreX.Raft.Leader

namespace Raft

/-! ### Counting votes -/

namespace RaftNode

/-- The votes of the nodes in `S` elect `n`, counted as `runCandidate` does: one
for each dialled address that granted, on top of its own. -/
def wonBy (n : RaftNode) (S : Finset Addr) : Bool :=
  quorumFor n.clusterConfig fun addr => addr ∈ n.allClients.filter (· ∈ S)

end RaftNode

/-- Any two sets of nodes that elect `x`, whose state is `n`, and `y`, whose state
is `m`, have a node in common. -/
def Meet (x y : Addr) (n m : RaftNode) : Prop :=
  ∀ SX SY : Finset Addr, x ∈ SX → y ∈ SY → n.wonBy SX = true → m.wonBy SY = true →
    ∃ v, v ∈ SX ∧ v ∈ SY

section Counting

variable {L V W : List Addr} {p q : Addr → Bool} {x y : Addr} {A : Finset Addr}

theorem quorum_le_iff {c : Nat} : (L.length + 1) / 2 + 1 ≤ 1 + c ↔ L.length ≤ 2 * c := by
  omega

theorem quorumFor_stable : quorumFor ⟨.stable, V, W⟩ p = true ↔ V.length ≤ 2 * V.countP p := by
  unfold quorumFor
  rw [decide_eq_true_iff]
  exact quorum_le_iff

theorem quorumFor_joint : quorumFor ⟨.joint, V, W⟩ p = true ↔
    V.length ≤ 2 * V.countP p ∧ W.length ≤ 2 * W.countP p := by
  unfold quorumFor
  rw [Bool.and_eq_true, decide_eq_true_iff, decide_eq_true_iff]
  exact and_congr quorum_le_iff quorum_le_iff

theorem countP_add_le (hpq : ∀ v, p v = true → q v = false) :
    L.countP p + L.countP q ≤ L.length := by
  have hle : L.countP q ≤ L.countP fun v => !p v :=
    List.countP_mono_left fun v _ hq => by
      by_contra hp
      simp only [Bool.not_eq_true, Bool.not_eq_false'] at hp
      rw [hpq v hp] at hq
      cases hq
  have := List.length_eq_countP_add_countP p (l := L)
  have hneg : (L.countP fun a => decide ¬p a = true) = L.countP fun v => !p v :=
    List.countP_congr fun v _ => by simp
  omega

/-- The nodes of `A` hold exactly half of the list. -/
def HalfOf (A : Finset Addr) (L : List Addr) : Prop := 2 * L.countP (· ∈ A) = L.length

/-- A set of nodes holds half of both lists and separates `x` from `y`. -/
def Splits (V W : List Addr) (x y : Addr) : Prop :=
  ∃ A : Finset Addr, x ∈ A ∧ y ∉ A ∧ HalfOf A V ∧ HalfOf A W

theorem HalfOf.rest (h : HalfOf A L) (hq : ∀ v ∈ L, q v = decide (v ∉ A)) :
    L.length ≤ 2 * L.countP q := by
  have hsum := List.length_eq_countP_add_countP (fun v => decide (v ∈ A)) (l := L)
  have hneg : L.countP q = L.countP fun v => decide ¬decide (v ∈ A) = true :=
    List.countP_congr fun v hv => by simp [hq v hv]
  unfold HalfOf at h
  omega

theorem halfOf_of_votes {SX : Finset Addr} (hp : ∀ v, p v = true → v ∈ SX)
    (hq : ∀ v, q v = true → v ∉ SX) (hX : L.length ≤ 2 * L.countP p)
    (hY : L.length ≤ 2 * L.countP q) : HalfOf SX L ∧ ∀ v ∈ L, v ∈ SX → p v = true := by
  have hle : L.countP p ≤ L.countP (· ∈ SX) :=
    List.countP_mono_left fun v _ h => decide_eq_true (hp v h)
  have hsum : L.countP (· ∈ SX) + L.countP q ≤ L.length :=
    countP_add_le fun v h => by
      by_contra hqv
      exact hq v (Bool.not_eq_false _ ▸ hqv) (of_decide_eq_true h)
  refine ⟨by unfold HalfOf; omega, fun v hv hvS => ?_⟩
  by_contra hpv
  -- without `v` there are not enough votes left
  have hperm := List.perm_cons_erase hv
  have hqv : ¬q v = true := fun h => hq v h hvS
  have hrest : (L.erase v).countP p + (L.erase v).countP q ≤ (L.erase v).length :=
    countP_add_le fun z h => by
      by_contra hqz
      exact hq z (Bool.not_eq_false _ ▸ hqz) (hp z h)
  rw [hperm.countP_eq, List.countP_cons_of_neg hpv, hperm.length_eq, List.length_cons] at hX
  rw [hperm.countP_eq, List.countP_cons_of_neg hqv, hperm.length_eq, List.length_cons] at hY
  omega

/-! ### Parity -/

theorem HalfOf.even (h : HalfOf A L) : Even L.length :=
  ⟨L.countP (· ∈ A), by unfold HalfOf at h; omega⟩

theorem halfOf_iff_card (hL : L.Nodup) :
    HalfOf A L ↔ 2 * (L.toFinset ∩ A).card = L.toFinset.card := by
  have hcount : (L.toFinset ∩ A).card = L.countP (· ∈ A) := by
    rw [List.countP_eq_length_filter, ← List.toFinset_card_of_nodup (hL.filter _)]
    congr 1
    ext v
    simp
  rw [hcount, List.toFinset_card_of_nodup hL]
  rfl

/-- The change takes `x` out and puts `y` in its place. -/
def Replaces (V W : List Addr) (x y : Addr) : Prop :=
  V.toFinset \ W.toFinset = {x} ∧ W.toFinset \ V.toFinset = {y}

theorem card_inter_eq (S T A : Finset Addr) :
    (S ∩ A).card = ((S \ T) ∩ A).card + ((S ∩ T) ∩ A).card := by
  rw [← Finset.card_sdiff_add_card_inter (S ∩ A) T]
  congr 2
  · grind
  · grind

theorem Replaces.not_halfOf (h : Replaces V W x y) (hV : V.Nodup) (hW : W.Nodup)
    (hA : ¬(x ∈ A ↔ y ∈ A)) (hAV : HalfOf A V) (hAW : HalfOf A W) : False := by
  rw [halfOf_iff_card hV] at hAV
  rw [halfOf_iff_card hW] at hAW
  have hlV := Finset.card_sdiff_add_card_inter V.toFinset W.toFinset
  have hlW := Finset.card_sdiff_add_card_inter W.toFinset V.toFinset
  have hcV := card_inter_eq V.toFinset W.toFinset A
  have hcW := card_inter_eq W.toFinset V.toFinset A
  rw [h.1, Finset.card_singleton] at hlV
  rw [h.2, Finset.card_singleton, Finset.inter_comm] at hlW
  rw [h.1] at hcV
  rw [h.2, Finset.inter_comm W.toFinset V.toFinset] at hcW
  have hone : ∀ z : Addr, (({z} : Finset Addr) ∩ A).card = if z ∈ A then 1 else 0 := by
    intro z
    split
    · next hz => rw [Finset.singleton_inter_of_mem hz, Finset.card_singleton]
    · next hz => rw [Finset.singleton_inter_of_notMem hz, Finset.card_empty]
  rw [hone] at hcV hcW
  by_cases hx : x ∈ A <;> by_cases hy : y ∈ A <;>
    simp only [hx, hy, if_true, if_false] at hcV hcW hA <;>
    first | exact hA trivial | omega

theorem splits_iff (hV : V.Nodup) (hW : W.Nodup) :
    Splits V W x y ↔ x ≠ y ∧ Even V.length ∧ Even W.length ∧
      ¬Replaces V W x y ∧ ¬Replaces V W y x := by
  constructor
  · rintro ⟨A, hxA, hyA, hAV, hAW⟩
    have hxy : x ≠ y := fun h => hyA (h ▸ hxA)
    exact ⟨hxy, hAV.even, hAW.even, fun h => h.not_halfOf hV hW (by simp [hxA, hyA]) hAV hAW,
      fun h => h.not_halfOf hV hW (by simp [hxA, hyA]) hAV hAW⟩
  · rintro ⟨hxy, heV, heW, hr, hr'⟩
    rw [← List.toFinset_card_of_nodup hV] at heV
    rw [← List.toFinset_card_of_nodup hW] at heW
    obtain ⟨A, hsub, hAV, hAW, hxA, hyA⟩ := exists_halves hxy heV heW hr hr'
    -- `x` may be added if it stands in neither list
    have hadd : ∀ T : Finset Addr, T ⊆ V.toFinset ∪ W.toFinset → T ∩ insert x A = T ∩ A := by
      intro T hT
      by_cases hxT : x ∈ T
      · rw [Finset.insert_eq_of_mem (hxA (hT hxT))]
      · exact Finset.inter_insert_of_notMem hxT
    refine ⟨insert x A, Finset.mem_insert_self x A, ?_, ?_, ?_⟩
    · rw [Finset.mem_insert, not_or]
      exact ⟨hxy.symm, hyA⟩
    · rw [halfOf_iff_card hV, hadd _ Finset.subset_union_left]
      exact hAV
    · rw [halfOf_iff_card hW, hadd _ Finset.subset_union_right]
      exact hAW

theorem splits_self_iff (hW : W.Nodup) : Splits W W x y ↔ x ≠ y ∧ Even W.length := by
  have hno : ∀ a b, ¬Replaces W W a b := fun a b h => by
    have h1 := h.1
    rw [Finset.sdiff_self] at h1
    exact Finset.singleton_ne_empty a h1.symm
  rw [splits_iff hW hW]
  simp [hno]

end Counting

/-! ### After a change -/

namespace RaftNode

variable {n m : RaftNode} {x y : Addr} {V W : List Addr}

/-- `n`, the node at `x`, has dialled the addresses `L`, itself perhaps
excepted. -/
def Dials (n : RaftNode) (x : Addr) (L : List Addr) : Prop :=
  n.peers.isSome = true ∧ ∀ v ∈ L, v ≠ x → v ∈ n.allClients

/-- The node at `x` is a voter of the joint configuration and never counts its
own vote as one of the list. -/
def Uncounted (n : RaftNode) (x : Addr) (V W : List Addr) : Prop :=
  x ∈ V ∧ x ∉ W ∧ x ∉ n.allClients

theorem mem_activate_allClients {cfg : ClusterConfig} {connect : List Addr} {v : Addr}
    (hn : n.peers.isSome = true) :
    v ∈ (n.activate cfg connect).allClients ↔ v ∈ n.allClients ∨ v ∈ connect := by
  obtain ⟨clients, hclients⟩ := Option.isSome_iff_exists.mp hn
  simp only [allClients, activate, ensureConnected, hclients, Option.map_some, Option.getD_some]
  exact mem_ensureConnected

theorem applyConfigEntry_joint [Codec] {e : LogEntry}
    (h : Codec.unmarshalConfig e.data = some ⟨"joint", V, W⟩) :
    n.applyConfigEntry e = n.activate ⟨.joint, V, W⟩ W := by
  simp [applyConfigEntry, h]

theorem applyConfigEntry_stable [Codec] {e : LogEntry}
    (h : Codec.unmarshalConfig e.data = some ⟨"stable", W, []⟩) :
    n.applyConfigEntry e = n.activate ⟨.stable, W, []⟩ W := by
  simp [applyConfigEntry, h]

/-- The votes of `S` that reach `n` are half of `L`. -/
def Half (n : RaftNode) (S : Finset Addr) (L : List Addr) : Prop :=
  L.length ≤ 2 * L.countP fun addr => addr ∈ n.allClients.filter (· ∈ S)

theorem wonBy_activate_joint {S : Finset Addr} :
    (n.activate ⟨.joint, V, W⟩ W).wonBy S = true ↔
      (n.activate ⟨.joint, V, W⟩ W).Half S V ∧ (n.activate ⟨.joint, V, W⟩ W).Half S W :=
  quorumFor_joint

theorem wonBy_activate_stable {S : Finset Addr} :
    (n.activate ⟨.stable, W, []⟩ W).wonBy S = true ↔ (n.activate ⟨.stable, W, []⟩ W).Half S W :=
  quorumFor_stable

theorem Half.halves {SX SY : Finset Addr} {L : List Addr} (hX : n.Half SX L) (hY : m.Half SY L)
    (hdis : ∀ v ∈ SX, v ∉ SY) :
    HalfOf SX L ∧ (∀ v ∈ L, v ∈ SX → v ∈ n.allClients) ∧ ∀ v ∈ L, v ∈ SY → v ∈ m.allClients := by
  have hdis' : ∀ v ∈ SY, v ∉ SX := fun v hv hvX => hdis v hvX hv
  have hin : ∀ {k : RaftNode} {S : Finset Addr} {v : Addr},
      decide (v ∈ k.allClients.filter (· ∈ S)) = true → v ∈ k.allClients ∧ v ∈ S := by
    simp
  obtain ⟨hhalf, hx⟩ := halfOf_of_votes (fun v h => (hin h).2)
    (fun v h => hdis' v (hin h).2) hX hY
  obtain ⟨-, hy⟩ := halfOf_of_votes (fun v h => (hin h).2) (fun v h => hdis v (hin h).2) hY hX
  exact ⟨hhalf, fun v hv hvX => (hin (hx v hv hvX)).1, fun v hv hvY => (hin (hy v hv hvY)).1⟩

theorem half_of_halfOf {A : Finset Addr} {L : List Addr} (h : HalfOf A L)
    (hall : ∀ v ∈ L, v ∈ n.allClients) : n.Half A L := by
  have hcount : (L.countP fun addr => decide (addr ∈ n.allClients.filter (· ∈ A))) =
      L.countP (· ∈ A) :=
    List.countP_congr fun v hv => by simp [hall v hv]
  unfold Half
  rw [hcount]
  exact h.symm.le

theorem half_of_halfOf_compl {A S : Finset Addr} {L : List Addr} (h : HalfOf A L)
    (hall : ∀ v ∈ L, v ∈ n.allClients) (hS : ∀ v ∈ L, v ∈ S ↔ v ∉ A) : n.Half S L :=
  h.rest fun v hv => by simp [hall v hv, hS v hv]

end RaftNode

section Change

variable {n m : RaftNode} {x y : Addr} {V W : List Addr}

open RaftNode

/-- The nodes outside `A`, with `y` among them. -/
def otherSide (y : Addr) (A : Finset Addr) (L : List Addr) : Finset Addr :=
  insert y (L.toFinset \ A)

theorem mem_otherSide {A : Finset Addr} {L : List Addr} (hy : y ∉ A) {v : Addr} (hv : v ∈ L) :
    v ∈ otherSide y A L ↔ v ∉ A := by
  rw [otherSide, Finset.mem_insert, Finset.mem_sdiff, List.mem_toFinset]
  constructor
  · rintro (rfl | ⟨-, h⟩)
    · exact hy
    · exact h
  · exact fun h => .inr ⟨hv, h⟩

theorem disjoint_otherSide {A : Finset Addr} {L : List Addr} (hy : y ∉ A) :
    ¬∃ v, v ∈ A ∧ v ∈ otherSide y A L := by
  rintro ⟨v, hA, hv⟩
  rcases Finset.mem_insert.mp hv with rfl | hv
  · exact hy hA
  · exact (Finset.mem_sdiff.mp hv).2 hA

theorem RaftNode.Dials.all (hx : n.Dials x V) (hcount : ¬n.Uncounted x V W) {cfg : ClusterConfig}
    {v : Addr} (hv : v ∈ V ++ W) : v ∈ (n.activate cfg W).allClients := by
  rw [mem_activate_allClients hx.1]
  rcases List.mem_append.mp hv with hvV | hvW
  · rcases eq_or_ne v x with rfl | hne
    · by_contra hno
      rw [not_or] at hno
      exact hcount ⟨hvV, hno.2, hno.1⟩
    · exact .inl (hx.2 v hvV hne)
  · exact .inr hvW

theorem meet_joint_iff (hx : n.Dials x V) (hy : m.Dials y V) :
    Meet x y (n.activate ⟨.joint, V, W⟩ W) (m.activate ⟨.joint, V, W⟩ W) ↔
      n.Uncounted x V W ∨ m.Uncounted y V W ∨ ¬Splits V W x y := by
  constructor
  · intro hmeet
    by_contra hno
    simp only [not_or, not_not] at hno
    obtain ⟨hcx, hcy, A, hxA, hyA, hAV, hAW⟩ := hno
    refine disjoint_otherSide hyA (hmeet A (otherSide y A (V ++ W)) hxA
      (Finset.mem_insert_self _ _) (wonBy_activate_joint.mpr ⟨?_, ?_⟩)
      (wonBy_activate_joint.mpr ⟨?_, ?_⟩))
    · exact half_of_halfOf hAV fun v hv => hx.all hcx (List.mem_append_left W hv)
    · exact half_of_halfOf hAW fun v hv => hx.all hcx (List.mem_append_right V hv)
    · exact half_of_halfOf_compl hAV (fun v hv => hy.all hcy (List.mem_append_left W hv))
        fun v hv => mem_otherSide hyA (List.mem_append_left W hv)
    · exact half_of_halfOf_compl hAW (fun v hv => hy.all hcy (List.mem_append_right V hv))
        fun v hv => mem_otherSide hyA (List.mem_append_right V hv)
  · intro hor SX SY hxS hyS hX hY
    by_contra hdis
    have hdis' : ∀ v ∈ SX, v ∉ SY := fun v hvX hvY => hdis ⟨v, hvX, hvY⟩
    obtain ⟨hXV, hXW⟩ := wonBy_activate_joint.mp hX
    obtain ⟨hYV, hYW⟩ := wonBy_activate_joint.mp hY
    obtain ⟨hAV, hxV, hyV⟩ := hXV.halves hYV hdis'
    obtain ⟨hAW, -, -⟩ := hXW.halves hYW hdis'
    rcases hor with ⟨hV, hW, hno⟩ | ⟨hV, hW, hno⟩ | hsplit
    · rcases (mem_activate_allClients hx.1).mp (hxV x hV hxS) with h | h
      · exact hno h
      · exact hW h
    · rcases (mem_activate_allClients hy.1).mp (hyV y hV hyS) with h | h
      · exact hno h
      · exact hW h
    · exact hsplit ⟨SX, hxS, fun h => hdis' y h hyS, hAV, hAW⟩

theorem meet_stable_iff (hx : n.peers.isSome = true) (hy : m.peers.isSome = true) :
    Meet x y (n.activate ⟨.stable, W, []⟩ W) (m.activate ⟨.stable, W, []⟩ W) ↔
      ¬Splits W W x y := by
  have hall : ∀ {k : RaftNode}, k.peers.isSome = true → ∀ v ∈ W,
      v ∈ (k.activate ⟨.stable, W, []⟩ W).allClients :=
    fun hk v hv => (mem_activate_allClients hk).mpr (.inr hv)
  constructor
  · rintro hmeet ⟨A, hxA, hyA, hAW, -⟩
    refine disjoint_otherSide hyA (hmeet A (otherSide y A W) hxA
      (Finset.mem_insert_self _ _) (wonBy_activate_stable.mpr ?_) (wonBy_activate_stable.mpr ?_))
    · exact half_of_halfOf hAW (hall hx)
    · exact half_of_halfOf_compl hAW (hall hy) fun v hv => mem_otherSide hyA hv
  · intro hsplit SX SY hxS hyS hX hY
    by_contra hdis
    have hdis' : ∀ v ∈ SX, v ∉ SY := fun v hvX hvY => hdis ⟨v, hvX, hvY⟩
    obtain ⟨hAW, -, -⟩ :=
      (wonBy_activate_stable.mp hX).halves (wonBy_activate_stable.mp hY) hdis'
    exact hsplit ⟨SX, hxS, fun h => hdis' y h hyS, hAW, hAW⟩

variable [Codec]

/-- **When quorums intersect.**  `leader` proposes the voters `W`.  The nodes at
`x` and `y` apply the joint entry in the states `n` and `m` and, later, the stable
entry in the states `n'` and `m'`. -/
theorem quorums_intersect_iff (leader n m n' m' : RaftNode) (x y : Addr)
    (joint stable : LogEntry) (hV : leader.clusterConfig.voters = V)
    (hjoint : joint.data = Codec.marshalConfig ⟨"joint", leader.clusterConfig.voters, W⟩)
    (hstable : stable.data = Codec.marshalConfig ⟨"stable", W, []⟩)
    (hparse : ∀ p : ConfigChangePayload, p = ⟨"joint", V, W⟩ ∨ p = ⟨"stable", W, []⟩ →
      Codec.unmarshalConfig (Codec.marshalConfig p) = some p)
    (hx : n.Dials x V) (hy : m.Dials y V)
    (hx' : n'.peers.isSome = true) (hy' : m'.peers.isSome = true) :
    (Meet x y (n.applyConfigEntry joint) (m.applyConfigEntry joint) ↔
      n.Uncounted x V W ∨ m.Uncounted y V W ∨ ¬Splits V W x y) ∧
    (Meet x y (n'.applyConfigEntry stable) (m'.applyConfigEntry stable) ↔ ¬Splits W W x y) ∧
    (V.Nodup → W.Nodup → (Splits V W x y ↔ x ≠ y ∧ Even V.length ∧ Even W.length ∧
      ¬Replaces V W x y ∧ ¬Replaces V W y x) ∧ (Splits W W x y ↔ x ≠ y ∧ Even W.length)) := by
  have hpj : Codec.unmarshalConfig joint.data = some ⟨"joint", V, W⟩ := by
    rw [hjoint, hV]
    exact hparse _ (.inl rfl)
  have hps : Codec.unmarshalConfig stable.data = some ⟨"stable", W, []⟩ := by
    rw [hstable]
    exact hparse _ (.inr rfl)
  refine ⟨?_, ?_, fun hnV hnW => ⟨splits_iff hnV hnW, splits_self_iff hnW⟩⟩
  · rw [applyConfigEntry_joint hpj, applyConfigEntry_joint hpj]
    exact meet_joint_iff hx hy
  · rw [applyConfigEntry_stable hps, applyConfigEntry_stable hps]
    exact meet_stable_iff hx' hy'

end Change

/-! ### Removing one node of four -/

/-- A codec that knows the two entries of the change from `b`, `c`, `d` to `b`,
`c`. -/
abbrev Codec.removing : Codec :=
  .ofTexts [] [⟨"joint", ["b", "c", "d"], ["b", "c"]⟩, ⟨"stable", ["b", "c"], []⟩]

section

local instance removingCodec : Codec := Codec.removing

/-- A node of the cluster `a`, `b`, `c`, `d` that has just started. -/
def memberOfFour (id : NodeID) : RaftNode :=
  .newRaftNode id (some (["a", "b", "c", "d"].erase id)) none none

/-- The two entries the leader `a` appends to remove `d`. -/
def removeJoint : LogEntry :=
  ⟨1, 1, entryTypeConfig,
    Codec.marshalConfig ⟨"joint", (memberOfFour "a").clusterConfig.voters, ["b", "c"]⟩⟩

def removeStable : LogEntry :=
  ⟨2, 1, entryTypeConfig, Codec.marshalConfig ⟨"stable", ["b", "c"], []⟩⟩

/-- **A quorum of one.**  After `d` has been removed, `b` and `c` have dialled
themselves and are elected by nobody else. -/
theorem removed_voter_splits :
    ¬Meet "b" "c" (((memberOfFour "b").applyConfigEntry removeJoint).applyConfigEntry removeStable)
      (((memberOfFour "c").applyConfigEntry removeJoint).applyConfigEntry removeStable) := by
  intro hmeet
  obtain ⟨v, hb, hc⟩ := hmeet {"b"} {"c"} (Finset.mem_singleton_self _)
    (Finset.mem_singleton_self _) (by decide) (by decide)
  rw [Finset.mem_singleton] at hb hc
  exact absurd (hb.symm.trans hc) (by decide)

/-- With three voters in the old list, the joint configuration is safe. -/
theorem removed_voter_joint :
    Meet "b" "c" ((memberOfFour "b").applyConfigEntry removeJoint)
      ((memberOfFour "c").applyConfigEntry removeJoint) := by
  have h := quorums_intersect_iff (memberOfFour "a") (memberOfFour "b") (memberOfFour "c")
    (memberOfFour "b") (memberOfFour "c") "b" "c" removeJoint removeStable
    (V := ["b", "c", "d"]) (W := ["b", "c"]) rfl rfl rfl
    (by rintro p (rfl | rfl) <;> rfl) ⟨rfl, by decide⟩ ⟨rfl, by decide⟩ rfl rfl
  refine h.1.mpr (.inr (.inr fun hs => ?_))
  have heven := ((h.2.2 (by decide) (by decide)).1.mp hs).2.1
  exact absurd heven (by decide)

end

end Raft
