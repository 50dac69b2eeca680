/-
CoreX/Storage/Landed.lean

One event among concurrent writers.  Between the two sections of its `WriteEvent` it is
`Placed`: the last event of its source in the file, unless another one has been appended
behind it.  After them it is `Landed`: the index leads to it as well.  Both are kept by
whatever the writers do next, if `Set` does not move the index back, and by a restart; and
`Get` reads what has landed, until it is overtaken.
-/
import CoreX.Storage.Writers

namespace Kv.Writers

open Places Wal

variable [Crc32] {w w' : Writers} {es : List Event} {e : Event} {n offset : Nat}

/-- An event of the source was appended behind the `n`th. -/
def Overtaken (w : Writers) (source : List UInt8) (n : Nat) : Prop :=
  ∃ m x, n < m ∧ w.appended[m]? = some x ∧ x.source = source

omit [Crc32] in
theorem Overtaken.append {source : List UInt8} (h : w.Overtaken source n) {more : List Event}
    (happ : w'.appended = w.appended ++ more) : w'.Overtaken source n := by
  obtain ⟨m, x, hlt, hx, hsource⟩ := h
  refine ⟨m, x, hlt, ?_, hsource⟩
  rw [happ, List.getElem?_append_left (List.getElem?_eq_some_iff.mp hx).1]
  exact hx

/-- The `n`th event, at `offset` in the file, is the last of its source. -/
structure Placed (w : Writers) (es : List Event) (e : Event) (n offset : Nat) : Prop where
  bound : n < w.appended.length
  last : w.Overtaken e.source n ∨ latest (w.appended.map Event.kv) e.source = some e.payload ∧
    latest (offsets es) e.source = some offset

/-- And the index leads to it. -/
structure Landed (w : Writers) (es : List Event) (e : Event) (n offset : Nat) : Prop
    extends Placed w es e n offset where
  index : w.Overtaken e.source n ∨ w.store.index.get e.source = some offset

theorem placed_append (h : w.Inv es) (he : e.Proper) (now : UInt64)
    (happ : w'.appended = w.appended ++ [e]) :
    Placed w' (es ++ [{ e with receivedAt := now }]) e w.appended.length
      (w.store.writeEventOffset now e).1 where
  bound := by
    rw [happ, List.length_append]
    exact Nat.lt_succ_self _
  last := by
    refine .inr ⟨?_, ?_⟩
    · rw [happ, List.map_append, List.map_singleton, latest_concat]
      exact Function.update_self ..
    · rw [offsets_concat, latest_concat, (h.stored.writeEventOffset he now).1]
      exact Function.update_self ..

theorem Placed.append (h : Placed w es e n offset) {e' : Event} (now : UInt64)
    (happ : w'.appended = w.appended ++ [e']) :
    Placed w' (es ++ [{ e' with receivedAt := now }]) e n offset where
  bound := by
    have := h.bound
    rw [happ, List.length_append]
    omega
  last := by
    rcases h.last with hover | ⟨hkv, hoff⟩
    · exact .inl (hover.append happ)
    rcases eq_or_ne e'.source e.source with heq | hne
    · refine .inl ⟨w.appended.length, e', h.bound, ?_, heq⟩
      rw [happ, List.getElem?_concat_length]
    · refine .inr ⟨?_, ?_⟩
      · rw [happ, List.map_append, List.map_singleton, latest_concat]
        exact (Function.update_of_ne hne.symm _ _).trans hkv
      · rw [offsets_concat, latest_concat]
        exact (Function.update_of_ne hne.symm _ _).trans hoff

theorem Placed.frame (h : Placed w es e n offset) (happ : w'.appended = w.appended) :
    Placed w' es e n offset where
  bound := by
    rw [happ]
    exact h.bound
  last := by
    unfold Overtaken
    rw [happ]
    exact h.last

theorem Placed.land (h : Placed w es e n offset) (happ : w'.appended = w.appended)
    (hget : w'.store.index.get e.source = some offset) : Landed w' es e n offset :=
  { h.frame happ with index := .inr hget }

theorem Landed.append (h : Landed w es e n offset) {e' : Event} (now : UInt64)
    (happ : w'.appended = w.appended ++ [e']) (hidx : w'.store.index = w.store.index) :
    Landed w' (es ++ [{ e' with receivedAt := now }]) e n offset :=
  { h.toPlaced.append now happ with
    index := by
      rw [hidx]
      exact h.index.imp (fun hover => hover.append happ) id }

theorem Landed.setIndex (h : Landed w es e n offset) (hinv : w.Inv es) {source : List UInt8}
    {o : Nat} (hknown : w.Known source o) (hback : ∀ o' ∈ w.store.index.get source, o' ≤ o)
    (happ : w'.appended = w.appended)
    (hget : w'.store.index.get = Function.update w.store.index.get source (some o)) :
    Landed w' es e n offset := by
  refine { h.toPlaced.frame happ with index := ?_ }
  unfold Overtaken
  rw [happ, hget]
  rcases h.index with hover | hidx
  · exact .inl hover
  rcases h.last with hover | ⟨_, hoff⟩
  · exact .inl hover
  refine .inr ?_
  rcases eq_or_ne e.source source with heq | hne
  · subst heq
    obtain ⟨o', ho', hle⟩ := hinv.known hknown
    obtain rfl : o' = offset := Option.some.inj (ho'.symm.trans hoff)
    have := hback o' hidx
    rw [Function.update_self, Nat.le_antisymm hle this]
  · rw [Function.update_of_ne hne]
    exact hidx

theorem Landed.reopen (h : Landed w es e n offset) (happ : w'.appended = w.appended)
    (hidx : w'.store.IndexOf es) : Landed w' es e n offset := by
  refine { h.toPlaced.frame happ with index := ?_ }
  rcases h.last with hover | ⟨_, hoff⟩
  · refine .inl ?_
    unfold Overtaken
    rw [happ]
    exact hover
  · exact .inr ((congrFun hidx e.source).trans hoff)

theorem Landed.get (h : Landed w es e n offset) (hinv : w.Inv es)
    (hlast : ¬w.Overtaken e.source n) :
    (w.store.get e.source).map Event.kv = .ok (e.source, e.payload) := by
  obtain ⟨hkv, hoff⟩ := h.last.resolve_left hlast
  have hidx := h.index.resolve_left hlast
  rw [hinv.stored.get_key (hidx.trans hoff.symm), hinv.same, hkv]

theorem Inv.reopen (h : w.Inv es)
    (hcard : (w.appended.map Event.source).toFinset.card ≤ w.store.index.maxKeys) :
    ∃ store count, w.store.reopen = (store, count, none) ∧ store.IndexOf es ∧
      (⟨store, [], w.appended⟩ : Writers).Inv es := by
  have hsources := sources_of_latest h.same
  obtain ⟨store, count, hreopen, hstored, hidx, hmax⟩ :=
    h.stored.reopen (by rw [hsources]; exact hcard)
  have hget : store.index.get = latest (offsets es) := hidx
  refine ⟨store, count, hreopen, hidx, hstored, h.same, fun hl => .inl (hget ▸ hl), ?_, ?_⟩
  · rintro key o (hk | hk)
    · exact ⟨o, hget ▸ hk, Nat.le_refl o⟩
    · exact absurd hk List.not_mem_nil
  · have hkeys : store.index.keySet = (w.appended.map Event.source).toFinset := by
      rw [← hsources]
      ext key
      rw [hidx.mem_keySet, List.mem_toFinset]
    rw [hkeys, hmax]
    exact hcard

end Kv.Writers
