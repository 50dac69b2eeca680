/-
CoreX/Lib/Replay.lean

Replaying point writes into a map.  `op e` is what the item `e` does: nothing, or
one key gets a value or loses it.  `run op m l` is the map after the items of `l`.

A write covers all earlier ones of its key, so a map is not changed by replaying
once more what it ends with: `run_absorb`.  `stateAt op l i` is the map after the
first `i` items of a log.  `Lists l m` says that `l` goes through the entries of `m`, and
`run_lists` that they are all of it.
-/
import Mathlib.Data.List.Basic
import Mathlib.Data.List.Induction
import Mathlib.Logic.Function.Basic

namespace Replay

variable {κ ν ε : Type*} [DecidableEq κ] (op : ε → Option (κ × Option ν))

/-- One item. -/
def act (m : κ → Option ν) (e : ε) : κ → Option ν :=
  match op e with
  | none => m
  | some (k, v) => Function.update m k v

/-- The items of a list, in their order. -/
def run (m : κ → Option ν) (l : List ε) : κ → Option ν := l.foldl (act op) m

variable {op} {m m' : κ → Option ν} {l l₁ l₂ : List ε} {e : ε} {k : κ}

@[simp] theorem run_nil : run op m [] = m := rfl

theorem run_cons : run op m (e :: l) = run op (act op m e) l := rfl

theorem run_append : run op m (l₁ ++ l₂) = run op (run op m l₁) l₂ := List.foldl_append

theorem run_concat : run op m (l ++ [e]) = act op (run op m l) e := by
  rw [run_append]
  rfl

theorem act_of_none (h : op e = none) : act op m e = m := by
  rw [act, h]

/-- The item writes some other key, or none. -/
def Spares (op : ε → Option (κ × Option ν)) (k : κ) (e : ε) : Prop := ∀ v, op e ≠ some (k, v)

theorem act_of_spares (h : Spares op k e) : act op m e k = m k := by
  rcases hop : op e with - | ⟨k', v⟩
  · rw [act_of_none hop]
  · have hne : k ≠ k' := by
      rintro rfl
      exact h v hop
    simp only [act, hop]
    exact Function.update_of_ne hne _ _

theorem run_of_spares (h : ∀ e ∈ l, Spares op k e) : run op m l k = m k := by
  induction l generalizing m with
  | nil => rfl
  | cons e l ih =>
    rw [run_cons, ih fun e' he' => h e' (List.mem_cons_of_mem e he'),
      act_of_spares (h e List.mem_cons_self)]

theorem run_congr (h : ∀ k, (∀ e ∈ l, Spares op k e) → m k = m' k) : run op m l = run op m' l := by
  induction l generalizing m m' with
  | nil =>
    funext k
    exact h k fun e he => absurd he List.not_mem_nil
  | cons e l ih =>
    apply ih
    intro k hk
    by_cases hspare : Spares op k e
    · rw [act_of_spares hspare, act_of_spares hspare]
      apply h
      intro e' he'
      rcases List.mem_cons.mp he' with rfl | he'
      · exact hspare
      · exact hk e' he'
    · -- `e` writes the key, the same value in both maps
      obtain ⟨v, hv⟩ := not_forall.mp hspare
      have hop : op e = some (k, v) := not_not.mp hv
      simp only [act, hop, Function.update_self]

theorem run_absorb : run op (run op m (l₁ ++ l₂)) l₂ = run op m (l₁ ++ l₂) := by
  rw [run_append]
  apply run_congr
  intro k hk
  exact run_of_spares hk

/-! ### The state at an index -/

/-- The map after the first `i` items. -/
def stateAt (op : ε → Option (κ × Option ν)) (l : List ε) (i : Nat) : κ → Option ν :=
  run op (fun _ => none) (l.take i)

theorem stateAt_succ {i : Nat} (h : l[i]? = some e) :
    stateAt op l (i + 1) = act op (stateAt op l i) e := by
  rw [stateAt, List.take_add_one, h]
  exact run_concat

theorem stateAt_skip {i j : Nat} (hij : i ≤ j)
    (h : ∀ n e, i ≤ n → n < j → l[n]? = some e → op e = none) :
    stateAt op l j = stateAt op l i := by
  induction j with
  | zero =>
    rw [Nat.le_zero.mp hij]
  | succ j ih =>
    rcases Nat.lt_or_ge j i with hlt | hge
    · rw [show i = j + 1 by omega]
    have ih' := ih hge fun n e hi hj he => h n e hi (by omega) he
    rcases hn : l[j]? with - | e
    · rw [← ih', stateAt, stateAt, List.take_of_length_le (by
        have := List.getElem?_eq_none_iff.mp hn
        omega), List.take_of_length_le (List.getElem?_eq_none_iff.mp hn)]
    · rw [stateAt_succ hn, act_of_none (h j e hge (by omega) hn), ih']

theorem run_piece {i j k : Nat} (hij : i ≤ j) (hjk : j ≤ k) :
    run op (stateAt op l j) ((l.take k).drop i) = stateAt op l k := by
  have hsplit : ∀ {a b : Nat}, a ≤ b → l.take b = l.take a ++ (l.take b).drop a := by
    intro a b hab
    conv_lhs => rw [← List.take_append_drop a (l.take b), List.take_take, Nat.min_eq_left hab]
  have hpiece : (l.take k).drop i = (l.take j).drop i ++ (l.take k).drop j := by
    have h : l.take i ++ (l.take k).drop i =
        l.take i ++ ((l.take j).drop i ++ (l.take k).drop j) := by
      rw [← hsplit (Nat.le_trans hij hjk), ← List.append_assoc, ← hsplit hij]
      exact hsplit hjk
    exact List.append_cancel_left h
  calc run op (stateAt op l j) ((l.take k).drop i)
      = run op (run op (run op (fun _ => none) (l.take i ++ (l.take j).drop i))
          ((l.take j).drop i)) ((l.take k).drop j) := by
        rw [hpiece, run_append, stateAt, ← hsplit hij]
    _ = run op (run op (fun _ => none) (l.take j)) ((l.take k).drop j) := by
        rw [run_absorb, ← hsplit hij]
    _ = stateAt op l k := by
        rw [← run_append, ← hsplit hjk, stateAt]

theorem stateAt_of_last {n j : Nat} {v : Option ν} (hn : l[n]? = some e) (hop : op e = some (k, v))
    (hlt : n < j) (h : ∀ m x, n < m → m < j → l[m]? = some x → Spares op k x) :
    stateAt op l j k = v := by
  rw [← run_piece (Nat.le_refl (n + 1)) hlt, run_of_spares, stateAt_succ hn, act, hop]
  · exact Function.update_self ..
  · intro x hx
    obtain ⟨m, hm⟩ := List.getElem?_of_mem hx
    rw [List.getElem?_drop, List.getElem?_take] at hm
    split at hm
    · next hmj => exact h (n + 1 + m) x (by omega) hmj hm
    · cases hm

/-! ### Listing a map -/

/-- The pairs of `l` are the entries of the map `m`, each once, in some order. -/
structure Lists (l : List (κ × ν)) (m : κ → Option ν) : Prop where
  nodup : (l.map Prod.fst).Nodup
  mem_iff : ∀ k v, (k, v) ∈ l ↔ m k = some v

/-- What a pair writes. -/
def write (p : κ × ν) : Option (κ × Option ν) := some (p.1, some p.2)

theorem run_lists {l : List (κ × ν)} (h : Lists l m) :
    run write (fun _ => none) l = m := by
  funext k
  rcases hk : m k with - | v
  · rw [run_of_spares]
    rintro ⟨k', v⟩ he w hw
    obtain ⟨rfl, -⟩ := Prod.mk.inj (Option.some.inj hw)
    rw [(h.mem_iff k' v).mp he] at hk
    cases hk
  · -- no later pair has the key
    obtain ⟨l₁, l₂, rfl⟩ := List.append_of_mem ((h.mem_iff k v).mpr hk)
    have hnodup := h.nodup
    rw [List.map_append, List.map_cons, List.nodup_append, List.nodup_cons] at hnodup
    rw [run_append, run_cons, run_of_spares]
    · exact Function.update_self ..
    · rintro ⟨k', w⟩ he x hx
      obtain ⟨rfl, -⟩ := Prod.mk.inj (Option.some.inj hx)
      exact hnodup.2.1.1 (List.mem_map.mpr ⟨_, he, rfl⟩)

omit [DecidableEq κ] in
theorem Lists.perm {l l' : List (κ × ν)} (h : Lists l m) (hp : l.Perm l') : Lists l' m :=
  ⟨(hp.map Prod.fst).nodup_iff.mp h.nodup, fun k v => hp.mem_iff.symm.trans (h.mem_iff k v)⟩

theorem lists_run {l : List (κ × ν)} (h : (l.map Prod.fst).Nodup) :
    Lists l (run write (fun _ => none) l) := by
  refine ⟨h, fun k v => ?_⟩
  induction l using List.reverseRecOn with
  | nil => simp
  | append_singleton l p ih =>
    rw [List.map_append, List.map_singleton, List.nodup_append] at h
    have hnew : ∀ w, (p.1, w) ∉ l := fun w hw =>
      h.2.2 p.1 (List.mem_map.mpr ⟨_, hw, rfl⟩) p.1 (List.mem_singleton_self _) rfl
    have hrun : run write (fun _ => none) (l ++ [p]) =
        Function.update (run write (fun _ => none) l) p.1 (some p.2) := run_concat
    rw [hrun, List.mem_append, List.mem_singleton]
    rcases eq_or_ne k p.1 with rfl | hne
    · rw [Function.update_self]
      simp only [hnew, false_or, Option.some.injEq]
      exact ⟨fun hp => congrArg Prod.snd hp.symm, fun hp => Prod.ext rfl hp.symm⟩
    · rw [Function.update_of_ne hne, ← ih h.1]
      refine ⟨fun hp => hp.resolve_right fun heq => hne (congrArg Prod.fst heq), .inl⟩

end Replay
