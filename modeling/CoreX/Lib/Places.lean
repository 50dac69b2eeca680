/-
CoreX/Lib/Places.lean

Maps that are written one key at a time, and indexes that say where a value stands.

`latest kvs` is the map that the writes `kvs` leave behind: the last value of each
key.  An index leads to `spec` (`Leads Here get spec`) if it has a place for exactly
the keys of `spec`, and the value of the key stands there; `Here` says what that
means.  Setting and deleting a key in the index and in the map together keep this.
-/
import Mathlib.Data.List.Induction
import Mathlib.Logic.Function.Basic

namespace Places

variable {ι K V : Type*}

/-! ### The last value of each key -/

section Latest

variable [DecidableEq K]

/-- The map after the writes `kvs`. -/
def latest (kvs : List (K × V)) : K → Option V :=
  kvs.foldl (fun m p => Function.update m p.1 (some p.2)) fun _ => none

@[simp] theorem latest_nil : latest ([] : List (K × V)) = fun _ => none := rfl

theorem latest_concat (kvs : List (K × V)) (p : K × V) :
    latest (kvs ++ [p]) = Function.update (latest kvs) p.1 (some p.2) := by
  rw [latest, List.foldl_append]
  rfl

theorem latest_append (kvs more : List (K × V)) (k : K) :
    latest (kvs ++ more) k = (latest more k).or (latest kvs k) := by
  induction more using List.reverseRecOn with
  | nil => rw [List.append_nil, latest_nil, Option.none_or]
  | append_singleton more p ih =>
    rw [← List.append_assoc, latest_concat, latest_concat]
    rcases eq_or_ne k p.1 with rfl | hne
    · rw [Function.update_self, Function.update_self, Option.some_or]
    · rw [Function.update_of_ne hne, Function.update_of_ne hne, ih]

variable {kvs : List (K × V)}

theorem latest_isSome {k : K} :
    (latest kvs k).isSome ↔ k ∈ kvs.map Prod.fst := by
  induction kvs using List.reverseRecOn with
  | nil => simp
  | append_singleton kvs p ih =>
    rw [latest_concat, List.map_append, List.mem_append]
    rcases eq_or_ne k p.1 with rfl | hne
    · simp
    · rw [Function.update_of_ne hne, ih]
      simp [hne]

theorem latest_eq_none {k : K} :
    latest kvs k = none ↔ k ∉ kvs.map Prod.fst := by
  rw [← latest_isSome, Option.not_isSome_iff_eq_none]

theorem mem_of_latest {k : K} {v : V} (h : latest kvs k = some v) :
    (k, v) ∈ kvs := by
  induction kvs using List.reverseRecOn with
  | nil => cases h
  | append_singleton kvs p ih =>
    rw [latest_concat] at h
    rcases eq_or_ne k p.1 with rfl | hne
    · rw [Function.update_self] at h
      obtain rfl := Option.some.inj h
      exact List.mem_append_right _ List.mem_cons_self
    · rw [Function.update_of_ne hne] at h
      exact List.mem_append_left _ (ih h)

theorem latest_append_of_subset {more : List (K × V)}
    (h : ∀ k ∈ kvs.map Prod.fst, k ∈ more.map Prod.fst) : latest (kvs ++ more) = latest more := by
  funext k
  rw [latest_append]
  rcases hm : latest more k with - | v
  · rw [Option.none_or, latest_eq_none]
    exact fun hk => latest_eq_none.mp hm (h k hk)
  · rfl

theorem latest_graph (f : K → V) (ks : List K) (k : K) :
    latest (ks.map fun k => (k, f k)) k = if k ∈ ks then some (f k) else none := by
  induction ks using List.reverseRecOn with
  | nil => rfl
  | append_singleton ks x ih =>
    rw [List.map_append, List.map_singleton, latest_concat]
    rcases eq_or_ne k x with rfl | hne
    · simp
    · simp only [Function.update_of_ne hne, ih, List.mem_append, List.mem_singleton, hne, or_false]

theorem latest_eq_some (h : (kvs.map Prod.fst).Nodup) {k : K} {v : V} :
    latest kvs k = some v ↔ (k, v) ∈ kvs := by
  induction kvs using List.reverseRecOn with
  | nil => simp
  | append_singleton kvs p ih =>
    rw [List.map_append, List.map_singleton] at h
    obtain ⟨hkvs, -, hp⟩ := List.nodup_append.mp h
    rw [latest_concat, List.mem_append, List.mem_singleton]
    rcases eq_or_ne k p.1 with rfl | hne
    · rw [Function.update_self, Option.some.injEq]
      have hold : (p.1, v) ∉ kvs := fun hmem =>
        hp p.1 (List.mem_map.mpr ⟨_, hmem, rfl⟩) p.1 List.mem_cons_self rfl
      constructor
      · rintro rfl
        exact .inr rfl
      · rintro (hmem | heq)
        · exact absurd hmem hold
        · exact (congrArg Prod.snd heq).symm
    · rw [Function.update_of_ne hne, ih hkvs]
      constructor
      · exact .inl
      · rintro (hmem | heq)
        · exact hmem
        · exact absurd (congrArg Prod.fst heq) hne

theorem latest_perm {kvs' : List (K × V)} (hp : kvs.Perm kvs') (h : (kvs'.map Prod.fst).Nodup) :
    latest kvs = latest kvs' := by
  funext k
  refine Option.ext fun v => ?_
  rw [latest_eq_some h, latest_eq_some ((hp.map Prod.fst).nodup_iff.mpr h)]
  exact hp.mem_iff

end Latest

/-! ### Indexes -/

/-- For every key of `spec`, and no other, `get` has a place where its value stands. -/
def Leads (Here : ι → K → V → Prop) (get : K → Option ι) (spec : K → Option V) : Prop :=
  ∀ key, (get key = none ∧ spec key = none) ∨
    ∃ i v, get key = some i ∧ spec key = some v ∧ Here i key v

namespace Leads

variable {Here There : ι → K → V → Prop} {get : K → Option ι} {spec : K → Option V}

theorem mono (h : Leads Here get spec) (hsub : ∀ i k v, Here i k v → There i k v) :
    Leads There get spec := by
  intro key
  rcases h key with hnone | ⟨i, v, hget, hspec, hat⟩
  · exact .inl hnone
  · exact .inr ⟨i, v, hget, hspec, hsub i key v hat⟩

theorem isSome_iff (h : Leads Here get spec) (key : K) : (get key).isSome ↔ (spec key).isSome := by
  rcases h key with ⟨hget, hspec⟩ | ⟨i, v, hget, hspec, _⟩
  · rw [hget, hspec]
    simp
  · rw [hget, hspec]
    simp

theorem here (h : Leads Here get spec) {key : K} {i : ι} (hget : get key = some i) :
    ∃ v, spec key = some v ∧ Here i key v := by
  rcases h key with ⟨hnone, _⟩ | ⟨j, v, hj, hspec, hat⟩
  · rw [hnone] at hget
    cases hget
  · obtain rfl : j = i := Option.some.inj (hj.symm.trans hget)
    exact ⟨v, hspec, hat⟩

variable [DecidableEq K]

theorem set (h : Leads Here get spec) {key : K} {i : ι} {v : V} (hat : Here i key v) :
    Leads Here (Function.update get key (some i)) (Function.update spec key (some v)) := by
  intro k
  rcases eq_or_ne k key with rfl | hne
  · exact .inr ⟨i, v, Function.update_self .., Function.update_self .., hat⟩
  · rw [Function.update_of_ne hne, Function.update_of_ne hne]
    exact h k

theorem delete (h : Leads Here get spec) (key : K) :
    Leads Here (Function.update get key none) (Function.update spec key none) := by
  intro k
  rcases eq_or_ne k key with rfl | hne
  · exact .inl ⟨Function.update_self .., Function.update_self ..⟩
  · rw [Function.update_of_ne hne, Function.update_of_ne hne]
    exact h k

end Leads

end Places
