/-
CoreX/Lib/Run.lean

Runs of a deterministic, labelled step function.  A system is a function
`step : σ → α → Option σ`: the label `a` names which atomic section runs next
(and with which input), `none` says that the section is not enabled.

`Runs step ok` relates two states when some finite sequence of steps leads from
the first to the second and every step of it meets the side condition `ok`,
which sees the state before the step and the label.  Every theorem about "all
runs in which ..." is a statement about `Runs`; the rules below reduce it to
statements about one step.  `exists_done` is the rule for runs that come to an end.

`Visits` keeps the states on the way, for conditions on a whole run, and
`withHistory` adds a record of the past that no step looks at.  `exec` runs a
concrete list of labels, so that a given run can be evaluated.
-/
import Mathlib.Logic.Relation

namespace StepSystem

variable {σ α : Type*}

/-- One step of the system under the side condition `ok`. -/
def StepOk (step : σ → α → Option σ) (ok : σ → α → Prop) (s s' : σ) : Prop :=
  ∃ a, step s a = some s' ∧ ok s a

/-- `Runs step ok s s'`: a finite run from `s` to `s'` whose steps all meet
`ok`. -/
def Runs (step : σ → α → Option σ) (ok : σ → α → Prop) : σ → σ → Prop :=
  Relation.ReflTransGen (StepOk step ok)

variable {step : σ → α → Option σ} {ok ok' : σ → α → Prop} {s s' s'' : σ}

namespace Runs

theorem refl (s : σ) : Runs step ok s s := Relation.ReflTransGen.refl

theorem trans (h : Runs step ok s s') (h' : Runs step ok s' s'') :
    Runs step ok s s'' :=
  Relation.ReflTransGen.trans h h'

theorem tail {a : α} (h : Runs step ok s s') (ha : step s' a = some s'')
    (hok : ok s' a) : Runs step ok s s'' :=
  Relation.ReflTransGen.tail h ⟨a, ha, hok⟩

theorem weaken (hw : ∀ s a, ok s a → ok' s a) (h : Runs step ok s s') :
    Runs step ok' s s' := by
  induction h with
  | refl => exact Relation.ReflTransGen.refl
  | tail _ hstep ih =>
    obtain ⟨a, ha, hok⟩ := hstep
    exact Relation.ReflTransGen.tail ih ⟨a, ha, hw _ _ hok⟩

theorem invariant {P : σ → Prop}
    (hP : ∀ s a s', P s → step s a = some s' → ok s a → P s')
    (h : Runs step ok s s') (h0 : P s) : P s' := by
  induction h with
  | refl => exact h0
  | tail _ hstep ih =>
    obtain ⟨a, ha, hok⟩ := hstep
    exact hP _ a _ ih ha hok

theorem relates {P : σ → Prop} {R : σ → σ → Prop}
    (hP : ∀ s a s', P s → step s a = some s' → ok s a → P s')
    (hrefl : ∀ s, R s s) (htrans : ∀ a b c, R a b → R b c → R a c)
    (hR : ∀ s a s', P s → step s a = some s' → ok s a → R s s')
    (h : Runs step ok s s') (h0 : P s) : R s s' := by
  induction h with
  | refl => exact hrefl _
  | tail hrun hstep ih =>
    obtain ⟨a, ha, hok⟩ := hstep
    have hb := invariant hP hrun h0
    exact htrans _ _ _ ih (hR _ a _ hb ha hok)

end Runs

/-! ### Runs that end -/

variable {P : σ → Prop} (as : List α)

theorem exists_done {R : σ → σ → Prop} {done : σ → Prop} (m : σ → Nat)
    (hstep : ∀ s s', P s → R s s' → P s' ∧ m s' < m s) (hgo : ∀ s, P s → done s ∨ ∃ s', R s s')
    (h : P s) :
    ∃ s', Relation.ReflTransGen R s s' ∧ P s' ∧ done s' := by
  induction hm : m s using Nat.strongRecOn generalizing s with
  | ind k ih =>
    rcases hgo s h with hdone | ⟨s₁, hs₁⟩
    · exact ⟨s, .refl, h, hdone⟩
    · obtain ⟨h₁, hlt⟩ := hstep s s₁ h hs₁
      obtain ⟨s', hrun, hend⟩ := ih (m s₁) (hm ▸ hlt) h₁ rfl
      exact ⟨s', hrun.head hs₁, hend⟩

/-! ### The states a run visits -/

/-- `Visits step ok s ss`: `ss` lists the states of a run from `s`, the latest
first. -/
inductive Visits (step : σ → α → Option σ) (ok : σ → α → Prop) (s : σ) : List σ → Prop
  | start : Visits step ok s [s]
  | next {u v : σ} {us : List σ} {a : α} (h : Visits step ok s (u :: us))
      (ha : step u a = some v) (hok : ok u a) : Visits step ok s (v :: u :: us)

/-! ### A record of the past -/

/-- The system with a history variable: `next` updates it, no step reads it. -/
def withHistory {γ : Type*} (step : σ → α → Option σ) (next : σ → α → γ → γ) :
    σ × γ → α → Option (σ × γ) :=
  fun x a => (step x.1 a).map fun s' => (s', next x.1 a x.2)

theorem Runs.withHistory {γ : Type*} (next : σ → α → γ → γ) (h : Runs step ok s s') (g : γ) :
    ∃ g', Runs (withHistory step next) (fun x a => ok x.1 a) (s, g) (s', g') := by
  induction h with
  | refl => exact ⟨g, Runs.refl _⟩
  | tail _ hstep ih =>
    obtain ⟨g', hrun⟩ := ih
    obtain ⟨a, ha, hok⟩ := hstep
    exact ⟨_, hrun.tail (a := a) (by rw [StepSystem.withHistory, ha]; rfl) hok⟩

/-! ### Evaluating a given run -/

/-- Run a list of labels; `none` as soon as a step is not enabled or not
admitted. -/
def exec (step : σ → α → Option σ) (ok : σ → α → Prop) [∀ s a, Decidable (ok s a)] :
    σ → List α → Option σ
  | s, [] => some s
  | s, a :: as => if ok s a then (step s a).bind fun s' => exec step ok s' as else none

/-- The states of that run, the latest first, in front of the earlier states `us`. -/
def trace (step : σ → α → Option σ) (ok : σ → α → Prop) [∀ s a, Decidable (ok s a)] :
    List σ → σ → List α → Option (σ × List σ)
  | us, s, [] => some (s, us)
  | us, s, a :: as =>
      if ok s a then (step s a).bind fun s' => trace step ok (s :: us) s' as else none

theorem Visits.of_trace [∀ s a, Decidable (ok s a)] {us : List σ} {as : List α} {r : σ × List σ}
    (h : Visits step ok s (s' :: us)) (ht : trace step ok us s' as = some r) :
    Visits step ok s (r.1 :: r.2) := by
  induction as generalizing s' us with
  | nil =>
    simp only [trace, Option.some.injEq] at ht
    exact ht ▸ h
  | cons a as ih =>
    simp only [trace] at ht
    split at ht
    · next hok =>
      rw [Option.bind_eq_some_iff] at ht
      obtain ⟨s₁, ha, hrest⟩ := ht
      exact ih (h.next ha hok) hrest
    · exact absurd ht (by simp)

theorem Runs.of_exec [∀ s a, Decidable (ok s a)] {as : List α}
    (h : exec step ok s as = some s') : Runs step ok s s' := by
  induction as generalizing s with
  | nil =>
    simp only [exec, Option.some.injEq] at h
    exact h ▸ Runs.refl s
  | cons a as ih =>
    simp only [exec] at h
    split at h
    · next hok =>
      rw [Option.bind_eq_some_iff] at h
      obtain ⟨s₁, ha, hrest⟩ := h
      exact Relation.ReflTransGen.head ⟨a, ha, hok⟩ (ih hrest)
    · exact absurd h (by simp)

theorem exists_of_any {o : Option σ} [DecidablePred P] (h : (o.any fun s => decide (P s)) = true) :
    ∃ s, o = some s ∧ P s := by
  cases o with
  | none => cases h
  | some s => exact ⟨s, rfl, of_decide_eq_true h⟩

theorem Runs.exists_of_exec [∀ s a, Decidable (ok s a)] [DecidablePred P]
    (h : ((exec step ok s as).any fun s' => decide (P s')) = true) :
    ∃ s', Runs step ok s s' ∧ P s' := by
  obtain ⟨s', hs', hP⟩ := exists_of_any h
  exact ⟨s', .of_exec hs', hP⟩

theorem Runs.exists_and_of_exec [∀ s a, Decidable (ok s a)] {Q : σ → Prop} [DecidablePred P]
    (h : ((exec step ok s as).any fun s' => decide (P s')) = true)
    (hQ : ∀ s', Runs step ok s s' → P s' → Q s') : ∃ s', Runs step ok s s' ∧ P s' ∧ Q s' := by
  obtain ⟨s', hs', hP⟩ := exists_of_exec as h
  exact ⟨s', hs', hP, hQ s' hs' hP⟩

theorem Runs.exists_of_execs [∀ s a, Decidable (ok s a)] [∀ s a, Decidable (ok' s a)]
    {P : σ → σ → Prop} [∀ s s', Decidable (P s s')] (bs : List α)
    (h : ((exec step ok s as).any fun s₁ => (exec step ok' s₁ bs).any fun s₂ =>
      decide (P s₁ s₂)) = true) :
    ∃ s₁ s₂, Runs step ok s s₁ ∧ Runs step ok' s₁ s₂ ∧ P s₁ s₂ := by
  obtain ⟨s₁, h₁, h'⟩ := exists_of_any (P := fun s₁ => ((exec step ok' s₁ bs).any fun s₂ =>
    decide (P s₁ s₂)) = true) (by simpa using h)
  obtain ⟨s₂, h₂, hP⟩ := exists_of_any h'
  exact ⟨s₁, s₂, .of_exec h₁, .of_exec h₂, hP⟩

theorem Runs.exists_and_of_execs [∀ s a, Decidable (ok s a)] [∀ s a, Decidable (ok' s a)]
    {P Q : σ → σ → Prop} [∀ s s', Decidable (P s s')] (bs : List α)
    (h : ((exec step ok s as).any fun s₁ => (exec step ok' s₁ bs).any fun s₂ =>
      decide (P s₁ s₂)) = true)
    (hQ : ∀ s₁ s₂, Runs step ok s s₁ → Runs step ok' s₁ s₂ → P s₁ s₂ → Q s₁ s₂) :
    ∃ s₁ s₂, Runs step ok s s₁ ∧ Runs step ok' s₁ s₂ ∧ P s₁ s₂ ∧ Q s₁ s₂ := by
  obtain ⟨s₁, s₂, h₁, h₂, hP⟩ := exists_of_execs as bs h
  exact ⟨s₁, s₂, h₁, h₂, hP, hQ s₁ s₂ h₁ h₂ hP⟩

theorem Visits.exists_of_trace [∀ s a, Decidable (ok s a)] {P : σ → List σ → Prop}
    [∀ x us, Decidable (P x us)]
    (h : ((trace step ok [] s as).any fun r => decide (P r.1 r.2)) = true) :
    ∃ x us, Visits step ok s (x :: us) ∧ P x us := by
  obtain ⟨r, hr, hP⟩ := exists_of_any h
  exact ⟨r.1, r.2, Visits.start.of_trace hr, hP⟩

end StepSystem
