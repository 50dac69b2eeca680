/-
CoreX/Lib/Outputs.lean

A fold that also puts something out: `step` moves the state, `out` says what an item
puts out in the state it meets, if anything.  `outputs` lists what a whole list puts
out, `outputAt` what its `i`-th item does.

`outputs_rule` is the induction: a relation between a state and what has been put
out on the way to it is kept if every item keeps it.

The rest is about pieces of a list, and about keeping the newest items of a growing
one: trimming after every item is the same as trimming once, at the end.
-/
import Mathlib.Data.List.Induction
import Mathlib.Data.List.Range

namespace Outputs

/-! ### What a fold puts out -/

section

variable {σ ε β : Type*} (step : σ → ε → σ) (out : σ → ε → Option β)

/-- What the `i`-th item puts out. -/
def outputAt (s : σ) (l : List ε) (i : Nat) : Option β :=
  l[i]?.bind (out ((l.take i).foldl step s))

/-- What the items put out, in their order. -/
def outputs (s : σ) (l : List ε) : List β :=
  (List.range l.length).filterMap (outputAt step out s l)

variable {step out} {s : σ} {l l' : List ε} {e : ε} {i : Nat}

theorem outputAt_append (h : i < l.length) :
    outputAt step out s (l ++ l') i = outputAt step out s l i := by
  rw [outputAt, outputAt, List.getElem?_append_left h, List.take_append_of_le_length h.le]

theorem outputAt_length :
    outputAt step out s (l ++ [e]) l.length = out (l.foldl step s) e := by
  rw [outputAt, List.getElem?_concat_length, List.take_left]
  rfl

/-- One more item. -/
theorem outputs_concat :
    outputs step out s (l ++ [e]) = outputs step out s l ++ (out (l.foldl step s) e).toList := by
  have hold : (List.range l.length).filterMap (outputAt step out s (l ++ [e])) =
      outputs step out s l := by
    apply List.filterMap_congr
    intro i hi
    exact outputAt_append (List.mem_range.mp hi)
  rw [outputs, List.length_append, List.length_singleton, List.range_succ, List.filterMap_append,
    hold, List.filterMap_cons, outputAt_length]
  cases out (l.foldl step s) e <;> rfl

theorem outputs_append : outputs step out s (l ++ l') =
    outputs step out s l ++ outputs step out (l.foldl step s) l' := by
  induction l' using List.reverseRecOn with
  | nil => simp [outputs]
  | append_singleton l' e ih =>
    rw [← List.append_assoc, outputs_concat, ih, outputs_concat, List.foldl_append,
      List.append_assoc]

theorem outputs_rule {P : σ → List β → Prop} (h : P s [])
    (hstep : ∀ s bs e, P s bs → P (step s e) (bs ++ (out s e).toList)) (l : List ε) :
    P (l.foldl step s) (outputs step out s l) := by
  induction l using List.reverseRecOn with
  | nil => exact h
  | append_singleton l e ih =>
    rw [List.foldl_append, outputs_concat]
    exact hstep _ _ e ih

end

/-! ### Pieces of a list -/

theorem filterMap_range_getElem? {α : Type*} (l : List α) (a m : Nat) :
    ((List.range m).filterMap fun k => l[a + k]?) = (l.drop a).take m := by
  induction m with
  | zero => rfl
  | succ m ih =>
    rw [List.range_succ, List.filterMap_append, ih, List.take_add_one, List.getElem?_drop,
      List.filterMap_cons, List.filterMap_nil]
    cases l[a + m]? <;> rfl

/-! ### The newest items -/

section

variable {α : Type*} (r : Nat)

/-- The newest `r` items, all of them if `r` is `0`. -/
def newest (l : List α) : List α := if r = 0 then l else l.drop (l.length - r)

variable {r} {l : List α} {x : α}

theorem newest_nil : newest r ([] : List α) = [] := by
  unfold newest
  split <;> simp

theorem length_newest_le (h : 0 < r) : (newest r l).length ≤ r := by
  rw [newest, if_neg (by omega), List.length_drop]
  omega

theorem newest_suffix : newest r l <:+ l := by
  unfold newest
  split
  · exact List.suffix_rfl
  · exact List.drop_suffix _ _

theorem newest_concat : newest r (newest r l ++ [x]) = newest r (l ++ [x]) := by
  unfold newest
  split
  · rfl
  · next h =>
    rw [List.drop_append_of_le_length (by simp; omega),
      List.drop_append_of_le_length (by simp; omega), List.drop_drop]
    congr 2
    simp only [List.length_append, List.length_drop, List.length_singleton]
    omega

theorem newest_getLast? : (newest r l).getLast? = l.getLast? := by
  unfold newest
  split
  · rfl
  · next h =>
    rw [List.getLast?_drop]
    split
    · next hle =>
      have : l = [] := List.length_eq_zero_iff.mp (by omega)
      rw [this]
      rfl
    · rfl

theorem newest_eq :
    newest r l = l.drop (l.length - if r = 0 then l.length else min r l.length) := by
  unfold newest
  split
  · simp
  · congr 1
    omega

end

end Outputs
