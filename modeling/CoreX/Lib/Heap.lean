/-
CoreX/Lib/Heap.lean

Objects that change hands.  A cell is an object with what its owner has put into it, and
`Owns heap n cells` says that the cells are right, that no object is in two of them, and
that the objects from `n` on are new.  So a cell may be passed on, dropped or written to
without regard to the others, in any order of the list.
-/
import Mathlib.Data.List.Nodup
import Mathlib.Data.List.Perm.Basic
import Mathlib.Logic.Function.Basic

namespace Heap

variable {V : Type*} {heap : Nat → V} {n p : Nat} {v v' : V} {cells cells' : List (Nat × V)}

structure Owns (heap : Nat → V) (n : Nat) (cells : List (Nat × V)) : Prop where
  nodup : (cells.map Prod.fst).Nodup
  holds : ∀ c ∈ cells, heap c.1 = c.2
  old : ∀ c ∈ cells, c.1 < n

namespace Owns

theorem perm (h : Owns heap n cells) (hp : cells.Perm cells') : Owns heap n cells' where
  nodup := (hp.map _).nodup_iff.mp h.nodup
  holds c hc := h.holds c (hp.mem_iff.mpr hc)
  old c hc := h.old c (hp.mem_iff.mpr hc)

theorem drop (h : Owns heap n ((p, v) :: cells)) : Owns heap n cells where
  nodup := (List.nodup_cons.mp h.nodup).2
  holds c hc := h.holds c (List.mem_cons_of_mem _ hc)
  old c hc := h.old c (List.mem_cons_of_mem _ hc)

theorem add (h : Owns heap n cells) {m : Nat} (hnm : n ≤ m) (hpm : p < m)
    (hp : p ∉ cells.map Prod.fst) (v : V) :
    Owns (Function.update heap p v) m ((p, v) :: cells) where
  nodup := List.nodup_cons.mpr ⟨hp, h.nodup⟩
  holds := by
    refine List.forall_mem_cons.mpr ⟨Function.update_self .., fun c hc => ?_⟩
    have hne : c.1 ≠ p := fun heq => hp (heq ▸ List.mem_map_of_mem hc)
    exact (Function.update_of_ne hne _ _).trans (h.holds c hc)
  old := List.forall_mem_cons.mpr ⟨hpm, fun c hc => Nat.lt_of_lt_of_le (h.old c hc) hnm⟩

theorem new (h : Owns heap n cells) (v : V) :
    Owns (Function.update heap n v) (n + 1) ((n, v) :: cells) := by
  refine h.add (Nat.le_succ n) (Nat.lt_succ_self n) (fun hmem => ?_) v
  obtain ⟨c, hc, heq⟩ := List.mem_map.mp hmem
  exact absurd (h.old c hc) (by rw [heq]; exact Nat.lt_irrefl n)

theorem write (h : Owns heap n ((p, v) :: cells)) (v' : V) :
    Owns (Function.update heap p v') n ((p, v') :: cells) :=
  h.drop.add (Nat.le_refl n) (h.old _ List.mem_cons_self)
    (List.nodup_cons.mp h.nodup).1 v'

end Owns

end Heap
