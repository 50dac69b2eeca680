/-
CoreX/Lib/Frames.lean

Streams of self-delimiting frames.  `read` takes one frame off the front of a
stream; `scan read` takes frames off until `read` fails and returns them with
what is left.  `Decodes read enc P` says that `read` undoes `enc` on the contents
that satisfy `P`, whatever comes after the frame, and that it gets nothing out of
a frame that was cut short.

Two rules follow: the scan of a stream of frames with a torn end finds exactly the
frames (`Decodes.scan_stream`), and cutting such a stream anywhere gives such a
stream again (`Torn.exists_cut`).
-/
import Mathlib.Data.List.Basic

namespace Frames

variable {α β ε : Type*}

/-- Take frames off `input` until `read` fails: the frames, what is left, and the
error.  Every frame uses up fuel. -/
def scan (read : List β → Except ε (α × List β)) : Nat → List β → List α × List β × Option ε
  | 0, input => ([], input, none)
  | fuel + 1, input =>
      match read input with
      | .error e => ([], input, some e)
      | .ok (a, rest) => (a :: (scan read fuel rest).1, (scan read fuel rest).2)

/-- `t` is the beginning of a frame that stops before its end, or nothing. -/
def Torn (enc : α → List β) (P : α → Prop) (t : List β) : Prop :=
  t = [] ∨ ∃ a, P a ∧ t <+: enc a ∧ t.length < (enc a).length

/-- `read` undoes `enc` on `P`, and fails on what is torn. -/
structure Decodes (read : List β → Except ε (α × List β)) (enc : α → List β) (P : α → Prop) :
    Prop where
  whole : ∀ a rest, P a → read (enc a ++ rest) = .ok (a, rest)
  torn : ∀ t, Torn enc P t → ∃ e, read t = .error e
  pos : ∀ a, P a → 0 < (enc a).length

variable {read : List β → Except ε (α × List β)} {enc : α → List β} {P : α → Prop}

theorem Decodes.length_le (h : Decodes read enc P) {as : List α} (hP : ∀ a ∈ as, P a) :
    as.length ≤ (as.flatMap enc).length := by
  induction as with
  | nil => exact Nat.le_refl 0
  | cons a as ih =>
    have hpos := h.pos a (hP a List.mem_cons_self)
    have := ih fun b hb => hP b (List.mem_cons_of_mem a hb)
    rw [List.flatMap_cons, List.length_append, List.length_cons]
    omega

theorem Decodes.scan_stream (h : Decodes read enc P) {as : List α} (hP : ∀ a ∈ as, P a)
    {t : List β} {e : ε} (ht : read t = .error e) {fuel : Nat} (hfuel : as.length < fuel) :
    scan read fuel (as.flatMap enc ++ t) = (as, t, some e) := by
  induction as generalizing fuel with
  | nil =>
    obtain ⟨fuel, rfl⟩ : ∃ k, fuel = k + 1 := ⟨fuel - 1, by simp at hfuel; omega⟩
    rw [List.flatMap_nil, List.nil_append, scan, ht]
  | cons a as ih =>
    obtain ⟨fuel, rfl⟩ : ∃ k, fuel = k + 1 := ⟨fuel - 1, by rw [List.length_cons] at hfuel; omega⟩
    have hrest := ih (fun b hb => hP b (List.mem_cons_of_mem a hb))
      (by rw [List.length_cons] at hfuel; omega : as.length < fuel)
    rw [List.flatMap_cons, List.append_assoc, scan, h.whole a _ (hP a List.mem_cons_self)]
    show (a :: (scan read fuel (as.flatMap enc ++ t)).1, _) = _
    rw [hrest]

theorem Torn.nil : Torn enc P [] := .inl rfl

theorem Torn.take {a : α} (ha : P a) {n : Nat} (hn : n < (enc a).length) :
    Torn enc P ((enc a).take n) :=
  .inr ⟨a, ha, List.take_prefix n _, by rw [List.length_take]; omega⟩

theorem Torn.take_torn {t : List β} (h : Torn enc P t) (n : Nat) : Torn enc P (t.take n) := by
  rcases h with rfl | ⟨a, ha, hpre, hlt⟩
  · rw [List.take_nil]
    exact Torn.nil
  · refine .inr ⟨a, ha, (List.take_prefix n t).trans hpre, ?_⟩
    rw [List.length_take]
    omega

theorem Torn.exists_cut {as : List α} (hP : ∀ a ∈ as, P a) {t : List β} (ht : Torn enc P t)
    (c : Nat) :
    ∃ bs cs u, as = bs ++ cs ∧ Torn enc P u ∧
      (as.flatMap enc ++ t).take c = bs.flatMap enc ++ u ∧
      ∀ ds es, as = ds ++ es → (ds.flatMap enc).length ≤ c → ∃ fs, bs = ds ++ fs := by
  induction as generalizing c with
  | nil =>
    refine ⟨[], [], t.take c, rfl, ht.take_torn c, rfl, fun ds es h _ => ⟨[], ?_⟩⟩
    have hds : ds = [] := (List.append_eq_nil_iff.mp h.symm).1
    rw [hds, List.append_nil]
  | cons a as ih =>
    rcases Nat.lt_or_ge c (enc a).length with hlt | hge
    · -- the cut is inside the first frame
      refine ⟨[], a :: as, (enc a).take c, rfl, Torn.take (hP a List.mem_cons_self) hlt, ?_,
        fun ds es h hlen => ⟨[], ?_⟩⟩
      · rw [List.flatMap_cons, List.append_assoc, List.take_append_of_le_length (Nat.le_of_lt hlt)]
        rfl
      · rcases ds with - | ⟨d, ds⟩
        · rfl
        · obtain ⟨rfl, -⟩ := List.cons.inj h
          rw [List.flatMap_cons, List.length_append] at hlen
          omega
    · obtain ⟨bs, cs, u, hsplit, hu, htake, hkeep⟩ :=
        ih (fun b hb => hP b (List.mem_cons_of_mem a hb)) (c - (enc a).length)
      refine ⟨a :: bs, cs, u, by rw [hsplit]; rfl, hu, ?_, fun ds es h hlen => ?_⟩
      · rw [List.flatMap_cons, List.append_assoc, List.take_append, List.take_of_length_le hge,
          htake, List.flatMap_cons, List.append_assoc]
      · rcases ds with - | ⟨d, ds⟩
        · exact ⟨a :: bs, rfl⟩
        · obtain ⟨rfl, hrest⟩ := List.cons.inj h
          rw [List.flatMap_cons, List.length_append] at hlen
          obtain ⟨fs, hfs⟩ := hkeep ds es hrest (by omega)
          exact ⟨fs, by rw [hfs]; rfl⟩

end Frames
