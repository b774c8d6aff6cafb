/-
# BottledWater.Lib.Window — a ring of `N` slots as a window on an unbounded sequence.

A circular buffer with a head and a tail index stores the positions `lo, …, hi` of an unbounded
sequence, position `i` in slot `i mod N`.  This module is the index arithmetic of that picture, and
nothing else: which slot a position has (`slotOf`), when two positions share one, what advancing the
head or the tail does to the window, when the ring is full, and which slots lie in the cyclic range
from the tail to the head.  What the slots contain is left to the user, who states it position by
position and moves it along with the lemmas below.
-/
import Mathlib.Algebra.Group.Fin.Basic
import Mathlib.Data.Nat.ModEq

namespace BottledWater.Lib

variable {N : Nat} [NeZero N]

/-! ## Positions and their slots -/

/-- **`slotOf N i`** — the slot in which a ring of `N` slots keeps position `i`. -/
def slotOf (N : Nat) [NeZero N] (i : Nat) : Fin N := Fin.ofNat N i

theorem slotOf_val (i : Nat) : (slotOf N i).val = i % N := rfl

@[simp]
theorem slotOf_zero : slotOf N 0 = 0 := rfl

theorem slotOf_succ (i : Nat) : slotOf N (i + 1) = slotOf N i + 1 := by
  apply Fin.ext
  rw [Fin.val_add, Fin.val_one', slotOf_val, slotOf_val]
  exact Nat.add_mod i 1 N

/-- Two positions less than `N` apart share a slot only when they are equal. -/
theorem slotOf_inj {i j : Nat} (hij : i ≤ j) (hlt : j < i + N) (h : slotOf N i = slotOf N j) :
    i = j := by
  have hmod : i ≡ j [MOD N] := congrArg Fin.val h
  have hdvd : N ∣ j - i := (Nat.modEq_iff_dvd' hij).mp hmod
  have hzero : j - i = 0 := Nat.eq_zero_of_dvd_of_lt hdvd (by omega)
  omega

/-- The distance from the slot of `lo` forward to the slot of `i` is the distance of the positions. -/
theorem slotOf_sub_val {lo i : Nat} (hlo : lo ≤ i) (hlt : i < lo + N) :
    (slotOf N i - slotOf N lo).val = i - lo := by
  obtain ⟨d, rfl⟩ := Nat.exists_eq_add_of_le hlo
  have hd : d < N := by omega
  have hN : lo % N < N := Nat.mod_lt _ (Nat.pos_of_neZero N)
  have hsum : N - lo % N + (lo + d) = d + N * (lo / N + 1) := by
    have := Nat.mod_add_div lo N
    rw [Nat.mul_add, Nat.mul_one]
    omega
  rw [Fin.sub_def]
  simp only [slotOf_val]
  rw [Nat.add_mod_mod, hsum, Nat.add_mul_mod_self_left, Nat.mod_eq_of_lt hd]
  omega

/-! ## The window -/

/-- **`Window head tail lo hi`** — the ring indices `tail` and `head` are the slots of the positions
`lo ≤ hi`, and the window is at most `N` positions long. -/
structure Window (head tail : Fin N) (lo hi : Nat) : Prop where
  le : lo ≤ hi
  span : hi < lo + N
  tail_eq : tail = slotOf N lo
  head_eq : head = slotOf N hi

/-- **`InRing head tail s`** — slot `s` lies in the cyclic range that runs from `tail` up to `head`,
both included. -/
def InRing (head tail s : Fin N) : Prop := (s - tail).val ≤ (head - tail).val

instance (head tail s : Fin N) : Decidable (InRing head tail s) :=
  inferInstanceAs (Decidable ((s - tail).val ≤ (head - tail).val))

namespace Window

variable {head tail : Fin N} {lo hi : Nat}

theorem init : Window (0 : Fin N) 0 0 0 :=
  ⟨Nat.le_refl 0, by have := Nat.pos_of_neZero N; omega, rfl, rfl⟩

theorem distance (w : Window head tail lo hi) : (head - tail).val = hi - lo := by
  rw [w.head_eq, w.tail_eq]
  exact slotOf_sub_val w.le w.span

theorem inj (w : Window head tail lo hi) {i j : Nat} (hi₁ : lo ≤ i) (hi₂ : i ≤ hi) (hj₁ : lo ≤ j)
    (hj₂ : j ≤ hi) (h : slotOf N i = slotOf N j) : i = j := by
  have hspan := w.span
  rcases Nat.le_total i j with hij | hji
  · exact slotOf_inj hij (by omega) h
  · exact (slotOf_inj hji (by omega) h.symm).symm

theorem tail_eq_head_iff (w : Window head tail lo hi) : tail = head ↔ lo = hi := by
  constructor
  · intro h
    rw [w.tail_eq, w.head_eq] at h
    exact slotOf_inj w.le w.span h
  · rintro rfl
    rw [w.tail_eq, w.head_eq]

/-- The head's successor is the tail exactly when all `N` slots are in the window. -/
theorem full_iff (w : Window head tail lo hi) : head + 1 = tail ↔ hi + 1 = lo + N := by
  have hle := w.le
  have hspan := w.span
  rw [w.head_eq, w.tail_eq, ← slotOf_succ]
  constructor
  · intro h
    by_contra hne
    have := slotOf_inj (by omega) (by omega) h.symm
    omega
  · intro h
    apply Fin.ext
    rw [slotOf_val, slotOf_val, h, Nat.add_mod_right]

/-- Advancing the head of a ring that is not full adds one position at the end. -/
theorem push (w : Window head tail lo hi) (hfull : head + 1 ≠ tail) :
    Window (head + 1) tail lo (hi + 1) := by
  have hle := w.le
  have hspan := w.span
  have hne : hi + 1 ≠ lo + N := fun h => hfull (w.full_iff.mpr h)
  exact ⟨by omega, by omega, w.tail_eq, by rw [slotOf_succ, ← w.head_eq]⟩

/-- Advancing a tail that has not reached the head drops the oldest position. -/
theorem retire (w : Window head tail lo hi) (hne : tail ≠ head) :
    Window head (tail + 1) (lo + 1) hi := by
  have hle := w.le
  have hspan := w.span
  have hlt : lo ≠ hi := fun h => hne (w.tail_eq_head_iff.mpr h)
  exact ⟨by omega, by omega, by rw [slotOf_succ, ← w.tail_eq], w.head_eq⟩

/-- The slots of the cyclic range are the slots of the positions in the window. -/
theorem inRing_iff (w : Window head tail lo hi) (s : Fin N) :
    InRing head tail s ↔ ∃ i, lo ≤ i ∧ i ≤ hi ∧ slotOf N i = s := by
  have hle := w.le
  have hspan := w.span
  unfold InRing
  rw [w.distance]
  constructor
  · intro h
    refine ⟨lo + (s - tail).val, by omega, by omega, ?_⟩
    have hlt := (s - tail).isLt
    have hsub : slotOf N (lo + (s - tail).val) - slotOf N lo = s - tail :=
      Fin.ext (by rw [slotOf_sub_val (by omega) (by omega)]; omega)
    rw [w.tail_eq] at hsub ⊢
    exact sub_left_injective hsub
  · rintro ⟨i, hlo, hhi, rfl⟩
    rw [w.tail_eq, slotOf_sub_val hlo (by omega)]
    omega

/-- The slot that `push` takes is not one of the window's own. -/
theorem not_inRing_succ_head (w : Window head tail lo hi) (hfull : head + 1 ≠ tail) :
    ¬ InRing head tail (head + 1) := by
  rw [w.inRing_iff]
  rintro ⟨i, hlo, hhi, hi'⟩
  have hpush := (w.push hfull).span
  rw [w.head_eq, ← slotOf_succ] at hi'
  have := slotOf_inj (by omega) (by omega) hi'
  omega

end Window

end BottledWater.Lib
