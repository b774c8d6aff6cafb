/-
# BottledWater.Lib.Sink — writing pieces into memory of a fixed size.

A sink is a stretch of memory and the number of cells written so far.  A piece is written behind what is
there or, if it does not fit, not at all; what was in the memory before shows only behind the last piece.
`Holds` says what a sink has been written with, and `putAll` writes pieces up to the first that does not
fit: whether all of them fit depends only on their total length.
-/
import Mathlib.Data.List.Basic

namespace BottledWater.Lib

variable {α : Type*}

/-- Memory, and how much of it is written. -/
structure Sink (α : Type*) where
  cells : List α
  written : Nat

namespace Sink

/-- Write a piece, if it fits. -/
def put (s : Sink α) (piece : List α) : Option (Sink α) :=
  if s.cells.length - s.written < piece.length then none
  else some ⟨s.cells.take s.written ++ piece ++ s.cells.drop (s.written + piece.length),
    s.written + piece.length⟩

/-- Write pieces up to the first that does not fit; the flag says whether there was none. -/
def putAll (s : Sink α) : List (List α) → Bool × Sink α
  | [] => (true, s)
  | piece :: pieces =>
    match s.put piece with
    | none => (false, s)
    | some s' => s'.putAll pieces

/-- **`s.Holds size w`** — a sink of this size was written with `w`. -/
structure Holds (s : Sink α) (size : Nat) (w : List α) : Prop where
  size : s.cells.length = size
  written : s.written = w.length
  cells : s.cells.take w.length = w

variable {s : Sink α} {size : Nat} {w piece : List α}

theorem holds_nil (cells : List α) : (Sink.mk cells 0).Holds cells.length [] :=
  ⟨rfl, rfl, rfl⟩

theorem Holds.length_le (h : s.Holds size w) : w.length ≤ size := by
  have hlen := congrArg List.length h.cells
  rw [List.length_take, h.size] at hlen
  omega

/-- What was written is in its place. -/
theorem Holds.getElem? (h : s.Holds size w) {i : Nat} (hi : i < w.length) : s.cells[i]? = w[i]? := by
  have hcell := congrArg (·[i]?) h.cells
  rwa [List.getElem?_take_of_lt hi] at hcell

theorem Holds.take_left (h : s.Holds size (w ++ piece)) : s.cells.take w.length = w := by
  have hcells := congrArg (List.take w.length) h.cells
  rwa [List.take_take, List.take_left, List.length_append,
    Nat.min_eq_left (Nat.le_add_right _ _)] at hcells

/-- A piece that fits is added to what is there. -/
theorem Holds.put (h : s.Holds size w) (piece : List α) (hfits : w.length + piece.length ≤ size) :
    ∃ s', s.put piece = some s' ∧ s'.Holds size (w ++ piece) := by
  have hroom : ¬ s.cells.length - s.written < piece.length := by
    rw [h.size, h.written]
    omega
  refine ⟨_, if_neg hroom, ?_, ?_, ?_⟩
  · simp only [h.written, h.cells, List.length_append, List.length_drop, h.size]
    omega
  · rw [h.written, List.length_append]
  · simp only [h.written, h.cells]
    exact List.take_left

theorem Holds.put_eq_none (h : s.Holds size w) (hlong : size < w.length + piece.length) :
    s.put piece = none := by
  have hle := h.length_le
  apply if_pos
  rw [h.size, h.written]
  omega

/-- **Pieces are written one behind the other, if all of them fit together.** -/
theorem Holds.putAll {pieces : List (List α)} (h : s.Holds size w)
    (hfits : w.length + pieces.flatten.length ≤ size) :
    ∃ s', s.putAll pieces = (true, s') ∧ s'.Holds size (w ++ pieces.flatten) := by
  induction pieces generalizing s w with
  | nil => exact ⟨s, rfl, by simpa using h⟩
  | cons piece pieces ih =>
    rw [List.flatten_cons, List.length_append] at hfits
    obtain ⟨s₁, hput, hs₁⟩ := h.put piece (by omega)
    obtain ⟨s', hall, hs'⟩ := ih hs₁ (by rw [List.length_append]; omega)
    refine ⟨s', ?_, ?_⟩
    · rw [Sink.putAll, hput]
      exact hall
    · rw [List.flatten_cons, ← List.append_assoc]
      exact hs'

/-- If they do not fit together, one of them does not. -/
theorem Holds.putAll_eq_false {pieces : List (List α)} (h : s.Holds size w)
    (hlong : size < w.length + pieces.flatten.length) : (s.putAll pieces).1 = false := by
  induction pieces generalizing s w with
  | nil =>
    have hle := h.length_le
    simp only [List.flatten_nil, List.length_nil] at hlong
    omega
  | cons piece pieces ih =>
    rw [List.flatten_cons, List.length_append] at hlong
    rw [Sink.putAll]
    by_cases hfits : w.length + piece.length ≤ size
    · obtain ⟨s₁, hput, hs₁⟩ := h.put piece hfits
      rw [hput]
      exact ih hs₁ (by rw [List.length_append]; omega)
    · rw [h.put_eq_none (by omega)]

end Sink

end BottledWater.Lib
