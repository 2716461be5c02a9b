import Mathlib.Algebra.Order.Field.Basic
import Mathlib.Algebra.Order.Ring.Abs
import Mathlib.Tactic.Linarith
import Mathlib.Tactic.Ring

/-! # Rounding to a grid

A multiple of a step that is nearest to a value. A grid that is finer than another
keeps the values of the other one: rounded to the fine grid and from there to the
coarse one, they are what they were.
-/

namespace JustWeather.Rounding

variable {α : Type*} [Field α] {step fine coarse v x y b : α}

/-- A point of the grid with this step. -/
def OnGrid (step x : α) : Prop := ∃ m : ℤ, x = m * step

theorem OnGrid.sub (hx : OnGrid step x) (hy : OnGrid step y) : OnGrid step (x - y) := by
  obtain ⟨m, rfl⟩ := hx
  obtain ⟨n, rfl⟩ := hy
  refine ⟨m - n, ?_⟩
  push_cast
  ring

variable [LinearOrder α]

/-- A point of the grid nearest to `v`. -/
structure Nearest (step v x : α) : Prop where
  onGrid : OnGrid step x
  close : |x - v| ≤ step / 2

variable [IsStrictOrderedRing α]

/-- Two points that are less than a step apart are one. -/
theorem OnGrid.eq_of_close (pos : 0 < step) (hx : OnGrid step x) (hy : OnGrid step y)
    (close : |x - y| < step) : x = y := by
  obtain ⟨m, apart⟩ := hx.sub hy
  have small : |(m : α)| < 1 := by
    rw [apart, abs_mul, abs_of_pos pos] at close
    exact (mul_lt_iff_lt_one_left pos).mp close
  have zero : m = 0 := by
    rw [← Int.cast_abs, ← Int.cast_one, Int.cast_lt] at small
    exact Int.abs_lt_one_iff.mp small
  rw [zero, Int.cast_zero, zero_mul] at apart
  exact sub_eq_zero.mp apart

/-- A point of the grid is nearest to itself. -/
theorem Nearest.refl (pos : 0 < step) (hx : OnGrid step x) : Nearest step x x :=
  ⟨hx, by rw [sub_self, abs_zero]; exact (half_pos pos).le⟩

/-- The picture in another unit. -/
theorem Nearest.scale {c : α} (pos : 0 < c) (h : Nearest step v x) :
    Nearest (step * c) (v * c) (x * c) := by
  obtain ⟨m, grid⟩ := h.onGrid
  refine ⟨⟨m, by rw [grid, mul_assoc]⟩, ?_⟩
  rw [← sub_mul, abs_mul, abs_of_pos pos, mul_div_right_comm]
  exact mul_le_mul_of_nonneg_right h.close pos.le

/-- Rounding passes no point of the grid. -/
theorem Nearest.le (pos : 0 < step) (h : Nearest step v x) (hb : OnGrid step b) (below : v ≤ b) :
    x ≤ b := by
  by_contra above
  rw [not_le] at above
  have near := (abs_le.mp h.close).2
  have same := h.onGrid.eq_of_close pos hb (by rw [abs_lt]; constructor <;> linarith)
  exact absurd same above.ne'

/-- What is more than half a step above a bound stays above it. -/
theorem Nearest.lt (h : Nearest step v x) (above : b + step / 2 < v) : b < x := by
  have near := (abs_le.mp h.close).1
  linarith

/-- There and back: a point of the coarse grid survives rounding to a finer one. -/
theorem Nearest.back (there : Nearest fine v x) (back : Nearest coarse x y) (hv : OnGrid coarse v)
    (finer : fine < coarse) (pos : 0 < coarse) : y = v := by
  apply back.onGrid.eq_of_close pos hv
  calc |y - v| ≤ |y - x| + |x - v| := abs_sub_le y x v
    _ ≤ coarse / 2 + fine / 2 := add_le_add back.close there.close
    _ < coarse := by linarith

end JustWeather.Rounding
