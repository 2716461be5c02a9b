import Mathlib.Analysis.SpecialFunctions.Trigonometric.Series
import Mathlib.Analysis.SpecificLimits.Normed

/-! # Sines of whole numbers

Sine and cosine of a whole number of radians to 256 bits behind the point. From
one number to the next it is a turn by one radian, with an error that no more
than doubles.
-/

namespace JustWeather.Hashing

open Finset Filter

/-- What is counted: parts of 2^-256. -/
def UNIT : Int := 2 ^ 256

/-- Sine and cosine of 1. -/
def SIN_ONE : Int := 97435683363488292875031139702797626536946356753580186085281608312261259446717
def COS_ONE : Int := 62562732816211344028933569693394091302293358579475957900908260996539377313530

/-- The turn by one radian. -/
def turn (p : Int × Int) : Int × Int :=
  ((p.1 * COS_ONE + p.2 * SIN_ONE) / UNIT, (p.2 * COS_ONE - p.1 * SIN_ONE) / UNIT)

/-- Sine and cosine of a whole number. -/
def sinCos (n : Nat) : Int × Int := turn^[n] (0, UNIT)

/-! ## The series for 1 -/

/-- A limit of an alternating sum lies between an even and an odd partial sum. -/
private theorem within_series {f : ℕ → ℝ} {x : ℝ} (sum : HasSum (fun n => (-1) ^ n * f n) x)
    (falls : Antitone f) (k : Nat) : ∑ i ∈ range (2 * k), (-1) ^ i * f i ≤ x ∧
      x ≤ ∑ i ∈ range (2 * k + 1), (-1) ^ i * f i :=
  ⟨falls.alternating_series_le_tendsto sum.tendsto_sum_nat k,
    falls.tendsto_le_alternating_series sum.tendsto_sum_nat k⟩

private theorem antitone_factorials (shift : Nat) :
    Antitone fun n : ℕ => (1 : ℝ) / (2 * n + shift).factorial := by
  intro m n le
  apply one_div_le_one_div_of_le
  · exact_mod_cast Nat.factorial_pos _
  · exact_mod_cast Nat.factorial_le (by omega)

theorem sin_one : |2 ^ 256 * Real.sin 1 - SIN_ONE| ≤ 1 := by
  have sum : HasSum (fun n : ℕ => (-1) ^ n * ((1 : ℝ) / (2 * n + 1).factorial)) (Real.sin 1) := by
    simpa [div_eq_mul_inv] using Real.hasSum_sin 1
  obtain ⟨low, high⟩ := within_series sum (antitone_factorials 1) 16
  rw [abs_le, SIN_ONE]
  simp only [sum_range_succ, Nat.factorial, range_zero, sum_empty] at low high
  constructor
  · norm_num at low ⊢
    linarith
  · norm_num at high ⊢
    linarith

theorem cos_one : |2 ^ 256 * Real.cos 1 - COS_ONE| ≤ 1 := by
  have sum : HasSum (fun n : ℕ => (-1) ^ n * ((1 : ℝ) / (2 * n + 0).factorial)) (Real.cos 1) := by
    simpa [div_eq_mul_inv] using Real.hasSum_cos 1
  obtain ⟨low, high⟩ := within_series sum (antitone_factorials 0) 16
  rw [abs_le, COS_ONE]
  simp only [sum_range_succ, Nat.factorial, range_zero, sum_empty] at low high
  constructor
  · norm_num at low ⊢
    linarith
  · norm_num at high ⊢
    linarith

/-! ## Turning -/

/-- Sine and cosine of `x`, up to an error. -/
structure Near (error x : ℝ) (p : Int × Int) : Prop where
  sin : |2 ^ 256 * Real.sin x - p.1| ≤ error
  cos : |2 ^ 256 * Real.cos x - p.2| ≤ error

variable {error x : ℝ} {p : Int × Int}

/-- The product of two approximations. -/
private theorem product_near {a b : ℝ} {m n : Int} (unit : |a| ≤ 2 ^ 256) (unit' : |b| ≤ 2 ^ 256)
    (near : |a - m| ≤ error) (near' : |b - n| ≤ 1) :
    |a * b - (m * n : Int)| ≤ error * 2 ^ 256 + (2 ^ 256 + error) := by
  have size : |(m : ℝ)| ≤ 2 ^ 256 + error := by
    have triangle := abs_sub_abs_le_abs_sub (m : ℝ) a
    rw [abs_sub_comm] at triangle
    linarith
  have split : a * b - (m * n : Int) = (a - m) * b + m * (b - n) := by
    push_cast
    ring
  have first : |(a - m) * b| ≤ error * 2 ^ 256 := by
    rw [abs_mul]
    exact mul_le_mul near unit' (abs_nonneg b) ((abs_nonneg _).trans near)
  have second : |m * (b - n)| ≤ 2 ^ 256 + error := by
    rw [abs_mul]
    calc |(m : ℝ)| * |b - n| ≤ |(m : ℝ)| * 1 := mul_le_mul_of_nonneg_left near' (abs_nonneg _)
      _ ≤ 2 ^ 256 + error := by rwa [mul_one]
  rw [split]
  exact (abs_add_le _ _).trans (add_le_add first second)

/-- A sum of two products, divided by the unit and rounded down. -/
private theorem quotient_near {s t : ℝ} {m n : Int} (small : error ≤ 2 ^ 256)
    (near : |s - m| ≤ error * 2 ^ 256 + (2 ^ 256 + error))
    (near' : |t - n| ≤ error * 2 ^ 256 + (2 ^ 256 + error)) :
    |(s + t) / 2 ^ 256 - ((m + n) / UNIT : Int)| ≤ 2 * error + 5 := by
  have low : (((m + n) / UNIT : Int) : ℝ) * 2 ^ 256 ≤ m + n := by
    exact_mod_cast Int.ediv_mul_le (m + n) (by decide : UNIT ≠ 0)
  have high : (m + n : ℝ) < (((m + n) / UNIT : Int) + 1) * 2 ^ 256 := by
    exact_mod_cast Int.lt_ediv_add_one_mul_self (m + n) (by decide : 0 < UNIT)
  rw [abs_le] at near near' ⊢
  constructor
  · rw [le_sub_iff_add_le, le_div_iff₀ (by positivity)]
    linarith
  · rw [sub_le_iff_le_add, div_le_iff₀ (by positivity)]
    linarith

private theorem abs_unit_mul {y : ℝ} (h : |y| ≤ 1) : |2 ^ 256 * y| ≤ 2 ^ 256 := by
  rw [abs_mul, abs_of_pos (by positivity)]
  exact mul_le_of_le_one_right (by positivity) h

theorem Near.turn (h : Near error x p) (small : error ≤ 2 ^ 256) :
    Near (2 * error + 5) (x + 1) (turn p) := by
  have sinUnit : |2 ^ 256 * Real.sin x| ≤ 2 ^ 256 := abs_unit_mul (Real.abs_sin_le_one x)
  have cosUnit : |2 ^ 256 * Real.cos x| ≤ 2 ^ 256 := abs_unit_mul (Real.abs_cos_le_one x)
  have sinOne : |2 ^ 256 * Real.sin 1| ≤ 2 ^ 256 := abs_unit_mul (Real.abs_sin_le_one 1)
  have cosOne : |2 ^ 256 * Real.cos 1| ≤ 2 ^ 256 := abs_unit_mul (Real.abs_cos_le_one 1)
  constructor
  · have exact_ : 2 ^ 256 * Real.sin (x + 1) = (2 ^ 256 * Real.sin x * (2 ^ 256 * Real.cos 1) +
        2 ^ 256 * Real.cos x * (2 ^ 256 * Real.sin 1)) / 2 ^ 256 := by
      rw [Real.sin_add]
      field_simp
    rw [exact_]
    exact quotient_near small (product_near sinUnit cosOne h.sin cos_one)
      (product_near cosUnit sinOne h.cos sin_one)
  · have exact_ : 2 ^ 256 * Real.cos (x + 1) = (2 ^ 256 * Real.cos x * (2 ^ 256 * Real.cos 1) +
        -(2 ^ 256 * Real.sin x * (2 ^ 256 * Real.sin 1))) / 2 ^ 256 := by
      rw [Real.cos_add]
      field_simp
      ring
    have opposite : |-(2 ^ 256 * Real.sin x * (2 ^ 256 * Real.sin 1)) - (-(p.1 * SIN_ONE) : Int)| ≤
        error * 2 ^ 256 + (2 ^ 256 + error) := by
      rw [Int.cast_neg, neg_sub_neg, abs_sub_comm]
      exact product_near sinUnit sinOne h.sin sin_one
    rw [exact_]
    exact quotient_near small (product_near cosUnit cosOne h.cos cos_one) opposite

/-- After `n` turns the error is less than `5 * 2 ^ n` parts. -/
theorem sinCos_near (n : Nat) (bound : n ≤ 200) : Near (5 * 2 ^ n - 5) n (sinCos n) := by
  induction n with
  | zero => constructor <;> norm_num [sinCos, UNIT]
  | succ n ih =>
      have power : (2 : ℝ) ^ n ≤ 2 ^ 200 := pow_le_pow_right₀ (by norm_num) (by omega)
      have next := (ih (by omega)).turn (by linarith)
      have error : 2 * (5 * 2 ^ n - 5) + 5 = 5 * 2 ^ (n + 1) - (5 : ℝ) := by ring
      rw [error] at next
      rw [sinCos, Function.iterate_succ_apply']
      exact_mod_cast next

/-! ## Whole parts -/

/-- The sine of `n` is known well enough to tell the whole part of its absolute value times 2^32. -/
def TellsSine (n t : Nat) : Prop :=
  (t * 2 ^ 224 + 5 * 2 ^ n : Int) ≤ |(sinCos n).1| ∧
    |(sinCos n).1| + 5 * 2 ^ n < (t + 1) * 2 ^ 224

instance (n t : Nat) : Decidable (TellsSine n t) := inferInstanceAs (Decidable (_ ∧ _))

theorem TellsSine.floor_eq {n t : Nat} (tells : TellsSine n t) (bound : n ≤ 200) :
    ⌊2 ^ 32 * |Real.sin n|⌋₊ = t := by
  obtain ⟨low, high⟩ := tells
  have near := (sinCos_near n bound).sin
  have apart := (abs_abs_sub_abs_le (2 ^ 256 * Real.sin n) ((sinCos n).1 : ℝ)).trans near
  rw [abs_mul, abs_of_pos (by positivity : (0 : ℝ) < 2 ^ 256), abs_le] at apart
  have low' : (t * 2 ^ 224 + 5 * 2 ^ n : ℝ) ≤ |((sinCos n).1 : ℝ)| := by exact_mod_cast low
  have high' : |((sinCos n).1 : ℝ)| + 5 * 2 ^ n < (t + 1) * 2 ^ 224 := by exact_mod_cast high
  rw [Nat.floor_eq_iff (by positivity)]
  constructor <;> linarith

end JustWeather.Hashing
