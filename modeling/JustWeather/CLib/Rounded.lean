import Mathlib.Data.Rat.Cast.Order
import Mathlib.Tactic.FieldSimp
import Mathlib.Tactic.NormNum
import JustWeather.CLib.Stod
import JustWeather.Rounding.Grids

/-! # Doubles and decimals

A conversion rounds to one of the grids of the doubles, and printing to the grid of the last
decimal. A number with few decimals comes out as it went in.
-/

namespace JustWeather.CLib.Double

open Rounding

/-! ## Rounding on naturals -/

variable {n d m : Nat}

/-- The rounded quotient is the quotient or one more, and no more than half off. -/
theorem roundHalfEven_bounds (n : Nat) (some_ : 0 < d) :
    2 * n ≤ (2 * roundHalfEven n d + 1) * d ∧ 2 * (roundHalfEven n d * d) ≤ 2 * n + d := by
  have parts : n / d * d + n % d = n := Nat.div_add_mod' n d
  have rest := Nat.mod_lt n some_
  have odd : ∀ q, (2 * q + 1) * d = 2 * (q * d) + d := by
    intro q
    ring
  rw [odd]
  unfold roundHalfEven
  split
  · omega
  · split
    · rw [Nat.add_mul, Nat.one_mul]
      omega
    · rcases Nat.mod_two_eq_zero_or_one (n / d) with even | odd
      · rw [even, Nat.add_zero]
        omega
      · rw [odd, Nat.add_mul, Nat.one_mul]
        omega

theorem roundHalfEven_le (some_ : 0 < d) (h : n ≤ m * d) : roundHalfEven n d ≤ m := by
  have bound := (roundHalfEven_bounds n some_).2
  by_contra above
  rw [not_le] at above
  have more : (m + 1) * d ≤ roundHalfEven n d * d := Nat.mul_le_mul_right d above
  rw [Nat.add_mul, Nat.one_mul] at more
  omega

theorem le_roundHalfEven (some_ : 0 < d) (h : m * d ≤ n) : m ≤ roundHalfEven n d := by
  have bound := (roundHalfEven_bounds n some_).1
  by_contra below
  rw [not_le] at below
  have less : (roundHalfEven n d + 1) * d ≤ m * d := Nat.mul_le_mul_right d below
  rw [Nat.add_mul] at less bound
  rw [Nat.mul_assoc, Nat.one_mul] at bound
  omega

/-- A common factor does not matter. -/
theorem roundHalfEven_scale {c : Nat} (pos : 0 < c) :
    roundHalfEven (n * c) (d * c) = roundHalfEven n d := by
  have twice : ∀ x y, 2 * (x * c) < y * c ↔ 2 * x < y := by
    intro x y
    rw [← Nat.mul_assoc, Nat.mul_lt_mul_right pos]
  have twice' : ∀ x y, y * c < 2 * (x * c) ↔ y < 2 * x := by
    intro x y
    rw [← Nat.mul_assoc, Nat.mul_lt_mul_right pos]
  simp only [roundHalfEven, Nat.mul_div_mul_right n d pos, Nat.mul_mod_mul_right, twice, twice']

theorem roundHalfEven_nearest (n : Nat) (some_ : 0 < d) :
    Nearest (1 : ℚ) (n / d) (roundHalfEven n d : ℕ) := by
  obtain ⟨above, below⟩ := roundHalfEven_bounds n some_
  have pos : (0 : ℚ) < d := by exact_mod_cast some_
  have above' : 2 * (n : ℚ) ≤ (2 * (roundHalfEven n d : ℕ) + 1) * d := by exact_mod_cast above
  have below' : 2 * (((roundHalfEven n d : ℕ) : ℚ) * d) ≤ 2 * n + d := by exact_mod_cast below
  refine ⟨⟨roundHalfEven n d, by push_cast; ring⟩, ?_⟩
  rw [abs_le, neg_le_sub_iff_le_add, sub_le_iff_le_add, div_le_iff₀ pos]
  constructor
  · linarith
  · rw [← sub_le_iff_le_add', le_div_iff₀ pos]
    linarith

/-! ## The nearest double -/

/-- The exponent of the unit that the doubles near `n / d` are multiples of. -/
def unitOf (n d : Nat) : Nat := Nat.log2 (n * 2 ^ 1074 / d) - 52

/-- How many units. -/
def unitsOf (n d : Nat) : Nat := roundHalfEven (n * 2 ^ 1074) (d * 2 ^ unitOf n d)

theorem unit_pos (some_ : 0 < d) : 0 < d * 2 ^ unitOf n d := Nat.mul_pos some_ (Nat.two_pow_pos _)

/-- There is a bit for each unit, and none is spare above the least unit. -/
theorem unitsOf_bounds (some_ : 0 < d) :
    unitsOf n d ≤ 2 ^ 53 ∧ (unitOf n d = 0 ∨ 2 ^ (unitOf n d + 52) * d ≤ n * 2 ^ 1074) := by
  obtain ⟨floor, eq⟩ : ∃ q, q = n * 2 ^ 1074 / d := ⟨_, rfl⟩
  have unit : unitOf n d = Nat.log2 floor - 52 := by rw [unitOf, eq]
  constructor
  · apply roundHalfEven_le (unit_pos some_)
    have big : floor < 2 ^ (unitOf n d + 53) :=
      Nat.lt_of_lt_of_le Nat.lt_log2_self (Nat.pow_le_pow_right (by decide) (by omega))
    rw [eq, Nat.div_lt_iff_lt_mul some_, pow_add] at big
    calc n * 2 ^ 1074 ≤ 2 ^ unitOf n d * 2 ^ 53 * d := big.le
      _ = 2 ^ 53 * (d * 2 ^ unitOf n d) := by ring
  · rcases Nat.eq_zero_or_pos (unitOf n d) with zero | pos
    · exact .inl zero
    · right
      have log : unitOf n d + 52 = Nat.log2 floor := by omega
      have nonzero : floor ≠ 0 := by
        intro zero
        rw [zero, Nat.log2_zero] at log
        omega
      rw [log]
      exact (Nat.le_div_iff_mul_le some_).mp (eq ▸ Nat.log2_self_le nonzero)

theorem unitsOf_leading (some_ : 0 < d) : unitOf n d = 0 ∨ 2 ^ 52 ≤ unitsOf n d := by
  refine (unitsOf_bounds (n := n) some_).2.imp_right fun low => ?_
  apply le_roundHalfEven (unit_pos some_)
  calc 2 ^ 52 * (d * 2 ^ unitOf n d) = 2 ^ (unitOf n d + 52) * d := by rw [pow_add]; ring
    _ ≤ n * 2 ^ 1074 := low

/-- A word of so many units of this size. -/
theorem units_word {negative : Bool} {unit m : Nat} (leading : unit = 0 ∨ 2 ^ 52 ≤ m)
    (short : m ≤ 2 ^ 53) (inRange : unit * 2 ^ 52 + m < 2047 * 2 ^ 52) :
    units ⟨negative, ⟨(unit * 2 ^ 52 + m) / 2 ^ 52, by omega⟩, ⟨(unit * 2 ^ 52 + m) % 2 ^ 52, by omega⟩⟩ =
      m * 2 ^ unit := by
  unfold units
  simp only [Fin.ext_iff, Fin.val_zero]
  rcases Nat.lt_or_ge m (2 ^ 52) with low | high
  · obtain rfl : unit = 0 := leading.resolve_right (by omega)
    rw [if_pos (by omega), pow_zero, Nat.mul_one, Nat.zero_mul, Nat.zero_add, Nat.mod_eq_of_lt low]
  · rw [if_neg (by omega)]
    rcases Nat.lt_or_ge m (2 ^ 53) with inside | last
    · have exponent : (unit * 2 ^ 52 + m) / 2 ^ 52 - 1 = unit := by omega
      have mantissa : 2 ^ 52 + (unit * 2 ^ 52 + m) % 2 ^ 52 = m := by omega
      rw [exponent, mantissa]
    · -- rounded up to the next power of two
      have exponent : (unit * 2 ^ 52 + m) / 2 ^ 52 - 1 = unit + 1 := by omega
      have mantissa : 2 ^ 52 + (unit * 2 ^ 52 + m) % 2 ^ 52 = 2 ^ 52 := by omega
      have top : m = 2 ^ 52 * 2 := by omega
      rw [exponent, mantissa, top, pow_succ]
      ring

theorem nearestWord_scale {c : Nat} (pos : 0 < c) : nearestWord (n * c) (d * c) = nearestWord n d := by
  have top : n * c * 2 ^ 1074 = n * 2 ^ 1074 * c := Nat.mul_right_comm ..
  have bottom : ∀ u, d * c * 2 ^ u = d * 2 ^ u * c := fun u => Nat.mul_right_comm ..
  simp only [nearestWord, top, bottom, Nat.mul_div_mul_right _ _ pos, roundHalfEven_scale pos]

/-- A quotient is what counts. -/
theorem nearest_scale {negative : Bool} {c : Nat} (pos : 0 < c) :
    nearest negative (n * c) (d * c) = nearest negative n d := by
  simp only [nearest, nearestWord_scale pos]

/-- A double that is nearest is finite and of so many units. -/
theorem nearest_some {negative : Bool} {x : Double} (some_ : 0 < d)
    (here : nearest negative n d = some x) :
    x.negative = negative ∧ x.isFinite = true ∧ x.units = unitsOf n d * 2 ^ unitOf n d := by
  have word : nearestWord n d = unitOf n d * 2 ^ 52 + unitsOf n d := rfl
  unfold nearest at here
  split at here
  · next inRange =>
      cases here
      refine ⟨rfl, ?_, ?_⟩
      · simp only [isFinite, ne_eq, Fin.ext_iff, decide_not, Bool.not_eq_true', decide_eq_false_iff_not]
        change ¬ nearestWord n d / 2 ^ 52 = 2047
        omega
      · simp only [word]
        exact units_word (unitsOf_leading some_) (unitsOf_bounds some_).1 (word ▸ inRange)
  · cases here

/-! ## Grids -/

/-- The absolute value of a finite double. -/
def magnitude (d : Double) : ℚ := d.units / 2 ^ 1074

/-- The grid of the doubles near `n / d`. -/
def gridOf (n d : Nat) : ℚ := 2 ^ unitOf n d / 2 ^ 1074

theorem gridOf_pos (n d : Nat) : 0 < gridOf n d := by
  unfold gridOf
  positivity

/-- The grid is the finest one, or has 53 bits of the number. -/
theorem gridOf_le (some_ : 0 < d) : gridOf n d = 1 / 2 ^ 1074 ∨ gridOf n d * 2 ^ 52 ≤ (n / d : ℚ) := by
  have pos : (0 : ℚ) < d := by exact_mod_cast some_
  refine (unitsOf_bounds (n := n) some_).2.imp ?_ ?_
  · intro zero
    rw [gridOf, zero, pow_zero]
  · intro low
    have low' : (2 : ℚ) ^ (unitOf n d + 52) * d ≤ n * 2 ^ 1074 := by exact_mod_cast low
    rw [gridOf, le_div_iff₀ pos, div_mul_eq_mul_div, ← pow_add, div_mul_eq_mul_div,
      div_le_iff₀ (by positivity)]
    exact low'

/-- Conversion rounds to that grid. -/
theorem nearest_magnitude {negative : Bool} {x : Double} (some_ : 0 < d)
    (here : nearest negative n d = some x) : Nearest (gridOf n d) (n / d) x.magnitude := by
  obtain ⟨-, -, units⟩ := nearest_some some_ here
  have nonzero : (d : ℚ) ≠ 0 := by exact_mod_cast some_.ne'
  have cancel : ∀ k u : ℚ, k ≠ 0 → u ≠ 0 → (n / d : ℚ) = n * k / (d * u) * (u / k) := by
    intro k u hk hu
    field_simp
  have value : x.magnitude = (unitsOf n d : ℕ) * gridOf n d := by
    rw [magnitude, units, gridOf, Nat.cast_mul, Nat.cast_pow, Nat.cast_ofNat, mul_div_assoc]
  have rounded := (roundHalfEven_nearest (n * 2 ^ 1074) (unit_pos (n := n) some_)).scale (gridOf_pos n d)
  rw [one_mul, Nat.cast_mul, Nat.cast_mul, Nat.cast_pow, Nat.cast_pow, Nat.cast_ofNat, gridOf,
    ← cancel _ _ (by positivity) (by positivity)] at rounded
  rw [value]
  exact rounded

/-- The number of units of the last decimal that is printed. -/
def scaled (precision : Nat) (d : Double) : Nat := roundHalfEven (d.units * 10 ^ precision) (2 ^ 1074)

/-- Printing rounds to the grid of the last decimal. -/
theorem scaled_nearest (precision : Nat) (x : Double) :
    Nearest (1 / 10 ^ precision : ℚ) x.magnitude (x.scaled precision / 10 ^ precision) := by
  have pos : (0 : ℚ) < 1 / 10 ^ precision := by positivity
  have cancel : ∀ u k t : ℚ, t ≠ 0 → u / k = u * t / k * (1 / t) := by
    intro u k t ht
    field_simp
  have rounded := (@roundHalfEven_nearest (2 ^ 1074) (x.units * 10 ^ precision) (by positivity)).scale pos
  rw [one_mul, Nat.cast_mul, Nat.cast_pow, Nat.cast_pow, Nat.cast_ofNat, Nat.cast_ofNat,
    ← cancel _ _ _ (by positivity), mul_one_div] at rounded
  exact rounded

/-! ## Few decimals -/

variable {negative : Bool} {x : Double} {k precision bound : Nat}

/-- A number with at most 15 digits or so comes out as it went in. -/
theorem scaled_of_nearest (small : k < 2 ^ 52) (places : 10 ^ precision < 2 ^ 1074)
    (here : nearest negative k (10 ^ precision) = some x) : x.scaled precision = k := by
  have some_ : 0 < 10 ^ precision := by positivity
  have pos : (0 : ℚ) < 10 ^ precision := by positivity
  have there := nearest_magnitude some_ here
  have finer : gridOf k (10 ^ precision) < 1 / 10 ^ precision := by
    rcases gridOf_le (n := k) some_ with least | bits
    · rw [least]
      exact one_div_lt_one_div_of_lt pos (by exact_mod_cast places)
    · have small' : (k : ℚ) < 2 ^ 52 := by exact_mod_cast small
      rw [lt_div_iff₀ pos]
      rw [Nat.cast_pow, Nat.cast_ofNat, le_div_iff₀ pos] at bits
      linarith
  have onGrid : OnGrid (1 / 10 ^ precision : ℚ) (k / (10 ^ precision : ℕ)) :=
    ⟨k, by rw [Nat.cast_pow, Nat.cast_ofNat, Int.cast_natCast, mul_one_div]⟩
  have same := there.back (scaled_nearest precision x) onGrid finer (by positivity)
  rw [Nat.cast_pow, Nat.cast_ofNat, div_left_inj' pos.ne'] at same
  exact_mod_cast same

/-- The grids up to 2^52 are no coarser than the whole numbers. -/
theorem unitOf_le (some_ : 0 < d) (small : n ≤ 2 ^ 52 * d) : unitOf n d ≤ 1074 := by
  rcases (unitsOf_bounds (n := n) some_).2 with zero | low
  · omega
  · rw [← Nat.pow_le_pow_iff_right (by decide : 1 < 2), ← Nat.mul_le_mul_right_iff (k := 2 ^ 52 * d)
      (by positivity)]
    calc 2 ^ unitOf n d * (2 ^ 52 * d) = 2 ^ (unitOf n d + 52) * d := by rw [pow_add]; ring
      _ ≤ n * 2 ^ 1074 := low
      _ ≤ 2 ^ 52 * d * 2 ^ 1074 := Nat.mul_le_mul_right _ small
      _ = 2 ^ 1074 * (2 ^ 52 * d) := Nat.mul_comm ..

theorem nearest_isSome (some_ : 0 < d) (small : n ≤ 2 ^ 52 * d) :
    ∃ x, nearest negative n d = some x := by
  have short := (unitsOf_bounds (n := n) some_).1
  have unit := unitOf_le some_ small
  have word : nearestWord n d = unitOf n d * 2 ^ 52 + unitsOf n d := rfl
  exact ⟨_, dif_pos (by omega)⟩

theorem natCast_onGrid (m : Nat) (some_ : 0 < d) (small : n ≤ 2 ^ 52 * d) : OnGrid (gridOf n d) m := by
  have power : (2 : ℚ) ^ (1074 - unitOf n d) * 2 ^ unitOf n d = 2 ^ 1074 := by
    rw [← pow_add, Nat.sub_add_cancel (unitOf_le some_ small)]
  refine ⟨m * 2 ^ (1074 - unitOf n d), ?_⟩
  rw [gridOf, Int.cast_mul, Int.cast_natCast, Int.cast_pow, Int.cast_ofNat, mul_assoc, ← mul_div_assoc,
    power, div_self (by positivity), mul_one]

theorem within_iff (finite : x.isFinite = true) : x.within bound = true ↔ x.magnitude ≤ bound := by
  rw [within, finite, Bool.true_and, decide_eq_true_eq, magnitude, div_le_iff₀ (by positivity)]
  norm_cast

/-- A bound is kept by what has few decimals exactly when the double keeps it. -/
theorem within_of_nearest (room : bound * 10 ^ precision < 2 ^ 52) (places : 10 ^ precision < 2 ^ 1074)
    (here : nearest negative k (10 ^ precision) = some x) :
    x.within bound = true ↔ k ≤ bound * 10 ^ precision := by
  have some_ : 0 < 10 ^ precision := by positivity
  have pos : (0 : ℚ) < 10 ^ precision := by positivity
  have there := nearest_magnitude some_ here
  have room' : (bound : ℚ) < 2 ^ 52 * (1 / 10 ^ precision) := by
    rw [mul_one_div, lt_div_iff₀ pos]
    exact_mod_cast room
  rw [within_iff (nearest_some some_ here).2.1]
  constructor
  · intro inside
    by_contra above
    rw [not_le] at above
    -- a last decimal is more than what conversion takes away
    have more : (bound : ℚ) + 1 / 10 ^ precision ≤ k / (10 ^ precision : ℕ) := by
      rw [Nat.cast_pow, Nat.cast_ofNat, le_div_iff₀ pos, add_mul, one_div_mul_cancel pos.ne']
      exact_mod_cast above
    apply absurd inside
    rw [not_le]
    apply there.lt
    rcases gridOf_le (n := k) some_ with least | bits
    · have tiny : gridOf k (10 ^ precision) < 1 / 10 ^ precision := by
        rw [least]
        exact one_div_lt_one_div_of_lt pos (by exact_mod_cast places)
      have half := half_lt_self (gridOf_pos k (10 ^ precision))
      linarith only [tiny, half, more]
    · linarith
  · intro small
    have below : (k / (10 ^ precision : ℕ) : ℚ) ≤ bound := by
      rw [Nat.cast_pow, Nat.cast_ofNat, div_le_iff₀ pos]
      exact_mod_cast small
    apply there.le (gridOf_pos _ _) (natCast_onGrid bound some_ _) below
    exact small.trans (Nat.mul_le_mul_right _ (Nat.le_of_lt (Nat.lt_of_le_of_lt
      (Nat.le_mul_of_pos_right bound some_) room)))

end JustWeather.CLib.Double
