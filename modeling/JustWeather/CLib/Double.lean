import JustWeather.CLib.Numerals

/-! # Doubles

The fields of a binary64 word. Every finite one is a whole number of units of
2^-1074, so comparison and decimal rounding are exact on naturals.
-/

namespace JustWeather.CLib

structure Double where
  negative : Bool
  exponent : Fin 2048
  fraction : Fin (2 ^ 52)
  deriving DecidableEq

namespace Double

def isFinite (d : Double) : Bool := d.exponent ≠ 2047

/-- The magnitude of a finite double. -/
def units (d : Double) : Nat :=
  if d.exponent = 0 then d.fraction else (2 ^ 52 + d.fraction) * 2 ^ (d.exponent.val - 1)

/-- `d >= -bound && d <= bound`; a NaN is not. -/
def within (bound : Nat) (d : Double) : Bool := d.isFinite && d.units ≤ bound * 2 ^ 1074

/-- The nearest whole number to `n / d`, and the even one of two. -/
def roundHalfEven (n d : Nat) : Nat :=
  if 2 * (n % d) < d then n / d
  else if d < 2 * (n % d) then n / d + 1
  else n / d + n / d % 2

/-- `std::fixed << std::setprecision(precision)`, for a precision that is not 0. -/
def fixed (precision : Nat) (d : Double) : Bytes :=
  (if d.negative then [45] else []) ++
    if d.isFinite then
      let scaled := roundHalfEven (d.units * 10 ^ precision) (2 ^ 1074)
      let digits := decimal (scaled % 10 ^ precision)
      decimal (scaled / 10 ^ precision) ++
        46 :: (List.replicate (precision - digits.length) 48 ++ digits)
    else if d.fraction = 0 then ascii "inf" else ascii "nan"

/-- The bytes a printed double is made of. -/
def isFixedByte (c : UInt8) : Bool := isDigit c || c == 45 || c == 46 || c ∈ ascii "infa"

theorem fixed_bytes (precision : Nat) (d : Double) :
    ∀ c ∈ d.fixed precision, isFixedByte c = true := by
  have digits : ∀ n, ∀ c ∈ decimal n, isFixedByte c = true := by
    intro n c hc
    simp [isFixedByte, decimal_digits n c hc]
  intro c hc
  rw [fixed] at hc
  rcases List.mem_append.mp hc with sign | hc
  · split at sign
    · rw [List.mem_singleton.mp sign]
      decide
    · cases sign
  · split at hc
    · simp only [List.mem_append, List.mem_cons, List.mem_replicate] at hc
      rcases hc with whole | rfl | ⟨-, rfl⟩ | part
      · exact digits _ c whole
      · decide
      · decide
      · exact digits _ c part
    · have words : ∀ c ∈ ascii "inf" ++ ascii "nan", isFixedByte c = true := by decide
      split at hc
      · exact words c (List.mem_append_left _ hc)
      · exact words c (List.mem_append_right _ hc)

/-- One and a half, and a tie that goes to the even digit. -/
example : fixed 4 ⟨false, 1023, 2 ^ 51⟩ = ascii "1.5000" ∧
    fixed 4 ⟨true, 1018, 0⟩ = ascii "-0.0312" := by decide +kernel

end Double

end JustWeather.CLib
