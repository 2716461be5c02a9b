import JustWeather.CLib.Double
import JustWeather.CLib.Strtod

/-! # `std::stod`

A numeral becomes the double nearest to it, and of two the even one. What has no
double is out of range, and so may be what is below the normal doubles.
-/

namespace JustWeather.CLib

/-- The exceptions that are thrown, each with its `what()`. -/
inductive StdException where
  | invalidArgument (what : Bytes)
  | outOfRange (what : Bytes)
  | runtimeError (what : Bytes)
  deriving DecidableEq

/-- `std::logic_error`, the base of the first two. -/
def StdException.IsLogicError : StdException → Prop
  | invalidArgument _ | outOfRange _ => True
  | runtimeError _ => False

namespace Double

/-- The word nearest to `n / d`, without its sign. Between two powers of two the doubles are whole
multiples of one unit; a fraction that is rounded up to 2 carries into the exponent. -/
def nearestWord (n d : Nat) : Nat :=
  let unit := Nat.log2 (n * 2 ^ 1074 / d) - 52
  unit * 2 ^ 52 + roundHalfEven (n * 2 ^ 1074) (d * 2 ^ unit)

/-- The double nearest to `n / d`, unless there is none so large. -/
def nearest (negative : Bool) (n d : Nat) : Option Double :=
  if inRange : nearestWord n d < 2047 * 2 ^ 52 then
    some ⟨negative, ⟨nearestWord n d / 2 ^ 52, by omega⟩, ⟨nearestWord n d % 2 ^ 52, by omega⟩⟩
  else none

def infinity (negative : Bool) : Double := ⟨negative, ⟨2047, by decide⟩, ⟨0, by decide⟩⟩

/-- A quiet NaN without a payload. -/
def nan (negative : Bool) : Double := ⟨negative, ⟨2047, by decide⟩, ⟨2 ^ 51, by decide⟩⟩

theorem roundHalfEven_mul {d : Nat} (m : Nat) (some_ : 0 < d) : roundHalfEven (m * d) d = m := by
  rw [roundHalfEven, Nat.mul_mod_left, if_pos (by omega), Nat.mul_div_cancel _ some_]

/-- `m` units of this size, with `m` in the range of a fraction with its leading bit. -/
theorem nearestWord_units {m unit : Nat} (leading : unit = 0 ∨ 2 ^ 52 ≤ m) (short : m < 2 ^ 53) :
    nearestWord (m * 2 ^ unit) (2 ^ 1074) = unit * 2 ^ 52 + m := by
  have some_ : 0 < 2 ^ 1074 * 2 ^ unit := by positivity
  have size : Nat.log2 (m * 2 ^ unit) - 52 = unit := by
    rcases Nat.eq_zero_or_pos m with rfl | pos
    · rw [Nat.zero_mul, Nat.log2_zero]
      omega
    · have low : Nat.log2 (m * 2 ^ unit) < 53 + unit := by
        rw [Nat.log2_lt (by positivity), pow_add]
        exact Nat.mul_lt_mul_of_pos_right short (by positivity)
      rcases leading with rfl | leading
      · omega
      · have high : 52 + unit ≤ Nat.log2 (m * 2 ^ unit) := by
          rw [Nat.le_log2 (by positivity), pow_add]
          exact Nat.mul_le_mul_right _ leading
        omega
  have exact_ : m * 2 ^ unit * 2 ^ 1074 = m * (2 ^ 1074 * 2 ^ unit) := by
    rw [Nat.mul_assoc, Nat.mul_comm (2 ^ unit)]
  unfold nearestWord
  rw [Nat.mul_div_cancel _ (Nat.two_pow_pos 1074), size, exact_]
  simp only [roundHalfEven_mul m some_]

/-- A finite double is nearest to itself. -/
theorem nearest_units {d : Double} (finite : d.isFinite = true) :
    nearest d.negative d.units (2 ^ 1074) = some d := by
  obtain ⟨negative, exponent, fraction⟩ := d
  have largest : exponent.val < 2047 := by
    have other : exponent ≠ 2047 := by simpa [isFinite] using finite
    have := exponent.isLt
    have := Fin.val_ne_of_ne other
    omega
  have word : nearestWord (units ⟨negative, exponent, fraction⟩) (2 ^ 1074) =
      exponent * 2 ^ 52 + fraction := by
    have small := fraction.isLt
    unfold units
    simp only
    split
    · next zero =>
        have subnormal := @nearestWord_units fraction 0 (.inl rfl) (by omega)
        rw [zero]
        rw [pow_zero, Nat.mul_one] at subnormal
        exact subnormal
    · next nonzero =>
        have pos : exponent.val ≠ 0 := fun zero => nonzero (Fin.ext zero)
        have normal := @nearestWord_units (2 ^ 52 + fraction) (exponent.val - 1) (.inr (by omega)) (by omega)
        have carry : (exponent.val - 1) * 2 ^ 52 + (2 ^ 52 + fraction.val) =
            exponent.val * 2 ^ 52 + fraction.val := by omega
        exact normal.trans carry
  have small := fraction.isLt
  have high : (exponent.val * 2 ^ 52 + fraction.val) / 2 ^ 52 = exponent := by omega
  have low : (exponent.val * 2 ^ 52 + fraction.val) % 2 ^ 52 = fraction := by omega
  simp only [nearest, word, high, low]
  exact dif_pos (by omega)

end Double

/-! ## Conversion -/

namespace Numeral

/-- The nearest double, unless the numeral is too large. -/
def toDouble (negative : Bool) : Numeral → Option Double
  | finite base mantissa exponent =>
      Double.nearest negative (mantissa * base ^ exponent.toNat) (base ^ (-exponent).toNat)
  | infinite => some (Double.infinity negative)
  | nan => some (Double.nan negative)

/-- Not zero, and below the least normal double. -/
def isTiny : Numeral → Bool
  | finite base mantissa exponent =>
      0 < mantissa && mantissa * base ^ exponent.toNat * 2 ^ 1022 < base ^ (-exponent).toNat
  | _ => false

end Numeral

/-- `std::stod`. For which of the tiny numerals `strtod` sets `ERANGE` is its own choice. -/
def stod (erange : Numeral → Bool) (s : Bytes) : Except StdException Double :=
  match strtod (cStr s) with
  | none => .error (.invalidArgument (ascii "stod"))
  | some (negative, x, _) =>
      if x.isTiny && erange x then .error (.outOfRange (ascii "stod"))
      else
        match x.toDouble negative with
        | none => .error (.outOfRange (ascii "stod"))
        | some d => .ok d

theorem stod_error {erange : Numeral → Bool} {s : Bytes} {e : StdException}
    (failed : stod erange s = .error e) : e.IsLogicError := by
  unfold stod at failed
  split at failed
  · cases failed
    trivial
  · split at failed
    · cases failed
      trivial
    · split at failed
      · cases failed
        trivial
      · cases failed

end JustWeather.CLib
