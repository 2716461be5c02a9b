import JustWeather.CLib.Strings
import Mathlib.Data.Nat.Digits.Lemmas

/-! # Numerals

Reading as `strtol`, `strtoul` and `scanf` do it (leading white space, a sign,
an optional `0x`, saturation) and writing as `printf` does it. A numeral read
back from what was written, with any byte that is not a digit after it, is the
number written.
-/

namespace JustWeather.CLib

/-- The value of a digit or letter; 36 stands for every other byte. -/
def digitOf (c : UInt8) : Nat :=
  if isDigit c then c.toNat - 48
  else if 97 ≤ c && c ≤ 122 then c.toNat - 87
  else if 65 ≤ c && c ≤ 90 then c.toNat - 55
  else 36

def isBase (base : Nat) (c : UInt8) : Bool := digitOf c < base

/-- The number a digit string denotes. -/
def value (base : Nat) (ds : Bytes) : Nat := ds.foldl (fun acc c => acc * base + digitOf c) 0

/-- An optional sign; `true` for minus. -/
def splitSign : Bytes → Bool × Bytes
  | [] => (false, [])
  | c :: s => if c = 45 then (true, s) else if c = 43 then (false, s) else (false, c :: s)

/-- The longest run of digits, when there is one, and what follows it. -/
def readDigits (base : Nat) (s : Bytes) : Option (Bytes × Bytes) :=
  let ds := s.takeWhile (isBase base)
  if ds = [] then none else some (ds, s.dropWhile (isBase base))

/-- A `0x` counts only when a hexadecimal digit follows. -/
def skipHexPrefix : Bytes → Bytes
  | z :: x :: c :: s =>
      if z = 48 && (x = 120 || x = 88) && isBase 16 c then c :: s else z :: x :: c :: s
  | s => s

/-- `strtoul(s, &end, 16)`; `none` when `end == s`. -/
def strtoul16 (s : Bytes) : Option Nat :=
  let (neg, t) := splitSign (s.dropWhile isSpace)
  match readDigits 16 (skipHexPrefix t) with
  | none => none
  | some (ds, _) =>
      let v := value 16 ds
      if 2 ^ 64 ≤ v then some (2 ^ 64 - 1)
      else some (if neg then (2 ^ 64 - v) % 2 ^ 64 else v)

/-- A 64-bit value stored into a 32-bit `int`. -/
def narrow32 (v : Int) : Int := (BitVec.ofInt 32 v).toInt

theorem narrow32_of_small {v : Int} (low : -2 ^ 31 ≤ v) (high : v < 2 ^ 31) : narrow32 v = v := by
  rw [narrow32, BitVec.toInt_ofInt, Int.bmod_eq_of_le] <;> omega

/-- Saturation of `strtol` at the limits of a 64-bit `long`. -/
def clampLong (v : Int) : Int := max (-2 ^ 63) (min (2 ^ 63 - 1) v)

/-- One `%d` conversion: the value stored and what is left to scan. -/
def readInt (s : Bytes) : Option (Int × Bytes) :=
  let (neg, t) := splitSign (s.dropWhile isSpace)
  (readDigits 10 t).map fun (ds, rest) =>
    (narrow32 (clampLong (if neg then -(value 10 ds : Int) else value 10 ds)), rest)

/-- One `%zu` conversion. -/
def readSize (s : Bytes) : Option Nat :=
  let (neg, t) := splitSign (s.dropWhile isSpace)
  (readDigits 10 t).map fun (ds, _) =>
    let v := value 10 ds
    if 2 ^ 64 ≤ v then 2 ^ 64 - 1 else if neg then (2 ^ 64 - v) % 2 ^ 64 else v

/-- `atoi`, as `(int) strtol(s, NULL, 10)`. -/
def atoi (s : Bytes) : Int := ((readInt s).map Prod.fst).getD 0

/-! ## Writing -/

/-- `%zu`. -/
def decimal (n : Nat) : Bytes :=
  if n = 0 then [48] else (Nat.digits 10 n).reverse.map fun d => UInt8.ofNat (48 + d)

/-- `%d`. -/
def decimalInt (v : Int) : Bytes := if v < 0 then 45 :: decimal v.natAbs else decimal v.natAbs

def upperHexDigit (n : Nat) : UInt8 := UInt8.ofNat (if n < 10 then 48 + n else 55 + n)

def lowerHexDigit (n : Nat) : UInt8 := UInt8.ofNat (if n < 10 then 48 + n else 87 + n)

/-! ## Digits -/

theorem isBase_ten {c : UInt8} : isBase 10 c = isDigit c := by
  simp only [isBase, digitOf, isDigit, UInt8.le_iff_toNat_le, UInt8.reduceToNat]
  grind

theorem isBase_not_space {base : Nat} {c : UInt8} (hb : base ≤ 36) (h : isBase base c = true) :
    isSpace c = false := by
  simp only [isBase, digitOf, isDigit, isSpace] at *
  grind

theorem isBase_not_sign {base : Nat} {c : UInt8} (hb : base ≤ 36) (h : isBase base c = true) :
    c ≠ 45 ∧ c ≠ 43 := by
  simp only [isBase, digitOf, isDigit] at *
  grind

theorem readDigits_append {base : Nat} {ds rest : Bytes} (nonempty : ds ≠ [])
    (digits : ∀ c ∈ ds, isBase base c = true) (stop : ∀ c ∈ rest.head?, isBase base c = false) :
    readDigits base (ds ++ rest) = some (ds, rest) := by
  simp only [readDigits, takeWhile_append_stop digits stop, dropWhile_append_stop digits stop,
    if_neg nonempty]

theorem splitSign_digits {base : Nat} {ds rest : Bytes} (hb : base ≤ 36) (nonempty : ds ≠ [])
    (digits : ∀ c ∈ ds, isBase base c = true) : splitSign (ds ++ rest) = (false, ds ++ rest) := by
  obtain ⟨c, ds, rfl⟩ := List.exists_cons_of_ne_nil nonempty
  have h := isBase_not_sign hb (digits c (by simp))
  simp [splitSign, h.1, h.2]

theorem dropSpace_digits {base : Nat} {ds rest : Bytes} (hb : base ≤ 36) (nonempty : ds ≠ [])
    (digits : ∀ c ∈ ds, isBase base c = true) : (ds ++ rest).dropWhile isSpace = ds ++ rest := by
  obtain ⟨c, ds, rfl⟩ := List.exists_cons_of_ne_nil nonempty
  simp [isBase_not_space hb (digits c (by simp))]

theorem skipHexPrefix_digits {ds rest : Bytes} (nonempty : ds ≠ [])
    (digits : ∀ c ∈ ds, isBase 16 c = true) (stop : ∀ c ∈ rest.head?, c ≠ 120 ∧ c ≠ 88) :
    skipHexPrefix (ds ++ rest) = ds ++ rest := by
  have second : ∀ z x s, ds ++ rest = z :: x :: s → x ≠ 120 ∧ x ≠ 88 := by
    intro z x s split
    match ds with
    | [] => exact absurd rfl nonempty
    | [_] =>
        rw [List.singleton_append, List.cons.injEq] at split
        exact stop x (by rw [split.2]; rfl)
    | _ :: y :: _ =>
        simp only [List.cons_append, List.cons.injEq] at split
        have digit := digits y (by simp)
        rw [split.2.1] at digit
        constructor <;> rintro rfl <;> exact absurd digit (by decide)
  generalize ds ++ rest = s at second
  match s with
  | [] | [_] | [_, _] => rfl
  | z :: x :: c :: s =>
      obtain ⟨lower, upper⟩ := second z x (c :: s) rfl
      simp [skipHexPrefix, lower, upper]

/-- `strtoul` on a line that starts with a hexadecimal numeral. -/
theorem strtoul16_numeral {ds rest : Bytes} (nonempty : ds ≠ [])
    (digits : ∀ c ∈ ds, isBase 16 c = true)
    (stop : ∀ c ∈ rest.head?, isBase 16 c = false ∧ c ≠ 120 ∧ c ≠ 88) :
    strtoul16 (ds ++ rest) = some (min (value 16 ds) (2 ^ 64 - 1)) := by
  have space : (ds ++ rest).dropWhile isSpace = ds ++ rest :=
    dropSpace_digits (by decide) nonempty digits
  have sign : splitSign (ds ++ rest) = (false, ds ++ rest) :=
    splitSign_digits (by decide) nonempty digits
  have hex : skipHexPrefix (ds ++ rest) = ds ++ rest :=
    skipHexPrefix_digits nonempty digits fun c mem => (stop c mem).2
  have read : readDigits 16 (ds ++ rest) = some (ds, rest) :=
    readDigits_append nonempty digits fun c mem => (stop c mem).1
  simp only [strtoul16, space, sign, hex, read, Bool.false_eq_true, if_false]
  split
  · next large => rw [Nat.min_eq_right (by omega)]
  · next small => rw [Nat.min_eq_left (by omega)]

/-- `strtoul` on a line that starts with a hexadecimal numeral below 2^64. -/
theorem strtoul16_digits {ds rest : Bytes} (nonempty : ds ≠ [])
    (digits : ∀ c ∈ ds, isBase 16 c = true)
    (stop : ∀ c ∈ rest.head?, isBase 16 c = false ∧ c ≠ 120 ∧ c ≠ 88) (small : value 16 ds < 2 ^ 64) :
    strtoul16 (ds ++ rest) = some (value 16 ds) := by
  rw [strtoul16_numeral nonempty digits stop, Nat.min_eq_left (by omega)]

/-- What is read starts with white space, a sign or a digit. -/
theorem strtoul16_head {s : Bytes} {v : Nat} (read : strtoul16 s = some v) :
    ∃ c t, s = c :: t ∧ (isSpace c = true ∨ c = 45 ∨ c = 43 ∨ isBase 16 c = true) := by
  cases s with
  | nil => cases read
  | cons c t =>
      refine ⟨c, t, rfl, ?_⟩
      by_contra none
      simp only [not_or, Bool.not_eq_true] at none
      obtain ⟨space, minus, plus, digit⟩ := none
      have first : (c :: t).dropWhile isSpace = c :: t := by simp [space]
      have sign : splitSign (c :: t) = (false, c :: t) := by simp [splitSign, minus, plus]
      have zero : c ≠ 48 := by
        rintro rfl
        exact absurd digit (by decide)
      have hex : skipHexPrefix (c :: t) = c :: t := by
        match t with
        | [] | [_] => rfl
        | x :: y :: t => simp [skipHexPrefix, zero]
      have absent : readDigits 16 (c :: t) = none := by simp [readDigits, digit]
      simp only [strtoul16, first, sign, hex, absent] at read
      cases read

/-- Whatever is read fits an `unsigned long`. -/
theorem strtoul16_lt {s : Bytes} {v : Nat} (read : strtoul16 s = some v) : v < 2 ^ 64 := by
  simp only [strtoul16] at read
  split at read
  · cases read
  · split at read
    · cases read
      decide
    · next small =>
        cases read
        split
        · exact Nat.mod_lt _ (by decide)
        · exact Nat.not_le.mp small

/-- `%d` on a decimal numeral that fits an `int`. -/
theorem readInt_digits {ds rest : Bytes} (nonempty : ds ≠ []) (digits : ∀ c ∈ ds, isDigit c = true)
    (stop : ∀ c ∈ rest.head?, isDigit c = false) (small : value 10 ds < 2 ^ 31) :
    readInt (ds ++ rest) = some ((value 10 ds : Int), rest) := by
  have digits' : ∀ c ∈ ds, isBase 10 c = true := fun c hc => isBase_ten ▸ digits c hc
  have stop' : ∀ c ∈ rest.head?, isBase 10 c = false := fun c hc => isBase_ten ▸ stop c hc
  have fits : narrow32 (clampLong (value 10 ds : Int)) = (value 10 ds : Int) := by
    have inLong : clampLong (value 10 ds : Int) = (value 10 ds : Int) := by
      simp only [clampLong]
      omega
    rw [inLong, narrow32_of_small] <;> omega
  simp only [readInt, dropSpace_digits (by decide) nonempty digits',
    splitSign_digits (by decide) nonempty digits', readDigits_append nonempty digits' stop',
    Option.map_some, Bool.false_eq_true, if_false, fits]

/-- `%zu` on a decimal numeral that fits a `size_t`. -/
theorem readSize_digits {ds rest : Bytes} (nonempty : ds ≠ []) (digits : ∀ c ∈ ds, isDigit c = true)
    (stop : ∀ c ∈ rest.head?, isDigit c = false) (small : value 10 ds < 2 ^ 64) :
    readSize (ds ++ rest) = some (value 10 ds) := by
  have digits' : ∀ c ∈ ds, isBase 10 c = true := fun c hc => isBase_ten ▸ digits c hc
  have stop' : ∀ c ∈ rest.head?, isBase 10 c = false := fun c hc => isBase_ten ▸ stop c hc
  simp only [readSize, dropSpace_digits (by decide) nonempty digits',
    splitSign_digits (by decide) nonempty digits', readDigits_append nonempty digits' stop',
    Option.map_some, if_neg (Nat.not_le.mpr small), Bool.false_eq_true, if_false]

/-! ## Reading back what was written -/

theorem value_append (base : Nat) (ds : Bytes) (c : UInt8) :
    value base (ds ++ [c]) = value base ds * base + digitOf c := by
  simp [value, List.foldl_append]

theorem value_concat (base : Nat) (ds es : Bytes) :
    value base (ds ++ es) = value base ds * base ^ es.length + value base es := by
  induction es using List.reverseRecOn with
  | nil => simp [value]
  | append_singleton es c ih =>
      rw [← List.append_assoc, value_append, ih, value_append, List.length_append,
        List.length_singleton, pow_succ]
      ring

/-- What is cut off multiplies the value by the base at least. -/
theorem value_take_le {base n : Nat} {ds : Bytes} (some_ : 0 < base) (cut : n < ds.length) :
    base * value base (ds.take n) ≤ value base ds := by
  obtain ⟨c, rest, split⟩ : ∃ c rest, ds.drop n = c :: rest :=
    List.exists_cons_of_ne_nil (by rw [ne_eq, List.drop_eq_nil_iff]; omega)
  calc base * value base (ds.take n)
      ≤ value base (ds.take n) * base ^ (c :: rest).length := by
        rw [List.length_cons, pow_succ, ← mul_assoc, mul_comm]
        exact Nat.mul_le_mul_right _ (Nat.le_mul_of_pos_right _ (by positivity))
    _ ≤ value base (ds.take n ++ c :: rest) := by
        rw [value_concat]
        exact Nat.le_add_right _ _
    _ = value base ds := by rw [← split, List.take_append_drop]

theorem digitOf_decimal {d : Nat} (h : d < 10) : digitOf (UInt8.ofNat (48 + d)) = d := by
  have digit : isDigit (UInt8.ofNat (48 + d)) = true := by
    simp only [isDigit, UInt8.le_iff_toNat_le, Bool.and_eq_true, decide_eq_true_eq]
    simp
    omega
  simp only [digitOf, digit, if_true]
  simp
  omega

theorem decimal_digits (n : Nat) : ∀ c ∈ decimal n, isDigit c = true := by
  intro c hc
  simp only [decimal] at hc
  split at hc
  · simp only [List.mem_singleton] at hc
    subst hc
    decide
  · obtain ⟨d, hd, rfl⟩ := List.mem_map.mp hc
    have small := Nat.digits_lt_base (by decide : 1 < 10) (List.mem_reverse.mp hd)
    simp only [isDigit, UInt8.le_iff_toNat_le, Bool.and_eq_true, decide_eq_true_eq]
    simp
    omega

/-- A byte that is neither the sign nor a digit is not printed. -/
theorem not_mem_decimalInt {z : UInt8} (v : Int) (sign : z ≠ 45) (digit : isDigit z = false) :
    z ∉ decimalInt v := by
  have digits : ∀ n, z ∉ decimal n := by
    intro n mem
    rw [decimal_digits n z mem] at digit
    cases digit
  unfold decimalInt
  split
  · simpa [sign] using digits _
  · exact digits _

theorem decimal_nonempty (n : Nat) : decimal n ≠ [] := by
  simp only [decimal]
  split
  · simp
  · next h => simpa using Nat.digits_ne_nil_iff_ne_zero.mpr h

private theorem value_reverse_digits (l : List Nat) (small : ∀ d ∈ l, d < 10) :
    value 10 (l.reverse.map fun d => UInt8.ofNat (48 + d)) = Nat.ofDigits 10 l := by
  induction l with
  | nil => rfl
  | cons d l ih =>
      have hd := digitOf_decimal (small d (by simp))
      have hl := ih fun d hd => small d (by simp [hd])
      rw [List.reverse_cons, List.map_append, List.map_singleton, value_append, hl, hd,
        Nat.ofDigits_cons]
      ring

theorem value_decimal (n : Nat) : value 10 (decimal n) = n := by
  simp only [decimal]
  split
  · next h => subst h; decide
  · rw [value_reverse_digits _ fun d hd => Nat.digits_lt_base (by decide) hd, Nat.ofDigits_digits]

/-- Reading back a printed number. -/
theorem readInt_decimal {n : Nat} {rest : Bytes} (small : n < 2 ^ 31)
    (stop : ∀ c ∈ rest.head?, isDigit c = false) :
    readInt (decimal n ++ rest) = some ((n : Int), rest) := by
  have h := readInt_digits (decimal_nonempty n) (decimal_digits n) stop
    (by rw [value_decimal]; exact small)
  rwa [value_decimal] at h

/-- `atoi` on a text of digits. -/
theorem atoi_digits {ds : Bytes} (nonempty : ds ≠ []) (digits : ∀ c ∈ ds, isDigit c = true)
    (small : value 10 ds < 2 ^ 31) : atoi ds = value 10 ds := by
  have read : readInt (ds ++ []) = some ((value 10 ds : Int), []) :=
    readInt_digits nonempty digits (by simp) small
  rw [List.append_nil] at read
  rw [atoi, read]
  rfl

theorem decimal_length_le {n k : Nat} (hk : 0 < k) (h : n < 10 ^ k) : (decimal n).length ≤ k := by
  simp only [decimal]
  split
  · exact hk
  · rw [List.length_map, List.length_reverse]
    exact (Nat.digits_length_le_iff (by decide) n).mpr h

end JustWeather.CLib
