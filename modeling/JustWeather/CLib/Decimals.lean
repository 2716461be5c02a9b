import JustWeather.CLib.Rounded

/-! # Decimals

Numbers with a few digits behind the point. Read and printed again they are what they were, apart
from how they are written.
-/

namespace JustWeather.CLib

open Double

/-- A sign or none, digits, and a point or none, with at most so many digits behind it. -/
structure Decimals (places : Nat) where
  sign : Bytes
  whole : Bytes
  /-- The digits behind the point, if there is one. -/
  part : Option Bytes
  isSign : IsSign sign
  digits : ∀ c ∈ whole ++ part.getD [], isBase 10 c = true
  nonempty : whole ++ part.getD [] ≠ []
  short : (part.getD []).length ≤ places

namespace Decimals

variable {places : Nat}

/-- Without the sign. -/
def mantissa (t : Decimals places) : Bytes := t.whole ++ t.part.elim [] (POINT :: ·)

def text (t : Decimals places) : Bytes := t.sign ++ t.mantissa

def negative (t : Decimals places) : Bool := t.sign = [45]

/-- How many units of the last place. -/
def steps (t : Decimals places) : Nat :=
  value 10 (t.whole ++ t.part.getD []) * 10 ^ (places - (t.part.getD []).length)

/-! ## Reading -/

variable (t : Decimals places)

theorem isMantissa : IsMantissa 10 t.mantissa := by
  obtain ⟨sign, whole, part, isSign, digits, nonempty, short⟩ := t
  cases part with
  | none =>
      simp only [Option.getD_none, List.append_nil] at digits nonempty
      simp only [mantissa, Option.elim_none, List.append_nil]
      exact .whole nonempty digits
  | some es =>
      simp only [Option.getD_some] at digits nonempty
      apply IsMantissa.point nonempty
      · exact fun c mem => digits c (List.mem_append_left _ mem)
      · exact fun c mem => digits c (List.mem_append_right _ mem)

theorem isNumeral : IsNumeral t.text :=
  ⟨t.sign, t.mantissa ++ [], t.isSign, .decimal t.isMantissa .none, by rw [List.append_nil]; rfl⟩

theorem splitSign_text : splitSign t.text = (t.negative, t.mantissa) := by
  have first : ∃ c s, t.mantissa = c :: s ∧ IsFirst c := t.isMantissa.head (by decide)
  obtain ⟨c, s, split, minus, plus, -⟩ := first
  unfold text negative
  rcases t.isSign with sign | sign | sign
  · rw [sign, split]
    simp [splitSign, minus, plus]
  · rw [sign]
    rfl
  · rw [sign]
    rfl

theorem readMantissa_text : readMantissa 10 t.mantissa = some (t.whole, t.part.getD [], []) := by
  obtain ⟨sign, whole, part, isSign, digits, nonempty, short⟩ := t
  have inside : ∀ c ∈ whole, isBase 10 c = true := fun c mem => digits c (List.mem_append_left _ mem)
  cases part with
  | none =>
      simp only [Option.getD_none, List.append_nil] at nonempty
      have all : whole.takeWhile (isBase 10) = whole := List.takeWhile_eq_self_iff.mpr inside
      have none : whole.dropWhile (isBase 10) = [] := List.dropWhile_eq_nil_iff.mpr inside
      simp only [mantissa, Option.elim_none, List.append_nil, readMantissa, all, none, readFraction,
        if_neg nonempty, Option.getD_none]
  | some es =>
      have behind : ∀ c ∈ es, isBase 10 c = true := fun c mem => digits c (List.mem_append_right _ mem)
      have stop : ∀ c ∈ (POINT :: es).head?, isBase 10 c = false := by
        rintro c ⟨⟩
        decide
      have all : es.takeWhile (isBase 10) = es := List.takeWhile_eq_self_iff.mpr behind
      have none : es.dropWhile (isBase 10) = [] := List.dropWhile_eq_nil_iff.mpr behind
      simp only [mantissa, Option.elim_some, readMantissa, takeWhile_append_stop inside stop,
        dropWhile_append_stop inside stop, readFraction, if_true, all, none]
      exact if_neg nonempty

theorem readHexadecimal_text : readHexadecimal t.mantissa = none := by
  cases read : readHexadecimal t.mantissa with
  | none => rfl
  | some found =>
      obtain ⟨x, rest⟩ := found
      obtain ⟨w, m, e, word, mantissa, -, split⟩ := readHexadecimal_sound read
      have short : (t.mantissa ++ []).length ≤ 1 := decimal_short (r := []) t.isMantissa .none word
        (by rw [List.append_nil, List.append_nil]; exact split)
      have two : w.length = 2 := word.length
      rw [List.append_nil, split, List.length_append] at short
      omega

/-- All of the text is read. -/
theorem strtod_text : strtod t.text = some (t.negative,
    .finite 10 (value 10 (t.whole ++ t.part.getD [])) (-((t.part.getD []).length : ℕ)), []) := by
  have decimal : readUnsigned t.mantissa = some
      (.finite 10 (value 10 (t.whole ++ t.part.getD [])) (-((t.part.getD []).length : ℕ)), []) := by
    rw [readUnsigned, t.readHexadecimal_text, readDecimal, readScaled, t.readMantissa_text]
    simp [readExponent]
  rw [strtod, t.isNumeral.dropSpace, readNumeral, t.splitSign_text]
  simp only [decimal, Option.map_some]

theorem cStr_text : cStr t.text = t.text := by
  apply cStr_of_clean
  intro mem
  rcases List.mem_append.mp mem with sign | mem
  · rcases t.isSign with none | minus | plus
    · rw [none] at sign
      cases sign
    · rw [minus] at sign
      exact absurd sign (by decide)
    · rw [plus] at sign
      exact absurd sign (by decide)
  · have digit : 0 ∉ t.whole ++ t.part.getD [] := fun mem => absurd (t.digits 0 mem) (by decide)
    rw [mantissa] at mem
    cases here : t.part with
    | none => simp_all
    | some es =>
        have point : (0 : UInt8) ≠ POINT := by decide
        simp_all

/-- Conversion is that of the steps, and the only error is a number that is too large. -/
theorem stod_text (erange : Numeral → Bool) (fine : 10 ^ places ≤ 2 ^ 1022) :
    stod erange t.text = (nearest t.negative t.steps (10 ^ places)).elim
      (.error (.outOfRange (ascii "stod"))) .ok := by
  obtain ⟨m, mantissa⟩ : ∃ m, m = value 10 (t.whole ++ t.part.getD []) := ⟨_, rfl⟩
  obtain ⟨behind, length⟩ : ∃ behind, behind = (t.part.getD []).length := ⟨_, rfl⟩
  have short : behind ≤ places := length ▸ t.short
  have tiny : (Numeral.finite 10 m (-(behind : ℕ))).isTiny = false := by
    have low : 10 ^ behind ≤ 10 ^ places := Nat.pow_le_pow_right (by decide) short
    simp only [Numeral.isTiny, Int.toNat_neg_natCast, pow_zero, Nat.mul_one, neg_neg,
      Int.toNat_natCast, Bool.and_eq_false_iff, decide_eq_false_iff_not, not_lt, nonpos_iff_eq_zero]
    rcases Nat.eq_zero_or_pos m with zero | pos
    · exact .inl zero
    · exact .inr (low.trans (fine.trans (Nat.le_mul_of_pos_left _ pos)))
  have double : (Numeral.finite 10 m (-(behind : ℕ))).toDouble t.negative =
      nearest t.negative t.steps (10 ^ places) := by
    have scale : 10 ^ places = 10 ^ behind * 10 ^ (places - behind) := by
      rw [← pow_add, Nat.add_sub_cancel' short]
    have steps : t.steps = m * 10 ^ (places - behind) := by rw [Decimals.steps, mantissa, length]
    simp only [Numeral.toDouble, Int.toNat_neg_natCast, pow_zero, Nat.mul_one, neg_neg,
      Int.toNat_natCast]
    rw [steps, scale, nearest_scale (by positivity)]
  unfold stod
  rw [t.cStr_text, t.strtod_text, ← mantissa, ← length]
  simp only [tiny, Bool.false_and, Bool.false_eq_true, if_false, double]
  cases nearest t.negative t.steps (10 ^ places) <;> rfl

/-! ## Printing -/

/-- The digits behind the point. -/
def lastPlaces (places steps : Nat) : Bytes :=
  List.replicate (places - (decimal (steps % 10 ^ places)).length) 48 ++ decimal (steps % 10 ^ places)

/-- So many steps, with all places. -/
def shown (places : Nat) (negative : Bool) (steps : Nat) : Bytes :=
  (if negative then [45] else []) ++
    (decimal (steps / 10 ^ places) ++ POINT :: lastPlaces places steps)

theorem fixed_eq_shown {d : Double} (finite : d.isFinite = true) :
    d.fixed places = shown places d.negative (d.scaled places) := by
  rw [fixed, finite, if_pos rfl]
  rfl

/-- What has few digits is printed as it was read, apart from how it was written. -/
theorem fixed_stod {erange : Numeral → Bool} {d : Double} (fine : 10 ^ places ≤ 2 ^ 1022)
    (small : t.steps < 2 ^ 52) (read : stod erange t.text = .ok d) :
    d.fixed places = shown places t.negative t.steps := by
  have places' : 10 ^ places < 2 ^ 1074 :=
    fine.trans_lt (pow_lt_pow_right₀ (by decide) (by decide))
  rw [t.stod_text erange fine] at read
  cases here : nearest t.negative t.steps (10 ^ places) with
  | none =>
      rw [here] at read
      cases read
  | some x =>
      rw [here] at read
      cases read
      obtain ⟨sign, finite, -⟩ := nearest_some (by positivity) here
      rw [fixed_eq_shown finite, sign, scaled_of_nearest small places' here]

/-- It is read as a double within the bound exactly when it is within the bound. -/
theorem stod_within {erange : Numeral → Bool} {bound : Nat} (fine : 10 ^ places ≤ 2 ^ 1022)
    (room : bound * 10 ^ places < 2 ^ 52) :
    (∃ d, stod erange t.text = .ok d ∧ d.within bound = true) ↔ t.steps ≤ bound * 10 ^ places := by
  have places' : 10 ^ places < 2 ^ 1074 :=
    fine.trans_lt (pow_lt_pow_right₀ (by decide) (by decide))
  rw [t.stod_text erange fine]
  cases here : nearest t.negative t.steps (10 ^ places) with
  | none =>
      refine iff_of_false (by simp) fun small => ?_
      obtain ⟨x, there⟩ := @nearest_isSome t.steps (10 ^ places) t.negative (by positivity)
        ((small.trans room.le).trans (Nat.le_mul_of_pos_right _ (by positivity)))
      rw [here] at there
      cases there
  | some x =>
      rw [← within_of_nearest room places' here]
      simp

/-! ## What is printed is read again -/

theorem value_zeros (n : Nat) : value 10 (List.replicate n 48) = 0 := by
  induction n with
  | zero => rfl
  | succ n ih =>
      rw [List.replicate_succ', value_append, ih]
      rfl

theorem value_lastPlaces (places steps : Nat) :
    value 10 (lastPlaces places steps) = steps % 10 ^ places := by
  rw [lastPlaces, value_concat, value_zeros, Nat.zero_mul, Nat.zero_add, value_decimal]

theorem lastPlaces_length (pos : 0 < places) (steps : Nat) :
    (lastPlaces places steps).length = places := by
  have short := decimal_length_le pos (Nat.mod_lt steps (by positivity : 0 < 10 ^ places))
  rw [lastPlaces, List.length_append, List.length_replicate]
  omega

theorem lastPlaces_digits (places steps : Nat) : ∀ c ∈ lastPlaces places steps, isBase 10 c = true := by
  intro c mem
  rcases List.mem_append.mp mem with zero | digit
  · rw [List.eq_of_mem_replicate zero]
    decide
  · rw [isBase_ten]
    exact decimal_digits _ c digit

/-- The text with all places. -/
def ofSteps (pos : 0 < places) (negative : Bool) (steps : Nat) : Decimals places where
  sign := if negative then [45] else []
  whole := decimal (steps / 10 ^ places)
  part := some (lastPlaces places steps)
  isSign := by
    cases negative
    · exact .inl rfl
    · exact .inr (.inl rfl)
  digits c mem := by
    rcases List.mem_append.mp mem with whole | part
    · rw [isBase_ten]
      exact decimal_digits _ c whole
    · exact lastPlaces_digits places steps c part
  nonempty none := decimal_nonempty _ (List.append_eq_nil_iff.mp none).1
  short := (lastPlaces_length pos steps).le

variable {negative : Bool} {steps : Nat} (pos : 0 < places)

theorem ofSteps_text : (ofSteps pos negative steps).text = shown places negative steps := rfl

theorem ofSteps_negative : (ofSteps pos negative steps).negative = negative := by
  cases negative <;> rfl

theorem ofSteps_value : value 10 ((ofSteps pos negative steps).whole ++
    (ofSteps pos negative steps).part.getD []) = steps := by
  change value 10 (decimal (steps / 10 ^ places) ++ lastPlaces places steps) = steps
  rw [value_concat, value_decimal, value_lastPlaces, lastPlaces_length pos]
  exact Nat.div_add_mod' steps (10 ^ places)

theorem ofSteps_steps : (ofSteps pos negative steps).steps = steps := by
  have all : ((ofSteps pos negative steps).part.getD []).length = places := lastPlaces_length pos steps
  rw [Decimals.steps, ofSteps_value, all, Nat.sub_self, pow_zero, Nat.mul_one]

/-- What is printed tells the sign and the steps. -/
theorem shown_injective (pos : 0 < places) {negative' : Bool} {steps' : Nat}
    (same : shown places negative steps = shown places negative' steps') :
    negative = negative' ∧ steps = steps' := by
  have read := (ofSteps pos negative steps).strtod_text
  have read' := (ofSteps pos negative' steps').strtod_text
  rw [ofSteps_text, ofSteps_negative, ofSteps_value] at read read'
  rw [same, read', Option.some.injEq, Prod.mk.injEq, Prod.mk.injEq, Numeral.finite.injEq] at read
  exact ⟨read.1.symm, read.2.1.2.1.symm⟩

end Decimals

end JustWeather.CLib
