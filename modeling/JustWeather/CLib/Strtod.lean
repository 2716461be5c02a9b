import JustWeather.CLib.Double
import JustWeather.CLib.LetterCase

/-! # `strtod`

The numerals of `strtod`: decimal and hexadecimal ones, infinities and NaNs, with
a sign. Reading skips white space and takes the longest numeral.
-/

namespace JustWeather.CLib

def POINT : UInt8 := 46

/-! ## Numerals -/

/-- A sign, or none. -/
def IsSign (s : Bytes) : Prop := s = [] ∨ s = [45] ∨ s = [43]

/-- Digits, without a point or with one somewhere before, among or behind them. -/
inductive IsMantissa (base : Nat) : Bytes → Prop where
  | whole {ds : Bytes} : ds ≠ [] → (∀ c ∈ ds, isBase base c = true) → IsMantissa base ds
  | point {ds es : Bytes} : ds ++ es ≠ [] → (∀ c ∈ ds, isBase base c = true) →
      (∀ c ∈ es, isBase base c = true) → IsMantissa base (ds ++ POINT :: es)

/-- Nothing, or a mark in either case with a decimal number behind it. -/
inductive IsExponent (mark : UInt8) : Bytes → Prop where
  | none : IsExponent mark []
  | marked {c : UInt8} {sign ds : Bytes} : toLower c = mark → IsSign sign → ds ≠ [] →
      (∀ d ∈ ds, isBase 10 d = true) → IsExponent mark (c :: (sign ++ ds))

/-- The bytes between the brackets of a NaN. -/
def isNanByte (c : UInt8) : Bool := isAlnum c || c == 95

/-- A numeral without its sign. -/
inductive IsUnsigned : Bytes → Prop where
  | decimal {m e : Bytes} : IsMantissa 10 m → IsExponent 101 e → IsUnsigned (m ++ e)
  | hexadecimal {x m e : Bytes} : CaseEq x (ascii "0x") → IsMantissa 16 m → IsExponent 112 e →
      IsUnsigned (x ++ (m ++ e))
  | infinite {w : Bytes} : CaseEq w (ascii "inf") ∨ CaseEq w (ascii "infinity") → IsUnsigned w
  | nan {w : Bytes} : CaseEq w (ascii "nan") → IsUnsigned w
  | nanBytes {w cs : Bytes} : CaseEq w (ascii "nan") → (∀ c ∈ cs, isNanByte c = true) →
      IsUnsigned (w ++ 40 :: (cs ++ [41]))

def IsNumeral (s : Bytes) : Prop := ∃ sign t, IsSign sign ∧ IsUnsigned t ∧ s = sign ++ t

/-! ## Reading -/

/-- What a numeral stands for, but for its sign. -/
inductive Numeral where
  /-- `mantissa * base ^ exponent`. -/
  | finite (base mantissa : Nat) (exponent : Int)
  | infinite
  | nan
  deriving DecidableEq

/-- The digits behind a point, if there is one, and what follows. -/
def readFraction (base : Nat) : Bytes → Bytes × Bytes
  | [] => ([], [])
  | c :: s =>
      if c = POINT then (s.takeWhile (isBase base), s.dropWhile (isBase base)) else ([], c :: s)

/-- The digits before and behind the point, and what follows. -/
def readMantissa (base : Nat) (s : Bytes) : Option (Bytes × Bytes × Bytes) :=
  let ds := s.takeWhile (isBase base)
  let (es, rest) := readFraction base (s.dropWhile (isBase base))
  if ds ++ es = [] then none else some (ds, es, rest)

/-- The exponent, which is 0 where there is none, and what follows. -/
def readExponent (mark : UInt8) : Bytes → Int × Bytes
  | [] => (0, [])
  | c :: s =>
      if toLower c = mark then
        match readDigits 10 (splitSign s).2 with
        | some (ds, rest) => (if (splitSign s).1 then -(value 10 ds : Int) else value 10 ds, rest)
        | none => (0, c :: s)
      else (0, c :: s)

/-- A mantissa with its exponent. -/
def readScaled (base radix perDigit : Nat) (mark : UInt8) (s : Bytes) : Option (Numeral × Bytes) :=
  (readMantissa base s).map fun (ds, es, behind) =>
    (.finite radix (value base (ds ++ es)) ((readExponent mark behind).1 - perDigit * es.length),
      (readExponent mark behind).2)

/-- What follows the bytes of a NaN, if there are any. -/
def skipNanBytes : Bytes → Bytes
  | [] => []
  | c :: s =>
      if c = 40 then
        match s.dropWhile isNanByte with
        | [] => c :: s
        | d :: rest => if d = 41 then rest else c :: s
      else c :: s

def readHexadecimal (s : Bytes) : Option (Numeral × Bytes) :=
  if startsNoCase (ascii "0x") s then readScaled 16 2 4 112 (s.drop 2) else none

def readDecimal (s : Bytes) : Option (Numeral × Bytes) := readScaled 10 10 1 101 s

def readWord (s : Bytes) : Option (Numeral × Bytes) :=
  if startsNoCase (ascii "infinity") s then some (.infinite, s.drop 8)
  else if startsNoCase (ascii "inf") s then some (.infinite, s.drop 3)
  else if startsNoCase (ascii "nan") s then some (.nan, skipNanBytes (s.drop 3))
  else none

def readUnsigned (s : Bytes) : Option (Numeral × Bytes) :=
  readHexadecimal s <|> readDecimal s <|> readWord s

/-- A numeral at the start of the text: whether it is negative, what it stands for, and what
follows. -/
def readNumeral (s : Bytes) : Option (Bool × Numeral × Bytes) :=
  (readUnsigned (splitSign s).2).map fun (x, rest) => ((splitSign s).1, x, rest)

/-- `strtod(s, &end)` up to the conversion; `none` when `end == s`. -/
def strtod (s : Bytes) : Option (Bool × Numeral × Bytes) := readNumeral (s.dropWhile isSpace)

/-! ## What is read is a numeral -/

variable {base : Nat} {mark : UInt8} {s rest : Bytes}

theorem takeWhile_all {p : UInt8 → Bool} : ∀ c ∈ s.takeWhile p, p c = true :=
  fun _ => List.mem_takeWhile_imp

theorem readMantissa_sound {ds es : Bytes} (read : readMantissa base s = some (ds, es, rest)) :
    ∃ m, IsMantissa base m ∧ s = m ++ rest := by
  have split : s = s.takeWhile (isBase base) ++ s.dropWhile (isBase base) :=
    List.takeWhile_append_dropWhile.symm
  unfold readMantissa at read
  cases behind : s.dropWhile (isBase base) with
  | nil =>
      simp only [behind, readFraction, List.append_nil] at read
      split at read
      · cases read
      · next some_ =>
          cases read
          exact ⟨s.takeWhile (isBase base), .whole some_ takeWhile_all, by rw [← behind]; exact split⟩
  | cons c t =>
      simp only [behind, readFraction] at read
      by_cases point : c = POINT
      · simp only [if_pos point] at read
        split at read
        · cases read
        · next some_ =>
            cases read
            refine ⟨_, .point some_ takeWhile_all takeWhile_all, ?_⟩
            rw [List.append_assoc, List.cons_append, List.takeWhile_append_dropWhile, ← point, ← behind]
            exact split
      · simp only [if_neg point, List.append_nil] at read
        split at read
        · cases read
        · next some_ =>
            cases read
            exact ⟨s.takeWhile (isBase base), .whole some_ takeWhile_all, by rw [← behind]; exact split⟩

theorem splitSign_sound (s : Bytes) : ∃ sign, IsSign sign ∧ s = sign ++ (splitSign s).2 := by
  cases s with
  | nil => exact ⟨[], .inl rfl, rfl⟩
  | cons c s =>
      simp only [splitSign]
      split
      · next minus => exact ⟨[45], .inr (.inl rfl), by rw [minus]; rfl⟩
      · split
        · next plus => exact ⟨[43], .inr (.inr rfl), by rw [plus]; rfl⟩
        · exact ⟨[], .inl rfl, rfl⟩

theorem readExponent_sound (mark : UInt8) (s : Bytes) :
    ∃ e, IsExponent mark e ∧ s = e ++ (readExponent mark s).2 := by
  cases s with
  | nil => exact ⟨[], .none, rfl⟩
  | cons c s =>
      simp only [readExponent]
      split
      · next marked =>
          split
          · next ds rest read =>
              obtain ⟨sign, isSign, split⟩ := splitSign_sound s
              unfold readDigits at read
              simp only at read
              split at read
              · cases read
              · next some_ =>
                  cases read
                  refine ⟨_, .marked marked isSign some_ takeWhile_all, ?_⟩
                  rw [List.cons_append, List.append_assoc, List.takeWhile_append_dropWhile, ← split]
          · exact ⟨[], .none, rfl⟩
      · exact ⟨[], .none, rfl⟩

theorem skipNanBytes_sound (s : Bytes) : skipNanBytes s = s ∨
    ∃ cs, (∀ c ∈ cs, isNanByte c = true) ∧ s = 40 :: (cs ++ 41 :: skipNanBytes s) := by
  cases s with
  | nil => exact .inl rfl
  | cons c s =>
      simp only [skipNanBytes]
      split
      · next opens =>
          split
          · exact .inl rfl
          · next d rest behind =>
              split
              · next closes =>
                  refine .inr ⟨s.takeWhile isNanByte, takeWhile_all, ?_⟩
                  rw [opens, ← closes, ← behind, List.takeWhile_append_dropWhile]
              · exact .inl rfl
      · exact .inl rfl

theorem readScaled_sound {radix perDigit : Nat} {x : Numeral}
    (read : readScaled base radix perDigit mark s = some (x, rest)) :
    ∃ m e, IsMantissa base m ∧ IsExponent mark e ∧ s = m ++ (e ++ rest) := by
  unfold readScaled at read
  obtain ⟨⟨ds, es, behind⟩, mantissa, eq⟩ := Option.map_eq_some_iff.mp read
  obtain ⟨m, isMantissa, split⟩ := readMantissa_sound mantissa
  obtain ⟨e, isExponent, split'⟩ := readExponent_sound mark behind
  rw [Prod.mk.injEq] at eq
  refine ⟨m, e, isMantissa, isExponent, ?_⟩
  rw [← eq.2, ← split']
  exact split

/-- A word at the start of a text. -/
theorem startsNoCase_split {name : Bytes} (h : startsNoCase name s = true) :
    ∃ w, CaseEq w name ∧ s = w ++ s.drop name.length := by
  rw [startsNoCase, beq_iff_eq] at h
  exact ⟨s.take name.length, caseEq_iff.mpr h, (List.take_append_drop _ _).symm⟩

theorem readHexadecimal_sound {x : Numeral} (read : readHexadecimal s = some (x, rest)) :
    ∃ w m e, CaseEq w (ascii "0x") ∧ IsMantissa 16 m ∧ IsExponent 112 e ∧
      s = w ++ (m ++ (e ++ rest)) := by
  unfold readHexadecimal at read
  split at read
  · next starts =>
      obtain ⟨w, word, split⟩ := startsNoCase_split starts
      obtain ⟨m, e, mantissa, exponent, split'⟩ := readScaled_sound read
      have two : s.drop (ascii "0x").length = m ++ (e ++ rest) := split'
      exact ⟨w, m, e, word, mantissa, exponent, by rw [← two]; exact split⟩
  · cases read

theorem readWord_sound {x : Numeral} (read : readWord s = some (x, rest)) :
    ∃ t, IsUnsigned t ∧ s = t ++ rest := by
  unfold readWord at read
  split at read
  · next starts =>
      cases read
      obtain ⟨w, word, split⟩ := startsNoCase_split starts
      exact ⟨w, .infinite (.inr word), split⟩
  · split at read
    · next starts =>
        cases read
        obtain ⟨w, word, split⟩ := startsNoCase_split starts
        exact ⟨w, .infinite (.inl word), split⟩
    · split at read
      · next starts =>
          cases read
          obtain ⟨w, word, split⟩ := startsNoCase_split starts
          have three : s.drop (ascii "nan").length = s.drop 3 := rfl
          rcases skipNanBytes_sound (s.drop 3) with same | ⟨cs, inside, split'⟩
          · exact ⟨w, .nan word, by rw [same]; exact split⟩
          · refine ⟨_, .nanBytes word inside, ?_⟩
            rw [List.append_assoc, List.cons_append, List.append_assoc, List.singleton_append,
              ← split', ← three]
            exact split
      · cases read

theorem readUnsigned_sound {x : Numeral} (read : readUnsigned s = some (x, rest)) :
    ∃ t, IsUnsigned t ∧ s = t ++ rest := by
  simp only [readUnsigned, Option.orElse_eq_some] at read
  rcases read with hexadecimal | ⟨-, decimal | ⟨-, word⟩⟩
  · obtain ⟨w, m, e, word, mantissa, exponent, split⟩ := readHexadecimal_sound hexadecimal
    exact ⟨_, .hexadecimal word mantissa exponent, by simp [split]⟩
  · obtain ⟨m, e, mantissa, exponent, split⟩ := readScaled_sound decimal
    exact ⟨_, .decimal mantissa exponent, by rw [split, List.append_assoc]⟩
  · exact readWord_sound word

/-- What is read is a numeral, with white space before it. -/
theorem strtod_sound {negative : Bool} {x : Numeral} (read : strtod s = some (negative, x, rest)) :
    ∃ t, IsNumeral t ∧ s = s.takeWhile isSpace ++ (t ++ rest) := by
  unfold strtod readNumeral at read
  obtain ⟨⟨y, behind⟩, unsigned, eq⟩ := Option.map_eq_some_iff.mp read
  obtain ⟨t, isUnsigned, split⟩ := readUnsigned_sound unsigned
  obtain ⟨sign, isSign, split'⟩ := splitSign_sound (s.dropWhile isSpace)
  cases eq
  refine ⟨sign ++ t, ⟨sign, t, isSign, isUnsigned, rfl⟩, ?_⟩
  rw [List.append_assoc, ← split, ← split', List.takeWhile_append_dropWhile]

/-! ## The longest numeral is read -/

variable {r : Bytes}

theorem isBase_point (small : base ≤ 36) : isBase base POINT = false := by
  have point : digitOf POINT = 36 := by decide
  simp only [isBase, point, decide_eq_false_iff_not]
  omega

theorem readFraction_suffix (base : Nat) (s : Bytes) : (readFraction base s).2 <:+ s := by
  cases s with
  | nil => exact List.suffix_refl _
  | cons c s =>
      simp only [readFraction]
      split
      · exact (List.dropWhile_suffix _).trans (List.suffix_cons c s)
      · exact List.suffix_refl _

theorem readMantissa_longest {m : Bytes} (small : base ≤ 36) (mantissa : IsMantissa base m) :
    ∃ ds es rest, readMantissa base (m ++ r) = some (ds, es, rest) ∧ rest <:+ r ∧
      ((∀ c ∈ r.head?, isBase base c = false ∧ c ≠ POINT) → rest = r) := by
  unfold readMantissa
  cases mantissa with
  | whole some_ digits =>
      rw [List.takeWhile_append_of_pos digits, List.dropWhile_append_of_pos digits]
      refine ⟨_, _, _, if_neg (by simp [some_]), ?_, ?_⟩
      · exact (readFraction_suffix base _).trans (List.dropWhile_suffix _)
      · intro stop
        cases r with
        | nil => rfl
        | cons c r =>
            obtain ⟨digit, point⟩ := stop c rfl
            simp [digit, point]
  | @point ds es some_ digits behind =>
      have stop : ∀ c ∈ (POINT :: (es ++ r)).head?, isBase base c = false := by
        rintro c ⟨⟩
        exact isBase_point small
      rw [List.append_assoc, List.cons_append, takeWhile_append_stop digits stop,
        dropWhile_append_stop digits stop]
      simp only [readFraction, if_true, List.takeWhile_append_of_pos behind,
        List.dropWhile_append_of_pos behind]
      refine ⟨_, _, _, if_neg ?_, List.dropWhile_suffix _, ?_⟩
      · rw [← List.append_assoc, List.append_eq_nil_iff]
        exact fun none => some_ none.1
      · intro stop
        exact dropWhile_append_stop (s := []) (by simp) fun c mem => (stop c mem).1

theorem splitSign_signed {sign : Bytes} (isSign : IsSign sign)
    (plain : ∀ c ∈ s.head?, c ≠ 45 ∧ c ≠ 43) : (splitSign (sign ++ s)).2 = s := by
  rcases isSign with rfl | rfl | rfl
  · cases s with
    | nil => rfl
    | cons c s =>
        have first := plain c rfl
        simp [splitSign, first.1, first.2]
  · rfl
  · rfl

theorem readExponent_suffix (mark : UInt8) (s : Bytes) : (readExponent mark s).2 <:+ s := by
  obtain ⟨e, -, split⟩ := readExponent_sound mark s
  exact ⟨e, split.symm⟩

theorem readExponent_longest {e : Bytes} (exponent : IsExponent mark e) :
    (readExponent mark (e ++ r)).2 <:+ r := by
  cases exponent with
  | none => exact readExponent_suffix mark r
  | @marked c sign ds marked isSign some_ digits =>
      obtain ⟨d, ds, rfl⟩ := List.exists_cons_of_ne_nil some_
      have plain : ∀ z ∈ (d :: ds ++ r).head?, z ≠ 45 ∧ z ≠ 43 := by
        rintro z ⟨⟩
        exact isBase_not_sign (by decide) (digits d List.mem_cons_self)
      rw [List.cons_append, List.append_assoc]
      simp only [readExponent, if_pos marked, splitSign_signed isSign plain, readDigits]
      rw [List.takeWhile_append_of_pos digits, List.dropWhile_append_of_pos digits, if_neg (by simp)]
      exact List.dropWhile_suffix _

/-- The mark of an exponent is neither a digit nor the point. -/
def IsMark (base : Nat) (mark : UInt8) : Prop := ∀ c, toLower c = mark → isBase base c = false ∧ c ≠ POINT

theorem cases_of_toLower {c z : UInt8} (same : toLower c = z) : c = z ∨ c = z - 32 := by
  unfold toLower at same
  split at same
  · rw [← same, UInt8.add_sub_cancel]
    exact .inr rfl
  · exact .inl same

theorem isMark_decimal : IsMark 10 101 := by
  intro c marked
  rcases cases_of_toLower marked with rfl | rfl <;> decide

theorem isMark_hexadecimal : IsMark 16 112 := by
  intro c marked
  rcases cases_of_toLower marked with rfl | rfl <;> decide

theorem readScaled_longest {m e : Bytes} {radix perDigit : Nat} (small : base ≤ 36)
    (isMark : IsMark base mark) (mantissa : IsMantissa base m) (exponent : IsExponent mark e) :
    ∃ x rest, readScaled base radix perDigit mark (m ++ (e ++ r)) = some (x, rest) ∧ rest <:+ r := by
  obtain ⟨ds, es, behind, read, suffix, exact_⟩ := readMantissa_longest (r := e ++ r) small mantissa
  refine ⟨_, _, by rw [readScaled, read]; rfl, ?_⟩
  cases exponent with
  | none => exact (readExponent_suffix mark behind).trans suffix
  | @marked c sign ds marked isSign some_ digits =>
      have whole := exact_ fun z mem => by
        cases mem
        exact isMark c marked
      simp only [whole]
      exact readExponent_longest (.marked marked isSign some_ digits)

/-- Behind a NaN nothing is skipped, or a pair of brackets. -/
theorem skipNanBytes_suffix (s : Bytes) : skipNanBytes s <:+ s := by
  rcases skipNanBytes_sound s with same | ⟨cs, -, split⟩
  · rw [same]
  · refine ⟨40 :: (cs ++ [41]), ?_⟩
    conv_rhs => rw [split]
    simp

theorem skipNanBytes_brackets {cs : Bytes} (inside : ∀ c ∈ cs, isNanByte c = true) :
    skipNanBytes (40 :: (cs ++ 41 :: r)) = r := by
  have stop : ∀ c ∈ (41 :: r).head?, isNanByte c = false := by
    rintro c ⟨⟩
    decide
  simp only [skipNanBytes, if_true, dropWhile_append_stop inside stop]

theorem startsNoCase_word {w name : Bytes} (word : CaseEq w name) :
    startsNoCase name (w ++ r) = true := by
  rw [startsNoCase, beq_iff_eq, ← word.length, List.take_left]
  exact caseEq_iff.mp word

theorem readHexadecimal_longest {w m e : Bytes} (word : CaseEq w (ascii "0x"))
    (mantissa : IsMantissa 16 m) (exponent : IsExponent 112 e) :
    ∃ x rest, readHexadecimal (w ++ (m ++ (e ++ r))) = some (x, rest) ∧ rest <:+ r := by
  have two : (w ++ (m ++ (e ++ r))).drop 2 = m ++ (e ++ r) := List.drop_left' word.length
  rw [readHexadecimal, if_pos (startsNoCase_word word), two]
  exact readScaled_longest (by decide) isMark_hexadecimal mantissa exponent

/-- There is no `x` in a decimal numeral. -/
theorem decimal_bytes {m e : Bytes} (mantissa : IsMantissa 10 m) (exponent : IsExponent 101 e) :
    ∀ c ∈ m ++ e, toLower c ≠ 120 := by
  have digit : ∀ {c}, isBase 10 c = true → toLower c ≠ 120 := by
    intro c digit x
    rcases cases_of_toLower x with rfl | rfl <;> exact absurd digit (by decide)
  intro c mem
  rcases List.mem_append.mp mem with mem | mem
  · cases mantissa with
    | whole some_ digits => exact digit (digits c mem)
    | point some_ digits behind =>
        rcases List.mem_append.mp mem with mem | mem
        · exact digit (digits c mem)
        · rcases List.mem_cons.mp mem with rfl | mem
          · decide
          · exact digit (behind c mem)
  · cases exponent with
    | none => cases mem
    | marked marked isSign some_ digits =>
        rcases List.mem_cons.mp mem with rfl | mem
        · rw [marked]
          decide
        · rcases List.mem_append.mp mem with mem | mem
          · rcases isSign with rfl | rfl | rfl
            · cases mem
            · rw [List.mem_singleton.mp mem]
              decide
            · rw [List.mem_singleton.mp mem]
              decide
          · exact digit (digits c mem)

/-- A decimal numeral in front of which `0x` is read is a single zero. -/
theorem decimal_short {m e w t : Bytes} (mantissa : IsMantissa 10 m) (exponent : IsExponent 101 e)
    (word : CaseEq w (ascii "0x")) (split : (m ++ e) ++ r = w ++ t) : (m ++ e).length ≤ 1 := by
  have foreign := decimal_bytes mantissa exponent
  obtain ⟨z, x, rfl⟩ := List.length_eq_two.mp word.length
  have mark : toLower x = 120 := by
    cases word with
    | cons _ word => cases word with
      | cons same _ => exact same
  cases numeral : m ++ e with
  | nil => exact Nat.zero_le 1
  | cons c p =>
      cases p with
      | nil => exact Nat.le_refl 1
      | cons d p =>
          rw [numeral] at split foreign
          cases split
          exact absurd mark (foreign x (by simp))

/-- A zero may have an `x` behind it that starts a hexadecimal numeral. -/
theorem readUnsigned_decimal {m e : Bytes} (mantissa : IsMantissa 10 m) (exponent : IsExponent 101 e) :
    ∃ x rest, readUnsigned (m ++ (e ++ r)) = some (x, rest) ∧ rest <:+ r := by
  cases read : readHexadecimal (m ++ (e ++ r)) with
  | none =>
      obtain ⟨x, rest, decimal, suffix⟩ :
          ∃ x rest, readDecimal (m ++ (e ++ r)) = some (x, rest) ∧ rest <:+ r :=
        readScaled_longest (by decide) isMark_decimal mantissa exponent
      refine ⟨x, rest, ?_, suffix⟩
      rw [readUnsigned, read, decimal]
      rfl
  | some found =>
      obtain ⟨x, rest⟩ := found
      refine ⟨x, rest, by rw [readUnsigned, read]; rfl, ?_⟩
      obtain ⟨w, m', e', word, -, -, split⟩ := readHexadecimal_sound read
      rw [← List.append_assoc] at split
      have short := decimal_short mantissa exponent word split
      have suffix : rest <:+ (m ++ e) ++ r :=
        ⟨w ++ (m' ++ e'), by rw [split, List.append_assoc, List.append_assoc]⟩
      have two : w.length = 2 := word.length
      have lengths := congrArg List.length split
      simp only [List.length_append] at lengths short
      exact List.suffix_of_suffix_length_le suffix (List.suffix_append _ _) (by omega)

/-- Words are no numbers. -/
theorem readUnsigned_letter {c : UInt8} (first : toLower c = 105 ∨ toLower c = 110) :
    readUnsigned (c :: s) = readWord (c :: s) := by
  have plain : toLower c ≠ 48 ∧ isBase 10 c = false ∧ c ≠ POINT := by
    rcases first with first | first <;> rcases cases_of_toLower first with rfl | rfl <;> decide
  obtain ⟨zero, digit, point⟩ := plain
  have hexadecimal : readHexadecimal (c :: s) = none := by
    apply if_neg
    intro starts
    exact zero (startsNoCase_head starts)
  have decimal : readDecimal (c :: s) = none := by
    simp [readDecimal, readScaled, readMantissa, digit, readFraction, point]
  rw [readUnsigned, hexadecimal, decimal]
  rfl

theorem drop_append_suffix {w : Bytes} {n : Nat} (long : w.length ≤ n) : (w ++ r).drop n <:+ r := by
  rw [List.drop_append, List.drop_eq_nil_of_le long, List.nil_append]
  exact List.drop_suffix _ _

theorem readWord_infinite {w : Bytes} (word : CaseEq w (ascii "inf") ∨ CaseEq w (ascii "infinity")) :
    ∃ rest, readWord (w ++ r) = some (.infinite, rest) ∧ rest <:+ r := by
  unfold readWord
  by_cases longer : startsNoCase (ascii "infinity") (w ++ r) = true
  · rw [if_pos longer]
    refine ⟨_, rfl, drop_append_suffix ?_⟩
    rcases word with word | word
    · rw [word.length]
      decide
    · rw [word.length]
      decide
  · rcases word with word | word
    · rw [if_neg longer, if_pos (startsNoCase_word word)]
      exact ⟨_, rfl, drop_append_suffix word.length.le⟩
    · exact absurd (startsNoCase_word word) longer

theorem CaseEq.head {c : UInt8} {w name : Bytes} (word : CaseEq w (c :: name)) :
    ∃ d t, w = d :: t ∧ toLower d = toLower c := by
  cases word with
  | cons same _ => exact ⟨_, _, rfl, same⟩

theorem readWord_nan {w : Bytes} (word : CaseEq w (ascii "nan")) :
    readWord (w ++ s) = some (.nan, skipNanBytes s) := by
  have three : (w ++ s).drop 3 = s := List.drop_left' word.length
  have foreign : ∀ name, startsNoCase (105 :: name) (w ++ s) ≠ true := by
    obtain ⟨d, t, rfl, first⟩ := CaseEq.head word
    intro name starts
    exact absurd (first.symm.trans (startsNoCase_head starts)) (by decide)
  have infinity : startsNoCase (ascii "infinity") (w ++ s) ≠ true := foreign _
  have inf : startsNoCase (ascii "inf") (w ++ s) ≠ true := foreign _
  rw [readWord, if_neg infinity, if_neg inf, if_pos (startsNoCase_word word), three]

theorem readUnsigned_longest {t : Bytes} (unsigned : IsUnsigned t) :
    ∃ x rest, readUnsigned (t ++ r) = some (x, rest) ∧ rest <:+ r := by
  cases unsigned with
  | decimal mantissa exponent =>
      rw [List.append_assoc]
      exact readUnsigned_decimal mantissa exponent
  | hexadecimal word mantissa exponent =>
      rw [List.append_assoc, List.append_assoc]
      obtain ⟨x, rest, read, suffix⟩ := readHexadecimal_longest word mantissa exponent
      exact ⟨x, rest, by rw [readUnsigned, read]; rfl, suffix⟩
  | infinite word =>
      have first : ∃ d s, t = d :: s ∧ toLower d = 105 := word.elim CaseEq.head CaseEq.head
      obtain ⟨rest, read, suffix⟩ := readWord_infinite (r := r) word
      obtain ⟨d, s, rfl, letter⟩ := first
      exact ⟨_, rest, (readUnsigned_letter (.inl letter)).trans read, suffix⟩
  | nan word =>
      have read := readWord_nan (s := r) word
      obtain ⟨d, s, rfl, letter⟩ := CaseEq.head word
      exact ⟨_, _, (readUnsigned_letter (.inr letter)).trans read, skipNanBytes_suffix r⟩
  | @nanBytes w cs word inside =>
      have read := readWord_nan (s := 40 :: (cs ++ 41 :: r)) word
      rw [skipNanBytes_brackets inside] at read
      obtain ⟨d, s, rfl, letter⟩ := CaseEq.head word
      refine ⟨.nan, r, ?_, List.suffix_refl r⟩
      have whole := (readUnsigned_letter (.inr letter)).trans read
      simpa using whole

/-- Neither white space nor a sign. -/
def IsFirst (c : UInt8) : Prop := c ≠ 45 ∧ c ≠ 43 ∧ isSpace c = false

theorem isFirst_digit {c : UInt8} (small : base ≤ 36) (digit : isBase base c = true) : IsFirst c :=
  ⟨(isBase_not_sign small digit).1, (isBase_not_sign small digit).2, isBase_not_space small digit⟩

theorem isFirst_case {c z : UInt8} (known : z = 48 ∨ z = 105 ∨ z = 110) (same : toLower c = z) :
    IsFirst c := by
  unfold IsFirst
  rcases known with rfl | rfl | rfl <;> rcases cases_of_toLower same with rfl | rfl <;> decide

theorem IsMantissa.head {m : Bytes} (small : base ≤ 36) (mantissa : IsMantissa base m) :
    ∃ c s, m = c :: s ∧ IsFirst c := by
  cases mantissa with
  | whole some_ digits =>
      obtain ⟨d, ds, rfl⟩ := List.exists_cons_of_ne_nil some_
      exact ⟨d, ds, rfl, isFirst_digit small (digits d List.mem_cons_self)⟩
  | @point ds es some_ digits behind =>
      cases ds with
      | nil => exact ⟨POINT, es, rfl, by unfold IsFirst; decide⟩
      | cons d ds => exact ⟨d, _, rfl, isFirst_digit small (digits d List.mem_cons_self)⟩

theorem IsUnsigned.head {t : Bytes} (unsigned : IsUnsigned t) : ∃ c s, t = c :: s ∧ IsFirst c := by
  cases unsigned with
  | decimal mantissa exponent =>
      obtain ⟨c, s, rfl, first⟩ := mantissa.head (by decide)
      exact ⟨c, _, rfl, first⟩
  | hexadecimal word mantissa exponent =>
      obtain ⟨c, s, rfl, same⟩ := CaseEq.head word
      exact ⟨c, _, rfl, isFirst_case (.inl rfl) same⟩
  | infinite word =>
      obtain ⟨c, s, rfl, same⟩ : ∃ d s, t = d :: s ∧ toLower d = 105 := word.elim CaseEq.head CaseEq.head
      exact ⟨c, s, rfl, isFirst_case (.inr (.inl rfl)) same⟩
  | nan word =>
      obtain ⟨c, s, rfl, same⟩ := CaseEq.head word
      exact ⟨c, s, rfl, isFirst_case (.inr (.inr rfl)) same⟩
  | nanBytes word inside =>
      obtain ⟨c, s, rfl, same⟩ := CaseEq.head word
      exact ⟨c, _, rfl, isFirst_case (.inr (.inr rfl)) same⟩

/-- No numeral that starts where reading starts goes further than what is read. -/
theorem strtod_longest {p : Bytes} (numeral : IsNumeral p) (here : s.dropWhile isSpace = p ++ r) :
    ∃ negative x rest, strtod s = some (negative, x, rest) ∧ rest <:+ r := by
  obtain ⟨sign, t, isSign, unsigned, rfl⟩ := numeral
  obtain ⟨x, rest, read, suffix⟩ := readUnsigned_longest (r := r) unsigned
  have behind : (splitSign (sign ++ (t ++ r))).2 = t ++ r := by
    obtain ⟨c, t, rfl, first⟩ := unsigned.head
    apply splitSign_signed isSign
    rintro z ⟨⟩
    exact ⟨first.1, first.2.1⟩
  refine ⟨(splitSign (sign ++ (t ++ r))).1, x, rest, ?_, suffix⟩
  rw [strtod, readNumeral, here, List.append_assoc, behind, read]
  rfl

theorem IsNumeral.dropSpace {p : Bytes} (numeral : IsNumeral p) : p.dropWhile isSpace = p := by
  obtain ⟨sign, t, isSign, unsigned, rfl⟩ := numeral
  obtain ⟨c, t, rfl, -, -, space⟩ := unsigned.head
  rcases isSign with rfl | rfl | rfl
  · exact List.dropWhile_cons_of_neg (by simp [space])
  · rfl
  · rfl

/-- A text is a numeral when reading leaves nothing of it, and skips nothing. -/
theorem isNumeral_iff {p : Bytes} :
    IsNumeral p ↔ (strtod p).map (fun read => read.2.2) = some [] ∧ p.dropWhile isSpace = p := by
  constructor
  · intro numeral
    have whole := numeral.dropSpace
    have here : p.dropWhile isSpace = p ++ [] := by rw [whole, List.append_nil]
    obtain ⟨negative, x, rest, read, suffix⟩ := strtod_longest numeral here
    refine ⟨?_, whole⟩
    rw [read, List.suffix_nil.mp suffix]
    rfl
  · rintro ⟨read, whole⟩
    obtain ⟨⟨negative, x, rest⟩, read, rfl⟩ := Option.map_eq_some_iff.mp read
    obtain ⟨t, numeral, split⟩ := strtod_sound read
    have none : p.takeWhile isSpace = [] := by
      have both := List.takeWhile_append_dropWhile (p := isSpace) (l := p)
      rw [whole] at both
      exact List.append_left_eq_self.mp both
    rw [none, List.nil_append, List.append_nil] at split
    rwa [split]

instance (p : Bytes) : Decidable (IsNumeral p) := decidable_of_iff _ isNumeral_iff.symm

end JustWeather.CLib
