import JustWeather.Api.Requests
import JustWeather.Api.CacheKeys
import JustWeather.CLib.Decimals
import JustWeather.Cli.CommandParser

/-! # Coordinates

What is typed behind `current` becomes two doubles, and these are printed again into the URL and the
key. Four decimals get through that as they are.
-/

namespace JustWeather.Cli

open CLib Http Api Cache Utils Decimals

/-- A request for the place with these coordinates, and its key. -/
structure AsksFor (call : Call) (lat lon : Bytes) : Prop where
  key : keyOf call = ascii "current:lat=" ++ (lat ++ (ascii ":lon=" ++ lon))
  request : ∀ J env w dir request, PlainHost w.config.host →
    (call.perform J env w dir).request = some request → request =
      requestText (hostText w.config.host) (ascii "/v1/current?lat=" ++ lat ++ ascii "&lon=" ++ lon)

/-- The tokens make a call that the method accepts. -/
def Locates (erange : Numeral → Bool) (granted : EncodeSite → Bool) (lat lon : Bytes)
    (x y : Double) : Prop :=
  parse erange [ascii "current", lat, lon] = .ok (.current x y) ∧
    Accepted granted (.getCurrentWeather x y)

variable {erange : Numeral → Bool} {granted : EncodeSite → Bool} {x y : Double} {lat lon : Bytes}

theorem locates_iff : Locates erange granted lat lon x y ↔
    (stod erange lat = .ok x ∧ x.within 90 = true) ∧ stod erange lon = .ok y ∧ y.within 180 = true := by
  have parsed : parse erange [ascii "current", lat, lon] = .ok (.current x y) ↔
      stod erange lat = .ok x ∧ stod erange lon = .ok y := by
    simp only [parse, if_true]
    cases stod erange lat with
    | error e => simp [bind, Except.bind]
    | ok x' =>
        cases stod erange lon with
        | error e => simp [bind, Except.bind]
        | ok y' => simp [bind, Except.bind, pure, Except.pure]
  rw [Locates, parsed, Accepted, validateLatitude, validateLongitude]
  tauto

/-! ## Four decimals -/

theorem four_places : 10 ^ 4 ≤ 2 ^ 1022 :=
  (by norm_num : 10 ^ 4 ≤ 2 ^ 14).trans (pow_le_pow_right₀ (by decide) (by decide))

/-- Up to 180 degrees there are three digits before the point. -/
theorem shown_length {negative : Bool} {steps : Nat} (small : steps ≤ 180 * 10 ^ 4) :
    (shown 4 negative steps).length ≤ 9 := by
  have whole : (decimal (steps / 10 ^ 4)).length ≤ 3 := decimal_length_le (by decide) (by omega)
  have part := lastPlaces_length (by decide : 0 < 4) steps
  have sign : (if negative then [45] else [] : Bytes).length ≤ 1 := by
    cases negative <;> decide
  rw [Decimals.shown, List.length_append, List.length_append, List.length_cons, part]
  omega

/-- What is printed of a coordinate within its bound. -/
theorem fixed_within {bound : Nat} {d : Double} (within : d.within bound = true) :
    d.fixed 4 = shown 4 d.negative (d.scaled 4) ∧ d.scaled 4 ≤ bound * 10 ^ 4 := by
  obtain ⟨finite, small⟩ : d.isFinite = true ∧ d.units ≤ bound * 2 ^ 1074 := by
    rw [Double.within, Bool.and_eq_true, decide_eq_true_eq] at within
    exact within
  refine ⟨fixed_eq_shown finite, Double.roundHalfEven_le (by positivity) ?_⟩
  calc d.units * 10 ^ 4 ≤ bound * 2 ^ 1074 * 10 ^ 4 := Nat.mul_le_mul_right _ small
    _ = bound * 10 ^ 4 * 2 ^ 1074 := Nat.mul_right_comm ..

/-- The coordinates of an accepted call go into the key and the request as they are printed. -/
theorem asksFor_of_accepted (accepted : Accepted granted (.getCurrentWeather x y)) :
    AsksFor (.getCurrentWeather x y) (x.fixed 4) (y.fixed 4) := by
  refine ⟨rfl, fun J env w dir request plain handed => ?_⟩
  obtain ⟨first, small⟩ := fixed_within accepted.1
  obtain ⟨second, small'⟩ := fixed_within accepted.2
  have firstLength := @shown_length x.negative _ (small.trans (Nat.mul_le_mul_right _ (by decide)))
  have secondLength := @shown_length y.negative _ small'
  rw [← first] at firstLength
  rw [← second] at secondLength
  rw [perform_request plain handed]
  congr 1
  apply List.take_of_length_le
  have fixedTexts : (ascii "/v1/current?lat=").length = 16 ∧ (ascii "&lon=").length = 5 := by decide
  simp only [pathOf, List.length_append, fixedTexts.1, fixedTexts.2]
  omega

/-- A coordinate with at most four decimals is taken exactly when it is in range. -/
theorem typed_within (t : Decimals 4) {bound : Nat} (room : bound * 10 ^ 4 < 2 ^ 52) :
    (∃ d, stod erange t.text = .ok d ∧ d.within bound = true) ↔ t.steps ≤ bound * 10 ^ 4 :=
  t.stod_within four_places room

/-- What is printed is what was typed. -/
theorem located_shown {lat lon : Decimals 4} (located : Locates erange granted lat.text lon.text x y) :
    x.fixed 4 = shown 4 lat.negative lat.steps ∧ y.fixed 4 = shown 4 lon.negative lon.steps := by
  obtain ⟨first, second⟩ := locates_iff.mp located
  have small := (typed_within lat (by norm_num)).mp ⟨x, first⟩
  have small' := (typed_within lon (by norm_num)).mp ⟨y, second⟩
  constructor
  · exact lat.fixed_stod four_places (by omega) first.1
  · exact lon.fixed_stod four_places (by omega) second.1

/-- Coordinates with at most four decimals are taken exactly when they are in range, and what is asked
for then, and kept, is what was typed. -/
theorem current_as_typed (erange : Numeral → Bool) (granted : EncodeSite → Bool) (lat lon : Decimals 4) :
    ((∃ x y, Locates erange granted lat.text lon.text x y) ↔
      lat.steps ≤ 90 * 10 ^ 4 ∧ lon.steps ≤ 180 * 10 ^ 4) ∧
    ∀ x y, Locates erange granted lat.text lon.text x y →
      AsksFor (.getCurrentWeather x y) (shown 4 lat.negative lat.steps)
        (shown 4 lon.negative lon.steps) := by
  constructor
  · rw [← @typed_within erange lat 90 (by norm_num), ← @typed_within erange lon 180 (by norm_num)]
    simp only [locates_iff]
    constructor
    · rintro ⟨x, y, first, second⟩
      exact ⟨⟨x, first⟩, y, second⟩
    · rintro ⟨⟨x, first⟩, y, second⟩
      exact ⟨x, y, first, second⟩
  · intro x y located
    obtain ⟨first, second⟩ := located_shown located
    rw [← first, ← second]
    exact asksFor_of_accepted located.2

/-- The coordinates of the example in the usage, as doubles. -/
def usageLat : Double := ⟨false, ⟨1028, by decide⟩, ⟨3846355556751114, by decide⟩⟩
def usageLon : Double := ⟨false, ⟨1027, by decide⟩, ⟨582653201791058, by decide⟩⟩

theorem locates_usage : Locates (fun _ => false) (fun _ => true) (ascii "59.33") (ascii "18.07")
    usageLat usageLon :=
  ⟨by decide +kernel, by decide +kernel, by decide +kernel⟩

/-- Two pairs that are taken have one key when they are the same numbers, with the same signs. -/
theorem current_keys_iff {lat lon lat' lon' : Decimals 4} {x y x' y' : Double}
    (located : Locates erange granted lat.text lon.text x y)
    (located' : Locates erange granted lat'.text lon'.text x' y') :
    keyOf (.getCurrentWeather x y) = keyOf (.getCurrentWeather x' y') ↔
      (lat.negative = lat'.negative ∧ lat.steps = lat'.steps) ∧
        lon.negative = lon'.negative ∧ lon.steps = lon'.steps := by
  obtain ⟨first, second⟩ := located_shown located
  obtain ⟨first', second'⟩ := located_shown located'
  constructor
  · intro same
    obtain ⟨lats, lons⟩ := coordinates_of_key (List.append_cancel_left same)
    rw [first, first'] at lats
    rw [second, second'] at lons
    exact ⟨shown_injective (by decide) lats, shown_injective (by decide) lons⟩
  · rintro ⟨⟨sign, steps⟩, sign', steps'⟩
    rw [keyOf, keyOf, first, second, first', second', sign, steps, sign', steps']

/-- The equator from both sides. -/
theorem current_keys_iff_equator :
    let north : Double := ⟨false, ⟨0, by decide⟩, ⟨0, by decide⟩⟩
    let south : Double := ⟨true, ⟨0, by decide⟩, ⟨0, by decide⟩⟩
    Locates (fun _ => false) (fun _ => true) (ascii "0") (ascii "18.07") north usageLon ∧
      Locates (fun _ => false) (fun _ => true) (ascii "-0.00") (ascii "18.07") south usageLon ∧
      keyOf (.getCurrentWeather north usageLon) ≠ keyOf (.getCurrentWeather south usageLon) := by
  intro north south
  have located : Locates (fun _ => false) (fun _ => true) (ascii "0") (ascii "18.07") north usageLon :=
    ⟨by decide +kernel, by decide +kernel, by decide +kernel⟩
  have located' : Locates (fun _ => false) (fun _ => true) (ascii "-0.00") (ascii "18.07") south
      usageLon := ⟨by decide +kernel, by decide +kernel, by decide +kernel⟩
  let lat : Decimals 4 := ⟨[], ascii "0", none, .inl rfl, by decide, by decide, by decide⟩
  let lat' : Decimals 4 :=
    ⟨[45], ascii "0", some (ascii "00"), .inr (.inl rfl), by decide, by decide, by decide⟩
  let lon : Decimals 4 :=
    ⟨[], ascii "18", some (ascii "07"), .inl rfl, by decide, by decide, by decide⟩
  refine ⟨located, located', fun same => ?_⟩
  have signs := ((@current_keys_iff _ _ lat lon lat' lon _ _ _ _ located located').mp same).1.1
  exact absurd signs (by decide)

/-! ## What was asked for -/

/-- A text that was printed of a coordinate in range is read as one in range, and printed again. -/
theorem fixed_again {bound : Nat} {d : Double} (room : bound * 10 ^ 4 < 2 ^ 52)
    (within : d.within bound = true) :
    ∃ d', (stod erange (d.fixed 4) = .ok d' ∧ d'.within bound = true) ∧ d'.fixed 4 = d.fixed 4 := by
  obtain ⟨text, small⟩ := fixed_within within
  obtain ⟨t, printed⟩ : ∃ t, t = ofSteps (by decide : 0 < 4) d.negative (d.scaled 4) := ⟨_, rfl⟩
  have steps : t.steps = d.scaled 4 := by rw [printed, ofSteps_steps]
  have sign : t.negative = d.negative := by rw [printed, ofSteps_negative]
  have same : t.text = d.fixed 4 := by rw [printed, ofSteps_text, text]
  obtain ⟨d', read⟩ := (@typed_within erange t bound room).mpr (steps ▸ small)
  have again := t.fixed_stod four_places (by omega) read.1
  rw [same] at read
  exact ⟨d', read, by rw [again, sign, steps, text]⟩

/-- Whatever the coordinates are, those that are asked for ask for the same when they are typed. -/
theorem current_again (located : Locates erange granted lat lon x y) :
    AsksFor (.getCurrentWeather x y) (x.fixed 4) (y.fixed 4) ∧
      ∃ x' y', Locates erange granted (x.fixed 4) (y.fixed 4) x' y' ∧
        AsksFor (.getCurrentWeather x' y') (x.fixed 4) (y.fixed 4) := by
  obtain ⟨x', first, again⟩ := @fixed_again erange 90 x (by norm_num) located.2.1
  obtain ⟨y', second, again'⟩ := @fixed_again erange 180 y (by norm_num) located.2.2
  have located' : Locates erange granted (x.fixed 4) (y.fixed 4) x' y' := locates_iff.mpr ⟨first, second⟩
  refine ⟨asksFor_of_accepted located.2, x', y', located', ?_⟩
  have asks := asksFor_of_accepted located'.2
  rwa [again, again'] at asks

theorem current_again_usage :
    AsksFor (.getCurrentWeather usageLat usageLon) (usageLat.fixed 4) (usageLon.fixed 4) ∧
      ∃ x y, Locates (fun _ => false) (fun _ => true) (usageLat.fixed 4) (usageLon.fixed 4) x y ∧
        AsksFor (.getCurrentWeather x y) (usageLat.fixed 4) (usageLon.fixed 4) :=
  current_again locates_usage

end JustWeather.Cli
