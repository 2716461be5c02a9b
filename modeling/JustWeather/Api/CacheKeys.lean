import JustWeather.Api.WeatherClient

/-! # Cache keys

A key keeps its endpoint and its coordinates apart. The parts of a city key are
glued with marks that the parts may contain, and each part is cut at 255 bytes.
-/

namespace JustWeather.Api

open CLib Utils Text

theorem city_marks : Marks COUNTRY_MARK REGION_MARK :=
  ⟨by decide, by decide, by decide, by decide, by decide, by decide⟩

/-- The words of an argument, an absent one having none. -/
def argWords (value : Option Bytes) : List Bytes := normalWords (value.getD [])

/-- The arguments agree, position by position, up to normalisation. -/
def Agrees : Call → Call → Prop
  | .getCurrentWeather lat lon, .getCurrentWeather lat' lon' =>
      lat.fixed 4 = lat'.fixed 4 ∧ lon.fixed 4 = lon'.fixed 4
  | .getWeatherByCity city country region, .getWeatherByCity city' country' region' =>
      argWords (some city) = argWords (some city') ∧ argWords country = argWords country' ∧
        argWords region = argWords region'
  | .searchCities query, .searchCities query' => argWords (some query) = argWords (some query')
  | .getHomepage, .getHomepage => True
  | _, _ => False

/-- An argument without NUL bytes. -/
def NulFree (value : Option Bytes) : Prop := 0 ∉ value.getD []

/-- The arguments of a call are C strings. -/
def CArguments : Call → Prop
  | .getCurrentWeather _ _ => True
  | .getWeatherByCity city country region =>
      NulFree (some city) ∧ NulFree country ∧ NulFree region
  | .searchCities query => NulFree (some query)
  | .getHomepage => True

/-- Texts of different words that agree as far as the buffer of a normalised text goes. -/
def CutAlike (value value' : Option Bytes) : Prop :=
  normalText (value.getD []) ≠ normalText (value'.getD []) ∧
    dropTrailing ((normalText (value.getD [])).take 255) =
      dropTrailing ((normalText (value'.getD [])).take 255)

/-- Calls for different things that get the same key: the marks of one are found elsewhere in the
other, or a difference lies behind the cut. -/
def Confusable : Call → Call → Prop
  | .getWeatherByCity city country region, .getWeatherByCity city' country' region' =>
      Resplit COUNTRY_MARK REGION_MARK (cityParts city country region)
          (cityParts city' country' region') ∨
        Resplit COUNTRY_MARK REGION_MARK (cityParts city' country' region')
          (cityParts city country region) ∨
        cityParts city country region = cityParts city' country' region' ∧
          (CutAlike (some city) (some city') ∨ CutAlike country country' ∨ CutAlike region region')
  | .searchCities query, .searchCities query' => CutAlike (some query) (some query')
  | _, _ => False

/-! ## The parts -/

theorem normalized_eq {value : Option Bytes} (clean : NulFree value) :
    normalized value = dropTrailing ((normalText (value.getD [])).take 255) := by
  cases value with
  | none => rfl
  | some v => exact normalizeStringForCache_eq [] 255 clean

theorem normalized_congr {value value' : Option Bytes} (clean : NulFree value)
    (clean' : NulFree value') (words : argWords value = argWords value') :
    normalized value = normalized value' := by
  rw [normalized_eq clean, normalized_eq clean', normalText, normalText]
  unfold argWords at words
  rw [words]

/-- Equal parts come from equal words, if no difference is cut off. -/
theorem argWords_of_normalized {value value' : Option Bytes} (clean : NulFree value)
    (clean' : NulFree value') (same : normalized value = normalized value') :
    argWords value = argWords value' ∨ CutAlike value value' := by
  by_cases text : normalText (value.getD []) = normalText (value'.getD [])
  · exact .inl (normalText_injective text)
  · rw [normalized_eq clean, normalized_eq clean'] at same
    exact .inr ⟨text, same⟩

theorem argWords_ne_of_cutAlike {value value' : Option Bytes} (cut : CutAlike value value') :
    argWords value ≠ argWords value' := by
  intro words
  refine cut.1 ?_
  unfold argWords at words
  rw [normalText, normalText, words]

/-! ## The keys -/

/-- The coordinates are read off the key: no printed number contains a colon. -/
theorem coordinates_of_key {lat lon lat' lon' : Double}
    (same : lat.fixed 4 ++ (ascii ":lon=" ++ lon.fixed 4) =
      lat'.fixed 4 ++ (ascii ":lon=" ++ lon'.fixed 4)) :
    lat.fixed 4 = lat'.fixed 4 ∧ lon.fixed 4 = lon'.fixed 4 := by
  have colon : ∀ d : Double, 58 ∉ d.fixed 4 := by
    intro d mem
    exact absurd (Double.fixed_bytes 4 d 58 mem) (by decide)
  have mark : ∀ s, ascii ":lon=" ++ s = 58 :: (ascii "lon=" ++ s) := fun s => rfl
  rw [mark, mark] at same
  have lats := congrArg (cutAt 58) same
  rw [cutAt_append _ (colon lat), cutAt_append _ (colon lat')] at lats
  simp only [Option.some.injEq, Prod.mk.injEq, List.append_cancel_left_eq] at lats
  exact lats

section Cities

variable {city city' : Bytes} {country region country' region' : Option Bytes}

theorem cityParts_of_agrees (clean : CArguments (.getWeatherByCity city country region))
    (clean' : CArguments (.getWeatherByCity city' country' region'))
    (agree : Agrees (.getWeatherByCity city country region)
      (.getWeatherByCity city' country' region')) :
    cityParts city country region = cityParts city' country' region' := by
  obtain ⟨cities, countries, regions⟩ := agree
  unfold cityParts
  rw [normalized_congr clean.1 clean'.1 cities,
    normalized_congr clean.2.1 clean'.2.1 countries, normalized_congr clean.2.2 clean'.2.2 regions]

/-- Equal parts come from words that agree, if no difference is cut off. -/
theorem agrees_of_cityParts (clean : CArguments (.getWeatherByCity city country region))
    (clean' : CArguments (.getWeatherByCity city' country' region'))
    (same : cityParts city country region = cityParts city' country' region') :
    Agrees (.getWeatherByCity city country region) (.getWeatherByCity city' country' region') ∨
      CutAlike (some city) (some city') ∨ CutAlike country country' ∨ CutAlike region region' := by
  simp only [cityParts, Prod.mk.injEq] at same
  rcases argWords_of_normalized clean.1 clean'.1 same.1 with cities | cut
  · rcases argWords_of_normalized clean.2.1 clean'.2.1 same.2.1 with countries | cut
    · rcases argWords_of_normalized clean.2.2 clean'.2.2 same.2.2 with regions | cut
      · exact .inl ⟨cities, countries, regions⟩
      · exact .inr (.inr (.inr cut))
    · exact .inr (.inr (.inl cut))
  · exact .inr (.inl cut)

theorem keyOf_weather (clean : CArguments (.getWeatherByCity city country region))
    (clean' : CArguments (.getWeatherByCity city' country' region')) :
    (keyOf (.getWeatherByCity city country region) = keyOf (.getWeatherByCity city' country' region') →
      Agrees (.getWeatherByCity city country region) (.getWeatherByCity city' country' region')) ↔
    ¬ Confusable (.getWeatherByCity city country region)
      (.getWeatherByCity city' country' region') := by
  simp only [keyOf, List.append_cancel_left_eq, glue_eq_iff city_marks]
  constructor
  · intro agree confusable
    rcases confusable with shift | shift | ⟨same, cut⟩
    · exact shift.ne city_marks.nonempty
        (cityParts_of_agrees clean clean' (agree (.inr (.inl shift))))
    · exact shift.ne city_marks.nonempty
        (cityParts_of_agrees clean clean' (agree (.inr (.inr shift)))).symm
    · obtain ⟨cities, countries, regions⟩ := agree (.inl same)
      rcases cut with cut | cut | cut
      · exact argWords_ne_of_cutAlike cut cities
      · exact argWords_ne_of_cutAlike cut countries
      · exact argWords_ne_of_cutAlike cut regions
  · intro clear key
    rcases key with same | shift | shift
    · rcases agrees_of_cityParts clean clean' same with agree | cut
      · exact agree
      · exact absurd (.inr (.inr ⟨same, cut⟩)) clear
    · exact absurd (.inl shift) clear
    · exact absurd (.inr (.inl shift)) clear

end Cities

theorem keyOf_cities {query query' : Bytes} (clean : CArguments (.searchCities query))
    (clean' : CArguments (.searchCities query')) :
    (keyOf (.searchCities query) = keyOf (.searchCities query') →
      Agrees (.searchCities query) (.searchCities query')) ↔
    ¬ Confusable (.searchCities query) (.searchCities query') := by
  simp only [keyOf, List.append_cancel_left_eq]
  constructor
  · intro agree cut
    have same : normalized (some query) = normalized (some query') := by
      rw [normalized_eq clean, normalized_eq clean']
      exact cut.2
    exact argWords_ne_of_cutAlike cut (agree same)
  · intro clear same
    exact (argWords_of_normalized clean clean' same).resolve_right clear

/-- The first bytes of a key, which tell its endpoint. -/
def endpointTag : Call → Bytes
  | .getCurrentWeather _ _ => ascii "cu"
  | .getWeatherByCity _ _ _ => ascii "we"
  | .searchCities _ => ascii "ci"
  | .getHomepage => ascii "ho"

theorem endpointTag_of_keyOf {call call' : Call} (same : keyOf call = keyOf call') :
    endpointTag call = endpointTag call' := by
  have tag : ∀ call, (keyOf call).take 2 = endpointTag call := by
    intro call
    cases call <;> rfl
  rw [← tag call, ← tag call', same]

/-- Equal keys stand for calls that agree, exactly when the calls are not confusable. -/
theorem cacheKey_agrees_iff {config config' : ClientConfig} {granted granted' : EncodeSite → Bool}
    {call call' : Call} {request request' : Prepared} (clean : CArguments call)
    (clean' : CArguments call') (accepted : call.prepare config granted = .ok request)
    (accepted' : call'.prepare config' granted' = .ok request') :
    (request.cacheKey = request'.cacheKey → Agrees call call') ↔ ¬ Confusable call call' := by
  rw [(prepare_eq_ok_iff.mp accepted).2, (prepare_eq_ok_iff.mp accepted').2]
  have apart : endpointTag call ≠ endpointTag call' → ¬ Confusable call call' →
      ((keyOf call = keyOf call' → Agrees call call') ↔ ¬ Confusable call call') := fun tags clear =>
    iff_of_true (fun same => absurd (endpointTag_of_keyOf same) tags) clear
  cases call with
  | getWeatherByCity city country region =>
      cases call' with
      | getWeatherByCity city' country' region' => exact keyOf_weather clean clean'
      | getCurrentWeather | searchCities | getHomepage => exact apart (by simp [endpointTag, ascii]) id
  | searchCities query =>
      cases call' with
      | searchCities query' => exact keyOf_cities clean clean'
      | getCurrentWeather | getWeatherByCity | getHomepage =>
          exact apart (by simp [endpointTag, ascii]) id
  | getCurrentWeather lat lon =>
      cases call' with
      | getCurrentWeather lat' lon' =>
          refine iff_of_true (fun same => ?_) id
          exact coordinates_of_key (List.append_cancel_left same)
      | getWeatherByCity | searchCities | getHomepage => exact apart (by simp [endpointTag, ascii]) id
  | getHomepage =>
      cases call' with
      | getHomepage => exact iff_of_true (fun _ => trivial) id
      | getCurrentWeather | getWeatherByCity | searchCities =>
          exact apart (by simp [endpointTag, ascii]) id

/-- A city in two spellings. -/
theorem cacheKey_agrees_spelling :
    let call := Call.getWeatherByCity (ascii "New York") none none
    let call' := Call.getWeatherByCity (ascii "new_york") (some []) none
    ∃ request request', call.prepare .default (fun _ => true) = .ok request ∧
      call'.prepare .default (fun _ => true) = .ok request' ∧
      request.cacheKey = request'.cacheKey ∧ Agrees call call' := by
  intro call call'
  have accepted : call.prepare .default (fun _ => true) =
      .ok ⟨ascii "http://localhost:10680/v1/weather?city=New+York",
        ascii "weather:city=new_york:country=:region="⟩ := by decide +kernel
  have accepted' : call'.prepare .default (fun _ => true) =
      .ok ⟨ascii "http://localhost:10680/v1/weather?city=new_york",
        ascii "weather:city=new_york:country=:region="⟩ := by decide +kernel
  have clean : CArguments call ∧ CArguments call' := by
    unfold call call' CArguments NulFree
    decide
  have clear : ¬ Confusable call call' := by
    have same : cityParts (ascii "New York") none none = cityParts (ascii "new_york") (some []) none := by
      decide +kernel
    rintro (shift | shift | ⟨-, cut | cut | cut⟩)
    · exact shift.ne city_marks.nonempty same
    · exact shift.ne city_marks.nonempty same.symm
    · exact cut.1 (by decide +kernel)
    · exact cut.1 rfl
    · exact cut.1 rfl
  exact ⟨_, _, accepted, accepted', rfl,
    (cacheKey_agrees_iff clean.1 clean.2 accepted accepted').mpr clear rfl⟩

/-- A city name with the mark of the country in it. -/
theorem cacheKey_confused :
    ¬ ∀ request request',
      Call.prepare .default (fun _ => true) (.getWeatherByCity (ascii "a:country=b") none none) =
        .ok request →
      Call.prepare .default (fun _ => true)
        (.getWeatherByCity (ascii "a") (some (ascii "b:country=")) none) = .ok request' →
      request.cacheKey = request'.cacheKey →
      Agrees (.getWeatherByCity (ascii "a:country=b") none none)
        (.getWeatherByCity (ascii "a") (some (ascii "b:country=")) none) := by
  intro claim
  have agree := claim _ _ rfl rfl (by decide +kernel)
  exact absurd agree.1 (by decide +kernel)

end JustWeather.Api
