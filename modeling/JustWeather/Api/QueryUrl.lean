import JustWeather.Api.RequestFidelity

/-! # The URL of a city query

The whole URL text is read back as the city and the optional arguments that are
not empty, so two calls with one URL ask for the same and share their key.
-/

namespace JustWeather.Api

open CLib Utils Text

variable {config config' : ClientConfig} {city city' : Bytes}
  {country region country' region' : Option Bytes}

theorem baseUrl_congr (host : config'.host = config.host) (port : config'.port = config.port) :
    baseUrl config' = baseUrl config := by
  rw [baseUrl, baseUrl, host, port]

/-- A host without `?` leaves the `?` of the query the first one. -/
theorem baseUrl_noQuery (plain : 63 ∉ config.host) : 63 ∉ baseUrl config := by
  have port : 63 ∉ decimalInt config.port := not_mem_decimalInt _ (by decide) (by decide)
  simp only [baseUrl, List.mem_append, not_or]
  exact ⟨⟨⟨by decide, plain⟩, by decide⟩, port⟩

/-- The value of an optional argument in the fields. -/
theorem optionalFields_lookup (country region : Option Bytes) :
    ((optionalField (ascii "country") true country ++
        optionalField (ascii "region") true region).lookup (ascii "country")).getD [] =
      country.getD [] ∧
    ((optionalField (ascii "country") true country ++
        optionalField (ascii "region") true region).lookup (ascii "region")).getD [] =
      region.getD [] := by
  rcases country with _ | _ | ⟨c, country⟩ <;> rcases region with _ | _ | ⟨c', region⟩ <;>
    exact ⟨rfl, rfl⟩

theorem normalized_getD (value : Option Bytes) : normalized value = normalized (some (value.getD [])) := by
  cases value <;> rfl

/-- The request of a city query whose texts all get memory. -/
theorem weatherRequest_eq (asked : Asked (.getWeatherByCity city country region)) :
    weatherRequest config (fun _ => true) city country region =
      .ok ⟨baseUrl config ++ pathOf (fun _ => true) (.getWeatherByCity city country region),
        keyOf (.getWeatherByCity city country region)⟩ := by
  have accepted : ∃ request, Call.prepare config (fun _ => true)
      (.getWeatherByCity city country region) = .ok request := (prepare_ok_iff asked).mpr rfl
  obtain ⟨request, prepared⟩ := accepted
  rw [← (prepare_eq_ok_iff.mp prepared).2]
  exact prepared

/-- The URL of a city query reads as what was asked. -/
theorem readTarget_url (plain : 63 ∉ config.host)
    (asked : Asked (.getWeatherByCity city country region)) :
    readTarget (baseUrl config ++ pathOf (fun _ => true) (.getWeatherByCity city country region)) =
      some (baseUrl config ++ ascii "/v1/weather", (ascii "city", city) ::
        (optionalField (ascii "country") true country ++
          optionalField (ascii "region") true region)) :=
  readTarget_behind (baseUrl_noQuery plain) (readTarget_pathOf asked (fun _ => true))

/-- The key depends on the texts alone. -/
theorem keyOf_congr (cities : city = city') (countries : country.getD [] = country'.getD [])
    (regions : region.getD [] = region'.getD []) :
    keyOf (.getWeatherByCity city country region) =
      keyOf (.getWeatherByCity city' country' region') := by
  simp only [keyOf, cityParts]
  rw [normalized_getD country, normalized_getD region, cities, countries, regions,
    ← normalized_getD country', ← normalized_getD region']

/-- The URL built for a city query reads as the city and the optional arguments that are not empty;
with one host and port it determines them, and the cache key. -/
theorem weatherRequest_url_determines (plain : 63 ∉ config.host) (host : config'.host = config.host)
    (port : config'.port = config.port) (asked : Asked (.getWeatherByCity city country region))
    (asked' : Asked (.getWeatherByCity city' country' region')) :
    ∃ request request', weatherRequest config (fun _ => true) city country region = .ok request ∧
      weatherRequest config' (fun _ => true) city' country' region' = .ok request' ∧
      readTarget request.url = some (baseUrl config ++ ascii "/v1/weather", (ascii "city", city) ::
        (optionalField (ascii "country") true country ++
          optionalField (ascii "region") true region)) ∧
      (request.url = request'.url → city = city' ∧ country.getD [] = country'.getD [] ∧
        region.getD [] = region'.getD [] ∧ request.cacheKey = request'.cacheKey) := by
  refine ⟨_, _, weatherRequest_eq asked, weatherRequest_eq asked', readTarget_url plain asked, ?_⟩
  intro same
  have plain' : 63 ∉ config'.host := host ▸ plain
  have read' := readTarget_url plain' asked'
  rw [baseUrl_congr host port] at same read'
  have read := (readTarget_url plain asked).symm.trans ((congrArg readTarget same).trans read')
  simp only [Option.some.injEq, Prod.mk.injEq, List.cons.injEq, true_and] at read
  obtain ⟨cities, fields⟩ := read
  obtain ⟨ofCountry, ofRegion⟩ := optionalFields_lookup country region
  obtain ⟨ofCountry', ofRegion'⟩ := optionalFields_lookup country' region'
  rw [fields] at ofCountry ofRegion
  have countries := ofCountry.symm.trans ofCountry'
  have regions := ofRegion.symm.trans ofRegion'
  exact ⟨cities, countries, regions, keyOf_congr cities countries regions⟩

theorem weatherRequest_url_determines_oslo :
    ∃ request request',
      weatherRequest .default (fun _ => true) (ascii "Oslo") none (some (ascii "&?")) = .ok request ∧
      weatherRequest .default (fun _ => true) (ascii "Oslo") (some []) (some (ascii "&?")) =
        .ok request' ∧
      readTarget request.url = some (ascii "http://localhost:10680/v1/weather",
        [(ascii "city", ascii "Oslo"), (ascii "region", ascii "&?")]) ∧
      (request.url = request'.url → ascii "Oslo" = ascii "Oslo" ∧ ([] : Bytes) = [] ∧
        ascii "&?" = ascii "&?" ∧ request.cacheKey = request'.cacheKey) :=
  weatherRequest_url_determines (by decide) rfl rfl
    (.weather (by decide) (by decide) (by decide) (by decide) (by decide))
    (.weather (by decide) (by decide) (by decide) (by decide) (by decide))

end JustWeather.Api
