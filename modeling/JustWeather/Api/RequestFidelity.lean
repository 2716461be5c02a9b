import JustWeather.Api.Requests
import JustWeather.Text.FormData

/-! # What a request asks for

The target of a request is read back as the arguments of the call. It is the
whole path when the path fits its buffer, and a reading of less is another one.
-/

namespace JustWeather.Api

open CLib Http Utils Cache Text

/-- The field of an optional argument, when there is a value and memory to encode it. -/
def optionalField (name : Bytes) (granted : Bool) (value : Option Bytes) : List (Bytes × Bytes) :=
  match value with
  | none => []
  | some v => if v.isEmpty || !granted then [] else [(name, v)]

/-- The endpoint and the fields that reach the URL. -/
def fieldsOf (granted : EncodeSite → Bool) : Call → Bytes × List (Bytes × Bytes)
  | .getCurrentWeather lat lon =>
      (ascii "/v1/current", [(ascii "lat", lat.fixed 4), (ascii "lon", lon.fixed 4)])
  | .getWeatherByCity city country region =>
      (ascii "/v1/weather", (ascii "city", city) :: (optionalField (ascii "country") (granted .country)
        country ++ optionalField (ascii "region") (granted .region) region))
  | .searchCities query => (ascii "/v1/cities", [(ascii "query", query)])
  | .getHomepage => (ascii "/", [])

/-- The endpoint and the arguments given, the optional ones when they are not empty. -/
def given (call : Call) : Bytes × List (Bytes × Bytes) := fieldsOf (fun _ => true) call

/-- The calls with free text, their arguments NUL-free and within their limits. -/
inductive Asked : Call → Prop where
  | weather {city : Bytes} {country region : Option Bytes} : 0 ∉ city → 0 < city.length →
      city.length ≤ 100 → 0 ∉ country.getD [] → 0 ∉ region.getD [] →
      Asked (.getWeatherByCity city country region)
  | cities {query : Bytes} : 0 ∉ query → 2 ≤ query.length → Asked (.searchCities query)

/-- A call throws and sends nothing, or the request that it hands on asks for what it was given, and
of that the start is sent: all of it when `client_tcp_send` returns 0. -/
def Faithful {J : Jansson} (env : RequestEnv) (call : Call) (r : RequestRun J) : Prop :=
  (r.request = none ∧ r.sent = [] ∧ ∃ message, r.result = .returns (.error message)) ∨
    ∃ request target, r.request = some request ∧ Takes env.net.sends request r.sent ∧
      requestTarget request = some target ∧ readTarget target = some (given call)

/-- The cache has nothing for the call. -/
def Missing (J : Jansson) (env : RequestEnv) (w : WeatherClient) (dir : CacheDir) (call : Call) :
    Prop :=
  ∀ request, call.prepare w.config env.encode = .ok request →
    (clientCacheGet J env.lookup (cStr request.cacheKey) ⟨w.cache, dir⟩).1 = none

/-- The argument encoded first gets memory; without it the call throws. -/
def Begins (granted : EncodeSite → Bool) : Call → Prop
  | .getWeatherByCity _ _ _ => granted .city = true
  | .searchCities _ => granted .query = true
  | _ => True

/-- Every optional argument that is not empty gets memory. -/
def Completes (granted : EncodeSite → Bool) : Call → Prop
  | .getWeatherByCity _ country region =>
      (country.getD [] ≠ [] → granted .country = true) ∧
        (region.getD [] ≠ [] → granted .region = true)
  | _ => True

/-- A call that gets so far has all its arguments in the path, and the path fits its buffer. -/
def Whole (granted : EncodeSite → Bool) (call : Call) : Prop :=
  Begins granted call → Completes granted call ∧ (pathOf (fun _ => true) call).length ≤ 511

/-! ## Reading the path -/

/-- The bytes of a field name. -/
private def IsName (name : Bytes) : Prop := ∀ c ∈ name, c ≠ 37 ∧ c ≠ 43 ∧ c ≠ 61 ∧ c ≠ 38

private theorem formField_encoded {name v : Bytes} (plain : IsName name) (clean : 0 ∉ v) :
    formField (name ++ 61 :: encoded v) = some (name, v) := by
  refine formField_append ?_ (formDecode_self ?_) (formDecode_encoded clean)
  · intro mem
    exact (plain 61 mem).2.2.1 rfl
  · intro c mem
    exact ⟨(plain c mem).1, (plain c mem).2.1⟩

private theorem not_mem_piece {name : Bytes} (v : Bytes) (plain : IsName name) :
    38 ∉ name ++ 61 :: encoded v := by
  intro mem
  rcases List.mem_append.mp mem with inName | inValue
  · exact (plain 38 inName).2.2.2 rfl
  · rcases List.mem_cons.mp inValue with mark | inValue
    · cases mark
    · exact not_mem_encoded v (by decide) inValue

private theorem formFields_optionalParam {query name : Bytes} {fields : List (Bytes × Bytes)}
    (hq : formFields query = some fields) (granted : Bool) {value : Option Bytes}
    (plain : IsName name) (clean : 0 ∉ value.getD []) :
    formFields (query ++ optionalParam (38 :: (name ++ [61])) granted value) =
      some (fields ++ optionalField name granted value) := by
  cases value with
  | none => simpa [optionalParam, optionalField] using hq
  | some v =>
      by_cases empty : v.isEmpty = true
      · simpa [optionalParam, optionalField, empty] using hq
      · cases granted with
        | false => simpa [optionalParam, optionalField, urlEncode] using hq
        | true =>
            have field := formField_encoded plain clean
            simpa [optionalParam, optionalField, urlEncode, empty] using
              formFields_snoc hq (not_mem_piece v plain) field

/-- The whole path reads as the fields that reached it. -/
theorem readTarget_pathOf {call : Call} (asked : Asked call) (granted : EncodeSite → Bool) :
    readTarget (pathOf granted call) = some (fieldsOf granted call) := by
  cases asked with
  | @weather city country region clean _ _ cleanCountry cleanRegion =>
      have names : IsName (ascii "city") ∧ IsName (ascii "country") ∧ IsName (ascii "region") := by
        unfold IsName
        decide
      have first := formFields_single (not_mem_piece city names.1) (formField_encoded names.1 clean)
      have second := formFields_optionalParam first (granted .country) names.2.1 cleanCountry
      have third := formFields_optionalParam second (granted .region) names.2.2 cleanRegion
      have read : readTarget (ascii "/v1/weather" ++ 63 :: _) = _ :=
        readTarget_append (by decide) third
      simpa [pathOf, fieldsOf, ascii] using read
  | @cities query clean _ =>
      have name : IsName (ascii "query") := by
        unfold IsName
        decide
      have field := formFields_single (not_mem_piece query name) (formField_encoded name clean)
      have read : readTarget (ascii "/v1/cities" ++ 63 :: _) = _ :=
        readTarget_append (by decide) field
      simpa [pathOf, fieldsOf, ascii] using read

/-! ## Nothing left out -/

private theorem optionalParam_granted {name : Bytes} {granted : Bool} {value : Option Bytes}
    (h : value.getD [] ≠ [] → granted = true) :
    optionalParam name granted value = optionalParam name true value := by
  cases value with
  | none => rfl
  | some v =>
      cases v with
      | nil => rfl
      | cons c v => rw [h (List.cons_ne_nil c v)]

theorem pathOf_completes {granted : EncodeSite → Bool} {call : Call} (h : Completes granted call) :
    pathOf granted call = pathOf (fun _ => true) call := by
  cases call with
  | getWeatherByCity city country region =>
      simp only [pathOf]
      rw [optionalParam_granted h.1, optionalParam_granted h.2]
  | getCurrentWeather | searchCities | getHomepage => rfl

private theorem optionalField_length (name : Bytes) (granted : Bool) (value : Option Bytes) :
    (optionalField name granted value).length ≤ (optionalField name true value).length ∧
      ((optionalField name true value).length ≤ (optionalField name granted value).length →
        value.getD [] ≠ [] → granted = true) := by
  cases value with
  | none => simp [optionalField]
  | some v => cases v <;> cases granted <;> simp [optionalField]

/-- No field is missing, or there are fewer. -/
theorem completes_of_length {granted : EncodeSite → Bool} {call : Call}
    (h : (given call).2.length ≤ (fieldsOf granted call).2.length) : Completes granted call := by
  cases call with
  | getWeatherByCity city country region =>
      have ofCountry := optionalField_length (ascii "country") (granted .country) country
      have ofRegion := optionalField_length (ascii "region") (granted .region) region
      simp only [given, fieldsOf, List.length_cons, List.length_append] at h
      exact ⟨ofCountry.2 (by omega), ofRegion.2 (by omega)⟩
  | getCurrentWeather | searchCities | getHomepage => trivial

/-! ## The call -/

section Calls

variable {J : Jansson} {env : RequestEnv} {w : WeatherClient} {dir : CacheDir} {call : Call}
  {request : Prepared}

/-- A call with free text gets as far as its first encoding. -/
theorem prepare_ok_iff {config : ClientConfig} {granted : EncodeSite → Bool} (asked : Asked call) :
    (∃ request, call.prepare config granted = .ok request) ↔ Begins granted call := by
  simp only [prepare_eq_ok_iff, exists_and_left, exists_eq, and_true]
  cases asked with
  | @weather city country region clean some fits _ _ =>
      have valid : validateCityName city = true := by
        rw [validateCityName, cStr_of_clean clean]
        simpa [fits] using List.length_pos_iff.mp some
      exact and_iff_right valid
  | @cities query _ long => exact and_iff_right long

theorem parseUrl_prepared {config : ClientConfig} {granted : EncodeSite → Bool}
    (plain : PlainHost config.host) (named : config.host ≠ []) (short : config.host.length ≤ 255)
    (prepared : call.prepare config granted = .ok request) :
    ∃ port, parseUrl (cStr request.url) =
      .returns (some ⟨config.host, port, (pathOf granted call).take 511⟩) := by
  obtain ⟨rest, head⟩ := pathOf_head granted call
  obtain ⟨port, parsed⟩ := parseUrl_baseUrl rest plain
  have positive := List.length_pos_iff.mpr named
  refine ⟨port, ?_⟩
  rw [(prepare_eq_ok_iff.mp prepared).2, cStr_url plain (pathOf_bytes _ _), head, parsed,
    narrow32_of_small (by omega) (by omega), if_neg (by omega), if_neg (by omega), hostText_short short]

/-- Without a cached text the call goes to the network. -/
theorem perform_missing (missing : Missing J env w dir call)
    (prepared : call.prepare w.config env.encode = .ok request) :
    ∃ cache dir', call.perform J env w dir = fetch J env { w with cache } dir' request := by
  have none := missing request prepared
  simp only [Call.perform, prepared, makeRequest, none, cachedValue, Option.bind_none]
  exact ⟨_, _, rfl⟩

theorem fetch_unsent {r : Option Url} (parsed : parseUrl (cStr request.url) = .returns r)
    (h : (fetch J env w dir request).request = none) :
    ∃ message, (fetch J env w dir request).result = .returns (.error message) := by
  rw [RequestRun.request, fetch_get, Option.bind_some] at h
  obtain ⟨e, failed⟩ := httpClientGet_unsent parsed h
  unfold fetch
  simp only [failed]
  exact ⟨_, rfl⟩

/-- The target of what is sent is the path, as far as its buffer goes. -/
theorem perform_target {text : Bytes} (plain : PlainHost w.config.host)
    (handed : (call.perform J env w dir).request = some text) :
    requestTarget text = some ((pathOf env.encode call).take 511) := by
  rw [perform_request plain handed]
  apply requestTarget_requestText
  intro c mem
  exact (isPathByte_field (pathOf_bytes env.encode call c (List.mem_of_mem_take mem))).1

theorem faithful_of_whole (plain : PlainHost w.config.host) (named : w.config.host ≠ [])
    (short : w.config.host.length ≤ 255) (asked : Asked call) (missing : Missing J env w dir call)
    (whole : Whole env.encode call) : Faithful env call (call.perform J env w dir) := by
  cases prepared : call.prepare w.config env.encode with
  | error message =>
      left
      unfold Call.perform RequestRun.request RequestRun.sent
      rw [prepared]
      exact ⟨rfl, rfl, message, rfl⟩
  | ok request =>
      cases handed : (call.perform J env w dir).request with
      | none =>
          left
          obtain ⟨port, parsed⟩ := parseUrl_prepared plain named short prepared
          obtain ⟨cache, dir', fetches⟩ := perform_missing missing prepared
          refine ⟨handed, perform_silent handed, ?_⟩
          rw [fetches] at handed ⊢
          exact fetch_unsent parsed handed
      | some text =>
          right
          obtain ⟨completes, fits⟩ := whole ((prepare_ok_iff asked).mp ⟨request, prepared⟩)
          have target := perform_target plain handed
          rw [pathOf_completes completes, List.take_of_length_le fits] at target
          exact ⟨text, _, handed, perform_sent handed, target, readTarget_pathOf asked _⟩

/-- When a request is sent, only a whole path reads as what was given. -/
theorem whole_of_faithful {text : Bytes} (plain : PlainHost w.config.host) (asked : Asked call)
    (handed : (call.perform J env w dir).request = some text)
    (faithful : Faithful env call (call.perform J env w dir)) : Whole env.encode call := by
  intro _
  rcases faithful with ⟨none, -⟩ | ⟨_, target, sent, -, ofText, reads⟩
  · rw [handed] at none
    cases none
  · rw [handed] at sent
    cases sent
    rw [perform_target plain handed] at ofText
    cases ofText
    have full := readTarget_pathOf asked env.encode
    have part := List.take_prefix 511 (pathOf env.encode call)
    have completes := completes_of_length (readTarget_prefix_length part reads full)
    rw [pathOf_completes completes] at reads part
    have same := readTarget_prefix part reads (readTarget_pathOf asked fun _ => true)
    refine ⟨completes, ?_⟩
    rw [← same]
    exact List.length_take_le 511 _

end Calls

/-! ## A good network -/

theorem missing_noFiles (J : Jansson) (env : RequestEnv) (config : ClientConfig) (call : Call) :
    Missing J env (.create config) noFiles call := by
  intro request _
  rw [Option.eq_none_iff_forall_not_mem]
  intro x found
  rcases clientCacheGet_some found with ⟨entry, here, -⟩ | ⟨v, -, loadable, -⟩
  · cases here
  · obtain ⟨content, mtime, stat, -⟩ := loadable.file
    cases stat

theorem reaching_sends {J : Jansson} {config : ClientConfig} {granted : EncodeSite → Bool}
    {call : Call} (plain : PlainHost config.host) (named : config.host ≠ [])
    (short : config.host.length ≤ 255) (asked : Asked call) (begins : Begins granted call) :
    ∃ text, (call.perform J (reaching granted) (.create config) noFiles).request = some text := by
  have begun : ∃ request, call.prepare config granted = .ok request := (prepare_ok_iff asked).mpr begins
  obtain ⟨request, prepared⟩ := begun
  obtain ⟨port, parsed⟩ := parseUrl_prepared plain named short prepared
  have missing := missing_noFiles J (reaching granted) config call
  obtain ⟨cache, dir', fetches⟩ := perform_missing missing prepared
  refine ⟨requestText config.host ((pathOf granted call).take 511), ?_⟩
  have fd : (WeatherClient.create config).http.fd = none := rfl
  rw [fetches, RequestRun.request, fetch_get, Option.bind_some, httpClientGet, parsed]
  simp only [fd, reaching, clientTcpConnect, connectLoop, ConnectOutcome.succeeds, if_true]
  rw [sendGet_request]
  exact formatRequest_parsed parsed

/-- A call of the two methods with free text that the cache does not answer throws without sending
anything or asks for what it was given, exactly when nothing is left out of the path. -/
theorem perform_faithful_iff {J : Jansson} {config : ClientConfig} {call : Call}
    (granted : EncodeSite → Bool) (plain : PlainHost config.host) (named : config.host ≠ [])
    (short : config.host.length ≤ 255) (asked : Asked call) :
    (∀ (env : RequestEnv) (w : WeatherClient) (dir : CacheDir), env.encode = granted →
      w.config = config → Missing J env w dir call → Faithful env call (call.perform J env w dir)) ↔
    Whole granted call := by
  constructor
  · intro faithful begins
    obtain ⟨text, sent⟩ := reaching_sends (J := J) plain named short asked begins
    exact whole_of_faithful (w := .create config) plain asked sent
      (faithful (reaching granted) (.create config) noFiles rfl rfl (missing_noFiles J _ config call))
      begins
  · rintro whole env w dir rfl rfl missing
    exact faithful_of_whole plain named short asked missing whole

/-- A search that fits. -/
theorem perform_faithful_oslo :
    Faithful (reaching fun _ => true) (.searchCities (ascii "Oslo"))
      (Call.perform .emptyTexts (reaching fun _ => true) (.create .default) noFiles
        (.searchCities (ascii "Oslo"))) :=
  (perform_faithful_iff (fun _ => true) (by unfold PlainHost; decide) (by decide) (by decide)
    (.cities (by decide) (by decide))).mpr (fun _ => ⟨trivial, by decide +kernel⟩) (reaching _)
    (.create .default) noFiles rfl rfl (missing_noFiles _ _ .default _)

/-- A search of 600 letters goes out with the first 494 of them. -/
theorem perform_cuts_query :
    let call := Call.searchCities (List.replicate 600 97)
    let env := reaching fun _ => true
    let w := WeatherClient.create .default
    PlainHost w.config.host ∧ w.config.host ≠ [] ∧ w.config.host.length ≤ 255 ∧ Asked call ∧
      Missing .emptyTexts env w noFiles call ∧
      ¬ Faithful env call (call.perform .emptyTexts env w noFiles) := by
  intro call env w
  have plain : PlainHost w.config.host := by
    unfold PlainHost
    decide
  have named : w.config.host ≠ [] := by decide
  have short : w.config.host.length ≤ 255 := by decide
  have asked : Asked call := by
    refine .cities (fun mem => ?_) ?_
    · cases List.eq_of_mem_replicate mem
    · rw [List.length_replicate]
      decide
  refine ⟨plain, named, short, asked, missing_noFiles _ env .default call, fun faithful => ?_⟩
  have long : 511 < (pathOf (fun _ => true) call).length := by decide +kernel
  have begins : Begins (fun _ => true) call := rfl
  obtain ⟨text, sent⟩ := reaching_sends plain named short asked begins
  exact absurd (whole_of_faithful plain asked sent faithful begins).2 (by omega)

end JustWeather.Api
