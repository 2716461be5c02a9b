import JustWeather.Cache.ClientCache
import JustWeather.Http.Client
import JustWeather.Text.Occurrences
import JustWeather.Utils.Arguments
import JustWeather.Utils.Normalize

/-! # `WeatherClient`

A method checks its arguments, builds a URL and a cache key, and hands both to
`makeRequest`. A text crosses into the C code as what comes before its first NUL.
-/

namespace JustWeather.Api

open CLib Http Utils Cache Text

structure ClientConfig where
  host : Bytes
  port : Int
  timeoutMs : Int
  deriving DecidableEq

/-- The default configuration. -/
def ClientConfig.default : ClientConfig := ⟨ascii "localhost", 10680, 5000⟩

structure WeatherClient where
  config : ClientConfig
  http : HttpClient
  cache : ClientCache

/-- The constructor, when its allocations succeed. -/
def WeatherClient.create (config : ClientConfig) : WeatherClient :=
  ⟨config, httpClientCreate config.timeoutMs, clientCacheCreate CACHE_MAX_ENTRIES CACHE_DEFAULT_TTL⟩

/-- The calls of `url_encode`, which allocate. -/
inductive EncodeSite where
  | city
  | country
  | region
  | query
  deriving DecidableEq

/-! ## URLs and keys -/

/-- What a method hands to `makeRequest`. -/
structure Prepared where
  url : Bytes
  cacheKey : Bytes
  deriving DecidableEq

def baseUrl (config : ClientConfig) : Bytes :=
  ascii "http://" ++ config.host ++ ascii ":" ++ decimalInt config.port

def buildCacheKey (endpoint params : Bytes) : Bytes := endpoint ++ ascii ":" ++ params

/-- A parameter that is left out when it has no value, an empty one, or no memory. -/
def optionalParam (name : Bytes) (granted : Bool) (value : Option Bytes) : Bytes :=
  match value with
  | none => []
  | some v =>
      if v.isEmpty then []
      else
        match urlEncode granted v with
        | none => []
        | some text => name ++ text

/-- `normalize_string_for_cache` into a buffer of 256 bytes, which starts out empty. -/
def normalized (value : Option Bytes) : Bytes :=
  match value with
  | none => []
  | some v => normalizeStringForCache v [] 256

def currentRequest (config : ClientConfig) (lat lon : Double) : Except Bytes Prepared :=
  if !validateLatitude lat || !validateLongitude lon then .error (ascii "Invalid coordinates")
  else .ok
    { url := baseUrl config ++ (ascii "/v1/current?lat=" ++ lat.fixed 4 ++ ascii "&lon=" ++ lon.fixed 4)
      cacheKey := buildCacheKey (ascii "current")
        (ascii "lat=" ++ lat.fixed 4 ++ ascii ":lon=" ++ lon.fixed 4) }

def weatherRequest (config : ClientConfig) (granted : EncodeSite → Bool) (city : Bytes)
    (country region : Option Bytes) : Except Bytes Prepared :=
  if !validateCityName city then .error (ascii "Invalid city name")
  else
    match urlEncode (granted .city) city with
    | none => .error (ascii "Failed to encode city name")
    | some cityEncoded => .ok
        { url := baseUrl config ++ (ascii "/v1/weather?city=" ++ cityEncoded ++
            optionalParam (ascii "&country=") (granted .country) country ++
            optionalParam (ascii "&region=") (granted .region) region)
          cacheKey := buildCacheKey (ascii "weather")
            (ascii "city=" ++ normalized (some city) ++ ascii ":country=" ++ normalized country ++
              ascii ":region=" ++ normalized region) }

def citiesRequest (config : ClientConfig) (granted : EncodeSite → Bool) (query : Bytes) :
    Except Bytes Prepared :=
  if query.length < 2 then .error (ascii "Query must be at least 2 characters")
  else
    match urlEncode (granted .query) query with
    | none => .error (ascii "Failed to encode query")
    | some queryEncoded => .ok
        { url := baseUrl config ++ (ascii "/v1/cities?query=" ++ queryEncoded)
          cacheKey := buildCacheKey (ascii "cities") (ascii "query=" ++ normalized (some query)) }

def homepageRequest (config : ClientConfig) : Prepared where
  url := baseUrl config ++ ascii "/"
  cacheKey := buildCacheKey (ascii "homepage") []

/-! ## `makeRequest` -/

/-- What a request meets. -/
structure RequestEnv where
  encode : EncodeSite → Bool
  /-- During `client_cache_get`. -/
  lookup : Surroundings
  /-- The cached text is parsed with enough memory. -/
  parsesCached : Bool
  net : Network
  /-- The copy of an error text gets memory. -/
  copiesError : Bool
  /-- The error text of `json_loads` when it gets no memory for the body. -/
  parseRefused : Option Bytes
  /-- During `client_cache_set`. -/
  store : Surroundings

/-- How a call of a method ends: its result or the message it throws, the client and the directory
after it, and the HTTP request, when there was one. -/
structure RequestRun (J : Jansson) where
  result : Exec (Except Bytes J.Value)
  client : WeatherClient
  dir : CacheDir
  get : Option GetRun

/-- The message for a body with a false `success` field. -/
def apiError (J : Jansson) (json : J.Value) : Option Bytes :=
  match (J.objectGet json (ascii "success")).bind J.boolean with
  | some false =>
      let message := ((J.objectGet json (ascii "error")).bind fun error =>
        J.objectGet error (ascii "message")).bind J.string
      some (message.getD (ascii "API error"))
  | _ => none

/-- `makeRequest` from the response body on. -/
def readBody (J : Jansson) (env : RequestEnv) (w : WeatherClient) (dir : CacheDir) (cacheKey : Bytes)
    (get : GetRun) : RequestRun J :=
  match get.client.responseBody with
  | none => ⟨.returns (.error (ascii "Empty response from server")), w, dir, some get⟩
  | some body =>
      match (env.parseRefused.elim (J.load (cStr body)) .error : Except Bytes J.Value) with
      | .error text =>
          ⟨.returns (.error (ascii "JSON parse error: " ++ text)), w, dir, some get⟩
      | .ok json =>
          match apiError J json with
          | some message => ⟨.returns (.error message), w, dir, some get⟩
          | none =>
              let (_, s) := clientCacheSet J env.store (cStr cacheKey) (cStr body) ⟨w.cache, dir⟩
              ⟨.returns (.ok json), { w with cache := s.cache }, s.dir, some get⟩

/-- `makeRequest` from the HTTP request on. -/
def fetch (J : Jansson) (env : RequestEnv) (w : WeatherClient) (dir : CacheDir)
    (request : Prepared) : RequestRun J :=
  let get := httpClientGet env.net w.http (cStr request.url)
  let w := { w with http := get.client }
  match get.result with
  | .undefined => ⟨.undefined, w, dir, some get⟩
  | .diverges => ⟨.diverges, w, dir, some get⟩
  | .returns (.error e) =>
      let message := if env.copiesError then e.message else ascii "HTTP request failed"
      ⟨.returns (.error message), w, dir, some get⟩
  | .returns (.ok ()) => readBody J env w dir request.cacheKey get

/-- What the cache has for a key, parsed. -/
def cachedValue (J : Jansson) (env : RequestEnv) (cached : Option Bytes) : Option J.Value :=
  cached.bind fun text => if env.parsesCached then (J.load text).toOption else none

def makeRequest (J : Jansson) (env : RequestEnv) (w : WeatherClient) (dir : CacheDir)
    (request : Prepared) : RequestRun J :=
  let (cached, s) := clientCacheGet J env.lookup (cStr request.cacheKey) ⟨w.cache, dir⟩
  match cachedValue J env cached with
  | some json => ⟨.returns (.ok json), { w with cache := s.cache }, s.dir, none⟩
  | none => fetch J env { w with cache := s.cache } s.dir request

/-! ## The methods -/

/-- The methods that go through `makeRequest`, with their arguments. -/
inductive Call where
  | getCurrentWeather (lat lon : Double)
  | getWeatherByCity (city : Bytes) (country region : Option Bytes)
  | searchCities (query : Bytes)
  | getHomepage
  deriving DecidableEq

namespace Call

/-- The URL and the key, or the message thrown before there are any. -/
def prepare (config : ClientConfig) (granted : EncodeSite → Bool) : Call → Except Bytes Prepared
  | getCurrentWeather lat lon => currentRequest config lat lon
  | getWeatherByCity city country region => weatherRequest config granted city country region
  | searchCities query => citiesRequest config granted query
  | getHomepage => .ok (homepageRequest config)

/-- The whole method. -/
def perform (J : Jansson) (env : RequestEnv) (w : WeatherClient) (dir : CacheDir) (call : Call) :
    RequestRun J :=
  match call.prepare w.config env.encode with
  | .error message => ⟨.returns (.error message), w, dir, none⟩
  | .ok request => makeRequest J env w dir request

end Call

/-! ## The other methods -/

/-- How `echo` ends, with the text that it puts under `echo`, and the client after it. -/
def echo (net : Network) (copiesError : Bool) (w : WeatherClient) :
    Exec (Except Bytes Bytes) × WeatherClient :=
  let get := httpClientGet net w.http (cStr (baseUrl w.config ++ ascii "/echo"))
  let w := { w with http := get.client }
  match get.result with
  | .undefined => (.undefined, w)
  | .diverges => (.diverges, w)
  | .returns (.error e) =>
      (.returns (.error (if copiesError then e.message else ascii "HTTP request failed")), w)
  | .returns (.ok ()) =>
      match get.client.responseBody with
      | none => (.returns (.error (ascii "Empty response")), w)
      | some body => (.returns (.ok (cStr body)), w)

def clearCache (env : Surroundings) (w : WeatherClient) (dir : CacheDir) : WeatherClient × CacheDir :=
  let s := clientCacheClear env ⟨w.cache, dir⟩
  ({ w with cache := s.cache }, s.dir)

/-- The HTTP client keeps the timeout it was made with. -/
def setTimeout (timeoutMs : Int) (w : WeatherClient) : WeatherClient :=
  { w with config := { w.config with timeoutMs } }

/-! ## What a method hands on -/

/-- What a URL has behind host and port. -/
def pathOf (granted : EncodeSite → Bool) : Call → Bytes
  | .getCurrentWeather lat lon =>
      ascii "/v1/current?lat=" ++ lat.fixed 4 ++ ascii "&lon=" ++ lon.fixed 4
  | .getWeatherByCity city country region =>
      ascii "/v1/weather?city=" ++ encoded city ++
        optionalParam (ascii "&country=") (granted .country) country ++
        optionalParam (ascii "&region=") (granted .region) region
  | .searchCities query => ascii "/v1/cities?query=" ++ encoded query
  | .getHomepage => ascii "/"

/-- The marks of a city key. -/
def COUNTRY_MARK : Bytes := ascii ":country="
def REGION_MARK : Bytes := ascii ":region="

/-- The three parts of a city key. -/
def cityParts (city : Bytes) (country region : Option Bytes) : Bytes × Bytes × Bytes :=
  (normalized (some city), normalized country, normalized region)

/-- The key of a call, with the fixed texts put together. -/
def keyOf : Call → Bytes
  | .getCurrentWeather lat lon =>
      ascii "current:lat=" ++ (lat.fixed 4 ++ (ascii ":lon=" ++ lon.fixed 4))
  | .getWeatherByCity city country region =>
      ascii "weather:city=" ++ glue COUNTRY_MARK REGION_MARK (cityParts city country region)
  | .searchCities query => ascii "cities:query=" ++ normalized (some query)
  | .getHomepage => ascii "homepage:"

/-- The checks pass, and the argument encoded first gets memory. -/
def Accepted (granted : EncodeSite → Bool) : Call → Prop
  | .getCurrentWeather lat lon => validateLatitude lat = true ∧ validateLongitude lon = true
  | .getWeatherByCity city _ _ => validateCityName city = true ∧ granted .city = true
  | .searchCities query => 2 ≤ query.length ∧ granted .query = true
  | .getHomepage => True

/-- A method hands on its URL and its key exactly when it accepts its arguments. -/
theorem prepare_eq_ok_iff {config : ClientConfig} {granted : EncodeSite → Bool} {call : Call}
    {request : Prepared} : call.prepare config granted = .ok request ↔
      Accepted granted call ∧ request = ⟨baseUrl config ++ pathOf granted call, keyOf call⟩ := by
  cases call with
  | getCurrentWeather lat lon =>
      have key : keyOf (.getCurrentWeather lat lon) = buildCacheKey (ascii "current")
          (ascii "lat=" ++ lat.fixed 4 ++ ascii ":lon=" ++ lon.fixed 4) := by
        simp [keyOf, buildCacheKey, ascii]
      rw [key]
      simp only [Call.prepare, currentRequest, Accepted, pathOf]
      cases validateLatitude lat <;> cases validateLongitude lon <;> simp [eq_comm]
  | getWeatherByCity city country region =>
      have key : keyOf (.getWeatherByCity city country region) = buildCacheKey (ascii "weather")
          (ascii "city=" ++ normalized (some city) ++ ascii ":country=" ++ normalized country ++
            ascii ":region=" ++ normalized region) := by
        simp [keyOf, buildCacheKey, ascii, glue, cityParts, COUNTRY_MARK, REGION_MARK]
      rw [key]
      simp only [Call.prepare, weatherRequest, Accepted, pathOf, urlEncode]
      cases validateCityName city <;> cases granted .city <;> simp [eq_comm]
  | searchCities query =>
      have key : keyOf (.searchCities query) = buildCacheKey (ascii "cities")
          (ascii "query=" ++ normalized (some query)) := by
        simp [keyOf, buildCacheKey, ascii]
      rw [key]
      simp only [Call.prepare, citiesRequest, Accepted, pathOf, urlEncode]
      rcases Nat.lt_or_ge query.length 2 with short | long
      · simp [short]
      · cases granted .query <;> simp [long, Nat.not_lt.mpr long, eq_comm]
  | getHomepage =>
      have key : keyOf .getHomepage = buildCacheKey (ascii "homepage") [] := by decide
      rw [key]
      simp [Call.prepare, homepageRequest, Accepted, pathOf, eq_comm]

end JustWeather.Api
