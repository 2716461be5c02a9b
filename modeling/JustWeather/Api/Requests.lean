import JustWeather.Api.WeatherClient
import JustWeather.Http.RequestLines

/-! # From a call to its request

The path of a URL is made of few bytes. Parsing the URL gives the configured
host back, and the path as far as its buffer goes.
-/

namespace JustWeather.Api

open CLib Http Utils Cache

/-! ## The bytes of a path -/

def isPathByte (c : UInt8) : Bool :=
  isEncodedByte c || c == SLASH || c == 63 || c == 61 || c == 38

theorem isPathByte_field {c : UInt8} (h : isPathByte c = true) : isFieldByte c = true ∧ c ≠ 0 := by
  have foreign : ∀ z ∈ [32, CR, LF, 0], isPathByte z = false := by decide
  have other : ∀ z ∈ [32, CR, LF, 0], c ≠ z := by
    rintro z mem rfl
    rw [foreign c mem] at h
    cases h
  simp [isFieldByte, other 32, other CR, other LF, other 0]

private theorem encoded_pathBytes (s : Bytes) : ∀ c ∈ encoded s, isPathByte c = true := by
  intro c mem
  simp [isPathByte, encoded_bytes s c mem]

private theorem fixed_pathBytes (d : Double) : ∀ c ∈ d.fixed 4, isPathByte c = true := by
  intro c mem
  have byte := Double.fixed_bytes 4 d c mem
  have words : ∀ c ∈ ascii "infa", isPathByte c = true := by decide
  simp only [Double.isFixedByte, Bool.or_eq_true, beq_iff_eq, decide_eq_true_eq] at byte
  rcases byte with ((digit | rfl) | rfl) | word
  · simp [isPathByte, isEncodedByte, isUnreserved, isAlnum, digit]
  · decide
  · decide
  · exact words c word

private theorem optionalParam_bytes {name : Bytes} (granted : Bool) (value : Option Bytes)
    (fixed : ∀ c ∈ name, isPathByte c = true) :
    ∀ c ∈ optionalParam name granted value, isPathByte c = true := by
  unfold optionalParam urlEncode
  cases value with
  | none => simp
  | some v =>
      cases granted with
      | false => simp
      | true =>
          simp only [if_true]
          split
          · simp
          · exact List.forall_mem_append.mpr ⟨fixed, encoded_pathBytes v⟩

theorem pathOf_bytes (granted : EncodeSite → Bool) (call : Call) :
    ∀ c ∈ pathOf granted call, isPathByte c = true := by
  cases call with
  | getCurrentWeather lat lon =>
      unfold pathOf
      simp only [List.forall_mem_append]
      exact ⟨⟨⟨by decide, fixed_pathBytes lat⟩, by decide⟩, fixed_pathBytes lon⟩
  | getWeatherByCity city country region =>
      unfold pathOf
      simp only [List.forall_mem_append]
      exact ⟨⟨⟨by decide, encoded_pathBytes city⟩, optionalParam_bytes _ country (by decide)⟩,
        optionalParam_bytes _ region (by decide)⟩
  | searchCities query =>
      unfold pathOf
      simp only [List.forall_mem_append]
      exact ⟨by decide, encoded_pathBytes query⟩
  | getHomepage =>
      have slash : ∀ c ∈ ascii "/", isPathByte c = true := by decide
      exact slash

theorem pathOf_head (granted : EncodeSite → Bool) (call : Call) :
    ∃ rest, pathOf granted call = SLASH :: rest := by
  cases call with
  | getCurrentWeather | getWeatherByCity | searchCities | getHomepage => exact ⟨_, rfl⟩

/-! ## The URL parsed -/

/-- A host without spaces, control bytes, colons and slashes. -/
def PlainHost (host : Bytes) : Prop := ∀ c ∈ host, 32 < c ∧ c ≠ 127 ∧ c ≠ COLON ∧ c ≠ SLASH

private theorem PlainHost.bytes {host : Bytes} (plain : PlainHost host) :
    ∀ c ∈ host, inHost c = true ∧ isFieldByte c = true ∧ c ≠ 0 := by
  intro c mem
  obtain ⟨big, -, colon, slash⟩ := plain c mem
  have low : ∀ z ∈ [32, CR, LF, 0], ¬ 32 < z := by decide
  have other : ∀ z ∈ [32, CR, LF, 0], c ≠ z := by
    rintro z low' rfl
    exact low c low' big
  simp [inHost, isFieldByte, colon, slash, other 32, other CR, other LF, other 0]

/-- The host as `parse_url` copies it, its length narrowed to an `int`. -/
def hostText (host : Bytes) : Bytes := host.take (narrow32 host.length).toNat

theorem cStr_url {config : ClientConfig} {path : Bytes} (plain : PlainHost config.host)
    (pathBytes : ∀ c ∈ path, isPathByte c = true) :
    cStr (baseUrl config ++ path) = baseUrl config ++ path := by
  apply cStr_of_clean
  intro mem
  unfold baseUrl at mem
  simp only [List.mem_append] at mem
  rcases mem with (((scheme | host) | colon) | port) | path
  · exact absurd scheme (by decide)
  · exact (plain.bytes 0 host).2.2 rfl
  · exact absurd colon (by decide)
  · exact not_mem_decimalInt _ (by decide) (by decide) port
  · exact (isPathByte_field (pathBytes 0 path)).2 rfl

/-- Parsing finds the host and the path; what stands for the port does not matter here. -/
theorem parseUrl_baseUrl {config : ClientConfig} (rest : Bytes) (plain : PlainHost config.host) :
    ∃ port, parseUrl (baseUrl config ++ SLASH :: rest) =
      if narrow32 config.host.length = 0 ∨ 255 < narrow32 config.host.length then .returns none
      else if narrow32 config.host.length < 0 then .undefined
      else .returns (some ⟨hostText config.host, port, (SLASH :: rest).take 511⟩) := by
  have url : baseUrl config ++ SLASH :: rest = ascii "http://" ++
      (config.host ++ COLON :: (decimalInt config.port ++ SLASH :: rest)) := by
    simp [baseUrl, ascii, COLON]
  have scheme : ∀ s, splitScheme (ascii "http://" ++ s) = (s, 80) := by
    intro s
    have starts : startsWith (ascii "http://") (ascii "http://" ++ s) = true :=
      List.isPrefixOf_iff_prefix.mpr (List.prefix_append _ s)
    rw [splitScheme, if_pos starts]
    rfl
  have inside : ∀ c ∈ config.host, inHost c = true := fun c mem => (plain.bytes c mem).1
  have colon : inHost COLON = false := by decide
  have host : ∀ s, (config.host ++ COLON :: s).takeWhile inHost = config.host := by
    exact fun s => takeWhile_append_stop inside (by simp [colon])
  have behind : ∀ s, (config.host ++ COLON :: s).dropWhile inHost = COLON :: s := by
    exact fun s => dropWhile_append_stop inside (by simp [colon])
  have path : (decimalInt config.port ++ SLASH :: rest).dropWhile (· ≠ SLASH) = SLASH :: rest := by
    refine dropWhile_append_stop (fun c mem => ?_) (by simp)
    rw [decide_eq_true_eq]
    rintro rfl
    exact not_mem_decimalInt _ (by decide) (by decide) mem
  refine ⟨(parsePort 80 (COLON :: (decimalInt config.port ++ SLASH :: rest))).1, ?_⟩
  have rest' : parsePath (parsePort 80 (COLON :: (decimalInt config.port ++ SLASH :: rest))).2 =
      (SLASH :: rest).take 511 := by
    simp only [parsePort, if_true, path, parsePath]
  rw [url, parseUrl, scheme]
  simp only [host, behind, rest', hostText]

/-! ## The request -/

/-- The request that a run hands on, if it does. -/
def RequestRun.request {J : Jansson} (r : RequestRun J) : Option Bytes := r.get.bind GetRun.request

/-- The part of the request that the kernel accepts. -/
def RequestRun.sent {J : Jansson} (r : RequestRun J) : Bytes := (r.get.map GetRun.sent).getD []

variable {J : Jansson} {env : RequestEnv} {w : WeatherClient} {dir : CacheDir} {call : Call}

theorem readBody_get (key : Bytes) (get : GetRun) : (readBody J env w dir key get).get = some get := by
  unfold readBody
  split
  · rfl
  · split
    · rfl
    · split <;> rfl

theorem fetch_get (request : Prepared) : (fetch J env w dir request).get =
    some (httpClientGet env.net w.http (cStr request.url)) := by
  unfold fetch
  simp only
  split
  · rfl
  · rfl
  · rfl
  · exact readBody_get _ _

/-- A method's HTTP call, when there is one, is for the URL it prepared. -/
theorem perform_get {get : GetRun} (h : (call.perform J env w dir).get = some get) :
    ∃ request, call.prepare w.config env.encode = .ok request ∧
      get = httpClientGet env.net w.http (cStr request.url) := by
  cases prepared : call.prepare w.config env.encode with
  | error message =>
      simp only [Call.perform, prepared] at h
      cases h
  | ok request =>
      refine ⟨request, rfl, ?_⟩
      simp only [Call.perform, prepared, makeRequest] at h
      split at h
      · cases h
      · rw [fetch_get] at h
        exact (Option.some.inj h).symm

/-- What is handed on is the request for the configured host and the path of the call, as far as
the buffer goes. -/
theorem perform_request {request : Bytes} (plain : PlainHost w.config.host)
    (h : (call.perform J env w dir).request = some request) :
    request = requestText (hostText w.config.host) ((pathOf env.encode call).take 511) := by
  obtain ⟨get, hget, handed⟩ := Option.bind_eq_some_iff.mp h
  obtain ⟨prepared, accepted, rfl⟩ := perform_get hget
  obtain ⟨rest, head⟩ := pathOf_head env.encode call
  rw [(prepare_eq_ok_iff.mp accepted).2, cStr_url plain (pathOf_bytes _ _), head] at handed
  obtain ⟨u, parsed, formatted⟩ := httpClientGet_request handed
  obtain ⟨port, eq⟩ := parseUrl_baseUrl rest plain
  rw [eq] at parsed
  have parts : u.hostname = hostText w.config.host ∧ u.path = (SLASH :: rest).take 511 := by
    split at parsed
    · cases parsed
    · split at parsed
      · cases parsed
      · cases parsed
        exact ⟨rfl, rfl⟩
  unfold formatRequest at formatted
  split at formatted
  · cases formatted
  · rw [← Option.some.inj formatted, parts.1, parts.2, head]

theorem hostText_start (host : Bytes) : hostText host <+: host := List.take_prefix _ _

theorem hostText_short {host : Bytes} (short : host.length ≤ 255) : hostText host = host := by
  rw [hostText, narrow32_of_small (by omega) (by omega)]
  exact List.take_of_length_le (by omega)

/-- The start of the request is sent, all of it when `client_tcp_send` returns 0. -/
theorem perform_sent {request : Bytes} (h : (call.perform J env w dir).request = some request) :
    Takes env.net.sends request (call.perform J env w dir).sent := by
  obtain ⟨get, hget, handed⟩ := Option.bind_eq_some_iff.mp h
  have sent : (call.perform J env w dir).sent = get.sent := by
    rw [RequestRun.sent, hget]
    rfl
  rw [sent]
  obtain ⟨prepared, accepted, rfl⟩ := perform_get hget
  exact httpClientGet_sent handed

/-- Nothing is sent that was not handed on. -/
theorem perform_silent (h : (call.perform J env w dir).request = none) :
    (call.perform J env w dir).sent = [] := by
  cases called : (call.perform J env w dir).get with
  | none =>
      rw [RequestRun.sent, called]
      rfl
  | some get =>
      obtain ⟨prepared, accepted, rfl⟩ := perform_get called
      rw [RequestRun.request, called] at h
      rw [RequestRun.sent, called]
      exact httpClientGet_silent h

/-- The server is reached and takes the request. -/
def reaching (granted : EncodeSite → Bool) : RequestEnv where
  encode := granted
  lookup := .calm 0
  parsesCached := true
  net := ⟨some [⟨some 3, .connected⟩], [.accepted 2048], [], fun _ => true⟩
  copiesError := true
  parseRefused := none
  store := .calm 0

/-- A cache directory without files. -/
def noFiles : CacheDir := .present fun _ => none

/-- Whatever the arguments, what is handed on is one request, and its header lines depend on the
configured host alone. It is sent from its first byte on, whole when `client_tcp_send` returns 0. -/
theorem perform_sends_one_request {J : Jansson} {config : ClientConfig}
    (plain : PlainHost config.host) :
    ∃ host, host <+: config.host ∧ (config.host.length ≤ 255 → host = config.host) ∧
      ∀ (call : Call) (env : RequestEnv) (w : WeatherClient) (dir : CacheDir), w.config = config →
        ((call.perform J env w dir).request = none → (call.perform J env w dir).sent = []) ∧
        ∀ request, (call.perform J env w dir).request = some request →
          OneRequest host request ∧ Takes env.net.sends request (call.perform J env w dir).sent := by
  refine ⟨hostText config.host, hostText_start _, hostText_short, ?_⟩
  rintro call env w dir rfl
  refine ⟨perform_silent, fun request handed => ⟨?_, perform_sent handed⟩⟩
  rw [perform_request plain handed]
  obtain ⟨rest, head⟩ := pathOf_head env.encode call
  have cut : (pathOf env.encode call).take 511 = SLASH :: rest.take 510 := by rw [head]; rfl
  rw [cut]
  refine requestText_one (fun c mem => ?_) fun c mem => ?_
  · exact (plain.bytes c ((hostText_start _).subset mem)).2.1
  · rw [← cut] at mem
    exact (isPathByte_field (pathOf_bytes env.encode call c (List.mem_of_mem_take mem))).1

/-- A query with a line end in it. -/
theorem perform_sends_one_request_localhost :
    let run := Call.perform .emptyTexts (reaching fun _ => true) (.create .default) noFiles
      (.searchCities (ascii "a\r\nb"))
    let request := ascii ("GET /v1/cities?query=a%0D%0Ab HTTP/1.1\r\nHost: localhost\r\n" ++
      "User-Agent: just-weather-client/1.0\r\nAccept: application/json\r\nConnection: close\r\n\r\n")
    run.request = some request ∧ OneRequest (ascii "localhost") request ∧ run.sent = request := by
  intro run request
  have handed : run.request = some request := by decide +kernel
  obtain ⟨host, -, same, sends⟩ := @perform_sends_one_request .emptyTexts .default
    (by unfold PlainHost; decide)
  obtain rfl := same (by decide)
  obtain ⟨one, -, whole⟩ := (sends _ (reaching fun _ => true) _ noFiles rfl).2 request handed
  exact ⟨handed, one, (whole 3).mp (by decide +kernel)⟩

end JustWeather.Api
