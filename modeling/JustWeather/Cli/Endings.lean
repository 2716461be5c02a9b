import JustWeather.Api.RequestFidelity
import JustWeather.Api.Session
import JustWeather.Cli.Main
import JustWeather.Http.Transport

/-! # How commands end

A command clears the cache, refuses its arguments, finds an answer in the cache,
or asks the server. A command that asks ends as its request does, and as its
answer is read.
-/

namespace JustWeather.Cli

open CLib Http Api Cache

/-! ## What happens to a command -/

/-- The method behind a command that goes through `makeRequest`. -/
def Command.call : Command → Option Call
  | current lat lon => some (.getCurrentWeather lat lon)
  | weather city country region => some (.getWeatherByCity city country region)
  | cities query => some (.searchCities query)
  | homepage => some .getHomepage
  | echo | clearCache => none

section Course

variable (J : Jansson) (env : CommandEnv) (w : WeatherClient) (dir : CacheDir)

/-- What the cache has for a request. -/
def cachedFor (request : Prepared) : Option J.Value :=
  cachedValue J env.request
    (clientCacheGet J env.request.lookup (cStr request.cacheKey) ⟨w.cache, dir⟩).1

/-- The command asks the server for a URL: its arguments are fine, and the cache has nothing. -/
inductive Asks : Command → Bytes → Prop where
  | call {command : Command} {call : Call} {request : Prepared} : command.call = some call →
      call.prepare w.config env.request.encode = .ok request → cachedFor J env w dir request = none →
      Asks command (cStr request.url)
  | echo : Asks .echo (cStr (baseUrl w.config ++ ascii "/echo"))

/-- The command has no objection to the text. -/
def Passes (text : Bytes) (command : Command) : Prop :=
  command = .echo ∨ env.request.parseRefused = none ∧ Succeeds J text

/-- The command takes the answer. -/
def Takes (command : Command) (full : Bytes) : Prop :=
  ∃ code body, reading env.request.net.granted full = .returns (.whole code body) ∧ 200 ≤ code ∧
    code < 600 ∧ Passes J env (cStr body) command

/-- Everything is printed that there is to print. -/
def Printed.Whole {J : Jansson} : Printed J → Prop
  | .value _ | .cleared | .echo (some _) => True
  | .echo none | .failure => False

/-- The URL parses, and its request fails on the way. -/
def IsLost (url : Bytes) : Prop :=
  ∃ u, parseUrl url = .returns (some u) ∧ TransportFails env.request.net (requestText u.hostname u.path)

/-- What a command makes of its request. -/
structure Answers (command : Command) (get : GetRun) (result : Exec (Except StdException (Printed J))) :
    Prop where
  failed : ∀ e, get.result = .returns (.error e) → ∃ what, result = .returns (.error (.runtimeError what))
  undefined : get.result = .undefined → result = .undefined
  diverges : get.result = .diverges → result = .diverges
  passes : ∀ body, get.result = .returns (.ok ()) → get.client.responseBody = some body →
    Passes J env (cStr body) command → ∃ printed, result = .returns (.ok printed) ∧
      (printed.Whole ↔ env.dumps = true ∧ (command = .echo → env.puts (cStr body) = true))
  refuses : ∀ body, get.result = .returns (.ok ()) → get.client.responseBody = some body →
    ¬ Passes J env (cStr body) command → ∃ what, result = .returns (.error (.runtimeError what))

/-- How a command that asks comes to an end. -/
inductive Ends (command : Command) (url : Bytes) (result : Exec (Except StdException (Printed J))) :
    Prop where
  | lost {what : Bytes} : IsLost env url → result = .returns (.error (.runtimeError what)) →
      Ends command url result
  | hangs : result = .diverges → Ends command url result
  | prints {full body : Bytes} {code : Int} {printed : Printed J} :
      Arrives env.request.net w.http url full → Takes J env command full →
      reading env.request.net.granted full = .returns (.whole code body) →
      result = .returns (.ok printed) →
      (printed.Whole ↔ env.dumps = true ∧ (command = .echo → env.puts (cStr body) = true)) →
      Ends command url result
  | objects {full what : Bytes} {r : Reading} : Arrives env.request.net w.http url full →
      reading env.request.net.granted full = .returns r → ¬ Takes J env command full →
      result = .returns (.error (.runtimeError what)) → Ends command url result
  | wild {full : Bytes} : Arrives env.request.net w.http url full →
      (∀ r, reading env.request.net.granted full ≠ .returns r) → (∀ r, result ≠ .returns r) →
      Ends command url result

end Course

variable {J : Jansson} {env : CommandEnv} {w : WeatherClient} {dir : CacheDir} {command : Command}
  {call : Call} {request : Prepared} {url : Bytes}

theorem execute_call (is : command.call = some call) :
    command.execute J env w dir = executeCall J env w dir call := by
  cases command with
  | current | weather | cities | homepage =>
      cases is
      rfl
  | echo | clearCache => cases is

/-- The text parses, and `success` is not false. -/
theorem readBody_passes {body : Bytes} {get : GetRun}
    (shows : get.client.responseBody = some body) (memory : env.request.parseRefused = none)
    (succeeds : Succeeds J (cStr body)) :
    ∃ json, ∀ w dir key, (readBody J env.request w dir key get).result = .returns (.ok json) := by
  obtain ⟨json, load, truth⟩ := succeeds
  have fine := apiError_eq_none.mpr truth
  refine ⟨json, fun w dir key => ?_⟩
  simp only [readBody, shows, memory, Option.elim_none, load, fine]

theorem readBody_refuses {body : Bytes} {get : GetRun}
    (shows : get.client.responseBody = some body)
    (bad : ¬ (env.request.parseRefused = none ∧ Succeeds J (cStr body))) :
    ∃ message, ∀ w dir key, (readBody J env.request w dir key get).result = .returns (.error message) := by
  unfold readBody
  simp only [shows]
  cases memory : env.request.parseRefused with
  | some text => exact ⟨_, fun _ _ _ => rfl⟩
  | none =>
      simp only [Option.elim_none]
      cases load : J.load (cStr body) with
      | error text => exact ⟨_, fun _ _ _ => rfl⟩
      | ok json =>
          cases fails : apiError J json with
          | some text =>
              simp only [fails]
              exact ⟨_, fun _ _ _ => rfl⟩
          | none => exact absurd ⟨memory, json, load, apiError_eq_none.mp fails⟩ bad

theorem printJson_whole {json : Printed J} :
    (printJson J env json).Whole ↔ env.dumps = true ∧ json.Whole := by
  cases dumps : env.dumps <;> simp [printJson, dumps, Printed.Whole]

theorem perform_uncached (prepared : call.prepare w.config env.request.encode = .ok request)
    (absent : cachedFor J env w dir request = none) :
    ∃ cache dir', call.perform J env.request w dir =
      fetch J env.request { w with cache } dir' request := by
  unfold cachedFor at absent
  simp only [Call.perform, prepared, makeRequest, absent]
  exact ⟨_, _, rfl⟩

theorem executeCall_answers (is : command.call = some call)
    (prepared : call.prepare w.config env.request.encode = .ok request)
    (absent : cachedFor J env w dir request = none) :
    Answers J env command (httpClientGet env.request.net w.http (cStr request.url))
      (command.execute J env w dir).result := by
  have other : command ≠ .echo := by
    rintro rfl
    cases is
  have passes_iff : ∀ text, Passes J env text command ↔
      env.request.parseRefused = none ∧ Succeeds J text := fun text => or_iff_right other
  obtain ⟨cache, dir', fetches⟩ := perform_uncached prepared absent
  rw [execute_call is, executeCall, fetches]
  simp only [fetch]
  constructor
  · intro e failed
    simp only [failed]
    exact ⟨_, rfl⟩
  · intro undefined
    simp only [undefined]
    rfl
  · intro diverges
    simp only [diverges]
    rfl
  · intro body ok shows passes
    obtain ⟨memory, succeeds⟩ := (passes_iff _).mp passes
    simp only [ok]
    obtain ⟨json, read⟩ := readBody_passes shows memory succeeds
    simp only [read]
    refine ⟨_, rfl, ?_⟩
    refine printJson_whole.trans (and_congr_right fun _ => ?_)
    simp [Printed.Whole, other]
  · intro body ok shows refuses
    simp only [ok]
    obtain ⟨message, read⟩ := readBody_refuses shows fun passes => refuses ((passes_iff _).mpr passes)
    simp only [read]
    exact ⟨_, rfl⟩

theorem executeEcho_answers :
    Answers J env .echo (httpClientGet env.request.net w.http (cStr (baseUrl w.config ++ ascii "/echo")))
      (Command.echo.execute J env w dir).result := by
  simp only [Command.execute, executeEcho, echo]
  constructor
  · intro e failed
    simp only [failed]
    exact ⟨_, rfl⟩
  · intro undefined
    simp only [undefined]
    rfl
  · intro diverges
    simp only [diverges]
    rfl
  · intro body ok shows passes
    simp only [ok, shows]
    refine ⟨_, rfl, ?_⟩
    refine printJson_whole.trans (and_congr_right fun _ => ?_)
    cases puts : env.puts (cStr body) <;> simp [Printed.Whole]
  · intro body ok shows refuses
    exact absurd (.inl rfl) refuses

/-! ## What the server is asked -/

theorem Asks.answers (asks : Asks J env w dir command url) :
    Answers J env command (httpClientGet env.request.net w.http url)
      (command.execute J env w dir).result := by
  cases asks with
  | call is prepared absent => exact executeCall_answers is prepared absent
  | echo => exact executeEcho_answers

theorem Asks.unique {url' : Bytes} (asks : Asks J env w dir command url)
    (asks' : Asks J env w dir command url') : url = url' := by
  cases asks with
  | call is prepared absent =>
      cases asks' with
      | call is' prepared' absent' =>
          cases is.symm.trans is'
          cases prepared.symm.trans prepared'
          rfl
      | echo => cases is
  | echo =>
      cases asks' with
      | call is' prepared' absent' => cases is'
      | echo => rfl

theorem plainHost_default : PlainHost ClientConfig.default.host := by
  unfold PlainHost
  decide

theorem Asks.parses (asks : Asks J env w dir command url) (config : w.config = .default) :
    ∃ u, parseUrl url = .returns (some u) := by
  cases asks with
  | call is prepared absent =>
      rw [config] at prepared
      obtain ⟨port, parsed⟩ := parseUrl_prepared plainHost_default (by decide) (by decide) prepared
      exact ⟨_, parsed⟩
  | echo =>
      have bytes : ∀ c ∈ ascii "/echo", isPathByte c = true := by decide
      obtain ⟨port, parsed⟩ := parseUrl_baseUrl (ascii "echo") plainHost_default
      rw [config, cStr_url plainHost_default bytes]
      exact ⟨_, parsed⟩

theorem Asks.takes {full : Bytes} (asks : Asks J env w dir command url)
    (arrives : Arrives env.request.net w.http url full) (takes : Takes J env command full) :
    ∃ code body printed, reading env.request.net.granted full = .returns (.whole code body) ∧
      (command.execute J env w dir).result = .returns (.ok printed) ∧
      (printed.Whole ↔ env.dumps = true ∧ (command = .echo → env.puts (cStr body) = true)) := by
  obtain ⟨code, body, read, low, high, passes⟩ := takes
  have tells := httpClientGet_tells arrives
  rw [read] at tells
  obtain ⟨shown, ⟨ok, -⟩ | ⟨-, refused⟩⟩ := tells
  · have shows : (httpClientGet env.request.net w.http url).client.responseBody = some body :=
      congrArg (fun fields => fields.2.1) shown
    obtain ⟨printed, result, whole⟩ := asks.answers.passes body ok shows passes
    exact ⟨code, body, printed, read, result, whole⟩
  · exact absurd ⟨low, high⟩ refused

theorem Asks.objects {full : Bytes} {r : Reading} (asks : Asks J env w dir command url)
    (arrives : Arrives env.request.net w.http url full)
    (read : reading env.request.net.granted full = .returns r) (refuses : ¬ Takes J env command full) :
    ∃ what, (command.execute J env w dir).result = .returns (.error (.runtimeError what)) := by
  have tells := httpClientGet_tells arrives
  rw [read] at tells
  obtain ⟨shown, ⟨ok, accepted⟩ | ⟨⟨e, failed⟩, -⟩⟩ := tells
  · cases r with
    | status | refused => cases accepted
    | whole code body =>
        have shows : (httpClientGet env.request.net w.http url).client.responseBody = some body :=
          congrArg (fun fields => fields.2.1) shown
        apply asks.answers.refuses body ok shows
        intro passes
        exact refuses ⟨code, body, read, accepted.1, accepted.2, passes⟩
  · exact asks.answers.failed e failed

/-- The decoder leaves its memory, or never ends. -/
theorem Asks.lost {full : Bytes} (asks : Asks J env w dir command url)
    (arrives : Arrives env.request.net w.http url full)
    (wild : ∀ r, reading env.request.net.granted full ≠ .returns r) :
    ∀ result, (command.execute J env w dir).result ≠ .returns result := by
  have tells := httpClientGet_tells arrives
  intro result
  cases read : reading env.request.net.granted full with
  | returns r => exact absurd read (wild r)
  | undefined =>
      rw [read] at tells
      rw [asks.answers.undefined tells]
      simp
  | diverges =>
      rw [read] at tells
      rw [asks.answers.diverges tells]
      simp

theorem Asks.unreached (asks : Asks J env w dir command url) (start : w.http.fd = none)
    (lost : IsLost env url) :
    ∃ what, (command.execute J env w dir).result = .returns (.error (.runtimeError what)) := by
  obtain ⟨u, parsed, fails⟩ := lost
  obtain ⟨-, e, failed⟩ | ⟨keeps, -⟩ | ⟨full, arrives⟩ := httpClientGet_transport start parsed
  · exact asks.answers.failed e failed
  · exact absurd fails (keeps.unsettled start parsed).1
  · exact absurd fails (arrives.transported start parsed)

theorem Asks.ends (asks : Asks J env w dir command url) (config : w.config = .default)
    (start : w.http.fd = none) : Ends J env w command url (command.execute J env w dir).result := by
  obtain ⟨u, parsed⟩ := asks.parses config
  obtain ⟨fails, e, failed⟩ | ⟨-, hangs⟩ | ⟨full, arrives⟩ :=
    @httpClientGet_transport env.request.net w.http url u start parsed
  · obtain ⟨what, throws⟩ := asks.answers.failed e failed
    exact .lost ⟨u, parsed, fails⟩ throws
  · exact .hangs (asks.answers.diverges hangs)
  · by_cases takes : Takes J env command full
    · obtain ⟨code, body, printed, read, prints, whole⟩ := asks.takes arrives takes
      exact .prints arrives takes read prints whole
    · by_cases readable : ∃ r, reading env.request.net.granted full = .returns r
      · obtain ⟨r, read⟩ := readable
        obtain ⟨what, throws⟩ := asks.objects arrives read takes
        exact .objects arrives read takes throws
      · have wild : ∀ r, reading env.request.net.granted full ≠ .returns r :=
          fun r read => readable ⟨r, read⟩
        exact .wild arrives wild (asks.lost arrives wild)

/-! ## What it is not asked -/

theorem execute_refused (is : command.call = some call) (refused : ¬ Accepted env.request.encode call) :
    ∃ what, (command.execute J env w dir).result = .returns (.error (.runtimeError what)) := by
  rw [execute_call is]
  cases prepared : call.prepare w.config env.request.encode with
  | ok request => exact absurd (prepare_eq_ok_iff.mp prepared).1 refused
  | error message =>
      refine ⟨message, ?_⟩
      simp only [executeCall, Call.perform, prepared]
      rfl

theorem execute_cached {json : J.Value} (is : command.call = some call)
    (prepared : call.prepare w.config env.request.encode = .ok request)
    (cached : cachedFor J env w dir request = some json) :
    (command.execute J env w dir).result = .returns (.ok (printJson J env (.value json))) := by
  unfold cachedFor at cached
  rw [execute_call is]
  simp only [executeCall, Call.perform, prepared, makeRequest, cached]
  rfl

/-- A command clears the cache, refuses its arguments, finds an answer in the cache, or asks. -/
theorem execute_course (command : Command) : command = .clearCache ∨
    (∃ call, command.call = some call ∧ ¬ Accepted env.request.encode call) ∨
    (∃ call request json, command.call = some call ∧
      call.prepare w.config env.request.encode = .ok request ∧
      cachedFor J env w dir request = some json) ∨
    ∃ url, Asks J env w dir command url := by
  cases is : command.call with
  | none =>
      cases command with
      | clearCache => exact .inl rfl
      | echo => exact .inr (.inr (.inr ⟨_, .echo⟩))
      | current | weather | cities | homepage => cases is
  | some call =>
      cases prepared : call.prepare w.config env.request.encode with
      | error message =>
          refine .inr (.inl ⟨call, rfl, fun accepted => ?_⟩)
          cases prepared.symm.trans (prepare_eq_ok_iff.mpr ⟨accepted, rfl⟩)
      | ok request =>
          cases cached : cachedFor J env w dir request with
          | some json => exact .inr (.inr (.inl ⟨call, request, json, rfl, prepared, cached⟩))
          | none => exact .inr (.inr (.inr ⟨_, .call is prepared cached⟩))

theorem accepted_unrefused {granted : EncodeSite → Bool} (accepted : Accepted granted call) :
    Accepted (fun _ => true) call := by
  cases call with
  | getCurrentWeather lat lon => exact accepted
  | getWeatherByCity city country region => exact ⟨accepted.1, rfl⟩
  | searchCities query => exact ⟨accepted.1, rfl⟩
  | getHomepage => trivial

theorem Asks.accepted (asks : Asks J env w dir command url) (is : command.call = some call) :
    Accepted env.request.encode call := by
  cases asks with
  | call is' prepared absent =>
      cases is.symm.trans is'
      exact (prepare_eq_ok_iff.mp prepared).1
  | echo => cases is

end JustWeather.Cli
