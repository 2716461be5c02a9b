import JustWeather.Http.Client
import JustWeather.Machine.Runs

/-! # What the client shows

The three response fields are written one after another, and some of the tests come after the
writing. A call that fails behind a written field leaves it, next to what an earlier call left in
the others.
-/

namespace JustWeather.Http

open CLib Machine

/-- The response fields: `status_code`, `response_body` and `response_size`. -/
def HttpClient.shows (client : HttpClient) : Int × Option Bytes × Nat :=
  (client.statusCode, client.responseBody, client.responseSize)

/-- What there is to read in a whole response. -/
inductive Reading where
  /-- Nothing but a status: the headers, the blank line or the chunks are not in order. -/
  | status (code : Int)
  /-- A body for which there is no memory. -/
  | refused (code : Int)
  | whole (code : Int) (body : Bytes)
  deriving DecidableEq

def reading (granted : Allocator) (full : Bytes) : Exec Reading :=
  let h := parseHeaders full
  if h.ret ≠ 0 then .returns (.status h.statusCode)
  else
    match strstr blankLine full with
    | none => .returns (.status h.statusCode)
    | some lineEnd =>
        if h.chunked then
          (decodeChunked granted (lineEnd.drop 4)).andThen fun
            | .ok out => .returns (.whole h.statusCode out)
            | .error _ => .returns (.status h.statusCode)
        else if granted .body then .returns (.whole h.statusCode (lineEnd.drop 4))
        else .returns (.refused h.statusCode)

namespace Reading

/-- The result of `receive_response`. -/
def ret : Reading → Int
  | whole _ _ => 0
  | _ => -1

/-- What `receive_response` leaves in the client. -/
def store : Reading → HttpClient → HttpClient
  | status code, client => { client with statusCode := code }
  | refused code, client => { client with statusCode := code, responseBody := none }
  | whole code body, client =>
      { client with statusCode := code, responseBody := some body, responseSize := body.length }

/-- The body is there, and the status in range. -/
def Accepted : Reading → Prop
  | whole code _ => 200 ≤ code ∧ code < 600
  | _ => False

/-- The reading is accepted, or what it stores was there before. The latter is a coincidence, and here
only to make the condition exact. -/
def Harmless (client : HttpClient) : Reading → Prop
  | status code => code = client.statusCode
  | refused code => code = client.statusCode ∧ client.responseBody = none
  | whole code body => 200 ≤ code ∧ code < 600 ∨ client.shows = (code, some body, body.length)

theorem harmless_iff {client : HttpClient} (r : Reading) :
    r.Harmless client ↔ (¬ r.Accepted → (r.store client).shows = client.shows) := by
  cases r with
  | status code => simp [Harmless, Accepted, store, HttpClient.shows]
  | refused code => simp [Harmless, Accepted, store, HttpClient.shows, eq_comm]
  | whole code body =>
      rw [← or_iff_not_imp_left]
      exact or_congr Iff.rfl eq_comm

end Reading

theorem readResponse_eq (granted : Allocator) (full : Bytes) (client : HttpClient) :
    readResponse granted full client =
      (reading granted full).andThen fun r => .returns (r.ret, r.store client) := by
  unfold readResponse reading
  by_cases failed : (parseHeaders full).ret ≠ 0
  · simp only [if_pos failed]
    rfl
  · simp only [if_neg failed]
    cases strstr blankLine full with
    | none => rfl
    | some lineEnd =>
        cases (parseHeaders full).chunked with
        | true =>
            simp only [if_true]
            cases decodeChunked granted (lineEnd.drop 4) with
            | returns result => cases result <;> rfl
            | undefined | diverges => rfl
        | false => cases granted .body <;> rfl

/-- A whole response arrives: the URL parses, the connection stands, the request is sent, and the
peer closes behind at least one byte. -/
def Arrives (net : Network) (client : HttpClient) (url full : Bytes) : Prop :=
  ∃ u fd request, parseUrl url = .returns (some u) ∧
    (clientTcpConnect client.fd net.resolved).1 = some fd ∧
    formatRequest u.hostname u.path = some request ∧
    (clientTcpSend (some fd) net.sends request).1 = .returns 0 ∧
    recvLoop net.granted (some fd) 0 [] net.recvs = some full ∧ full ≠ []

/-- After the call the client shows the response of the call, if it returned 0, and what it showed
before, if it returned -1. -/
def ShowsOneResponse (net : Network) (client : HttpClient) (url : Bytes) : Prop :=
  ((httpClientGet net client url).result = .returns (.ok ()) →
    ∃ full code body, Arrives net client url full ∧
      reading net.granted full = .returns (.whole code body) ∧
      (httpClientGet net client url).client.shows = (code, some body, body.length)) ∧
  ∀ e, (httpClientGet net client url).result = .returns (.error e) →
    (httpClientGet net client url).client.shows = client.shows

variable {net : Network} {client : HttpClient} {url full : Bytes}

@[simp] theorem Reading.store_fd (r : Reading) (fd : Option Nat) :
    (r.store { client with fd }).shows = (r.store client).shows := by
  cases r <;> rfl

/-- The run ends as the reading says. -/
def GetRun.Tells (run : GetRun) (client : HttpClient) : Exec Reading → Prop
  | .returns r => run.client.shows = (r.store client).shows ∧
      (run.result = .returns (.ok ()) ∧ r.Accepted ∨
        (∃ e, run.result = .returns (.error e)) ∧ ¬ r.Accepted)
  | .undefined => run.result = .undefined
  | .diverges => run.result = .diverges

/-- From the response on. -/
theorem finishGet_tells {request sent : Bytes} {log : List FdEvent}
    (received : recvLoop net.granted client.fd 0 [] net.recvs = some full) (some_ : full ≠ []) :
    (finishGet net client request sent log).Tells client (reading net.granted full) := by
  obtain ⟨c, rest, rfl⟩ := List.exists_cons_of_ne_nil some_
  have receives : receiveResponse net.granted net.recvs client =
      (reading net.granted (c :: rest)).andThen fun r => .returns (r.ret, r.store client) := by
    rw [receiveResponse, received, ← readResponse_eq]
  cases read : reading net.granted (c :: rest) with
  | undefined =>
      rw [read] at receives
      simp only [GetRun.Tells, finishGet, receives, Exec.andThen_undefined]
  | diverges =>
      rw [read] at receives
      simp only [GetRun.Tells, finishGet, receives, Exec.andThen_diverges]
  | returns r =>
      rw [read] at receives
      simp only [finishGet, receives, Exec.andThen_returns]
      cases r with
      | status | refused => exact ⟨rfl, .inr ⟨⟨.receive, rfl⟩, id⟩⟩
      | whole code body =>
          have stored : (Reading.store (.whole code body) client).statusCode = code := rfl
          have success : ¬ Reading.ret (.whole code body) ≠ 0 := fun fail => fail rfl
          rw [if_neg success, stored]
          split
          · next outside => exact ⟨rfl, .inr ⟨⟨_, rfl⟩, fun inside => by cases inside; omega⟩⟩
          · next inside => exact ⟨rfl, .inl ⟨rfl, by omega, by omega⟩⟩

/-- A call to which a response arrives. -/
theorem httpClientGet_tells (arrives : Arrives net client url full) :
    (httpClientGet net client url).Tells client (reading net.granted full) := by
  obtain ⟨u, fd, request, parsed, connected, formatted, sends, received, some_⟩ := arrives
  obtain ⟨log, connects⟩ : ∃ log, clientTcpConnect client.fd net.resolved = (some fd, log) :=
    ⟨_, Prod.ext connected rfl⟩
  obtain ⟨sent, sending⟩ : ∃ sent, clientTcpSend (some fd) net.sends request = (.returns 0, sent) :=
    ⟨_, Prod.ext sends rfl⟩
  have finishes : httpClientGet net client url =
      finishGet net { client with fd := some fd } request sent log := by
    simp only [httpClientGet, parsed, connects, sendGet, formatted, sending, ne_eq, not_true, if_false]
  have tells := @finishGet_tells net { client with fd := some fd } full request sent log received some_
  rw [finishes]
  cases read : reading net.granted full with
  | returns r =>
      rw [read] at tells
      simpa only [GetRun.Tells, Reading.store_fd] using tells
  | undefined | diverges =>
      rw [read] at tells
      exact tells

/-- The call did not return 0, and the fields are as before. -/
def GetRun.Fruitless (run : GetRun) (client : HttpClient) : Prop :=
  run.result ≠ .returns (.ok ()) ∧ run.client.shows = client.shows

theorem closeRun_fruitless {e : HttpError} {request : Option Bytes} {sent : Bytes}
    {log : List FdEvent} : (closeRun (.error e) client request sent log).Fruitless client :=
  ⟨by simp [closeRun], rfl⟩

theorem receiveResponse_nothing
    (nothing : ∀ full, recvLoop net.granted client.fd 0 [] net.recvs = some full → full = []) :
    receiveResponse net.granted net.recvs client = .returns (-1, client) := by
  unfold receiveResponse
  cases received : recvLoop net.granted client.fd 0 [] net.recvs with
  | none => rfl
  | some full =>
      rw [nothing full received]

/-- Nothing is received. -/
theorem finishGet_nothing {request sent : Bytes} {log : List FdEvent}
    (nothing : ∀ full, recvLoop net.granted client.fd 0 [] net.recvs = some full → full = []) :
    finishGet net client request sent log =
      closeRun (.error .receive) client (some request) sent log := by
  rw [finishGet, receiveResponse_nothing nothing]
  rfl

/-- The request is not formatted, not sent, or not answered. -/
theorem sendGet_fruitless {u : Url} {log : List FdEvent}
    (nothing : ∀ request full, formatRequest u.hostname u.path = some request →
      (clientTcpSend client.fd net.sends request).1 = .returns 0 →
      recvLoop net.granted client.fd 0 [] net.recvs = some full → full = []) :
    (sendGet net client u log).Fruitless client := by
  unfold sendGet
  cases formatted : formatRequest u.hostname u.path with
  | none => exact closeRun_fruitless
  | some request =>
      simp only
      cases sending : clientTcpSend client.fd net.sends request with
      | mk ret sent =>
          cases ret with
          | undefined | diverges => exact ⟨by simp, rfl⟩
          | returns code =>
              simp only
              split
              · exact closeRun_fruitless
              · next zero =>
                  have sends : (clientTcpSend client.fd net.sends request).1 = .returns 0 := by
                    rw [sending, Decidable.not_not.mp zero]
                  rw [finishGet_nothing fun full => nothing request full formatted sends]
                  exact closeRun_fruitless

/-- A call to which none arrives fails, or does not return, and leaves the fields alone. -/
theorem httpClientGet_fruitless (nothing : ∀ full, ¬ Arrives net client url full) :
    (httpClientGet net client url).Fruitless client := by
  unfold httpClientGet
  cases parsed : parseUrl url with
  | undefined | diverges => exact ⟨by simp, rfl⟩
  | returns found =>
      cases found with
      | none => exact ⟨by simp, rfl⟩
      | some u =>
          simp only
          cases connects : clientTcpConnect client.fd net.resolved with
          | mk opened log =>
              cases opened with
              | none => exact ⟨by simp, rfl⟩
              | some fd =>
                  have connected : (clientTcpConnect client.fd net.resolved).1 = some fd := by
                    rw [connects]
                  apply sendGet_fruitless
                  intro request full formatted sends received
                  by_contra some_
                  exact nothing full ⟨u, fd, request, parsed, connected, formatted, sends, received, some_⟩

/-- A call that returns is fruitless, or ends as the reading of the response that arrives. -/
theorem httpClientGet_returns {result : Except HttpError Unit}
    (returned : (httpClientGet net client url).result = .returns result) :
    (httpClientGet net client url).Fruitless client ∨
      ∃ full r, Arrives net client url full ∧ reading net.granted full = .returns r ∧
        (httpClientGet net client url).Tells client (.returns r) := by
  by_cases arrival : ∃ full, Arrives net client url full
  · obtain ⟨full, arrives⟩ := arrival
    have tells := httpClientGet_tells arrives
    cases read : reading net.granted full with
    | undefined | diverges =>
        rw [read] at tells
        cases returned.symm.trans tells
    | returns r =>
        rw [read] at tells
        exact .inr ⟨full, r, arrives, read, tells⟩
  · exact .inl (httpClientGet_fruitless fun full arrives => arrival ⟨full, arrives⟩)

/-- A call that returns 0 has taken its body and status from a response in range. -/
theorem httpClientGet_ok (ok : (httpClientGet net client url).result = .returns (.ok ())) :
    ∃ full code body, Arrives net client url full ∧
      reading net.granted full = .returns (.whole code body) ∧ 200 ≤ code ∧ code < 600 ∧
      (httpClientGet net client url).client.shows = (code, some body, body.length) := by
  obtain fruitless | ⟨full, r, arrives, read, shown, ends⟩ := httpClientGet_returns ok
  · exact absurd ok fruitless.1
  · obtain ⟨-, accepted⟩ | ⟨⟨e, error⟩, -⟩ := ends
    · cases r with
      | status | refused => exact absurd accepted id
      | whole code body => exact ⟨full, code, body, arrives, read, accepted.1, accepted.2, shown⟩
    · cases ok.symm.trans error

/-- A call shows one response exactly when the response that arrives, if any, is harmless. -/
theorem showsOneResponse_iff : ShowsOneResponse net client url ↔
    ∀ full r, Arrives net client url full → reading net.granted full = .returns r →
      r.Harmless client := by
  constructor
  · rintro ⟨-, same⟩ full r arrives read
    have tells := httpClientGet_tells arrives
    rw [read] at tells
    obtain ⟨shown, ⟨-, accepted⟩ | ⟨⟨e, error⟩, -⟩⟩ := tells
    · exact (Reading.harmless_iff r).mpr fun refused => absurd accepted refused
    · rw [Reading.harmless_iff, ← shown]
      exact fun _ => same e error
  · intro harmless
    constructor
    · intro ok
      obtain ⟨full, code, body, arrives, read, -, -, shown⟩ := httpClientGet_ok ok
      exact ⟨full, code, body, arrives, read, shown⟩
    · intro e error
      obtain fruitless | ⟨full, r, arrives, read, shown, ends⟩ := httpClientGet_returns error
      · exact fruitless.2
      · obtain ⟨ok, -⟩ | ⟨-, refused⟩ := ends
        · cases error.symm.trans ok
        · rw [shown]
          exact (Reading.harmless_iff r).mp (harmless full r arrives read) refused

/-! ## Runs -/

/-- A call of `http_client_get`. -/
structure GetCall where
  net : Network
  url : Bytes

/-- The client after a call. -/
def performGet (client : HttpClient) (call : GetCall) : HttpClient :=
  (httpClientGet call.net client call.url).client

/-- The client shows one response after each of its calls exactly when every response that arrives
is accepted or stores nothing new. -/
theorem client_shows_one_response_iff (client : HttpClient) (calls : List GetCall) :
    (∀ before call after, calls = before ++ call :: after →
      ShowsOneResponse call.net (run performGet client before) call.url) ↔
    ∀ before call after, calls = before ++ call :: after → ∀ full r,
      Arrives call.net (run performGet client before) call.url full →
      reading call.net.granted full = .returns r → r.Harmless (run performGet client before) := by
  constructor
  · intro all before call after split
    exact showsOneResponse_iff.mp (all before call after split)
  · intro all before call after split
    exact showsOneResponse_iff.mpr (all before call after split)

/-- A network over which this text arrives. -/
def delivering (full : Bytes) : Network :=
  ⟨some [⟨some 3, .connected⟩], [.accepted 2048], [.received full, .received []], fun _ => true⟩

/-- Behind a response `hi` a text that is none: the call fails, and the client shows the status 0
with the body of the first call. -/
theorem client_shows_two_responses :
    ¬ ∀ before call after, [⟨delivering (ascii "HTTP/1.1 200 OK\r\n\r\nhi"), ascii "http://h/"⟩,
        ⟨delivering (ascii "oops"), ascii "http://h/"⟩] = before ++ (call : GetCall) :: after →
      ShowsOneResponse call.net (run performGet (httpClientCreate 5000) before) call.url := by
  intro all
  have first : run performGet (httpClientCreate 5000)
      [⟨delivering (ascii "HTTP/1.1 200 OK\r\n\r\nhi"), ascii "http://h/"⟩] =
      ⟨none, 200, some (ascii "hi"), 2, 5000⟩ := by decide +kernel
  have second := (all [_] _ [] rfl).2 .receive
  rw [first] at second
  exact absurd (second (by decide +kernel)) (by decide +kernel)

end JustWeather.Http
