import JustWeather.Http.Chunked
import JustWeather.Http.Headers
import JustWeather.Http.Tcp
import JustWeather.Http.Url

/-! # `http_client`

One request and its response. The three response fields are written where the
source writes them, also on paths that fail later.
-/

namespace JustWeather.Http

open CLib

structure HttpClient where
  fd : Option Nat
  statusCode : Int
  responseBody : Option Bytes
  responseSize : Nat
  timeoutMs : Int
  deriving DecidableEq

def httpClientCreate (timeoutMs : Int) : HttpClient :=
  ⟨none, 0, none, 0, if 0 < timeoutMs then timeoutMs else 5000⟩

/-- The format of `send_request`. -/
def requestText (host path : Bytes) : Bytes :=
  ascii "GET " ++ path ++ ascii " HTTP/1.1" ++ CRLF ++
  (ascii "Host: " ++ host ++ CRLF) ++
  (ascii "User-Agent: just-weather-client/1.0" ++ CRLF) ++
  (ascii "Accept: application/json" ++ CRLF) ++
  (ascii "Connection: close" ++ CRLF) ++ CRLF

/-- `send_request` up to its call of `client_tcp_send`: the text handed on, unless it does not
fit the buffer. -/
def formatRequest (host path : Bytes) : Option Bytes :=
  if 2048 ≤ (requestText host path).length then none else some (requestText host path)

theorem formatRequest_some {host path : Bytes} (hostFits : host.length ≤ 255)
    (pathFits : path.length ≤ 511) : formatRequest host path = some (requestText host path) := by
  apply if_neg
  simp [requestText, CRLF, ascii]
  omega

/-- Whatever `parse_url` returns fits the buffer. -/
theorem formatRequest_parsed {url : Bytes} {u : Url} (parsed : parseUrl url = .returns (some u)) :
    formatRequest u.hostname u.path = some (requestText u.hostname u.path) := by
  obtain ⟨path, -, short, -⟩ := parseUrl_spec parsed
  apply formatRequest_some short
  rw [path]
  exact parsePath_length_le _

/-- The receive loop: everything up to the end of the stream, or failure. A script that ends
without one is a peer that stays silent, which is a timeout. -/
def recvLoop (granted : Allocator) (fd : Option Nat) : Nat → Bytes → List RecvOutcome → Option Bytes
  | _, _, [] => none
  | nth, full, outcome :: script =>
      match clientTcpRecv fd outcome with
      | none => none
      | some [] => some full
      | some (c :: data) =>
          if granted (.response nth) then recvLoop granted fd (nth + 1) (full ++ c :: data) script
          else none

/-- The blank line that `receive_response` looks for. -/
def blankLine : Bytes := CRLF ++ CRLF

/-- `receive_response` from the complete response on. -/
def readResponse (granted : Allocator) (full : Bytes) (client : HttpClient) :
    Exec (Int × HttpClient) :=
  let h := parseHeaders full
  let client := { client with statusCode := h.statusCode }
  if h.ret ≠ 0 then .returns (-1, client)
  else
    match strstr blankLine full with
    | none => .returns (-1, client)
    | some lineEnd =>
        let body := lineEnd.drop 4
        if h.chunked then
          (decodeChunked granted body).andThen fun
            | .ok out => .returns
                (0, { client with responseBody := some out, responseSize := out.length })
            | .error _ => .returns (-1, client)
        else if granted .body then
          .returns (0, { client with responseBody := some body, responseSize := body.length })
        else .returns (-1, { client with responseBody := none })

def receiveResponse (granted : Allocator) (script : List RecvOutcome) (client : HttpClient) :
    Exec (Int × HttpClient) :=
  match recvLoop granted client.fd 0 [] script with
  | none => .returns (-1, client)
  | some [] => .returns (-1, client)
  | some (c :: full) => readResponse granted (c :: full) client

/-! ## `http_client_get` -/

/-- What the network and the allocator do during one call. -/
structure Network where
  resolved : Option (List Address)
  sends : List SendOutcome
  recvs : List RecvOutcome
  granted : Allocator

/-- The failures of `http_client_get`. -/
inductive HttpError where
  | parseUrl
  | connection
  | send
  | receive
  | status (code : Int)
  deriving DecidableEq

/-- The text left in `*error`. -/
def HttpError.message : HttpError → Bytes
  | parseUrl => ascii "Failed to parse URL"
  | connection => ascii "Connection failed"
  | send => ascii "Failed to send request"
  | receive => ascii "Failed to receive response"
  | status code => ascii "HTTP " ++ decimalInt code

/-- A call of `http_client_get`: how it ends, the client after it, the request handed to
`client_tcp_send`, the part of it the kernel accepted, and the descriptors opened and closed. -/
structure GetRun where
  result : Exec (Except HttpError Unit)
  client : HttpClient
  request : Option Bytes
  sent : Bytes
  log : List FdEvent

/-- The end of a call, with the connection closed. -/
def closeRun (result : Except HttpError Unit) (client : HttpClient) (request : Option Bytes)
    (sent : Bytes) (log : List FdEvent) : GetRun :=
  ⟨.returns result, { client with fd := none }, request, sent, log ++ clientTcpClose client.fd⟩

/-- From the response on: the status range is checked after everything is stored. -/
def finishGet (net : Network) (client : HttpClient) (request sent : Bytes) (log : List FdEvent) :
    GetRun :=
  match receiveResponse net.granted net.recvs client with
  | .returns (ret, client) =>
      if ret ≠ 0 then closeRun (.error .receive) client (some request) sent log
      else if client.statusCode < 200 ∨ 600 ≤ client.statusCode then
        closeRun (.error (.status client.statusCode)) client (some request) sent log
      else closeRun (.ok ()) client (some request) sent log
  | .undefined => ⟨.undefined, client, some request, sent, log⟩
  | .diverges => ⟨.diverges, client, some request, sent, log⟩

/-- From the connection on. -/
def sendGet (net : Network) (client : HttpClient) (url : Url) (log : List FdEvent) : GetRun :=
  match formatRequest url.hostname url.path with
  | none => closeRun (.error .send) client none [] log
  | some request =>
      match clientTcpSend client.fd net.sends request with
      | (.returns ret, sent) =>
          if ret ≠ 0 then closeRun (.error .send) client (some request) sent log
          else finishGet net client request sent log
      | (.undefined, sent) => ⟨.undefined, client, some request, sent, log⟩
      | (.diverges, sent) => ⟨.diverges, client, some request, sent, log⟩

def httpClientGet (net : Network) (client : HttpClient) (url : Bytes) : GetRun :=
  match parseUrl url with
  | .returns none => ⟨.returns (.error .parseUrl), client, none, [], []⟩
  | .returns (some u) =>
      match clientTcpConnect client.fd net.resolved with
      | (none, log) => ⟨.returns (.error .connection), client, none, [], log⟩
      | (some fd, log) => sendGet net { client with fd := some fd } u log
  | .undefined => ⟨.undefined, client, none, [], []⟩
  | .diverges => ⟨.diverges, client, none, [], []⟩

@[simp] theorem closeRun_request (result : Except HttpError Unit) (client : HttpClient)
    (request : Option Bytes) (sent : Bytes) (log : List FdEvent) :
    (closeRun result client request sent log).request = request := rfl

theorem finishGet_request (net : Network) (client : HttpClient) (request sent : Bytes)
    (log : List FdEvent) : (finishGet net client request sent log).request = some request := by
  cases received : receiveResponse net.granted net.recvs client with
  | returns r =>
      simp only [finishGet, received]
      split
      · rfl
      · split <;> rfl
  | undefined | diverges => simp only [finishGet, received]

theorem sendGet_request (net : Network) (client : HttpClient) (url : Url) (log : List FdEvent) :
    (sendGet net client url log).request = formatRequest url.hostname url.path := by
  cases formatted : formatRequest url.hostname url.path with
  | none => simp only [sendGet, formatted, closeRun_request]
  | some request =>
      simp only [sendGet, formatted]
      split
      · split
        · rfl
        · rw [finishGet_request]
      · rfl
      · rfl

/-- The only text ever handed to `client_tcp_send` is the request for the parsed URL. -/
theorem httpClientGet_request {net : Network} {client : HttpClient} {url request : Bytes}
    (h : (httpClientGet net client url).request = some request) :
    ∃ u, parseUrl url = .returns (some u) ∧ formatRequest u.hostname u.path = some request := by
  cases parsed : parseUrl url with
  | undefined | diverges => simp [httpClientGet, parsed] at h
  | returns r =>
      cases r with
      | none => simp [httpClientGet, parsed] at h
      | some u =>
          refine ⟨u, rfl, ?_⟩
          simp only [httpClientGet, parsed] at h
          split at h
          · cases h
          · rw [← h, sendGet_request]

/-- A call that hands nothing on fails. -/
theorem httpClientGet_unsent {net : Network} {client : HttpClient} {url : Bytes} {r : Option Url}
    (parsed : parseUrl url = .returns r) (h : (httpClientGet net client url).request = none) :
    ∃ e, (httpClientGet net client url).result = .returns (.error e) := by
  cases r with
  | none => exact ⟨.parseUrl, by simp only [httpClientGet, parsed]⟩
  | some u =>
      simp only [httpClientGet, parsed] at h ⊢
      split
      · exact ⟨.connection, rfl⟩
      · next connected =>
          simp only [connected] at h
          rw [sendGet_request] at h
          exact ⟨.send, by simp only [sendGet, h]; rfl⟩

end JustWeather.Http
