import JustWeather.Http.Client

/-! # The lines of a request

What is sent is one request when neither the host nor the path can end a line
or a field.
-/

namespace JustWeather.Http

open CLib

/-- The header lines, which depend on the host alone. -/
def headerLines (host : Bytes) : List Bytes :=
  [ascii "Host: " ++ host, ascii "User-Agent: just-weather-client/1.0",
    ascii "Accept: application/json", ascii "Connection: close"]

/-- Exactly one request: five lines without CR and LF inside, each with its line end, and the blank
line; the first line has three fields with one space between them. -/
def OneRequest (host request : Bytes) : Prop :=
  ∃ first target, request = (first :: headerLines host).flatMap (· ++ CRLF) ++ CRLF ∧
    (∀ line ∈ first :: headerLines host, CR ∉ line ∧ LF ∉ line) ∧
    first.splitOn 32 = [ascii "GET", SLASH :: target, ascii "HTTP/1.1"]

/-- The target of a request: the second field of its first line. -/
def requestTarget (request : Bytes) : Option Bytes :=
  ((request.takeWhile (· ≠ CR)).splitOn 32)[1]?

/-- A byte that ends neither a field nor a line. -/
def isFieldByte (c : UInt8) : Bool := c ≠ 32 && c ≠ CR && c ≠ LF

theorem not_mem_of_fieldBytes {s : Bytes} (field : ∀ c ∈ s, isFieldByte c = true) {z : UInt8}
    (ends : isFieldByte z = false) : z ∉ s := by
  intro mem
  rw [field z mem] at ends
  cases ends

/-- The first line of a request. -/
def requestLine (path : Bytes) : Bytes := ascii "GET " ++ path ++ ascii " HTTP/1.1"

theorem requestText_eq (host path : Bytes) :
    requestText host path = (requestLine path :: headerLines host).flatMap (· ++ CRLF) ++ CRLF := by
  simp [requestText, requestLine, headerLines]

theorem splitOn_requestLine {path : Bytes} (plain : 32 ∉ path) :
    (requestLine path).splitOn 32 = [ascii "GET", path, ascii "HTTP/1.1"] := by
  have line : requestLine path = [32].intercalate [ascii "GET", path, ascii "HTTP/1.1"] := by
    simp [requestLine, List.intercalate, ascii]
  rw [line]
  refine List.splitOn_intercalate 32 ?_ (by simp)
  intro field mem
  simp only [List.mem_cons, List.not_mem_nil, or_false] at mem
  rcases mem with rfl | rfl | rfl
  · decide
  · exact plain
  · decide

theorem requestLine_plain {path : Bytes} (field : ∀ c ∈ path, isFieldByte c = true) :
    CR ∉ requestLine path ∧ LF ∉ requestLine path := by
  have fixed : ∀ z, isFieldByte z = false → z ∉ ascii "GET " → z ∉ ascii " HTTP/1.1" →
      z ∉ requestLine path := by
    intro z ends before behind mem
    rcases List.mem_append.mp mem with mem | mem
    · rcases List.mem_append.mp mem with mem | mem
      · exact before mem
      · exact not_mem_of_fieldBytes field ends mem
    · exact behind mem
  exact ⟨fixed CR (by decide) (by decide) (by decide), fixed LF (by decide) (by decide) (by decide)⟩

theorem requestText_one {host path : Bytes} (hostField : ∀ c ∈ host, isFieldByte c = true)
    (pathField : ∀ c ∈ SLASH :: path, isFieldByte c = true) :
    OneRequest host (requestText host (SLASH :: path)) := by
  refine ⟨requestLine (SLASH :: path), path, requestText_eq host _, ?_,
    splitOn_requestLine (not_mem_of_fieldBytes pathField (by decide))⟩
  intro line mem
  simp only [headerLines, List.mem_cons, List.not_mem_nil, or_false] at mem
  rcases mem with rfl | rfl | rfl | rfl | rfl
  · exact requestLine_plain pathField
  · have hostPlain : ∀ z, isFieldByte z = false → z ∉ ascii "Host: " → z ∉ ascii "Host: " ++ host :=
      fun z ends before mem => (List.mem_append.mp mem).elim before
        (not_mem_of_fieldBytes hostField ends)
    exact ⟨hostPlain CR (by decide) (by decide), hostPlain LF (by decide) (by decide)⟩
  · exact ⟨by decide, by decide⟩
  · exact ⟨by decide, by decide⟩
  · exact ⟨by decide, by decide⟩

theorem requestTarget_requestText {host path : Bytes} (field : ∀ c ∈ path, isFieldByte c = true) :
    requestTarget (requestText host path) = some path := by
  have line : (requestText host path).takeWhile (· ≠ CR) = requestLine path := by
    rw [requestText_eq, List.flatMap_cons, List.append_assoc, List.append_assoc, CRLF,
      List.cons_append, List.takeWhile_append_of_pos]
    · simp
    · intro c mem
      have := (requestLine_plain field).1
      simp only [ne_eq, decide_eq_true_eq]
      rintro rfl
      exact this mem
  rw [requestTarget, line, splitOn_requestLine (not_mem_of_fieldBytes field (by decide))]
  rfl

/-! ## What the kernel accepts -/

theorem sendLoop_prefix (script : List SendOutcome) (data : Bytes) :
    (sendLoop script data).2 <+: data := by
  induction script generalizing data with
  | nil =>
      cases data with
      | nil => exact List.prefix_refl []
      | cons c data => exact List.nil_prefix
  | cons outcome script ih =>
      cases data with
      | nil => exact List.prefix_refl []
      | cons c data =>
          cases outcome with
          | interrupted => exact ih (c :: data)
          | failed => exact List.nil_prefix
          | accepted count =>
              obtain ⟨rest, eq⟩ := ih ((c :: data).drop count)
              refine ⟨rest, ?_⟩
              simp only [sendLoop]
              rw [List.append_assoc, eq, List.take_append_drop]

/-- The loop comes to its end exactly when everything is accepted. -/
theorem sendLoop_zero {script : List SendOutcome} {data : Bytes} :
    (sendLoop script data).1 = .returns 0 ↔ (sendLoop script data).2 = data := by
  induction script generalizing data with
  | nil => cases data <;> simp [sendLoop]
  | cons outcome script ih =>
      cases data with
      | nil => simp [sendLoop]
      | cons c data =>
          cases outcome with
          | interrupted => exact ih
          | failed => simp [sendLoop]
          | accepted count =>
              have behind := @List.append_right_inj _ (sendLoop script ((c :: data).drop count)).2
                ((c :: data).drop count) ((c :: data).take count)
              rw [List.take_append_drop] at behind
              exact ih.trans behind.symm

/-- The kernel has taken the start of `request`, all of it exactly when `client_tcp_send` returns 0. -/
def Takes (script : List SendOutcome) (request sent : Bytes) : Prop :=
  sent <+: request ∧ ∀ fd, (clientTcpSend (some fd) script request).1 = .returns 0 ↔ sent = request

theorem clientTcpSend_takes (fd : Nat) (script : List SendOutcome) (data : Bytes) :
    Takes script data (clientTcpSend (some fd) script data).2 := by
  refine ⟨?_, fun _ => sendLoop_zero⟩
  exact sendLoop_prefix script data

@[simp] theorem closeRun_sent (result : Except HttpError Unit) (client : HttpClient)
    (request : Option Bytes) (sent : Bytes) (log : List FdEvent) :
    (closeRun result client request sent log).sent = sent := rfl

theorem finishGet_sent (net : Network) (client : HttpClient) (request sent : Bytes)
    (log : List FdEvent) : (finishGet net client request sent log).sent = sent := by
  cases received : receiveResponse net.granted net.recvs client with
  | returns r =>
      simp only [finishGet, received]
      split
      · rfl
      · split <;> rfl
  | undefined | diverges => simp only [finishGet, received]

/-- The kernel gets the request from its first byte on, and nothing else. -/
theorem httpClientGet_sent {net : Network} {client : HttpClient} {url request : Bytes}
    (h : (httpClientGet net client url).request = some request) :
    Takes net.sends request (httpClientGet net client url).sent := by
  obtain ⟨u, parsed, formatted⟩ := httpClientGet_request h
  simp only [httpClientGet, parsed] at h ⊢
  split
  · next unconnected =>
      simp only [unconnected] at h
      cases h
  · next fd log _ =>
      have taken := clientTcpSend_takes fd net.sends request
      simp only [sendGet, formatted]
      generalize clientTcpSend (some fd) net.sends request = r at taken
      obtain ⟨ret, sent⟩ := r
      cases ret with
      | returns ret =>
          simp only
          split
          · exact taken
          · rw [finishGet_sent]
            exact taken
      | undefined | diverges => exact taken

/-- A call that hands nothing on sends nothing. -/
theorem httpClientGet_silent {net : Network} {client : HttpClient} {url : Bytes}
    (h : (httpClientGet net client url).request = none) : (httpClientGet net client url).sent = [] := by
  unfold httpClientGet at h ⊢
  split at h
  · rfl
  · split at h
    · rfl
    · rw [sendGet_request] at h
      simp only [sendGet, h, closeRun_sent]
  · rfl
  · rfl

end JustWeather.Http
