import JustWeather.Http.Sending
import JustWeather.Http.Sockets

/-! # What becomes of a request

A request that goes out from a client without a connection fails on the way, is
never sent to its end, or gets a whole response.
-/

namespace JustWeather.Http

open CLib

/-- Resolving, connecting, sending or receiving fails. -/
inductive TransportFails (net : Network) (request : Bytes) : Prop where
  | resolving : net.resolved = none → TransportFails net request
  | connecting {addresses : List Address} : net.resolved = some addresses →
      (∀ a ∈ addresses, a.connected = none) → TransportFails net request
  | sending {addresses : List Address} {fd : Nat} : net.resolved = some addresses →
      addresses.findSome? Address.connected = some fd → FailsFirst net.sends request.length →
      TransportFails net request
  /-- `recv` fails or is waited for in vain, nothing is received, or there is no memory for it. -/
  | receiving {addresses : List Address} {fd : Nat} : net.resolved = some addresses →
      addresses.findSome? Address.connected = some fd → (sendLoop net.sends request).1 = .returns 0 →
      (∀ full, recvLoop net.granted (some fd) 0 [] net.recvs = some full → full = []) →
      TransportFails net request

/-- The request is not sent to its end, though nothing has failed. -/
def KeepsSending (net : Network) (request : Bytes) : Prop :=
  ∃ fd, (clientTcpConnect none net.resolved).1 = some fd ∧ (sendLoop net.sends request).1 = .diverges

variable {net : Network} {client : HttpClient} {url : Bytes} {u : Url}

/-- The loop ends with everything sent, with an error, or not at all. -/
theorem sendLoop_ends (script : List SendOutcome) (data : Bytes) :
    (sendLoop script data).1 = .returns 0 ∨ (sendLoop script data).1 = .returns (-1) ∨
      (sendLoop script data).1 = .diverges := by
  induction script generalizing data with
  | nil => cases data <;> simp [sendLoop]
  | cons outcome script ih =>
      cases data with
      | nil => simp [sendLoop]
      | cons c data =>
          cases outcome with
          | interrupted => exact ih (c :: data)
          | failed => simp [sendLoop]
          | accepted count => exact ih ((c :: data).drop count)

/-- Connecting fails when nothing is resolved or no address is connected. -/
theorem clientTcpConnect_none {resolved : Option (List Address)} :
    (clientTcpConnect none resolved).1 = none ↔
      resolved = none ∨ ∃ addresses, resolved = some addresses ∧ ∀ a ∈ addresses, a.connected = none := by
  cases resolved with
  | none => simp [clientTcpConnect]
  | some addresses =>
      rw [clientTcpConnect, connectLoop_fst, List.findSome?_eq_none_iff]
      simp

theorem clientTcpConnect_some {resolved : Option (List Address)} {fd : Nat} :
    (clientTcpConnect none resolved).1 = some fd ↔
      ∃ addresses, resolved = some addresses ∧ addresses.findSome? Address.connected = some fd := by
  cases resolved with
  | none => simp [clientTcpConnect]
  | some addresses =>
      rw [clientTcpConnect, connectLoop_fst]
      simp

/-- The same in terms of the calls. -/
theorem transportFails_iff {request : Bytes} : TransportFails net request ↔
    (clientTcpConnect none net.resolved).1 = none ∨
      ∃ fd, (clientTcpConnect none net.resolved).1 = some fd ∧
        ((sendLoop net.sends request).1 = .returns (-1) ∨
          (sendLoop net.sends request).1 = .returns 0 ∧
            ∀ full, recvLoop net.granted (some fd) 0 [] net.recvs = some full → full = []) := by
  rw [clientTcpConnect_none]
  simp only [clientTcpConnect_some, sendLoop_failed]
  constructor
  · intro fails
    cases fails with
    | resolving unresolved => exact .inl (.inl unresolved)
    | connecting resolved refused => exact .inl (.inr ⟨_, resolved, refused⟩)
    | sending resolved connected failed => exact .inr ⟨_, ⟨_, resolved, connected⟩, .inl failed⟩
    | receiving resolved connected sent nothing =>
        exact .inr ⟨_, ⟨_, resolved, connected⟩, .inr ⟨sent, nothing⟩⟩
  · rintro ((unresolved | ⟨addresses, resolved, refused⟩) | ⟨fd, ⟨addresses, resolved, connected⟩, fails⟩)
    · exact .resolving unresolved
    · exact .connecting resolved refused
    · rcases fails with failed | ⟨sent, nothing⟩
      · exact .sending resolved connected failed
      · exact .receiving resolved connected sent nothing

theorem arrives_iff {full : Bytes} (start : client.fd = none) (parsed : parseUrl url = .returns (some u)) :
    Arrives net client url full ↔ ∃ fd, (clientTcpConnect none net.resolved).1 = some fd ∧
      (sendLoop net.sends (requestText u.hostname u.path)).1 = .returns 0 ∧
      recvLoop net.granted (some fd) 0 [] net.recvs = some full ∧ full ≠ [] := by
  have formatted := formatRequest_parsed parsed
  unfold Arrives
  rw [parsed, start]
  constructor
  · rintro ⟨u', fd, request, same, connected, formatted', sent, received⟩
    cases same
    cases formatted.symm.trans formatted'
    exact ⟨fd, connected, sent, received⟩
  · rintro ⟨fd, connected, sent, received⟩
    exact ⟨u, fd, _, rfl, connected, formatted, sent, received⟩

theorem Arrives.unique {full full' : Bytes} (arrives : Arrives net client url full)
    (arrives' : Arrives net client url full') : full = full' := by
  obtain ⟨u, fd, request, parsed, connected, -, -, received, -⟩ := arrives
  obtain ⟨u', fd', request', parsed', connected', -, -, received', -⟩ := arrives'
  cases connected.symm.trans connected'
  exact Option.some.inj (received.symm.trans received')

/-- A response that arrives has come all the way. -/
theorem Arrives.transported {full : Bytes} (arrives : Arrives net client url full)
    (start : client.fd = none) (parsed : parseUrl url = .returns (some u)) :
    ¬ TransportFails net (requestText u.hostname u.path) := by
  obtain ⟨fd, connected, sent, received, some_⟩ := (arrives_iff start parsed).mp arrives
  rw [transportFails_iff, connected]
  rintro (unconnected | ⟨fd', same, failed | ⟨-, nothing⟩⟩)
  · cases unconnected
  · cases sent.symm.trans failed
  · cases same
    exact some_ (nothing full received)

theorem KeepsSending.unsettled (keeps : KeepsSending net (requestText u.hostname u.path))
    (start : client.fd = none) (parsed : parseUrl url = .returns (some u)) :
    ¬ TransportFails net (requestText u.hostname u.path) ∧ ∀ full, ¬ Arrives net client url full := by
  obtain ⟨fd, connected, waiting⟩ := keeps
  constructor
  · rw [transportFails_iff, connected, waiting]
    simp
  · intro full arrives
    obtain ⟨-, -, sent, -⟩ := (arrives_iff start parsed).mp arrives
    cases waiting.symm.trans sent

/-- From the connection on. -/
theorem sendGet_transport {fd : Nat} {request : Bytes} {log : List FdEvent}
    (formatted : formatRequest u.hostname u.path = some request) :
    ((∃ e, (sendGet net { client with fd := some fd } u log).result = .returns (.error e)) ∧
        ((sendLoop net.sends request).1 = .returns (-1) ∨
          (sendLoop net.sends request).1 = .returns 0 ∧
            ∀ full, recvLoop net.granted (some fd) 0 [] net.recvs = some full → full = [])) ∨
      ((sendGet net { client with fd := some fd } u log).result = .diverges ∧
        (sendLoop net.sends request).1 = .diverges) ∨
      ∃ full, (sendLoop net.sends request).1 = .returns 0 ∧
        recvLoop net.granted (some fd) 0 [] net.recvs = some full ∧ full ≠ [] := by
  have ends := sendLoop_ends net.sends request
  cases sends : sendLoop net.sends request with
  | mk ret sent =>
      rw [sends] at ends
      have sends' : clientTcpSend (some fd) net.sends request = (ret, sent) := sends
      simp only [sendGet, formatted, sends']
      rcases ends with rfl | rfl | rfl
      · by_cases arrival : ∃ full, recvLoop net.granted (some fd) 0 [] net.recvs = some full ∧ full ≠ []
        · obtain ⟨full, received, some_⟩ := arrival
          exact .inr (.inr ⟨full, rfl, received, some_⟩)
        · have nothing : ∀ full,
              recvLoop net.granted (some fd) 0 [] net.recvs = some full → full = [] := by
            intro full received
            by_contra some_
            exact arrival ⟨full, received, some_⟩
          refine .inl ⟨⟨.receive, ?_⟩, .inr ⟨rfl, nothing⟩⟩
          simp only [ne_eq, not_true, if_false]
          rw [finishGet_nothing nothing]
          rfl
      · exact .inl ⟨⟨.send, rfl⟩, .inl rfl⟩
      · exact .inr (.inl ⟨rfl, rfl⟩)

/-- A request fails on the way, is kept sending, or is answered. -/
theorem httpClientGet_transport (start : client.fd = none) (parsed : parseUrl url = .returns (some u)) :
    (TransportFails net (requestText u.hostname u.path) ∧
        ∃ e, (httpClientGet net client url).result = .returns (.error e)) ∨
      (KeepsSending net (requestText u.hostname u.path) ∧
        (httpClientGet net client url).result = .diverges) ∨
      ∃ full, Arrives net client url full := by
  rw [transportFails_iff]
  simp only [arrives_iff start parsed, KeepsSending]
  cases connects : clientTcpConnect none net.resolved with
  | mk opened log =>
      simp only [httpClientGet, parsed, start, connects]
      cases opened with
      | none => exact .inl ⟨.inl rfl, .connection, rfl⟩
      | some fd =>
          obtain ⟨failed, fails⟩ | ⟨hangs, waiting⟩ | ⟨full, sent, received⟩ :=
            @sendGet_transport net client u fd _ log (formatRequest_parsed parsed)
          · exact .inl ⟨.inr ⟨fd, rfl, fails⟩, failed⟩
          · exact .inr (.inl ⟨⟨fd, rfl, waiting⟩, hangs⟩)
          · exact .inr (.inr ⟨full, fd, rfl, sent, received⟩)

end JustWeather.Http
