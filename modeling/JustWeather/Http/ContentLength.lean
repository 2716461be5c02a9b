import JustWeather.Http.HeaderCase

/-! # Declared lengths

`parse_headers` reads the value of `Content-Length`, and nothing asks for it
afterwards: a response is complete when the stream ends. Its body is the declared
one if exactly that many bytes came, or, when the text is taken for chunked, if
the chunks happen to be that many of its own first bytes.
-/

namespace JustWeather.Http

open CLib

/-- The field is `Content-Length`. -/
def Header.IsLength (h : Header) : Prop := CaseEq h.name (ascii "Content-Length")

/-- A length field of value `n`, with blanks around the digits. -/
def Header.Declares (h : Header) (n : Nat) : Prop :=
  h.IsLength ∧ ∃ pad digits pad', h.value = pad ++ (digits ++ pad') ∧
    (∀ c ∈ pad ++ pad', c = 32 ∨ c = 9) ∧ digits ≠ [] ∧ (∀ c ∈ digits, isDigit c = true) ∧
    CLib.value 10 digits = n

/-- The field is `Transfer-Encoding`, and `chunked` is one of the codings between its commas. -/
def Header.ListsChunked (h : Header) : Prop :=
  h.IsCoding ∧ ∃ item ∈ h.value.splitOn 44, ∃ pad coding pad', item = pad ++ (coding ++ pad') ∧
    (∀ c ∈ pad ++ pad', c = 32 ∨ c = 9) ∧ CaseEq coding (ascii "chunked")

/-- A response with one length field, of value `n`, and no field that lists `chunked`. -/
structure SizedReply (n : Nat) extends Reply where
  before : List Header
  length : Header
  after : List Header
  split : headers = before ++ length :: after
  declares : length.Declares n
  single : ∀ h ∈ before ++ after, ¬ h.IsLength
  unchunked : ∀ h ∈ headers, ¬ h.ListsChunked

/-- As many bytes came as were declared, or there is no memory for them. Where the response is taken for
chunked, its body read as chunks is refused or comes to that many of its own first bytes. -/
def CameWhole (granted : Allocator) (n : Nat) (r : Reply) : Prop :=
  if codingFound r.body r.headers then
    ∀ out, decodeChunked granted r.body = .returns (.ok out) → out.length = n ∧ out <+: r.body
  else granted .body = true → r.body.length = n

/-- What is handed over for a body: its chunks put together, or a copy. -/
def HandsOver (granted : Allocator) (chunked : Bool) (body out : Bytes) : Prop :=
  if chunked then decodeChunked granted body = .returns (.ok out) else granted .body = true ∧ out = body

theorem deliver_iff {granted : Allocator} {client client' : HttpClient} {chunked : Bool} {body : Bytes} :
    deliver granted client chunked body = .returns (0, client') ↔
      ∃ out, HandsOver granted chunked body out ∧
        client' = { client with responseBody := some out, responseSize := out.length } := by
  cases chunked with
  | false =>
      unfold deliver HandsOver
      cases granted .body <;> simp [eq_comm]
  | true =>
      unfold deliver HandsOver
      cases decoded : decodeChunked granted body with
      | returns result => cases result <;> simp [eq_comm]
      | undefined | diverges => simp

theorem cameWhole_iff {granted : Allocator} {n : Nat} {r : Reply} : CameWhole granted n r ↔
    ∀ out, HandsOver granted (codingFound r.body r.headers) r.body out → out.length = n ∧ out <+: r.body := by
  unfold CameWhole HandsOver
  cases codingFound r.body r.headers with
  | true => simp
  | false =>
      constructor
      · rintro whole out ⟨copied, rfl⟩
        exact ⟨whole copied, List.prefix_refl _⟩
      · intro whole copied
        exact (whole r.body ⟨copied, rfl⟩).1

/-- The result is 0 when the status is read, the text is kept and a body is handed over. -/
theorem Reply.receive_iff (r : Reply) {segs : List Bytes} {granted : Allocator}
    {client client' : HttpClient} {fd : Nat} (cut : segs.flatten = r.bytes)
    (nonempty : ∀ s ∈ segs, s ≠ []) (opened : client.fd = some fd) :
    receiveResponse granted (segs.map .received ++ [.received []]) client = .returns (0, client') ↔
      ∃ code, sscanf statusFormat r.bytes = [code] ∧ (∀ i < segs.length, granted (.response i) = true) ∧
        ∃ out, HandsOver granted (codingFound r.body r.headers) r.body out ∧
          client' = { client with
            statusCode := code, responseBody := some out, responseSize := out.length } := by
  by_cases allocated : ∀ i < segs.length, granted (.response i) = true
  · rw [receiveResponse_segments opened nonempty allocated (cut ▸ r.bytes_ne), cut]
    by_cases readable : ∃ code, sscanf statusFormat r.bytes = [code]
    · obtain ⟨code, read⟩ := readable
      rw [r.read granted client read, deliver_iff]
      constructor
      · rintro ⟨out, handed, rfl⟩
        exact ⟨code, read, allocated, out, handed, rfl⟩
      · rintro ⟨code', read', -, out, handed, rfl⟩
        obtain rfl : code = code' := by simpa [read] using read'
        exact ⟨out, handed, rfl⟩
    · rw [r.unread granted client readable]
      simp only [not_exists] at readable
      simp [readable]
  · obtain ⟨i, inside, no⟩ : ∃ i, i < segs.length ∧ granted (.response i) = false := by
      simpa using allocated
    simp [receiveResponse, opened, recvLoop_refused nonempty inside (by rwa [Nat.zero_add]), allocated]

/-- The declared length plays no part: a response whose status is read is taken for complete
whatever its length, so its body is the declared one exactly when `CameWhole` holds. -/
theorem receiveResponse_sized_iff {n : Nat} {r : SizedReply n} {segs : List Bytes} {granted : Allocator}
    {client : HttpClient} {fd : Nat} (cut : segs.flatten = r.bytes)
    (pieces : ∀ s ∈ segs, s ≠ [] ∧ s.length ≤ 8191) (opened : client.fd = some fd) :
    (∀ client', receiveResponse granted (segs.map .received ++ [.received []]) client =
        .returns (0, client') →
      n ≤ r.body.length ∧ client'.responseBody = some (r.body.take n) ∧ client'.responseSize = n) ↔
    ((∃ code, sscanf statusFormat r.bytes = [code]) →
      (∀ i < segs.length, granted (.response i) = true) → CameWhole granted n r.toReply) := by
  have nonempty : ∀ s ∈ segs, s ≠ [] := fun s mem => (pieces s mem).1
  simp only [cameWhole_iff, r.receive_iff cut nonempty opened]
  constructor
  · rintro declared ⟨code, readable⟩ allocated out handed
    obtain ⟨-, body, size⟩ := declared _ ⟨code, readable, allocated, out, handed, rfl⟩
    refine ⟨size, ?_⟩
    rw [Option.some.inj body]
    exact List.take_prefix n r.body
  · rintro whole _ ⟨code, readable, allocated, out, handed, rfl⟩
    obtain ⟨rfl, first⟩ := whole ⟨code, readable⟩ allocated out handed
    exact ⟨first.length_le, congrArg some (List.prefix_iff_eq_take.mp first), rfl⟩

/-- Five bytes declared. -/
def fiveBytes (body : Bytes) : SizedReply 5 where
  status := ascii "HTTP/1.0 200 OK"
  headers := [⟨ascii "content-length", ascii " 5", by decide, by decide⟩]
  body := body
  plain := by decide
  before := []
  length := ⟨ascii "content-length", ascii " 5", by decide, by decide⟩
  after := []
  split := rfl
  declares := ⟨by unfold Header.IsLength; decide, ascii " ", ascii "5", [], rfl, by decide, by decide,
    by decide, by decide⟩
  single := by simp
  unchunked := by
    intro h mem chunked
    rw [List.mem_singleton.mp mem] at chunked
    exact absurd chunked.1 (by decide)

/-- Five of five bytes, in three pieces. -/
theorem receiveResponse_sized_whole :
    let client := { httpClientCreate 0 with fd := some 3 }
    let script := [ascii "HTTP/1.0 200 OK\r\ncontent-le", ascii "ngth: 5\r\n\r\nhe", ascii "llo"].map
      .received ++ [.received []]
    (∀ client', receiveResponse (fun _ => true) script client = .returns (0, client') →
      client'.responseBody = some (ascii "hello") ∧ client'.responseSize = 5) ∧
    receiveResponse (fun _ => true) script client =
      .returns (0, ⟨some 3, 200, some (ascii "hello"), 5, 5000⟩) := by
  intro client script
  have came : CameWhole (fun _ => true) 5 (fiveBytes (ascii "hello")).toReply := by
    have unchunked : codingFound (fiveBytes (ascii "hello")).body
        (fiveBytes (ascii "hello")).headers = false := by decide +kernel
    rw [CameWhole, if_neg (by rw [unchunked]; decide)]
    exact fun _ => rfl
  have declared := (@receiveResponse_sized_iff 5 (fiveBytes (ascii "hello"))
    [ascii "HTTP/1.0 200 OK\r\ncontent-le", ascii "ngth: 5\r\n\r\nhe", ascii "llo"] (fun _ => true)
    client 3 (by decide +kernel) (by decide +kernel) rfl).mpr fun _ _ => came
  exact ⟨fun client' done => (declared client' done).2, by decide +kernel⟩

/-- The peer closes after three of five bytes, and the three are taken for the whole body. -/
theorem receiveResponse_sized_short :
    ¬ ∀ client', receiveResponse (fun _ => true)
        ([(fiveBytes (ascii "abc")).bytes].map .received ++ [.received []])
        { httpClientCreate 0 with fd := some 3 } = .returns (0, client') →
      5 ≤ (ascii "abc").length ∧ client'.responseBody = some ((ascii "abc").take 5) ∧
        client'.responseSize = 5 := by
  intro complete
  have taken : receiveResponse (fun _ => true)
      ([(fiveBytes (ascii "abc")).bytes].map .received ++ [.received []])
      { httpClientCreate 0 with fd := some 3 } =
        .returns (0, ⟨some 3, 200, some (ascii "abc"), 3, 5000⟩) := by decide +kernel
  exact absurd (complete _ taken).1 (by decide)

-- Twelve bytes declared and sent, and none handed over: the last seven of them are `chunked`.
example : receiveResponse (fun _ => true) ([ascii ("HTTP/1.1 200 OK\r\nTransfer-Encoding: gzip\r\n" ++
      "Content-Length: 12\r\n\r\n0\r\n\r\nchunked")].map .received ++ [.received []])
    { httpClientCreate 0 with fd := some 3 } = .returns (0, ⟨some 3, 200, some [], 0, 5000⟩) := by
  decide +kernel

end JustWeather.Http
