import JustWeather.CLib.LetterCase
import JustWeather.Http.Framing
import JustWeather.Http.Response

/-! # Letter case in headers

Field names are compared without regard to case, the coding name with `strstr`.
The search runs from the field name to the first NUL byte of the response, so
what it finds may be the coding name, or any text behind it.
-/

namespace JustWeather.Http

open CLib

/-- A header field. -/
structure Header where
  name : Bytes
  value : Bytes
  named : Plain name ∧ COLON ∉ name
  plain : Plain value

def Header.line (h : Header) : Bytes := h.name ++ COLON :: h.value

/-- The field is `Transfer-Encoding`. -/
def Header.IsCoding (h : Header) : Prop := CaseEq h.name (ascii "Transfer-Encoding")

instance (h : Header) : Decidable h.IsCoding := inferInstanceAs (Decidable (CaseEq _ _))

/-- Its value is the coding name in some letter case, with blanks around it. -/
def Header.NamesChunked (h : Header) : Prop :=
  ∃ pad coding pad', h.value = pad ++ (coding ++ pad') ∧ (∀ c ∈ pad ++ pad', c = 32 ∨ c = 9) ∧
    CaseEq coding (ascii "chunked")

/-- A complete response: a status line, header fields, the blank line and what follows. -/
structure Reply where
  status : Bytes
  headers : List Header
  body : Bytes
  plain : Plain status

def Reply.bytes (r : Reply) : Bytes := r.status ++ (CRLF ++ block (r.headers.map Header.line) r.body)

/-- The same field but for the case of its name, and of a coding. -/
def RecasedHeader (h h' : Header) : Prop :=
  CaseEq h.name h'.name ∧ (h.value = h'.value ∨ h.IsCoding ∧ CaseEq h.value h'.value)

structure Recased (r r' : Reply) : Prop where
  status : r.status = r'.status
  headers : List.Forall₂ RecasedHeader r.headers r'.headers
  body : r.body = r'.body

/-- From some `Transfer-Encoding` field on, the response has a lower-case `chunked` before its first
NUL byte. -/
def codingFound (body : Bytes) : List Header → Bool
  | [] => false
  | h :: headers =>
      decide (h.IsCoding ∧ ascii "chunked" <:+: cStr (block ((h :: headers).map Header.line) body)) ||
        codingFound body headers

/-! ## The flag -/

theorem Header.line_plain (h : Header) : h.line ≠ [] ∧ Plain h.line := by
  have plain : ∀ z, z ∉ h.name → z ≠ COLON → z ∉ h.value → z ∉ h.line := by
    intro z inName colon inValue
    simp [Header.line, inName, colon, inValue]
  exact ⟨by simp [Header.line], plain CR h.named.1.1 (by decide) h.plain.1,
    plain LF h.named.1.2.1 (by decide) h.plain.2.1, plain 0 h.named.1.2.2 (by decide) h.plain.2.2⟩

theorem lines_plain (headers : List Header) : ∀ l ∈ headers.map Header.line, l ≠ [] ∧ Plain l := by
  intro l mem
  obtain ⟨h, -, rfl⟩ := List.mem_map.mp mem
  exact h.line_plain

theorem Header.isTransferEncoding_line (h : Header) :
    isTransferEncoding h.line = true ↔ h.IsCoding :=
  @startsNoCase_marked h.name (ascii "Transfer-Encoding") h.value COLON (by decide) h.named.2
    (by decide)

theorem any_namesChunked_headers (headers : List Header) (body : Bytes) :
    (headerStarts (block (headers.map Header.line) body)).any namesChunked =
      codingFound body headers := by
  induction headers with
  | nil =>
      have blank : headerStarts (block [] body) = [] := headerStarts_blank body
      rw [List.map_nil, blank]
      rfl
  | cons h headers ih =>
      have start : block (h.line :: headers.map Header.line) body =
          h.line ++ CR :: (LF :: block (headers.map Header.line) body) := by
        rw [block_cons]
        rfl
      have here : namesChunked (block (h.line :: headers.map Header.line) body) = decide (h.IsCoding ∧
          ascii "chunked" <:+: cStr (block (h.line :: headers.map Header.line) body)) := by
        rw [Bool.eq_iff_iff, decide_eq_true_eq, ← strstr_isSome (by decide) (by decide),
          ← h.isTransferEncoding_line, ← isTransferEncoding_line h.line (LF :: _), ← start, namesChunked]
        cases coding : isTransferEncoding (block (h.line :: headers.map Header.line) body) with
        | false => simp
        | true => simp [isContentLength_of_isTransferEncoding coding]
      rw [List.map_cons, headerStarts_block body h.line_plain.1 h.line_plain.2, List.any_cons, ih,
        ← start, here]
      rfl

/-! ## The reading -/

/-- `receive_response` from the headers on. -/
def deliver (granted : Allocator) (client : HttpClient) (chunked : Bool) (body : Bytes) :
    Exec (Int × HttpClient) :=
  if chunked then
    (decodeChunked granted body).andThen fun
      | .ok out => .returns (0, { client with responseBody := some out, responseSize := out.length })
      | .error _ => .returns (-1, client)
  else if granted .body then
    .returns (0, { client with responseBody := some body, responseSize := body.length })
  else .returns (-1, { client with responseBody := none })

/-- A response whose status is read: its body is read by the flag. -/
theorem Reply.read (r : Reply) (granted : Allocator) (client : HttpClient) {code : Int}
    (readable : sscanf statusFormat r.bytes = [code]) : readResponse granted r.bytes client =
      deliver granted { client with statusCode := code } (codingFound r.body r.headers) r.body := by
  have headers := @parseHeaders_block r.status code (r.headers.map Header.line) r.body r.plain readable
  have behind : (blankLine ++ r.body).drop 4 = r.body := rfl
  unfold Reply.bytes readResponse
  simp only [headers, strstr_body r.body r.plain (lines_plain r.headers), any_namesChunked_headers, behind]
  cases codingFound r.body r.headers <;> rfl

theorem Reply.unread (r : Reply) (granted : Allocator) (client : HttpClient)
    (unreadable : ¬ ∃ code, sscanf statusFormat r.bytes = [code]) :
    readResponse granted r.bytes client = .returns (-1, { client with statusCode := 0 }) := by
  have failed : parseHeaders r.bytes = ⟨-1, 0, 0, false⟩ := by
    have line : strstr CRLF r.bytes = some (CRLF ++ block (r.headers.map Header.line) r.body) :=
      strstr_crlf_line _ r.plain
    simp only [parseHeaders, line]
    split
    · next code read => exact absurd ⟨code, read⟩ unreadable
    · rfl
  simp only [readResponse, failed]
  rfl

/-- The decoder and the copy fail differently: without memory for the copy, and with an old body. -/
theorem deliver_differs {client : HttpClient} {old body : Bytes} (stale : client.responseBody = some old) :
    deliver (fun site => site ≠ .body) client true body ≠
      deliver (fun site => site ≠ .body) client false body := by
  have copy : deliver (fun site => site ≠ .body) client false body =
      .returns (-1, { client with responseBody := none }) := by simp [deliver]
  rw [copy, deliver, if_pos rfl]
  cases decodeChunked (fun site => site ≠ .body) body with
  | returns result =>
      cases result with
      | ok out => simp
      | error code =>
          intro same
          simp only [Exec.andThen_returns, Exec.returns.injEq, Prod.mk.injEq, true_and] at same
          rw [same] at stale
          cases stale
  | undefined | diverges => simp

/-- Both responses come to the same, cut at the same places, whatever is allocated. -/
def SameOutcome (a b : Bytes) : Prop :=
  ∀ (granted : Allocator) (client : HttpClient) (fd : Nat) (segs segs' : List Bytes),
    client.fd = some fd → segs.flatten = a → segs'.flatten = b →
    segs.map List.length = segs'.map List.length → (∀ s ∈ segs, s ≠ [] ∧ s.length ≤ 8191) →
    receiveResponse granted (segs.map .received ++ [.received []]) client =
      receiveResponse granted (segs'.map .received ++ [.received []]) client

/-! ## Two responses -/

section Pairs

variable {r r' : Reply}

theorem RecasedHeader.line {h h' : Header} (recased : RecasedHeader h h') : CaseEq h.line h'.line := by
  refine recased.1.append (.cons rfl ?_)
  rcases recased.2 with same | ⟨-, same⟩
  · rw [same]
    exact CaseEq.refl _
  · exact same

theorem Recased.block (recased : Recased r r') : CaseEq (block (r.headers.map Header.line) r.body)
    (Http.block (r'.headers.map Header.line) r'.body) := by
  rw [← recased.body]
  have headers := recased.headers
  generalize r.headers = hs at headers
  generalize r'.headers = hs' at headers
  induction headers with
  | nil => exact CaseEq.refl _
  | cons here _ ih =>
      rw [List.map_cons, List.map_cons, block_cons, block_cons]
      exact here.line.append ((CaseEq.refl CRLF).append ih)

theorem Recased.length (recased : Recased r r') : r.bytes.length = r'.bytes.length := by
  have := recased.block.length
  simp only [Reply.bytes, List.length_append, recased.status]
  omega

/-- The status line is read alike, even where the scan runs on into the headers. -/
theorem Recased.sscanf_status (recased : Recased r r') :
    sscanf statusFormat r.bytes = sscanf statusFormat r'.bytes := by
  have caseless : Caseless [.integer false, .literal 46, .integer false, .blank, .integer true] := by
    intro c mem
    simp only [List.mem_cons, Directive.literal.injEq, reduceCtorEq, false_or, or_false,
      List.not_mem_nil] at mem
    subst mem
    decide
  have rest : CaseEq (LF :: Http.block (r.headers.map Header.line) r.body)
      (LF :: Http.block (r'.headers.map Header.line) r'.body) := .cons rfl recased.block
  rw [Reply.bytes, Reply.bytes, ← recased.status]
  exact @sscanf_line (ascii "HTTP/") r.status _ _ _ CR (by decide) caseless rest

theorem Reply.bytes_ne (r : Reply) : r.bytes ≠ [] := by
  simp [Reply.bytes, CRLF]

/-- A stream of single bytes. -/
def bytewise (s : Bytes) : List Bytes := s.map fun c => [c]

theorem flatten_bytewise (s : Bytes) : (bytewise s).flatten = s := List.flatMap_singleton' s

theorem Reply.receive {client : HttpClient} {fd : Nat} {granted : Allocator} (r : Reply)
    (opened : client.fd = some fd) (allocated : ∀ i, granted (.response i) = true) :
    receiveResponse granted ((bytewise r.bytes).map .received ++ [.received []]) client =
      readResponse granted r.bytes client := by
  have whole := @receiveResponse_segments granted client fd (bytewise r.bytes) opened
    (by simp [bytewise]) (fun i _ => allocated i) (by rw [flatten_bytewise]; exact r.bytes_ne)
  rwa [flatten_bytewise] at whole

theorem sameOutcome_flags (recased : Recased r r') (same : SameOutcome r.bytes r'.bytes) {code : Int}
    (readable : sscanf statusFormat r.bytes = [code]) :
    codingFound r.body r.headers = codingFound r'.body r'.headers := by
  have lengths : (bytewise r.bytes).map List.length = (bytewise r'.bytes).map List.length := by
    simp [bytewise, Function.comp_def, recased.length]
  have readable' : sscanf statusFormat r'.bytes = [code] := recased.sscanf_status ▸ readable
  have outcome := same (fun site => site ≠ .body)
    { httpClientCreate 0 with fd := some 3, responseBody := some [] } 3 _ _ rfl
    (flatten_bytewise r.bytes) (flatten_bytewise r'.bytes) lengths (by simp [bytewise])
  rw [r.receive rfl fun _ => rfl, r'.receive rfl fun _ => rfl, r.read _ _ readable,
    r'.read _ _ readable', ← recased.body] at outcome
  have differs := @deliver_differs { httpClientCreate 0 with
    fd := some 3, statusCode := code, responseBody := some [] } [] r.body rfl
  rw [← recased.body]
  cases flag : codingFound r.body r.headers <;> cases flag' : codingFound r.body r'.headers
  · rfl
  · rw [flag, flag'] at outcome
    exact absurd outcome.symm differs
  · rw [flag, flag'] at outcome
    exact absurd outcome differs
  · rfl

theorem nonempty_of_lengths {segs segs' : List Bytes} (lengths : segs.map List.length = segs'.map List.length)
    (nonempty : ∀ s ∈ segs, s ≠ []) : ∀ s ∈ segs', s ≠ [] := by
  intro s mem
  have here : s.length ∈ segs.map List.length := lengths ▸ List.mem_map_of_mem mem
  obtain ⟨t, inside, length⟩ := List.mem_map.mp here
  have := List.length_pos_iff.mpr (nonempty t inside)
  exact List.length_pos_iff.mp (length ▸ this)

theorem sameOutcome_of_flags (recased : Recased r r')
    (flags : (∃ code, sscanf statusFormat r.bytes = [code]) →
      codingFound r.body r.headers = codingFound r'.body r'.headers) :
    SameOutcome r.bytes r'.bytes := by
  intro granted client fd segs segs' opened cut cut' lengths pieces
  have nonempty : ∀ s ∈ segs, s ≠ [] := fun s mem => (pieces s mem).1
  have nonempty' := nonempty_of_lengths lengths nonempty
  have count : segs.length = segs'.length := by simpa using congrArg List.length lengths
  by_cases allocated : ∀ i < segs.length, granted (.response i) = true
  · rw [receiveResponse_segments opened nonempty allocated (cut ▸ r.bytes_ne),
      receiveResponse_segments opened nonempty' (count ▸ allocated) (cut' ▸ r'.bytes_ne), cut, cut']
    by_cases readable : ∃ code, sscanf statusFormat r.bytes = [code]
    · have flag := flags readable
      obtain ⟨code, read⟩ := readable
      rw [r.read granted client read, r'.read granted client (recased.sscanf_status ▸ read), flag,
        recased.body]
    · have unreadable' := recased.sscanf_status ▸ readable
      rw [r.unread granted client readable, r'.unread granted client unreadable']
  · simp only [not_forall, Bool.not_eq_true] at allocated
    obtain ⟨i, inside, refused⟩ := allocated
    simp only [receiveResponse, opened,
      recvLoop_refused nonempty inside (by rwa [Nat.zero_add]),
      recvLoop_refused nonempty' (count ▸ inside) (by rwa [Nat.zero_add])]

end Pairs

/-- Letter case makes no difference exactly while a lower-case `chunked` stands behind a
`Transfer-Encoding` field of both responses, or of neither. -/
theorem sameOutcome_iff {r r' : Reply} (recased : Recased r r') :
    SameOutcome r.bytes r'.bytes ↔ ((∃ code, sscanf statusFormat r.bytes = [code]) →
      codingFound r.body r.headers = codingFound r'.body r'.headers) :=
  ⟨fun same ⟨_, readable⟩ => sameOutcome_flags recased same readable, sameOutcome_of_flags recased⟩

def helloReply (h : Header) : Reply :=
  ⟨ascii "HTTP/1.1 200 OK", [h], helloChunk, by decide⟩

def lowerCoding : Header :=
  ⟨ascii "Transfer-Encoding", ascii " chunked", by decide, by decide⟩

def upperCoding : Header :=
  ⟨ascii "Transfer-Encoding", ascii " Chunked", by decide, by decide⟩

def lowerName : Header :=
  ⟨ascii "transfer-encoding", ascii " chunked", by decide, by decide⟩

theorem recased_hello {h h' : Header} (recased : RecasedHeader h h') :
    Recased (helloReply h) (helloReply h') := ⟨rfl, .cons recased .nil, rfl⟩

theorem sameOutcome_iff_name :
    SameOutcome (helloReply lowerCoding).bytes (helloReply lowerName).bytes :=
  (sameOutcome_iff (recased_hello ⟨by decide, .inl (Eq.refl (ascii " chunked"))⟩)).mpr fun _ => by
    decide +kernel

theorem helloReply_status (h : Header) : sscanf statusFormat (helloReply h).bytes = [200] := by
  have line : ∀ t, sscanf statusFormat (ascii "HTTP/1.1 200 OK" ++ t) = [200] :=
    (⟨200, ascii "OK", [], by decide, by decide, by simp⟩ : Response).scanStatus
  exact line _

theorem receiveResponse_hello (h : Header) {client : HttpClient} {fd : Nat} (opened : client.fd = some fd) :
    receiveResponse (fun _ => true) [.received (helloReply h).bytes, .received []] client =
      deliver (fun _ => true) { client with statusCode := 200 } (codingFound helloChunk [h]) helloChunk := by
  have nonempty := (helloReply h).bytes_ne
  have whole := @receiveResponse_segments (fun _ => true) client fd [(helloReply h).bytes] opened
    (by simpa using nonempty) (fun _ _ => rfl) (by simpa using nonempty)
  rw [List.flatten_singleton, (helloReply h).read _ _ (helloReply_status h)] at whole
  exact whole

/-- `chunked` is decoded, `Chunked` is not. -/
theorem sameOutcome_coding :
    let client := { httpClientCreate 0 with fd := some 3 }
    let lower := (helloReply lowerCoding).bytes
    let upper := (helloReply upperCoding).bytes
    Recased (helloReply lowerCoding) (helloReply upperCoding) ∧
      lowerCoding.NamesChunked ∧ upperCoding.NamesChunked ∧ ¬ SameOutcome lower upper ∧
      receiveResponse (fun _ => true) [.received lower, .received []] client = .returns (0,
        { client with statusCode := 200, responseBody := some (ascii "hello"), responseSize := 5 }) ∧
      receiveResponse (fun _ => true) [.received upper, .received []] client = .returns (0,
        { client with statusCode := 200, responseBody := some helloChunk, responseSize := 15 }) := by
  have recased : Recased (helloReply lowerCoding) (helloReply upperCoding) :=
    recased_hello ⟨by decide, .inr ⟨by decide, by decide⟩⟩
  have found : codingFound helloChunk [lowerCoding] = true := by decide +kernel
  have missed : codingFound helloChunk [upperCoding] = false := by decide +kernel
  refine ⟨recased, ⟨[32], ascii "chunked", [], rfl, by decide, by decide⟩,
    ⟨[32], ascii "Chunked", [], rfl, by decide, by decide⟩, ?_, ?_, ?_⟩
  · intro same
    have flags : codingFound helloChunk [lowerCoding] = codingFound helloChunk [upperCoding] :=
      sameOutcome_flags recased same (helloReply_status lowerCoding)
    rw [found, missed] at flags
    cases flags
  · rw [receiveResponse_hello lowerCoding rfl, found, deliver, if_pos rfl, decodeChunked_hello]
    rfl
  · rw [receiveResponse_hello upperCoding rfl, missed, deliver, if_neg Bool.false_ne_true, if_pos rfl]
    rfl

end JustWeather.Http
