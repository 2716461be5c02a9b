import JustWeather.Http.ChunkCoding
import JustWeather.Http.Client

/-! # Receiving a response

However the stream is cut, the receive loop puts it together again; header lines
free of CR, LF and NUL are walked one by one to the blank line; and the body
behind it is taken whole or decoded. What `Content-Length` says is never used.
-/

namespace JustWeather.Http

open CLib

/-- Text that stays on its line. -/
def Plain (s : Bytes) : Prop := CR ∉ s ∧ LF ∉ s ∧ 0 ∉ s

instance (s : Bytes) : Decidable (Plain s) := inferInstanceAs (Decidable (_ ∧ _ ∧ _))

/-- Status and header lines of a response. -/
structure Response where
  code : Nat
  reason : Bytes
  lines : List Bytes
  codeRange : 100 ≤ code ∧ code ≤ 999
  reasonPlain : Plain reason
  linesPlain : ∀ l ∈ lines, l ≠ [] ∧ Plain l

def statusLine (code : Nat) (reason : Bytes) : Bytes :=
  ascii "HTTP/1.1 " ++ (decimal code ++ (32 :: reason))

/-- Header lines, the blank line, and what follows it. -/
def block (lines : List Bytes) (body : Bytes) : Bytes :=
  lines.flatMap (· ++ CRLF) ++ (CRLF ++ body)

/-- A response with the given header lines, and `body` behind the blank line. -/
def Response.bytes (r : Response) (lines : List Bytes) (body : Bytes) : Bytes :=
  statusLine r.code r.reason ++ (CRLF ++ block lines body)

theorem block_cons (l : Bytes) (lines : List Bytes) (body : Bytes) :
    block (l :: lines) body = l ++ (CRLF ++ block lines body) := by
  simp [block]

theorem strstr_crlf_line {line : Bytes} (t : Bytes) (plain : Plain line) :
    strstr CRLF (line ++ (CRLF ++ t)) = some (CRLF ++ t) := by
  rw [CRLF, strstr_skip _ plain.2.2 plain.1]
  exact strstr_here (List.prefix_append [CR, LF] t)

/-! ## The status line -/

theorem sscanf_literals (cs : Bytes) (fmt : List Directive) (s : Bytes) :
    sscanf (cs.map .literal ++ fmt) (cs ++ s) = sscanf fmt s := by
  induction cs with
  | nil => rfl
  | cons c cs ih => simpa [sscanf] using ih

theorem Response.scanStatus (r : Response) (t : Bytes) :
    sscanf statusFormat (statusLine r.code r.reason ++ t) = [(r.code : Int)] := by
  have head : statusLine r.code r.reason ++ t =
      ascii "HTTP/" ++ ([49] ++ (46 :: ([49] ++ (32 :: (decimal r.code ++ (32 :: (r.reason ++ t))))))) := by
    simp [statusLine, ascii]
  have major : ∀ u, readInt ([49] ++ 46 :: u) = some (1, 46 :: u) := fun u =>
    readInt_digits (by simp) (by decide) (by simp; decide) (by decide)
  have minor : ∀ u, readInt ([49] ++ 32 :: u) = some (1, 32 :: u) := fun u =>
    readInt_digits (by simp) (by decide) (by simp; decide) (by decide)
  have code : readInt (decimal r.code ++ 32 :: (r.reason ++ t)) = _ :=
    readInt_decimal (by have := r.codeRange; omega) (by simp; decide)
  have space : (32 :: (decimal r.code ++ 32 :: (r.reason ++ t))).dropWhile isSpace =
      decimal r.code ++ 32 :: (r.reason ++ t) := by
    rw [List.dropWhile_cons_of_pos (by decide)]
    exact dropSpace_digits (by decide : 10 ≤ 36) (decimal_nonempty _)
      fun c hc => isBase_ten ▸ decimal_digits _ c hc
  rw [head, statusFormat, sscanf_literals]
  simp only [sscanf, major, minor, space, code]
  simp

theorem Response.statusPlain (r : Response) : Plain (statusLine r.code r.reason) := by
  have digit : ∀ c ∈ decimal r.code, c ≠ CR ∧ c ≠ LF ∧ c ≠ 0 := by
    intro c hc
    have h := decimal_digits _ c hc
    refine ⟨?_, ?_, ?_⟩ <;> rintro rfl <;> exact absurd h (by decide)
  have fixed : ∀ c ∈ ascii "HTTP/1.1 ", c ≠ CR ∧ c ≠ LF ∧ c ≠ 0 := by decide
  have absent : ∀ z, (∀ c ∈ ascii "HTTP/1.1 ", c ≠ z) → (∀ c ∈ decimal r.code, c ≠ z) → z ≠ 32 →
      z ∉ r.reason → z ∉ statusLine r.code r.reason := by
    intro z h₁ h₂ h₃ h₄ mem
    simp only [statusLine, List.mem_append, List.mem_cons] at mem
    rcases mem with mem | mem | mem | mem
    · exact h₁ z mem rfl
    · exact h₂ z mem rfl
    · exact h₃ mem
    · exact h₄ mem
  exact ⟨absent CR (fun c hc => (fixed c hc).1) (fun c hc => (digit c hc).1) (by decide) r.reasonPlain.1,
    absent LF (fun c hc => (fixed c hc).2.1) (fun c hc => (digit c hc).2.1) (by decide) r.reasonPlain.2.1,
    absent 0 (fun c hc => (fixed c hc).2.2) (fun c hc => (digit c hc).2.2) (by decide) r.reasonPlain.2.2⟩

/-! ## The header lines -/

/-- The search for the blank line passes every header line. -/
theorem strstr_blankLine {lines : List Bytes} (body : Bytes)
    (plain : ∀ l ∈ lines, l ≠ [] ∧ Plain l) :
    strstr blankLine (CRLF ++ block lines body) = some (blankLine ++ body) := by
  induction lines with
  | nil =>
      have whole : CRLF ++ block [] body = blankLine ++ body := by simp [block, blankLine]
      rw [whole]
      exact strstr_here (List.prefix_append _ _)
  | cons l lines ih =>
      obtain ⟨nonempty, noCR, -, clean⟩ := plain l (by simp)
      obtain ⟨c, l, rfl⟩ := List.exists_cons_of_ne_nil nonempty
      have other : CR ≠ c := fun e => noCR (by simp [e])
      have rest := ih fun l hl => plain l (by simp [hl])
      have skip : ∀ t, strstr blankLine ((c :: l) ++ t) = strstr blankLine t := fun t =>
        @strstr_skip CR [LF, CR, LF] _ t clean noCR
      rw [block_cons, CRLF, List.cons_append, List.cons_append, List.nil_append,
        strstr_cons_skip (by decide), strstr_cons_skip (by decide), skip]
      · exact rest
      · simp [blankLine, CRLF, List.cons_prefix_cons, (by decide : ¬ CR = LF)]
      · simp [blankLine, CRLF, List.cons_prefix_cons, other]

theorem headerStarts_block {l : Bytes} {lines : List Bytes} (body : Bytes)
    (nonempty : l ≠ []) (plain : Plain l) : headerStarts (block (l :: lines) body) =
      (l ++ CR :: (LF :: block lines body)) :: headerStarts (block lines body) := by
  rw [block_cons, headerStarts_line nonempty (strstr_crlf_line _ plain)]
  rfl

/-- The loop visits nothing but header lines. -/
theorem line_of_headerStart {lines : List Bytes} {body s : Bytes}
    (plain : ∀ l ∈ lines, l ≠ [] ∧ Plain l) (mem : s ∈ headerStarts (block lines body)) :
    ∃ l ∈ lines, ∃ t, s = l ++ CR :: t := by
  induction lines with
  | nil =>
      have blank : headerStarts (block [] body) = [] := headerStarts_blank body
      rw [blank] at mem
      cases mem
  | cons l lines ih =>
      rw [headerStarts_block body (plain l (by simp)).1 (plain l (by simp)).2] at mem
      rcases List.mem_cons.mp mem with rfl | mem
      · exact ⟨l, by simp, _, rfl⟩
      · obtain ⟨k, hk, t, rfl⟩ := ih (fun l hl => plain l (by simp [hl])) mem
        exact ⟨k, by simp [hk], t, rfl⟩

/-- The loop visits every header line. -/
theorem headerStart_of_line {lines : List Bytes} {l : Bytes} (body : Bytes)
    (plain : ∀ l ∈ lines, l ≠ [] ∧ Plain l) (mem : l ∈ lines) :
    ∃ t, l ++ CR :: t ∈ headerStarts (block lines body) := by
  induction lines with
  | nil => cases mem
  | cons k lines ih =>
      rw [headerStarts_block body (plain k (by simp)).1 (plain k (by simp)).2]
      rcases List.mem_cons.mp mem with rfl | mem
      · exact ⟨_, List.mem_cons_self⟩
      · obtain ⟨t, ht⟩ := ih (fun l hl => plain l (by simp [hl])) mem
        exact ⟨t, by simp [ht]⟩

theorem isTransferEncoding_line (l t : Bytes) :
    isTransferEncoding (l ++ CR :: t) = isTransferEncoding l :=
  startsNoCase_line t (by decide)

/-- Without a coding line the flag stays clear. -/
theorem any_namesChunked_uncoded {lines : List Bytes} (body : Bytes)
    (plain : ∀ l ∈ lines, l ≠ [] ∧ Plain l) (uncoded : ∀ l ∈ lines, isTransferEncoding l = false) :
    (headerStarts (block lines body)).any namesChunked = false := by
  rw [List.any_eq_false]
  intro s hs
  obtain ⟨l, hl, t, rfl⟩ := line_of_headerStart plain hs
  simp [namesChunked, isTransferEncoding_line, uncoded l hl]

/-- The header line of a chunked body. -/
def chunkedLine : Bytes := ascii "Transfer-Encoding: chunked"

theorem namesChunked_chunkedLine (t : Bytes) : namesChunked (chunkedLine ++ CR :: t) = true := by
  have found : strstr (ascii "chunked") chunkedLine = some (ascii "chunked") := by decide
  have coding : isTransferEncoding chunkedLine = true := by decide
  have other : isContentLength (chunkedLine ++ CR :: t) = isContentLength chunkedLine :=
    startsNoCase_line t (by decide)
  rw [namesChunked, isTransferEncoding_line, coding, other, strstr_append_some _ found]
  rfl

theorem any_namesChunked_coded {lines : List Bytes} (body : Bytes)
    (plain : ∀ l ∈ lines, l ≠ [] ∧ Plain l) (coded : chunkedLine ∈ lines) :
    (headerStarts (block lines body)).any namesChunked = true := by
  obtain ⟨t, ht⟩ := headerStart_of_line body plain coded
  exact List.any_eq_true.mpr ⟨_, ht, namesChunked_chunkedLine t⟩

/-! ## The whole response -/

theorem parseHeaders_block {status : Bytes} {code : Int} {lines : List Bytes} {body : Bytes}
    (clean : Plain status)
    (read : sscanf statusFormat (status ++ (CRLF ++ block lines body)) = [code]) :
    parseHeaders (status ++ (CRLF ++ block lines body)) =
      ⟨0, code, (headerStarts (block lines body)).foldl lengthLine 0,
        (headerStarts (block lines body)).any namesChunked⟩ := by
  have behind : (CRLF ++ block lines body).drop 2 = block lines body := rfl
  simp only [parseHeaders, strstr_crlf_line _ clean, read, behind, headerLoop_eq, Bool.false_or]

theorem strstr_body {status : Bytes} {lines : List Bytes} (body : Bytes) (clean : Plain status)
    (plain : ∀ l ∈ lines, l ≠ [] ∧ Plain l) :
    strstr blankLine (status ++ (CRLF ++ block lines body)) = some (blankLine ++ body) := by
  have skip := @strstr_skip CR [LF, CR, LF] _ (CRLF ++ block lines body) clean.2.2 clean.1
  exact skip.trans (strstr_blankLine body plain)

theorem Response.parseHeaders_bytes (r : Response) (lines : List Bytes) (body : Bytes) :
    parseHeaders (r.bytes lines body) =
      ⟨0, r.code, (headerStarts (block lines body)).foldl lengthLine 0,
        (headerStarts (block lines body)).any namesChunked⟩ :=
  parseHeaders_block r.statusPlain (r.scanStatus _)

theorem Response.findBody (r : Response) {lines : List Bytes} (body : Bytes)
    (plain : ∀ l ∈ lines, l ≠ [] ∧ Plain l) :
    strstr blankLine (r.bytes lines body) = some (blankLine ++ body) :=
  strstr_body body r.statusPlain plain

/-- The receive loop puts the segments together. -/
theorem recvLoop_segments {granted : Allocator} {fd : Nat} {segs : List Bytes} {nth : Nat}
    {full : Bytes} (nonempty : ∀ s ∈ segs, s ≠ [])
    (allocated : ∀ i < segs.length, granted (.response (nth + i)) = true) :
    recvLoop granted (some fd) nth full (segs.map .received ++ [.received []]) =
      some (full ++ segs.flatten) := by
  induction segs generalizing nth full with
  | nil => simp [recvLoop, clientTcpRecv]
  | cons s segs ih =>
      obtain ⟨c, s, rfl⟩ := List.exists_cons_of_ne_nil (nonempty s (by simp))
      have here := allocated 0 (by simp)
      have later := @ih (nth + 1) (full ++ c :: s) (fun s hs => nonempty s (by simp [hs]))
        fun i hi => by
          have := allocated (i + 1) (by simpa using hi)
          rwa [Nat.add_comm i 1, ← Nat.add_assoc] at this
      simp only [Nat.add_zero] at here
      refine Eq.trans ?_ (later.trans (by simp))
      simp [recvLoop, clientTcpRecv, here]

/-- An allocation refused on the way ends the loop. -/
theorem recvLoop_refused {granted : Allocator} {fd : Nat} {segs : List Bytes} {nth i : Nat}
    {full : Bytes} (nonempty : ∀ s ∈ segs, s ≠ []) (inside : i < segs.length)
    (refused : granted (.response (nth + i)) = false) :
    recvLoop granted (some fd) nth full (segs.map .received ++ [.received []]) = none := by
  induction segs generalizing nth full i with
  | nil => cases inside
  | cons s segs ih =>
      obtain ⟨c, s, rfl⟩ := List.exists_cons_of_ne_nil (nonempty s (by simp))
      cases i with
      | zero =>
          rw [Nat.add_zero] at refused
          simp [recvLoop, clientTcpRecv, refused]
      | succ i =>
          have later := @ih (nth + 1) i (full ++ c :: s)
            (fun s hs => nonempty s (by simp [hs])) (by simpa using inside)
            (by rwa [Nat.add_assoc, Nat.add_comm 1 i])
          cases here : granted (.response nth) with
          | true => exact Eq.trans (by simp [recvLoop, clientTcpRecv, here]) later
          | false => simp [recvLoop, clientTcpRecv, here]

theorem receiveResponse_segments {granted : Allocator} {client : HttpClient} {fd : Nat}
    {segs : List Bytes} (opened : client.fd = some fd) (nonempty : ∀ s ∈ segs, s ≠ [])
    (allocated : ∀ i < segs.length, granted (.response i) = true) (some_ : segs.flatten ≠ []) :
    receiveResponse granted (segs.map .received ++ [.received []]) client =
      readResponse granted segs.flatten client := by
  have all := @recvLoop_segments granted fd segs 0 [] nonempty (by simpa using allocated)
  obtain ⟨c, full, whole⟩ := List.exists_cons_of_ne_nil some_
  rw [List.nil_append, whole] at all
  simp only [receiveResponse, opened, all, whole]

/-- Segments that make up a response lead to its reading. -/
theorem receiveResponse_bytes {r : Response} {lines : List Bytes} {body : Bytes} {segs : List Bytes}
    {granted : Allocator} {client : HttpClient} {fd : Nat} (cut : segs.flatten = r.bytes lines body)
    (nonempty : ∀ s ∈ segs, s ≠ []) (opened : client.fd = some fd)
    (allocated : ∀ i < segs.length, granted (.response i) = true) :
    receiveResponse granted (segs.map .received ++ [.received []]) client =
      readResponse granted (r.bytes lines body) client := by
  have some_ : segs.flatten ≠ [] := by
    rw [cut]
    simp [Response.bytes, statusLine]
  rw [receiveResponse_segments opened nonempty allocated some_, cut]

/-- A response not taken as chunked is read as it is. -/
theorem readResponse_unchunked {r : Response} {lines : List Bytes} {body : Bytes}
    {granted : Allocator} {client : HttpClient} (plain : ∀ l ∈ lines, l ≠ [] ∧ Plain l)
    (unchunked : (parseHeaders (r.bytes lines body)).chunked = false) :
    readResponse granted (r.bytes lines body) client =
      if granted .body then .returns (0, { client with
        statusCode := r.code, responseBody := some body, responseSize := body.length })
      else .returns (-1, { client with statusCode := r.code, responseBody := none }) := by
  have behind : (blankLine ++ body).drop 4 = body := rfl
  rw [r.parseHeaders_bytes] at unchunked
  simp only [readResponse, r.parseHeaders_bytes, r.findBody _ plain, unchunked, behind]
  simp

/-- The two ways a body is sent. -/
inductive Transmission (r : Response) : Bytes → Bytes → Prop where
  | raw (body : Bytes) : Transmission r body (r.bytes r.lines body)
  | chunked (before after : List Bytes) (chunks : List Chunk) :
      r.lines = before ++ after → Transmission r (chunks.flatMap Chunk.data)
        (r.bytes (before ++ chunkedLine :: after) (encodeChunks chunks))

/-- Response decoding undoes response encoding, however the stream is cut. -/
theorem receiveResponse_transmission {r : Response} {body msg : Bytes} {segs : List Bytes}
    {granted : Allocator} {client : HttpClient} {fd : Nat}
    (uncoded : ∀ l ∈ r.lines, isTransferEncoding l = false) (sent : Transmission r body msg)
    (short : msg.length < 2 ^ 63) (cut : segs.flatten = msg)
    (pieces : ∀ s ∈ segs, s ≠ [] ∧ s.length ≤ 8191) (opened : client.fd = some fd)
    (allocated : ∀ site, granted site = true) :
    receiveResponse granted (segs.map .received ++ [.received []]) client =
      .returns (0, { client with
        statusCode := r.code, responseBody := some body, responseSize := body.length }) := by
  have nonempty : ∀ s ∈ segs, s ≠ [] := fun s hs => (pieces s hs).1
  cases sent with
  | raw =>
      have unchunked : (parseHeaders (r.bytes r.lines body)).chunked = false := by
        rw [r.parseHeaders_bytes]
        exact any_namesChunked_uncoded _ r.linesPlain uncoded
      rw [receiveResponse_bytes cut nonempty opened fun i _ => allocated _,
        readResponse_unchunked r.linesPlain unchunked, if_pos (allocated _)]
  | chunked before after chunks split =>
      have plain : ∀ l ∈ before ++ chunkedLine :: after, l ≠ [] ∧ Plain l := by
        intro l hl
        have cases_ : l = chunkedLine ∨ l ∈ r.lines := by
          rw [split]
          simp only [List.mem_append, List.mem_cons] at hl ⊢
          tauto
        rcases cases_ with rfl | mem
        · decide
        · exact r.linesPlain l mem
      have bodyShort : (encodeChunks chunks).length < 2 ^ 63 := by
        simp only [Response.bytes, block, List.length_append] at short
        omega
      have behind : (blankLine ++ encodeChunks chunks).drop 4 = encodeChunks chunks := rfl
      rw [receiveResponse_bytes cut nonempty opened fun i _ => allocated _]
      simp only [readResponse, r.parseHeaders_bytes, r.findBody _ plain,
        any_namesChunked_coded _ plain (by simp), behind,
        decodeChunked_encodeChunks chunks allocated bodyShort]
      simp

/-- Two segments, one chunk. -/
theorem receiveResponse_transmission_hi :
    receiveResponse (fun _ => true)
      ([ascii "HTTP/1.1 200 OK\r\nTransfer-Encoding: chun", ascii "ked\r\n\r\n2\r\nhi\r\n0\r\n\r\n"].map
        .received ++ [.received []]) { httpClientCreate 0 with fd := some 3 } =
      .returns (0, { httpClientCreate 0 with
        fd := some 3, statusCode := 200, responseBody := some (ascii "hi"), responseSize := 2 }) :=
  @receiveResponse_transmission
    ⟨200, ascii "OK", [], by decide, ⟨by decide, by decide, by decide⟩, by simp⟩
    (ascii "hi") _ _ _ _ 3 (by simp)
    (.chunked [] [] [⟨ascii "2", ascii "hi", ⟨by decide, by decide⟩, by decide, by decide⟩] rfl)
    (by decide +kernel) (by decide +kernel) (by decide +kernel) rfl fun _ => rfl

end JustWeather.Http
