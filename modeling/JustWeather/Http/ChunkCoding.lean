import JustWeather.Http.ChunkTurns

/-! # Decoding what a server encoded

A body may be cut into chunks in many ways, and each size may be spelled in many ways. All of them
decode to the body.
-/

namespace JustWeather.Http

open CLib

variable {granted : Allocator} {input : Bytes} {d : Decoder}

/-- A chunk as sent: its size in hexadecimal, and its data. -/
structure Chunk where
  digits : Bytes
  data : Bytes
  spelled : digits ≠ [] ∧ ∀ c ∈ digits, isBase 16 c = true
  size : value 16 digits = data.length
  nonempty : data ≠ []

def Chunk.encode (c : Chunk) : Bytes := c.digits ++ (CRLF ++ (c.data ++ CRLF))

/-- A body sent in chunks, closed by `0` and a blank line. -/
def encodeChunks (chunks : List Chunk) : Bytes :=
  chunks.flatMap Chunk.encode ++ (ascii "0" ++ (CRLF ++ CRLF))

/-- What may stand behind a size: nothing, or a text from a `;` to the end of the line. -/
structure Extension where
  text : Bytes
  opens : ∀ c ∈ text.head?, c = 59
  oneLine : ¬ CRLF <:+: text

def Extension.none : Extension := ⟨[], by simp, by decide⟩

/-- A chunk with an extension. -/
structure ExtendedChunk extends Chunk where
  extension : Extension

def ExtendedChunk.encode (c : ExtendedChunk) : Bytes :=
  c.digits ++ c.extension.text ++ (CRLF ++ (c.data ++ CRLF))

def Chunk.extended (c : Chunk) : ExtendedChunk := ⟨c, .none⟩

@[simp] theorem Chunk.encode_extended (c : Chunk) : c.extended.encode = c.encode := by
  simp [extended, ExtendedChunk.encode, Chunk.encode, Extension.none]

@[simp] theorem Chunk.data_extended (c : Chunk) : c.extended.data = c.data := rfl

/-- A body sent in chunks in any of the ways allowed: the closing line is `zeros + 1` zeros and an
extension. -/
structure ChunkedBody where
  chunks : List ExtendedChunk
  zeros : Nat
  extension : Extension
  trailer : Bytes

namespace ChunkedBody

def lastLine (b : ChunkedBody) : Bytes := List.replicate (b.zeros + 1) 48 ++ b.extension.text

def text (b : ChunkedBody) : Bytes :=
  b.chunks.flatMap ExtendedChunk.encode ++ (b.lastLine ++ (CRLF ++ b.trailer))

def data (b : ChunkedBody) : Bytes := b.chunks.flatMap fun c => c.data

end ChunkedBody

/-- A size line holds no CRLF, and is read as its size. -/
theorem Extension.line (e : Extension) {digits : Bytes} (nonempty : digits ≠ [])
    (spelled : ∀ c ∈ digits, isBase 16 c = true) (small : value 16 digits < 2 ^ 64) :
    ¬ CRLF <:+: digits ++ e.text ∧ strtoul16 (digits ++ e.text) = some (value 16 digits) := by
  constructor
  · rw [List.infix_append_iff]
    rintro (inDigits | inText | ⟨l, r, split, ends, starts⟩)
    · exact noCRLF_of_noCR (fun mem => absurd (spelled CR mem) (by decide)) inDigits
    · exact e.oneLine inText
    · cases l with
      | nil => exact e.oneLine (by rw [split]; exact starts.isInfix)
      | cons c l =>
          have cr : c = CR := (List.cons.inj split).1.symm
          have := spelled c (ends.subset (by simp))
          rw [cr] at this
          exact absurd this (by decide)
  · refine strtoul16_digits nonempty spelled (fun c mem => ?_) small
    rw [e.opens c mem]
    decide

/-- The loop takes one chunk after another, unless the allocator refuses. -/
theorem decodeLoop_through (chunks : List ExtendedChunk) {rest : Bytes} (hr : Roomy d)
    (short : input.length < 2 ^ 63)
    (here : input.drop d.pos = chunks.flatMap ExtendedChunk.encode ++ rest) :
    (∃ d', decodeLoop granted input d = decodeLoop granted input d' ∧ Roomy d' ∧
      d'.buf = d.buf ++ (chunks.flatMap fun c => c.data) ∧ input.drop d'.pos = rest) ∨
    (∃ site, granted site = false) ∧ ∃ code, decodeLoop granted input d = .returns (.error code) := by
  induction chunks generalizing d with
  | nil => exact .inl ⟨d, rfl, hr, by simp, here⟩
  | cons c chunks ih =>
      have shape : input.drop d.pos = (c.digits ++ c.extension.text) ++
          (CRLF ++ (c.data ++ (CRLF ++ (chunks.flatMap ExtendedChunk.encode ++ rest)))) := by
        rw [here]
        simp [ExtendedChunk.encode]
      have bound : value 16 c.digits < 2 ^ 64 := by
        have := congrArg List.length shape
        simp only [List.length_drop, List.length_append] at this
        rw [c.size]
        omega
      obtain ⟨clean, read⟩ := c.extension.line c.spelled.1 c.spelled.2 bound
      rw [c.size] at read
      have line : SizeLine input d.pos c.data.length _ :=
        ⟨_, _, shape, clean, by simp [c.spelled.1], read, rfl⟩
      rcases decodeTurn_chunk hr short line (drop_line shape) c.nonempty with
        ⟨d', turn, hr', buf, pos⟩ | ⟨refused, code, fail⟩
      · have rest : input.drop d'.pos = chunks.flatMap ExtendedChunk.encode ++ rest := by
          rw [pos]
          exact drop_line (drop_line shape)
        rw [decodeLoop_next turn]
        rcases ih hr' rest with ⟨d'', through, hr'', buf', rest'⟩ | refused
        · exact .inl ⟨d'', through, hr'', by rw [buf', buf]; simp, rest'⟩
        · exact .inr refused
      · refine .inr ⟨refused, code, decodeLoop_fail ?_ fail⟩
        have := congrArg List.length shape
        simp [CRLF] at this
        omega

/-- The closing line ends the loop. -/
theorem decodeLoop_last {line rest : Bytes} (hr : Roomy d) (allocated : ∀ site, granted site = true)
    (here : input.drop d.pos = line ++ (CRLF ++ rest)) (clean : ¬ CRLF <:+: line)
    (nonempty : line ≠ []) (size : strtoul16 line = some 0) :
    decodeLoop granted input d = .returns (.ok d.buf) := by
  have turn : decodeTurn granted input d = .returns .finish := by
    rw [decodeTurn_line ⟨line, rest, here, clean, nonempty, size, rfl⟩, allocated]
    rfl
  have inside : d.pos < input.length := by
    have := congrArg List.length here
    simp [CRLF] at this
    omega
  have := hr.fits
  rw [decodeLoop_finish inside turn, decodeLoop.finish, if_neg]
  omega

/-- A body is decoded whichever way it was sent. -/
theorem decodeLoop_body (b : ChunkedBody) (allocated : ∀ site, granted site = true)
    (short : b.text.length < 2 ^ 63) :
    decodeLoop granted b.text ⟨0, 1024, []⟩ = .returns (.ok b.data) := by
  rcases @decodeLoop_through granted b.text ⟨0, 1024, []⟩ b.chunks _ roomy_start short rfl with
    ⟨d', through, hr', buf, rest⟩ | ⟨⟨site, refused⟩, -⟩
  · have zeros : ∀ c ∈ List.replicate (b.zeros + 1) (48 : UInt8), isBase 16 c = true := by
      intro c mem
      rw [List.eq_of_mem_replicate mem]
      decide
    have none : value 16 (List.replicate (b.zeros + 1) 48) = 0 := by
      generalize b.zeros + 1 = n
      induction n with
      | zero => rfl
      | succ n ih => exact ih
    obtain ⟨clean, read⟩ := b.extension.line (by simp) zeros (by rw [none]; decide)
    rw [none] at read
    rw [through, decodeLoop_last hr' allocated rest clean (by simp [ChunkedBody.lastLine]) read, buf]
    rfl
  · rw [allocated] at refused
    cases refused

/-- Decoding undoes every way of sending a body in chunks, so two ways of sending one body decode
alike. -/
theorem decodeChunked_body {granted : Allocator} (allocated : ∀ site, granted site = true)
    (b : ChunkedBody) (short : b.text.length < 2 ^ 63) :
    decodeChunked granted b.text = .returns (.ok b.data) ∧
    ∀ b' : ChunkedBody, b'.text.length < 2 ^ 63 → b'.data = b.data →
      decodeChunked granted b'.text = decodeChunked granted b.text := by
  have decoded : ∀ b : ChunkedBody, b.text.length < 2 ^ 63 →
      decodeChunked granted b.text = .returns (.ok b.data) := by
    intro b short
    rw [decodeChunked, allocated, if_pos rfl, decodeLoop_body b allocated short]
  refine ⟨decoded b short, ?_⟩
  intro b' short' same
  rw [decoded b' short', decoded b short, same]

/-- A chunk that holds a CRLF, with a leading zero and an extension, and a closing line `00;last`. -/
theorem decodeChunked_body_extended :
    let b : ChunkedBody := ⟨[⟨⟨ascii "0A", ascii "a\r\nb\r\n3\r\nc", by decide, by decide, by decide⟩,
      ascii ";x=1", by rintro c ⟨⟩; rfl, by decide⟩], 1,
      ⟨ascii ";last", by rintro c ⟨⟩; rfl, by decide⟩, CRLF⟩
    decodeChunked (fun _ => true) b.text = .returns (.ok (ascii "a\r\nb\r\n3\r\nc")) := by
  intro b
  exact (@decodeChunked_body (fun _ => true) (fun _ => rfl) b (by decide)).1

/-- Chunk decoding undoes chunk encoding. -/
theorem decodeChunked_encodeChunks (chunks : List Chunk)
    (allocated : ∀ site, granted site = true) (short : (encodeChunks chunks).length < 2 ^ 63) :
    decodeChunked granted (encodeChunks chunks) = .returns (.ok (chunks.flatMap Chunk.data)) := by
  let b : ChunkedBody := ⟨chunks.map Chunk.extended, 0, .none, CRLF⟩
  have text : b.text = encodeChunks chunks := by
    simp [b, ChunkedBody.text, ChunkedBody.lastLine, encodeChunks, List.flatMap_map,
      Chunk.encode_extended, Extension.none, ascii]
  have data : b.data = chunks.flatMap Chunk.data := by
    simp [b, ChunkedBody.data, List.flatMap_map]
  rw [← text] at short ⊢
  rw [decodeChunked, allocated, if_pos rfl, decodeLoop_body b allocated short, data]

/-- `hello` in one chunk. -/
def helloChunk : Bytes := ascii "5\r\nhello\r\n0\r\n\r\n"

theorem decodeChunked_hello : decodeChunked (fun _ => true) helloChunk = .returns (.ok (ascii "hello")) :=
  decodeChunked_encodeChunks [⟨ascii "5", ascii "hello", ⟨by decide, by decide⟩, by decide, by decide⟩]
    (fun _ => rfl) (by decide +kernel)

end JustWeather.Http
