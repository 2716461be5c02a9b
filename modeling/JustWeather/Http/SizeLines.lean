import JustWeather.Http.ChunkBounds
import JustWeather.Http.ChunkCoding

/-! # The size lines that `decode_chunked` consumes

A size is whatever `strtoul` makes of a line, and the only check is that it made
something of it. In a run that succeeds a size is never saturated, so what is
left is the shape of the line.
-/

namespace JustWeather.Http

open CLib Machine

variable {granted : Allocator} {input : Bytes} {d : Decoder}

/-- A space or a tab. -/
def isBlank (c : UInt8) : Bool := c == 32 || c == 9

/-- The line that starts at `pos`. -/
def lineAt (input : Bytes) (pos : Nat) : Bytes := (input.drop pos).take (crlfOffset (input.drop pos))

/-- The outer loop comes to `d`. -/
inductive Comes (granted : Allocator) (input : Bytes) : Decoder → Prop where
  | start : Comes granted input ⟨0, 1024, []⟩
  | next {d d' : Decoder} : Comes granted input d →
      decodeTurn granted input d = .returns (.next d') → Comes granted input d'

/-- The turn at `d` consumes its size line and takes `n` bytes of data for it. -/
def Consumes (granted : Allocator) (input : Bytes) (d : Decoder) (line : Bytes) (n : Nat) : Prop :=
  line = lineAt input d.pos ∧
    ((∃ d', decodeTurn granted input d = .returns (.next d') ∧ d'.buf.length = d.buf.length + n) ∨
      decodeTurn granted input d = .returns .finish ∧ n = 0)

/-- Hexadecimal digits, and then nothing or blanks, `;` and an extension. -/
def LegalShape (line digits : Bytes) : Prop :=
  digits ≠ [] ∧ (∀ c ∈ digits, isBase 16 c = true) ∧ (line = digits ∨
    ∃ blanks text, (∀ c ∈ blanks, isBlank c = true) ∧ line = digits ++ (blanks ++ 59 :: text))

/-- A legal size line, for `n` bytes. -/
def LegalLine (line : Bytes) (n : Nat) : Prop :=
  ∃ digits, LegalShape line digits ∧ n = value 16 digits

/-- White space or a sign in front, or something behind the first digits (the `x` of a `0x`
included) that is not blanks and `;`. -/
def Lenient (line : Bytes) : Prop :=
  (∃ c ∈ line.head?, isSpace c = true ∨ c = 45 ∨ c = 43) ∨
    line.dropWhile (isBase 16) ≠ [] ∧
      ((line.dropWhile (isBase 16)).dropWhile isBlank).head? ≠ some 59

/-! ## Lines -/

theorem isBlank_stops {c : UInt8} (h : isBlank c = true ∨ c = 59) :
    isBase 16 c = false ∧ c ≠ 120 ∧ c ≠ 88 := by
  simp only [isBlank, isBase, digitOf, isDigit] at *
  grind

/-- What stands behind the digits of a legal line does not go on with a digit or an `x`. -/
theorem LegalShape.split {line digits : Bytes} (h : LegalShape line digits) :
    ∃ rest, line = digits ++ rest ∧ (∀ c ∈ rest.head?, isBlank c = true ∨ c = 59) ∧
      (rest = [] ∨ (rest.dropWhile isBlank).head? = some 59) := by
  obtain ⟨-, -, rfl | ⟨blanks, text, blank, rfl⟩⟩ := h
  · exact ⟨[], (List.append_nil _).symm, by simp, .inl rfl⟩
  · refine ⟨blanks ++ 59 :: text, rfl, ?_, .inr ?_⟩
    · cases blanks with
      | nil => simp
      | cons c blanks =>
          rintro _ ⟨⟩
          exact .inl (blank c List.mem_cons_self)
    · rw [dropWhile_append_stop blank (by simp [isBlank])]
      rfl

theorem LegalShape.not_lenient {line digits : Bytes} (h : LegalShape line digits) : ¬ Lenient line := by
  obtain ⟨rest, rfl, stop, ends⟩ := h.split
  have behind : (digits ++ rest).dropWhile (isBase 16) = rest :=
    dropWhile_append_stop h.2.1 fun c mem => (isBlank_stops (stop c mem)).1
  rintro (⟨c, mem, odd⟩ | ⟨more, other⟩)
  · obtain ⟨x, digits, rfl⟩ := List.exists_cons_of_ne_nil h.1
    cases mem
    have digit := h.2.1 c List.mem_cons_self
    rcases odd with space | minus | plus
    · rw [isBase_not_space (by decide) digit] at space
      cases space
    · exact (isBase_not_sign (by decide) digit).1 minus
    · exact (isBase_not_sign (by decide) digit).2 plus
  · rw [behind] at more other
    rcases ends with none | semicolon
    · exact more none
    · exact other semicolon

/-- A line that is read, and not leniently, is legal. -/
theorem legalShape_of_read {line : Bytes} {v : Nat} (read : strtoul16 line = some v)
    (strict : ¬ Lenient line) : ∃ digits, LegalShape line digits := by
  unfold Lenient at strict
  simp only [not_or, not_and, not_not, not_exists] at strict
  obtain ⟨front, back⟩ := strict
  refine ⟨line.takeWhile (isBase 16), ?_, fun c mem => List.mem_takeWhile_imp mem, ?_⟩
  · obtain ⟨c, t, rfl, kind⟩ := strtoul16_head read
    have plain := front c rfl
    have digit : isBase 16 c = true := by
      rcases kind with space | minus | plus | digit
      · exact absurd space plain.1
      · exact absurd minus plain.2.1
      · exact absurd plus plain.2.2
      · exact digit
    simp [digit]
  · by_cases more : line.dropWhile (isBase 16) = []
    · left
      have split := List.takeWhile_append_dropWhile (p := isBase 16) (l := line)
      rw [more, List.append_nil] at split
      exact split.symm
    · right
      have semicolon := back more
      cases behind : (line.dropWhile (isBase 16)).dropWhile isBlank with
      | nil => simp [behind] at semicolon
      | cons c text =>
          rw [behind, List.head?_cons, Option.some.injEq] at semicolon
          refine ⟨(line.dropWhile (isBase 16)).takeWhile isBlank, text,
            fun c mem => List.mem_takeWhile_imp mem, ?_⟩
          rw [← semicolon, ← behind, List.takeWhile_append_dropWhile, List.takeWhile_append_dropWhile]

/-- The size read off a legal line. -/
theorem LegalShape.read {line digits : Bytes} (h : LegalShape line digits) :
    strtoul16 line = some (min (value 16 digits) (2 ^ 64 - 1)) := by
  obtain ⟨rest, rfl, stop, -⟩ := h.split
  exact strtoul16_numeral h.1 h.2.1 fun c mem => isBlank_stops (stop c mem)

/-! ## Runs -/

theorem Comes.at (short : input.length < 2 ^ 63) (h : Comes granted input d) : At input d := by
  induction h with
  | start => exact ⟨roomy_start, .start⟩
  | @next d d' _ turn ih =>
      have turned := @decodeTurn_turned granted input d ih.roomy short
      rw [turn] at turned
      cases turned with
      | taken line some_ closed roomy => exact ih.taken line some_ closed roomy

/-- The result is that of the loop from any decoder it comes to. -/
theorem Comes.result (h : Comes granted input d) :
    decodeLoop granted input d = decodeLoop granted input ⟨0, 1024, []⟩ := by
  induction h with
  | start => rfl
  | next _ turn ih => rw [← ih, decodeLoop_next turn]

variable {out : Bytes}

/-- In a run that succeeds, every turn takes a chunk or finishes. -/
theorem turn_of_ok (inside : d.pos < input.length)
    (ok : decodeLoop granted input d = .returns (.ok out)) :
    (∃ d', decodeTurn granted input d = .returns (.next d')) ∨
      decodeTurn granted input d = .returns .finish := by
  cases turn : decodeTurn granted input d with
  | returns t =>
      cases t with
      | fail code =>
          rw [decodeLoop_fail inside turn] at ok
          cases ok
      | finish => exact .inr rfl
      | next d' => exact .inl ⟨d', rfl⟩
  | undefined =>
      rw [decodeLoop_undefined inside turn] at ok
      cases ok
  | diverges =>
      rw [decodeLoop_diverges inside turn] at ok
      cases ok

theorem chunkData_ne_finish {pos size : Nat} :
    chunkData granted input d pos size ≠ .returns .finish := by
  intro finish
  rw [chunkData] at finish
  split at finish
  · cases finish
  · obtain ⟨room, -, rest⟩ := Exec.andThen_eq_returns.mp finish
    cases room with
    | none => cases rest
    | some alloc =>
        simp only at rest
        split at rest
        · split at rest <;> cases rest
        · cases rest

/-- A turn that takes a chunk has read its size. -/
theorem size_of_next {d' : Decoder} (turn : decodeTurn granted input d = .returns (.next d')) :
    ∃ size pos, SizeLine input d.pos size pos ∧ size ≠ 0 ∧ size ≤ input.length ∧
      d'.pos = pos + size + 2 ∧ d'.buf.length = d.buf.length + size := by
  rcases @decodeTurn_cases granted input d with ⟨code, fail⟩ | ⟨size, pos, line⟩
  · rw [fail] at turn
    cases turn
  · rw [decodeTurn_line line] at turn
    split at turn
    · cases turn
    · split at turn
      · cases turn
      · next some_ =>
          obtain ⟨fits, behind, buf, -⟩ := chunkData_next turn
          refine ⟨size, pos, line, some_, by omega, behind, ?_⟩
          rw [buf, List.length_append, List.length_take, List.length_drop, Nat.min_eq_left (by omega)]

/-- The turn that finishes has read 0. -/
theorem size_of_finish (turn : decodeTurn granted input d = .returns .finish) :
    ∃ pos, SizeLine input d.pos 0 pos := by
  rcases @decodeTurn_cases granted input d with ⟨code, fail⟩ | ⟨size, pos, line⟩
  · rw [fail] at turn
    cases turn
  · rw [decodeTurn_line line] at turn
    split at turn
    · cases turn
    · split at turn
      · next zero => exact ⟨pos, zero ▸ line⟩
      · exact absurd turn chunkData_ne_finish

/-- The bytes taken for a line are as many as `strtoul` says. -/
theorem Consumes.read {line : Bytes} {n : Nat} (h : Consumes granted input d line n) :
    strtoul16 line = some n ∧ n ≤ input.length ∧ d.pos < input.length := by
  obtain ⟨rfl, ⟨d', turn, taken⟩ | ⟨turn, rfl⟩⟩ := h
  · obtain ⟨size, pos, line, -, fits, -, grown⟩ := size_of_next turn
    obtain rfl : n = size := by omega
    exact ⟨line.read.1, fits, Nat.lt_of_lt_of_le line.inside.1 line.inside.2.1⟩
  · obtain ⟨pos, line⟩ := size_of_finish turn
    exact ⟨line.read.1, Nat.zero_le _, Nat.lt_of_lt_of_le line.inside.1 line.inside.2.1⟩

/-- In a run that succeeds every turn consumes a line. -/
theorem consumes_of_ok (inside : d.pos < input.length)
    (ok : decodeLoop granted input d = .returns (.ok out)) :
    ∃ n, Consumes granted input d (lineAt input d.pos) n := by
  rcases turn_of_ok inside ok with ⟨d', turn⟩ | finish
  · obtain ⟨size, -, -, -, -, -, grown⟩ := size_of_next turn
    exact ⟨size, rfl, .inl ⟨d', turn, grown⟩⟩
  · exact ⟨0, rfl, .inr ⟨finish, rfl⟩⟩

/-- In a run that succeeds the loop comes to every chunk boundary. -/
theorem Boundary.comes {pos n : Nat} (ok : decodeLoop granted input ⟨0, 1024, []⟩ = .returns (.ok out))
    (h : Boundary input pos n) : ∃ d, Comes granted input d ∧ d.pos = pos := by
  induction h with
  | start => exact ⟨_, .start, rfl⟩
  | @chunk start n size pos _ line some_ _ ih =>
      obtain ⟨d, comes, rfl⟩ := ih
      have inside : d.pos < input.length := Nat.lt_of_lt_of_le line.inside.1 line.inside.2.1
      rcases turn_of_ok inside (comes.result.trans ok) with ⟨d', turn⟩ | finish
      · refine ⟨d', comes.next turn, ?_⟩
        obtain ⟨size', pos', line', -, -, behind, -⟩ := size_of_next turn
        obtain ⟨read, rfl⟩ := line.read
        obtain ⟨read', rfl⟩ := line'.read
        rw [behind, Option.some.inj (read'.symm.trans read)]
      · obtain ⟨pos', line'⟩ := size_of_finish finish
        exact absurd (Option.some.inj (line.read.1.symm.trans line'.read.1)) some_

/-- A decoding that succeeds has consumed legal size lines only, exactly when no line at a chunk
boundary is one that only `strtoul` takes for a size. -/
theorem decodeChunked_legal_iff (short : input.length < 2 ^ 63)
    (ok : decodeChunked granted input = .returns (.ok out)) :
    (∀ d line n, Comes granted input d → Consumes granted input d line n → LegalLine line n) ↔
      ∀ pos n, Boundary input pos n → pos < input.length → ¬ Lenient (lineAt input pos) := by
  have run : decodeLoop granted input ⟨0, 1024, []⟩ = .returns (.ok out) := by
    rw [decodeChunked] at ok
    split at ok
    · exact ok
    · cases ok
  constructor
  · intro legal pos n boundary inside
    obtain ⟨d, comes, rfl⟩ := boundary.comes run
    obtain ⟨n, consumes⟩ := consumes_of_ok inside (comes.result.trans run)
    obtain ⟨digits, shape, -⟩ := legal d _ n comes consumes
    exact shape.not_lenient
  · intro strict d line n comes consumes
    obtain ⟨read, fits, inside⟩ := consumes.read
    have here := strict d.pos d.buf.length (comes.at short).boundary inside
    rw [← consumes.1] at here
    obtain ⟨digits, shape⟩ := legalShape_of_read read here
    refine ⟨digits, shape, ?_⟩
    -- a saturated size would be larger than the input
    have size := Option.some.inj (read.symm.trans shape.read)
    omega

/-- The lines of one chunk and of the last one. -/
theorem decodeChunked_legal_hello :
    decodeChunked (fun _ => true) (ascii "5\r\nhello\r\n0\r\n\r\n") = .returns (.ok (ascii "hello")) ∧
    ∀ d line n, Comes (fun _ => true) (ascii "5\r\nhello\r\n0\r\n\r\n") d →
      Consumes (fun _ => true) (ascii "5\r\nhello\r\n0\r\n\r\n") d line n → LegalLine line n := by
  have starts : ∀ pos n, Boundary (ascii "5\r\nhello\r\n0\r\n\r\n") pos n → pos = 0 ∨ pos = 10 := by
    intro pos n boundary
    induction boundary with
    | start => exact .inl rfl
    | chunk _ line some_ _ ih =>
        obtain ⟨read, behind⟩ := line.read
        rcases ih with rfl | rfl
        · have five := Option.some.inj (read.symm.trans (by decide +kernel : _ = some 5))
          have two : crlfOffset ((ascii "5\r\nhello\r\n0\r\n\r\n").drop 0) = 1 := by decide +kernel
          omega
        · exact absurd (Option.some.inj (read.symm.trans (by decide +kernel : _ = some 0))) some_
  refine ⟨decodeChunked_hello, (decodeChunked_legal_iff (by decide) decodeChunked_hello).mpr ?_⟩
  intro pos n boundary _
  rcases starts pos n boundary with rfl | rfl
  · have shape : LegalShape (lineAt helloChunk 0) (ascii "5") :=
      ⟨by decide, by decide, .inl (by decide +kernel)⟩
    exact shape.not_lenient
  · have shape : LegalShape (lineAt helloChunk 10) (ascii "0") :=
      ⟨by decide, by decide, .inl (by decide +kernel)⟩
    exact shape.not_lenient

/-- A size with a sign. -/
theorem decodeChunked_takes_sign :
    decodeChunked (fun _ => true) (ascii "+5\r\nhello\r\n0\r\n\r\n") =
      .returns (.ok (ascii "hello")) ∧
    Comes (fun _ => true) (ascii "+5\r\nhello\r\n0\r\n\r\n") ⟨0, 1024, []⟩ ∧
    Consumes (fun _ => true) (ascii "+5\r\nhello\r\n0\r\n\r\n") ⟨0, 1024, []⟩ (ascii "+5") 5 ∧
    ¬ LegalLine (ascii "+5") 5 := by
  have chunk : decodeTurn (fun _ => true) (ascii "+5\r\nhello\r\n0\r\n\r\n") ⟨0, 1024, []⟩ =
      .returns (.next ⟨11, 1024, ascii "hello"⟩) := by decide +kernel
  have last : decodeTurn (fun _ => true) (ascii "+5\r\nhello\r\n0\r\n\r\n")
      ⟨11, 1024, ascii "hello"⟩ = .returns .finish := by decide +kernel
  refine ⟨?_, .start, ⟨by decide +kernel, .inl ⟨_, chunk, rfl⟩⟩, ?_⟩
  · rw [decodeChunked, if_pos rfl, decodeLoop_next chunk, decodeLoop_finish (by decide) last]
    rfl
  · rintro ⟨digits, shape, -⟩
    exact shape.not_lenient (.inl ⟨43, rfl, .inr (.inr rfl)⟩)

end JustWeather.Http
