import JustWeather.Http.ChunkCoding

/-! # Chunked bodies cut short

A body that ends inside a line or inside the data of a chunk is refused. The outer loop tests for
the end of the input before each chunk, so a body that ends between two chunks is taken as a whole.
-/

namespace JustWeather.Http

open CLib

/-- A piece of a chunk, or of the closing line. -/
def Piece (chunks : List Chunk) (q : Bytes) : Prop :=
  q ≠ [] ∧ (q <+: ascii "0" ++ [CR] ∨ ∃ c ∈ chunks, q <+: c.encode ∧ q ≠ c.encode)

/-- A cut body is some whole chunks, and nothing or a piece. -/
theorem cut_split (chunks : List Chunk) {p : Bytes} (cut : p <+: encodeChunks chunks)
    (unclosed : p.length < (chunks.flatMap Chunk.encode).length + 3) :
    ∃ n q, p = (chunks.take n).flatMap Chunk.encode ++ q ∧ (q = [] ∨ Piece chunks q) := by
  induction chunks generalizing p with
  | nil =>
      refine ⟨0, p, rfl, ?_⟩
      by_cases empty : p = []
      · exact .inl empty
      · refine .inr ⟨empty, .inl ?_⟩
        have line : ascii "0" ++ [CR] <+: encodeChunks [] := by decide
        apply List.prefix_of_prefix_length_le cut line
        have two : (ascii "0" ++ [CR]).length = 2 := rfl
        simp only [List.flatMap_nil, List.length_nil] at unclosed
        omega
  | cons c chunks ih =>
      have shape : encodeChunks (c :: chunks) = c.encode ++ encodeChunks chunks := by
        simp [encodeChunks]
      rw [shape] at cut
      rcases List.prefix_or_prefix_of_prefix cut (List.prefix_append _ _) with within | whole
      · by_cases all : p = c.encode
        · exact ⟨1, [], by simp [all], .inl rfl⟩
        · refine ⟨0, p, rfl, ?_⟩
          by_cases empty : p = []
          · exact .inl empty
          · exact .inr ⟨empty, .inr ⟨c, by simp, within, all⟩⟩
      · obtain ⟨p', rfl⟩ := whole
        rw [List.prefix_append_right_inj] at cut
        simp only [List.flatMap_cons, List.length_append] at unclosed
        obtain ⟨n, q, split, last⟩ := ih cut (by omega)
        refine ⟨n + 1, q, by simp [split], last.imp_right ?_⟩
        rintro ⟨some_, inLine | ⟨c', mem, within, part⟩⟩
        · exact ⟨some_, .inl inLine⟩
        · exact ⟨some_, .inr ⟨c', by simp [mem], within, part⟩⟩

variable {granted : Allocator} {input : Bytes} {d : Decoder}

/-- No line end: the search runs to the end of the input. -/
theorem decodeTurn_open (clean : ¬ CRLF <:+: input.drop d.pos) :
    decodeTurn granted input d = .returns (.fail (-3)) := by
  simp only [decodeTurn, crlfOffset_none clean, le_refl, if_true]

/-- Data that ends early, or without the CRLF behind it. -/
theorem chunkData_cut {data r : Bytes} {pos : Nat} (hr : Roomy d) (short : input.length < 2 ^ 63)
    (small : data.length < 2 ^ 63) (on : d.pos ≤ pos) (inside : pos ≤ input.length)
    (here : input.drop pos = r) (within : r <+: data ++ CRLF) (part : r ≠ data ++ CRLF) :
    ∃ code, chunkData granted input d pos data.length = .returns (.fail code) := by
  have consumed := hr.consumed
  have size : input.length = pos + r.length := by
    rw [← here, List.length_drop]
    omega
  have shorter : r.length < data.length + 2 := by
    rcases Nat.lt_or_ge r.length (data ++ CRLF).length with less | all
    · simpa [CRLF] using less
    · exact absurd (within.eq_of_length_le all) part
  have noWrap : wrap64 (pos + data.length) = pos + data.length := Nat.mod_eq_of_lt (by omega)
  rw [chunkData, noWrap]
  split
  · exact ⟨-7, rfl⟩
  · next enough =>
      rcases @makeRoom_roomy granted d pos data.length hr (by omega) with
        ⟨j, hj, room, fits⟩ | ⟨-, room⟩
      · have inBounds : pos + data.length ≤ input.length ∧ d.buf.length + data.length ≤ 2 ^ j :=
          ⟨by omega, by omega⟩
        have unclosed : CRLF.isPrefixOf (input.drop (pos + data.length)) = false := by
          rw [Bool.eq_false_iff, Ne, List.isPrefixOf_iff_prefix]
          intro closed
          have := closed.length_le
          simp [CRLF] at this
          omega
        refine ⟨-9, ?_⟩
        rw [room]
        simp only [Exec.andThen_returns, if_pos inBounds, unclosed, Bool.false_eq_true, if_false]
      · exact ⟨-8, by rw [room]; rfl⟩

theorem Chunk.noLF (c : Chunk) : LF ∉ c.digits ++ [CR] := by
  intro mem
  rcases List.mem_append.mp mem with digit | cr
  · exact absurd (c.spelled.2 LF digit) (by decide)
  · exact absurd cr (by decide)

theorem noCRLF_of_noLF {s t : Bytes} (within : s <+: t) (clean : LF ∉ t) : ¬ CRLF <:+: s :=
  fun inside => clean (within.subset (inside.subset (by decide)))

/-- A turn that meets a piece fails. -/
theorem decodeTurn_piece {chunks : List Chunk} (hr : Roomy d) (short : input.length < 2 ^ 63)
    (small : ∀ c ∈ chunks, c.data.length < 2 ^ 63) (piece : Piece chunks (input.drop d.pos)) :
    ∃ code, decodeTurn granted input d = .returns (.fail code) := by
  obtain ⟨some_, inLine | ⟨c, mem, within, part⟩⟩ := piece
  · exact ⟨-3, decodeTurn_open (noCRLF_of_noLF inLine (by decide))⟩
  · have lineEnd : c.digits ++ [CR] <+: c.encode := ⟨[LF] ++ (c.data ++ CRLF), by simp [Chunk.encode, CRLF]⟩
    rcases Nat.lt_or_ge (c.digits ++ [CR]).length (input.drop d.pos).length with longer | shorter
    · have line : c.digits ++ CRLF <+: input.drop d.pos := by
        apply List.prefix_of_prefix_length_le _ within
        · simp only [CRLF, List.length_append, List.length_cons, List.length_nil] at longer ⊢
          omega
        · exact ⟨c.data ++ CRLF, by simp [Chunk.encode]⟩
      obtain ⟨r, here⟩ := line
      rw [List.append_assoc] at here
      have bound := small c mem
      have clean : ¬ CRLF <:+: c.digits := noCRLF_of_noLF (List.prefix_append _ [CR]) c.noLF
      have read := @strtoul16_digits c.digits [] c.spelled.1 c.spelled.2 (by simp)
        (by rw [c.size]; omega)
      rw [List.append_nil, c.size] at read
      rw [decodeTurn_line ⟨_, r, here.symm, clean, c.spelled.1, read, rfl⟩]
      split
      · exact ⟨-5, rfl⟩
      · rw [if_neg fun h => c.nonempty (List.eq_nil_of_length_eq_zero h)]
        rw [← here, Chunk.encode, List.prefix_append_right_inj, List.prefix_append_right_inj] at within
        rw [← here, Chunk.encode] at part
        have long := congrArg List.length here
        simp only [CRLF, List.length_append, List.length_cons, List.length_drop] at long
        refine chunkData_cut hr short bound (by omega) (by omega) (drop_line here.symm) within ?_
        rintro rfl
        exact part rfl
    · have within' := List.prefix_of_prefix_length_le within lineEnd shorter
      exact ⟨-3, decodeTurn_open (noCRLF_of_noLF within' c.noLF)⟩

/-- A cut body is refused exactly when it is not cut between two chunks. -/
theorem decodeChunked_cut_iff (chunks : List Chunk) {p : Bytes}
    (small : (chunks.flatMap Chunk.data).length < 2 ^ 63) (short : p.length < 2 ^ 63)
    (cut : p <+: encodeChunks chunks)
    (unclosed : p.length < (chunks.flatMap Chunk.encode).length + 3) :
    (∀ granted, ∃ code, decodeChunked granted p = .returns (.error code)) ↔
      ∀ n, p ≠ (chunks.take n).flatMap Chunk.encode := by
  have through : ∀ n q, p = (chunks.take n).flatMap Chunk.encode ++ q →
      p.drop 0 = ((chunks.take n).map Chunk.extended).flatMap ExtendedChunk.encode ++ q := by
    intro n q split
    rw [List.drop_zero, split, List.flatMap_map]
    simp
  constructor
  · rintro refused n whole
    obtain ⟨code, error⟩ := refused fun _ => true
    rw [decodeChunked, if_pos rfl] at error
    rcases decodeLoop_through _ roomy_start short (through n [] (by simpa using whole)) with
      ⟨d', through, hr', -, rest⟩ | ⟨⟨site, refused⟩, -⟩
    · have ends : ¬ d'.pos < p.length := by
        have := List.drop_eq_nil_iff.mp rest
        omega
      have fits := hr'.fits
      rw [through, decodeLoop, if_neg ends, decodeLoop.finish, if_neg (by omega)] at error
      cases error
    · cases refused
  · intro notWhole granted
    obtain ⟨n, q, split, last⟩ := cut_split chunks cut unclosed
    have piece : Piece chunks q := by
      rcases last with rfl | piece
      · exact absurd (by simpa using split) (notWhole n)
      · exact piece
    have sizes : ∀ c ∈ chunks, c.data.length < 2 ^ 63 := by
      intro c mem
      have := (List.sublist_flatten_of_mem (List.mem_map_of_mem (f := Chunk.data) mem)).length_le
      rw [← List.flatMap_def] at this
      omega
    rw [decodeChunked]
    split
    · rcases decodeLoop_through _ roomy_start short (through n q split) with
        ⟨d', through, hr', -, rest⟩ | ⟨-, error⟩
      · rw [← rest] at piece
        obtain ⟨code, fail⟩ := @decodeTurn_piece granted p d' chunks hr' short sizes piece
        have inside : d'.pos < p.length := by
          by_contra ends
          exact piece.1 (List.drop_eq_nil_iff.mpr (by omega))
        exact ⟨code, by rw [through, decodeLoop_fail inside fail]⟩
      · exact error
    · exact ⟨-2, rfl⟩

/-- A chunk of one byte. -/
def oneByte (c : UInt8) : Chunk := ⟨ascii "1", [c], by decide, rfl, by simp⟩

/-- A body cut in the CRLF behind its only chunk. -/
theorem decodeChunked_cut_in_crlf :
    (∀ n, ascii "1\r\na\r" ≠ ([oneByte 97].take n).flatMap Chunk.encode) ∧
    ∀ granted, ∃ code, decodeChunked granted (ascii "1\r\na\r") = .returns (.error code) := by
  have inside : ∀ n, ascii "1\r\na\r" ≠ ([oneByte 97].take n).flatMap Chunk.encode := by
    intro n
    cases n with
    | zero => decide
    | succ n =>
        rw [List.take_succ_cons, List.take_nil]
        decide
  exact ⟨inside,
    (decodeChunked_cut_iff _ (by decide) (by decide) (by decide) (by decide)).mpr inside⟩

/-- A body cut between its two chunks is taken for the first of them. -/
theorem decodeChunked_accepts_cut :
    ¬ ∀ (chunks : List Chunk) (p : Bytes), (chunks.flatMap Chunk.data).length < 2 ^ 63 →
      p <+: encodeChunks chunks → p.length < (chunks.flatMap Chunk.encode).length + 3 →
      ∃ code, decodeChunked (fun _ => true) p = .returns (.error code) := by
  intro claim
  have cut : ascii "1\r\na\r\n" <+: encodeChunks [oneByte 97, oneByte 98] := by decide
  obtain ⟨code, error⟩ := claim _ _ (by decide) cut (by decide)
  have turn : decodeTurn (fun _ => true) (ascii "1\r\na\r\n") ⟨0, 1024, []⟩ =
      .returns (.next ⟨6, 1024, ascii "a"⟩) := by decide +kernel
  rw [decodeChunked, if_pos rfl, decodeLoop_next turn, decodeLoop, if_neg (by decide),
    decodeLoop.finish, if_neg (by decide)] at error
  cases error

end JustWeather.Http
