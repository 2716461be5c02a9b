import JustWeather.Http.Chunked

/-! # One turn of `decode_chunked`

The invariant of the outer loop is that the capacity is a power of two which has
not wrapped, and that no more was decoded than was read. Under it one turn takes
exactly one chunk, whatever bytes the chunk holds; a turn that does not return
has read a size for which a sum wraps.
-/

namespace JustWeather.Http

open CLib

/-- A line ends at the first CRLF. -/
theorem crlfOffset_line {line : Bytes} (s : Bytes) (clean : ¬ CRLF <:+: line) :
    crlfOffset (line ++ (CRLF ++ s)) = line.length := by
  induction line with
  | nil => simp [crlfOffset, CRLF]
  | cons c line ih =>
      have later : ¬ CRLF <:+: line := fun inside => clean (List.infix_cons_iff.mpr (.inr inside))
      have notHere : CRLF.isPrefixOf (c :: (line ++ (CRLF ++ s))) = false := by
        rw [Bool.eq_false_iff, Ne, List.isPrefixOf_iff_prefix]
        intro here
        obtain ⟨cr, rest⟩ := List.cons_prefix_cons.mp here
        cases line with
        | nil => exact absurd (List.cons_prefix_cons.mp rest).1 (by decide)
        | cons next line =>
            refine clean (List.IsPrefix.isInfix ?_)
            rw [← cr, ← (List.cons_prefix_cons.mp rest).1]
            exact ⟨line, rfl⟩
      simp [crlfOffset, notHere, ih later]

theorem crlfOffset_none {s : Bytes} (clean : ¬ CRLF <:+: s) : crlfOffset s = s.length := by
  induction s with
  | nil => rfl
  | cons c s ih =>
      rw [List.infix_cons_iff, not_or, ← List.isPrefixOf_iff_prefix] at clean
      rw [crlfOffset, if_neg clean.1, ih clean.2, List.length_cons]

/-- Where the search ends before the end, it ends at a CRLF, and there is none before it. -/
theorem crlfOffset_split {s : Bytes} (found : crlfOffset s < s.length) :
    s = s.take (crlfOffset s) ++ (CRLF ++ s.drop (crlfOffset s + 2)) ∧
      ¬ CRLF <:+: s.take (crlfOffset s) := by
  induction s with
  | nil => exact absurd found (Nat.not_lt_zero _)
  | cons c s ih =>
      rw [crlfOffset] at found ⊢
      split at found
      · next here =>
          obtain ⟨rest, split⟩ := List.isPrefixOf_iff_prefix.mp here
          rw [if_pos here, ← split]
          exact ⟨rfl, by rw [List.take_zero]; decide⟩
      · next other =>
          rw [if_neg other]
          obtain ⟨split, clean⟩ := ih (Nat.lt_of_succ_lt_succ found)
          refine ⟨congrArg (c :: ·) split, ?_⟩
          rw [List.take_succ_cons, List.infix_cons_iff, not_or]
          refine ⟨fun here => other ?_, clean⟩
          rw [List.isPrefixOf_iff_prefix]
          exact here.trans (List.cons_prefix_cons.mpr ⟨rfl, List.take_prefix _ _⟩)

/-- At `start` stands a line that is read as `size`, and `pos` is behind it. -/
def SizeLine (input : Bytes) (start size pos : Nat) : Prop :=
  ∃ line rest, input.drop start = line ++ (CRLF ++ rest) ∧ ¬ CRLF <:+: line ∧ line ≠ [] ∧
    strtoul16 line = some size ∧ pos = start + line.length + 2

/-- Behind a line is what follows it. -/
theorem drop_line {input line rest : Bytes} {start : Nat}
    (here : input.drop start = line ++ (CRLF ++ rest)) :
    input.drop (start + line.length + 2) = rest := by
  rw [← List.drop_drop, ← List.drop_drop, here, List.drop_left]
  rfl

theorem SizeLine.inside {input : Bytes} {start size pos : Nat} (line : SizeLine input start size pos) :
    start < pos ∧ pos ≤ input.length ∧ size < 2 ^ 64 := by
  obtain ⟨line, rest, here, -, nonempty, read, rfl⟩ := line
  have long := congrArg List.length here
  simp only [List.length_drop, List.length_append, CRLF, List.length_cons, List.length_nil] at long
  exact ⟨by omega, by omega, strtoul16_lt read⟩

/-- A size line is the one that the search finds. -/
theorem SizeLine.read {input : Bytes} {start size pos : Nat} (line : SizeLine input start size pos) :
    strtoul16 ((input.drop start).take (crlfOffset (input.drop start))) = some size ∧
      pos = start + crlfOffset (input.drop start) + 2 := by
  obtain ⟨line, rest, here, clean, -, read, rfl⟩ := line
  rw [here, crlfOffset_line rest clean, List.take_left]
  exact ⟨read, rfl⟩

theorem noCRLF_of_noCR {s : Bytes} (clean : CR ∉ s) : ¬ CRLF <:+: s :=
  fun inside => clean (inside.subset (by decide))

theorem wrap64_double {k : Nat} (below : k < 63) : wrap64 (2 ^ k * 2) = 2 ^ (k + 1) := by
  rw [wrap64, ← Nat.pow_succ, Nat.mod_eq_of_lt]
  exact Nat.pow_lt_pow_right (by decide) (by omega)

/-- Doubling a power of two reaches any need up to 2^63 before it wraps. -/
theorem growLoop_pow {need fuel k : Nat} (small : need ≤ 2 ^ 63) (hk : k ≤ 63)
    (enough : 63 < fuel + k) :
    ∃ j, j ≤ 63 ∧ growLoop fuel need (2 ^ k) = some (2 ^ j) ∧ need ≤ 2 ^ j := by
  induction fuel generalizing k with
  | zero => omega
  | succ fuel ih =>
      rw [growLoop]
      split
      · next less =>
          have below : k < 63 := by
            by_contra h
            have : k = 63 := by omega
            subst this
            omega
          have double : wrap64 (2 ^ k * 2) = 2 ^ (k + 1) := wrap64_double below
          rw [double]
          exact ih (by omega) (by omega)
      · next enough => exact ⟨k, hk, rfl, by omega⟩

/-- A capacity that doubling has made: a power of two, or 0 once it has wrapped. -/
def Doubled (alloc : Nat) : Prop := alloc = 0 ∨ ∃ k, k ≤ 63 ∧ alloc = 2 ^ k

theorem Doubled.le {alloc : Nat} (h : Doubled alloc) : alloc ≤ 2 ^ 63 := by
  rcases h with rfl | ⟨k, hk, rfl⟩
  · exact Nat.zero_le _
  · exact Nat.pow_le_pow_right (by decide) hk

theorem Doubled.double {alloc : Nat} (h : Doubled alloc) : Doubled (wrap64 (alloc * 2)) := by
  rcases h with rfl | ⟨k, hk, rfl⟩
  · exact .inl rfl
  · rcases Nat.lt_or_ge k 63 with below | top
    · exact .inr ⟨k + 1, below, wrap64_double below⟩
    · obtain rfl : k = 63 := by omega
      exact .inl (by decide)

/-- No doubling reaches a need above 2^63. -/
theorem growLoop_none {need fuel alloc : Nat} (large : 2 ^ 63 < need) (h : Doubled alloc) :
    growLoop fuel need alloc = none := by
  induction fuel generalizing alloc with
  | zero => rfl
  | succ fuel ih =>
      have := h.le
      rw [growLoop, if_pos (by omega)]
      exact ih h.double

/-- The loop invariant. -/
structure Roomy (d : Decoder) : Prop where
  capacity : ∃ k, k ≤ 63 ∧ d.alloc = 2 ^ k
  fits : d.buf.length < d.alloc
  consumed : d.buf.length ≤ d.pos

theorem roomy_start : Roomy ⟨0, 1024, []⟩ := ⟨⟨10, by decide, rfl⟩, by decide, Nat.le_refl _⟩

/-- Room is made, unless the allocator refuses it. -/
theorem makeRoom_roomy {granted : Allocator} {d : Decoder} {pos size : Nat} (hr : Roomy d)
    (small : d.buf.length + size + 1 ≤ 2 ^ 63) :
    (∃ j, j ≤ 63 ∧ makeRoom granted d pos size = .returns (some (2 ^ j)) ∧
      d.buf.length + size + 1 ≤ 2 ^ j) ∨
    granted (.chunkGrow pos) = false ∧ makeRoom granted d pos size = .returns none := by
  obtain ⟨k, hk, capacity⟩ := hr.capacity
  have need : wrap64 (d.buf.length + size + 1) = d.buf.length + size + 1 :=
    Nat.mod_eq_of_lt (Nat.lt_of_le_of_lt small (by decide))
  simp only [makeRoom, need]
  split
  · obtain ⟨j, hj, grown, enough⟩ := @growLoop_pow _ 65 k small hk (by omega)
    rw [grow, capacity, grown]
    cases allocated : granted (.chunkGrow pos) with
    | true => exact .inl ⟨j, hj, rfl, enough⟩
    | false => exact .inr ⟨rfl, rfl⟩
  · next enough => exact .inl ⟨k, hk, by rw [capacity], by omega⟩

variable {granted : Allocator} {input : Bytes} {d : Decoder}

/-- The data of a chunk that is all there is taken over, unless the allocator refuses the room. -/
theorem chunkData_chunk {data rest : Bytes} {pos : Nat} (hr : Roomy d)
    (short : input.length < 2 ^ 63) (on : d.pos ≤ pos)
    (here : input.drop pos = data ++ (CRLF ++ rest)) :
    (∃ d', chunkData granted input d pos data.length = .returns (.next d') ∧ Roomy d' ∧
      d'.buf = d.buf ++ data ∧ d'.pos = pos + data.length + 2) ∨
    granted (.chunkGrow pos) = false ∧
      chunkData granted input d pos data.length = .returns (.fail (-8)) := by
  have consumed := hr.consumed
  have total : input.length = pos + data.length + 2 + rest.length := by
    have lens := congrArg List.length here
    simp only [List.length_drop, List.length_append, CRLF, List.length_cons, List.length_nil] at lens
    omega
  have afterData : input.drop (pos + data.length) = CRLF ++ rest := by
    rw [← List.drop_drop, here, List.drop_left]
  have noWrap : wrap64 (pos + data.length) = pos + data.length := Nat.mod_eq_of_lt (by omega)
  have taken : (input.drop pos).take data.length = data := by
    rw [here, List.take_left]
  have closed : CRLF.isPrefixOf (input.drop (pos + data.length)) = true := by
    rw [afterData, List.isPrefixOf_iff_prefix]
    exact List.prefix_append _ _
  rw [chunkData, noWrap, if_neg (by omega)]
  rcases @makeRoom_roomy granted d pos data.length hr (by omega) with
    ⟨j, hj, room, enough⟩ | ⟨refused, room⟩
  · left
    have inBounds : pos + data.length ≤ input.length ∧ d.buf.length + data.length ≤ 2 ^ j :=
      ⟨by omega, by omega⟩
    refine ⟨⟨pos + data.length + 2, 2 ^ j, d.buf ++ data⟩, ?_, ⟨⟨j, hj, rfl⟩, ?_, ?_⟩, rfl, rfl⟩
    · rw [room]
      simp only [Exec.andThen_returns, if_pos inBounds, taken, closed, if_true]
    · simp only [List.length_append]
      omega
    · simp only [List.length_append]
      omega
  · exact .inr ⟨refused, by rw [room]; rfl⟩

/-- The value of the size line decides how a turn goes on. -/
theorem decodeTurn_line {size pos : Nat} (line : SizeLine input d.pos size pos) :
    decodeTurn granted input d =
      if granted (.sizeLine d.pos) = false then .returns (.fail (-5))
      else if size = 0 then .returns .finish
      else chunkData granted input d pos size := by
  obtain ⟨line, rest, here, clean, nonempty, read, rfl⟩ := line
  have search : crlfOffset (input.drop d.pos) = line.length := by
    rw [here, crlfOffset_line rest clean]
  have ends : ¬ (input.drop d.pos).length ≤ line.length := by
    rw [here]
    simp [CRLF]
  have line_ : line.length ≠ 0 := fun h => nonempty (List.eq_nil_of_length_eq_zero h)
  have sizeLine : (input.drop d.pos).take line.length = line := by
    rw [here, List.take_left]
  simp only [decodeTurn, search, if_neg ends, if_neg line_, Bool.not_eq_true', sizeLine, read]
  cases size with
  | zero => rfl
  | succ size => rfl

/-- Without such a line the turn fails. -/
theorem decodeTurn_cases :
    (∃ code, decodeTurn granted input d = .returns (.fail code)) ∨
    ∃ size pos, SizeLine input d.pos size pos := by
  rcases Nat.lt_or_ge (crlfOffset (input.drop d.pos)) (input.drop d.pos).length with found | open_
  · obtain ⟨split, clean⟩ := crlfOffset_split found
    by_cases empty : crlfOffset (input.drop d.pos) = 0
    · exact .inl ⟨-4, by simp only [decodeTurn, if_neg (Nat.not_le.mpr found), if_pos empty]⟩
    · cases read : strtoul16 ((input.drop d.pos).take (crlfOffset (input.drop d.pos))) with
      | none =>
          left
          simp only [decodeTurn, if_neg (Nat.not_le.mpr found), if_neg empty, read]
          split
          · exact ⟨-5, rfl⟩
          · exact ⟨-6, rfl⟩
      | some size =>
          refine .inr ⟨size, _, _, _, split, clean, ?_, read, rfl⟩
          intro none
          have := congrArg List.length none
          rw [List.length_take, List.length_nil] at this
          omega
  · exact .inl ⟨-3, by simp only [decodeTurn, if_pos open_]⟩

/-- One turn takes one chunk, unless the allocator refuses. -/
theorem decodeTurn_chunk {pos : Nat} {data rest : Bytes} (hr : Roomy d) (short : input.length < 2 ^ 63)
    (line : SizeLine input d.pos data.length pos) (here : input.drop pos = data ++ (CRLF ++ rest))
    (some_ : data ≠ []) :
    (∃ d', decodeTurn granted input d = .returns (.next d') ∧ Roomy d' ∧
      d'.buf = d.buf ++ data ∧ d'.pos = pos + data.length + 2) ∨
    (∃ site, granted site = false) ∧ ∃ code, decodeTurn granted input d = .returns (.fail code) := by
  have positive : data.length ≠ 0 := fun h => some_ (List.eq_nil_of_length_eq_zero h)
  rw [decodeTurn_line line, if_neg positive]
  split
  · next refused => exact .inr ⟨⟨_, refused⟩, -5, rfl⟩
  · rcases @chunkData_chunk granted input d data rest pos hr short line.inside.1.le here with
      next_ | ⟨refused, fail⟩
    · exact .inl next_
    · exact .inr ⟨⟨_, refused⟩, -8, fail⟩

/-- The ways a turn goes. Both ways in which it does not return need a size for which a sum wraps. -/
inductive Turned (input : Bytes) (d : Decoder) : Exec Turn → Prop where
  | failed (code : Int) : Turned input d (.returns (.fail code))
  | finished : Turned input d (.returns .finish)
  | taken {size pos alloc : Nat} : SizeLine input d.pos size pos → size ≠ 0 →
      CRLF <+: input.drop (pos + size) →
      Roomy ⟨pos + size + 2, alloc, d.buf ++ (input.drop pos).take size⟩ →
      Turned input d
        (.returns (.next ⟨pos + size + 2, alloc, d.buf ++ (input.drop pos).take size⟩))
  | overrun {size pos : Nat} : SizeLine input d.pos size pos → size ≠ 0 →
      2 ^ 64 ≤ d.buf.length + size + 1 → Turned input d .undefined
  | endless {size pos : Nat} : SizeLine input d.pos size pos → size ≠ 0 → 2 ^ 64 ≤ pos + size →
      d.buf.length + size + 1 < 2 ^ 64 → Turned input d .diverges

/-- A size that fits what is left. -/
theorem chunkData_fits {size pos : Nat} (hr : Roomy d) (short : input.length < 2 ^ 63)
    (line : SizeLine input d.pos size pos) (some_ : size ≠ 0) (fits : pos + size ≤ input.length) :
    Turned input d (chunkData granted input d pos size) := by
  have consumed := hr.consumed
  have on := line.inside.1
  rw [chunkData, show wrap64 (pos + size) = pos + size from Nat.mod_eq_of_lt (by omega),
    if_neg (by omega)]
  rcases @makeRoom_roomy granted d pos size hr (by omega) with ⟨j, hj, room, enough⟩ | ⟨-, room⟩
  · rw [room]
    simp only [Exec.andThen_returns]
    rw [if_pos ⟨fits, by omega⟩]
    split
    · next closed =>
        have taken : ((input.drop pos).take size).length = size := by
          rw [List.length_take, List.length_drop]
          omega
        refine .taken line some_ (List.isPrefixOf_iff_prefix.mp closed) ⟨⟨j, hj, rfl⟩, ?_, ?_⟩
        · simp only [List.length_append, taken]
          omega
        · simp only [List.length_append, taken]
          omega
    · exact .failed _
  · rw [room]
    exact .failed _

/-- A size that passes the first check because the sum wraps. -/
theorem chunkData_wraps {size pos : Nat} (hr : Roomy d) (short : input.length < 2 ^ 63)
    (line : SizeLine input d.pos size pos) (wraps : 2 ^ 64 ≤ pos + size) :
    chunkData granted input d pos size =
      if 2 ^ 64 ≤ d.buf.length + size + 1 then .undefined else .diverges := by
  have consumed := hr.consumed
  have fits := hr.fits
  obtain ⟨on, inside, small⟩ := line.inside
  have passes : ¬ input.length < wrap64 (pos + size) := by
    have : wrap64 (pos + size) = pos + size - 2 ^ 64 := by
      rw [wrap64, Nat.mod_eq_sub_mod wraps, Nat.mod_eq_of_lt]
      omega
    omega
  rw [chunkData, if_neg passes, makeRoom]
  by_cases large : 2 ^ 64 ≤ d.buf.length + size + 1
  · have need : wrap64 (d.buf.length + size + 1) = d.buf.length + size + 1 - 2 ^ 64 := by
      rw [wrap64, Nat.mod_eq_sub_mod large, Nat.mod_eq_of_lt]
      omega
    rw [need, if_pos large, if_neg (by omega), Exec.andThen_returns]
    simp only
    rw [if_neg (by omega)]
  · have need : wrap64 (d.buf.length + size + 1) = d.buf.length + size + 1 :=
      Nat.mod_eq_of_lt (by omega)
    obtain ⟨k, hk, capacity⟩ := hr.capacity
    have doubled : Doubled d.alloc := .inr ⟨k, hk, capacity⟩
    have bound := doubled.le
    rw [need, if_neg large, if_pos (by omega), grow, growLoop_none (by omega) doubled]
    rfl

theorem decodeTurn_turned (hr : Roomy d) (short : input.length < 2 ^ 63) :
    Turned input d (decodeTurn granted input d) := by
  rcases @decodeTurn_cases granted input d with ⟨code, fail⟩ | ⟨size, pos, line⟩
  · rw [fail]
    exact .failed code
  · obtain ⟨on, inside, small⟩ := line.inside
    rw [decodeTurn_line line]
    split
    · exact .failed _
    · split
      · exact .finished
      · next some_ =>
          rcases Nat.lt_or_ge input.length (pos + size) with long | fits
          · rcases Nat.lt_or_ge (pos + size) (2 ^ 64) with noWrap | wraps
            · rw [chunkData, wrap64, Nat.mod_eq_of_lt noWrap, if_pos long]
              exact .failed _
            · rw [chunkData_wraps hr short line wraps]
              split
              · next large => exact .overrun line some_ large
              · next fitting => exact .endless line some_ wraps (Nat.not_le.mp fitting)
          · exact chunkData_fits hr short line some_ fits

end JustWeather.Http
