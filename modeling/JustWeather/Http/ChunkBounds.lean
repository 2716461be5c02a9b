import JustWeather.Http.ChunkMachine

/-! # Bounds and termination of `decode_chunked`

Both bound checks are sums that may wrap. Which one does decides what goes wrong: when only
`pos + chunk_size` wraps the buffer is doubled for ever, and when `buf_len + chunk_size + 1` wraps as
well the data is copied out of bounds. No other size does harm.
-/

namespace JustWeather.Http

open CLib Machine

/-- `pos` is a chunk boundary of the input, behind `n` bytes of data. -/
inductive Boundary (input : Bytes) : Nat → Nat → Prop where
  | start : Boundary input 0 0
  | chunk {start n size pos : Nat} : Boundary input start n → SizeLine input start size pos →
      size ≠ 0 → CRLF <+: input.drop (pos + size) → Boundary input (pos + size + 2) (n + size)

/-- At a chunk boundary behind `n` bytes of data the input announces `size` bytes from `pos` on. -/
def Announces (input : Bytes) (pos n size : Nat) : Prop :=
  ∃ start, Boundary input start n ∧ SizeLine input start size pos ∧ size ≠ 0

/-- What the next step reads is in the input, and what it copies fits. -/
def Config.InBounds (input : Bytes) (c : Config) : Prop :=
  (∀ i ∈ c.reads input, i < input.length) ∧
    ∀ d pos size, c = .copy d pos size →
      pos + size ≤ input.length ∧ d.buf.length + size + 1 ≤ d.alloc

variable {granted : Allocator} {input : Bytes} {d : Decoder}

theorem Boundary.le {pos n : Nat} (h : Boundary input pos n) : n ≤ pos ∧ pos ≤ input.length := by
  induction h with
  | start => exact ⟨Nat.le_refl _, Nat.zero_le _⟩
  | chunk _ line _ closed ih =>
      have on := line.inside.1
      have long := closed.length_le
      simp only [CRLF, List.length_drop, List.length_cons, List.length_nil] at long
      omega

theorem Announces.inside {pos n size : Nat} (h : Announces input pos n size) :
    n < pos ∧ pos ≤ input.length ∧ 0 < size ∧ size < 2 ^ 64 := by
  obtain ⟨start, boundary, line, some_⟩ := h
  obtain ⟨on, inside, small⟩ := line.inside
  exact ⟨Nat.lt_of_le_of_lt boundary.le.1 on, inside, Nat.pos_of_ne_zero some_, small⟩

theorem Announces.next {pos n size : Nat} (h : Announces input pos n size)
    (closed : CRLF <+: input.drop (pos + size)) : Boundary input (pos + size + 2) (n + size) := by
  obtain ⟨start, boundary, line, some_⟩ := h
  exact boundary.chunk line some_ closed

/-! ## What holds wherever the machine is -/

/-- The decoder is at a chunk boundary. -/
structure At (input : Bytes) (d : Decoder) : Prop where
  roomy : Roomy d
  boundary : Boundary input d.pos d.buf.length

/-- The bytes announced are about to be copied: the first check has passed. -/
structure Passed (input : Bytes) (d : Decoder) (pos size : Nat) : Prop where
  capacity : Doubled d.alloc
  announced : Announces input pos d.buf.length size
  checked : wrap64 (pos + size) ≤ input.length

/-- What is known in each configuration. -/
def Sound (input : Bytes) : Config → Prop
  | .outer d => At input d
  | .search d pos => At input d ∧ d.pos ≤ pos ∧ pos ≤ input.length ∧
      d.pos + crlfOffset (input.drop d.pos) = pos + crlfOffset (input.drop pos)
  | .line d pos => At input d ∧ pos = d.pos + crlfOffset (input.drop d.pos)
  | .closing _ pos => pos ≤ input.length
  | .chunk d pos size => Roomy d ∧ Announces input pos d.buf.length size
  | .grow d pos size => Passed input d pos size ∧ wrap64 (d.buf.length + size + 1) ≠ 0
  | .copy d pos size => Passed input d pos size ∧ d.alloc ≠ 0 ∧
      wrap64 (d.buf.length + size + 1) ≤ d.alloc
  | .tail d => Roomy d ∧ d.pos ≤ input.length ∧ ∃ pos n size, Announces input pos n size ∧
      d.pos = pos + size ∧ d.buf.length = n + size
  | .ending _ | .halted _ | .crashed => True

/-- A step of the line search. -/
theorem Sound.search {pos : Nat} (short : input.length < 2 ^ 63) (h : Sound input (.search d pos)) :
    Sound input (chunkStep granted input (.search d pos)) := by
  obtain ⟨here, on, inside, same⟩ := h
  rw [chunkStep]
  cases rest : input.drop pos with
  | nil =>
      have ends : ¬ pos < input.length := by
        have := List.drop_eq_nil_iff.mp rest
        omega
      rw [rest] at same
      simp only [ends, decide_false, Bool.false_and, Bool.false_eq_true, if_false]
      exact ⟨here, same.symm⟩
  | cons c s =>
      obtain ⟨more, test⟩ := crlfAt_drop short rest
      rw [rest, crlfOffset] at same
      rw [test, wrap64_of_lt (by omega)]
      split
      · next go =>
          simp only [more, decide_true, Bool.true_and, Bool.not_eq_true'] at go
          have next_ : input.drop (pos + 1) = s := by
            rw [← List.tail_drop, rest]
            rfl
          rw [go, if_neg Bool.false_ne_true] at same
          exact ⟨here, by omega, more, by rw [next_]; omega⟩
      · next stop =>
          simp only [more, decide_true, Bool.true_and, Bool.not_eq_true', Bool.not_eq_false] at stop
          rw [stop, if_pos rfl] at same
          exact ⟨here, same.symm⟩

/-- A line that is not refused is a size line. -/
theorem Sound.line {pos : Nat} (short : input.length < 2 ^ 63) (h : Sound input (.line d pos)) :
    Sound input (chunkStep granted input (.line d pos)) := by
  obtain ⟨here, rfl⟩ := h
  rw [chunkStep]
  split
  · trivial
  · next found =>
      split
      · trivial
      · next some_ =>
          split
          · trivial
          · have before := here.boundary.le.2
            have lineEnd : crlfOffset (input.drop d.pos) < (input.drop d.pos).length := by
              rw [List.length_drop]
              omega
            obtain ⟨split, clean⟩ := crlfOffset_split lineEnd
            rw [Nat.add_sub_cancel_left] at some_ ⊢
            have nonempty : (input.drop d.pos).take (crlfOffset (input.drop d.pos)) ≠ [] := by
              intro none
              have := congrArg List.length none
              rw [List.length_take, List.length_nil] at this
              omega
            have size : ((input.drop d.pos).take (crlfOffset (input.drop d.pos))).length =
                crlfOffset (input.drop d.pos) := by
              rw [List.length_take]
              omega
            rw [wrap64_of_lt (by omega)]
            split
            · trivial
            · next zero =>
                have line : SizeLine input d.pos 0 _ := ⟨_, _, split, clean, nonempty, zero, rfl⟩
                rw [size] at line
                exact line.inside.2.1
            · next value notZero read =>
                have line : SizeLine input d.pos value _ := ⟨_, _, split, clean, nonempty, read, rfl⟩
                rw [size] at line
                refine ⟨here.roomy, d.pos, here.boundary, line, ?_⟩
                rintro rfl
                exact notZero rfl

/-- The bound checks. -/
theorem Sound.chunk {pos size : Nat} (h : Sound input (.chunk d pos size)) :
    Sound input (chunkStep granted input (.chunk d pos size)) := by
  obtain ⟨roomy, announced⟩ := h
  obtain ⟨k, hk, capacity⟩ := roomy.capacity
  have fits := roomy.fits
  rw [chunkStep]
  split
  · trivial
  · next inside =>
      have passed : Passed input d pos size :=
        ⟨.inr ⟨k, hk, capacity⟩, announced, Nat.not_lt.mp inside⟩
      split
      · next less => exact ⟨passed, by omega⟩
      · next enough => exact ⟨passed, by omega, by omega⟩

theorem Sound.grow {pos size : Nat} (h : Sound input (.grow d pos size)) :
    Sound input (chunkStep granted input (.grow d pos size)) := by
  obtain ⟨passed, need⟩ := h
  rw [chunkStep]
  split
  · exact ⟨⟨passed.capacity.double, passed.announced, passed.checked⟩, need⟩
  · next enough =>
      split
      · exact ⟨passed, by omega, by omega⟩
      · trivial

theorem Sound.copy {pos size : Nat} (short : input.length < 2 ^ 63)
    (h : Sound input (.copy d pos size)) : Sound input (chunkStep granted input (.copy d pos size)) := by
  obtain ⟨passed, some_, enough⟩ := h
  obtain ⟨behind, inside, -, -⟩ := passed.announced.inside
  rw [chunkStep]
  split
  · next fits =>
      have capacity : ∃ k, k ≤ 63 ∧ d.alloc = 2 ^ k := passed.capacity.resolve_left some_
      have taken : ((input.drop pos).take size).length = size := by
        rw [List.length_take, List.length_drop]
        omega
      rw [wrap64_of_lt (by omega)] at enough ⊢
      refine ⟨⟨capacity, ?_, ?_⟩, fits.1, pos, d.buf.length, size, passed.announced, rfl, ?_⟩
      · simp only [List.length_append, taken]
        omega
      · simp only [List.length_append, taken]
        omega
      · rw [List.length_append, taken]
  · trivial

theorem Sound.tail (short : input.length < 2 ^ 63) (h : Sound input (.tail d)) :
    Sound input (chunkStep granted input (.tail d)) := by
  obtain ⟨roomy, inside, pos, n, size, announced, here, buf⟩ := h
  rw [chunkStep]
  split
  · next go =>
      rw [Bool.and_eq_true_iff, crlfAt_iff (by omega), List.isPrefixOf_iff_prefix, here] at go
      rw [wrap64_of_lt (by omega)]
      refine ⟨⟨roomy.capacity, roomy.fits, ?_⟩, ?_⟩
      · exact roomy.consumed.trans (Nat.le_add_right _ _)
      · rw [here, buf]
        exact announced.next go.2
  · trivial

theorem Sound.step (short : input.length < 2 ^ 63) (c : Config) (h : Sound input c) :
    Sound input (chunkStep granted input c) := by
  cases c with
  | outer d =>
      rw [chunkStep]
      split
      · next inside => exact ⟨h, Nat.le_refl _, inside.le, rfl⟩
      · trivial
  | search d pos => exact Sound.search short h
  | line d pos => exact Sound.line short h
  | closing d pos => trivial
  | chunk d pos size => exact Sound.chunk h
  | grow d pos size => exact Sound.grow h
  | copy d pos size => exact Sound.copy short h
  | tail d => exact Sound.tail short h
  | ending d =>
      rw [chunkStep]
      split <;> trivial
  | halted | crashed => trivial

theorem sound_start (granted : Allocator) : Sound input (chunkStart granted) := by
  unfold chunkStart
  split
  · exact ⟨roomy_start, .start⟩
  · trivial

theorem sound_reached (short : input.length < 2 ^ 63) {c : Config}
    (way : Leads (chunkStep granted input) (chunkStart granted) c) : Sound input c :=
  way.invariant (Sound.step short) (sound_start granted)

/-! ## Bounds -/

/-- The tests before a read keep it in the input. -/
theorem Sound.reads (short : input.length < 2 ^ 63) {c : Config} (h : Sound input c) :
    ∀ i ∈ c.reads input, i < input.length := by
  intro i mem
  cases c with
  | search d pos =>
      simp only [Config.reads] at mem
      split at mem
      · next inside =>
          rcases List.mem_cons.mp mem with rfl | mem
          · exact inside
          · split at mem
            · next both => exact List.mem_singleton.mp mem ▸ both.2
            · cases mem
      · cases mem
  | line d pos =>
      simp only [Config.reads] at mem
      split at mem
      · rw [List.mem_range'_1] at mem
        omega
      · cases mem
  | closing d pos =>
      have here : pos ≤ input.length := h
      simp only [Config.reads, wrap64_of_lt (show pos + 1 < 2 ^ 64 by omega)] at mem
      split at mem
      · rcases List.mem_cons.mp mem with rfl | mem
        · omega
        · split at mem
          · rw [List.mem_singleton.mp mem]
            assumption
          · cases mem
      · cases mem
  | tail d =>
      have here : d.pos ≤ input.length := h.2.1
      simp only [Config.reads, wrap64_of_lt (show d.pos + 1 < 2 ^ 64 by omega)] at mem
      split at mem
      · rcases List.mem_cons.mp mem with rfl | mem
        · omega
        · split at mem
          · rw [List.mem_singleton.mp mem]
            assumption
          · cases mem
      · cases mem
  | outer | chunk | grow | copy | ending | halted | crashed => cases mem

/-- Where the second sum does not wrap, the copy is in bounds. -/
theorem Sound.fits {pos size : Nat} (short : input.length < 2 ^ 63)
    (h : Sound input (.copy d pos size)) (noWrap : d.buf.length + size + 1 < 2 ^ 64) :
    pos + size ≤ input.length ∧ d.buf.length + size + 1 ≤ d.alloc := by
  obtain ⟨passed, -, enough⟩ := h
  obtain ⟨behind, inside, -, small⟩ := passed.announced.inside
  have bound := passed.capacity.le
  have checked := passed.checked
  rw [wrap64_of_lt noWrap] at enough
  refine ⟨?_, enough⟩
  rcases Nat.lt_or_ge (pos + size) (2 ^ 64) with less | wraps
  · rwa [wrap64_of_lt less] at checked
  · omega

/-- With an allocator that grants everything the machine comes to every chunk boundary. -/
theorem Boundary.reached {pos n : Nat} (short : input.length < 2 ^ 63) (h : Boundary input pos n) :
    ∃ d, d.pos = pos ∧ d.buf.length = n ∧ Roomy d ∧
      Leads (chunkStep (fun _ => true) input) (chunkStart fun _ => true) (.outer d) := by
  induction h with
  | start => exact ⟨⟨0, 1024, []⟩, rfl, rfl, roomy_start, Leads.refl _⟩
  | @chunk start n size pos boundary line some_ closed ih =>
      obtain ⟨d, rfl, rfl, roomy, way⟩ := ih
      obtain ⟨on, inside, -⟩ := line.inside
      obtain ⟨rest, split⟩ := closed
      have long := congrArg List.length split
      simp only [CRLF, List.length_append, List.length_drop, List.length_cons, List.length_nil] at long
      have taken : ((input.drop pos).take size).length = size := by
        rw [List.length_take, List.length_drop]
        omega
      have here : input.drop pos = (input.drop pos).take size ++ (CRLF ++ rest) := by
        rw [split, ← List.drop_drop, List.take_append_drop]
      have line' : SizeLine input d.pos ((input.drop pos).take size).length pos := by rwa [taken]
      have more : (input.drop pos).take size ≠ [] := fun none => some_ (by rw [← taken, none]; rfl)
      rcases @decodeTurn_chunk (fun _ => true) input d pos _ _ roomy short line' here more with
        ⟨d', turn, roomy', buf, next_⟩ | ⟨⟨site, refused⟩, -⟩
      · have does := @does_turn (fun _ => true) input d roomy short (by omega)
        rw [turn] at does
        rw [taken] at next_
        exact ⟨d', next_, by rw [buf, List.length_append, taken], roomy', way.trans does⟩
      · cases refused

/-- A turn that meets a size whose sums wrap. -/
theorem Announces.turn {pos n size : Nat} (short : input.length < 2 ^ 63)
    (announced : Announces input pos n size) (wraps : 2 ^ 64 ≤ pos + size) :
    ∃ d, Leads (chunkStep (fun _ => true) input) (chunkStart fun _ => true) (.outer d) ∧
      Does (fun _ => true) input d (.outer d)
        (if 2 ^ 64 ≤ n + size + 1 then .undefined else .diverges) := by
  obtain ⟨start, boundary, line, some_⟩ := announced
  obtain ⟨d, rfl, rfl, roomy, way⟩ := boundary.reached short
  obtain ⟨on, inside, -⟩ := line.inside
  have does := @does_turn (fun _ => true) input d roomy short (by omega)
  rw [decodeTurn_line line, if_neg (by simp), if_neg some_, chunkData_wraps roomy short line wraps] at does
  exact ⟨d, way, does⟩

/-- The decoder reads and copies in bounds, with every allocator, exactly when for no announced size
`buf_len + chunk_size + 1` wraps. -/
theorem chunk_decoding_in_bounds_iff (short : input.length < 2 ^ 63) :
    (∀ granted c, Leads (chunkStep granted input) (chunkStart granted) c → c.InBounds input) ↔
      ∀ pos n size, Announces input pos n size → n + size + 1 < 2 ^ 64 := by
  constructor
  · intro bounded pos n size announced
    by_contra wraps
    obtain ⟨behind, -⟩ := announced.inside
    obtain ⟨d, way, does⟩ := announced.turn short (by omega)
    rw [if_pos (by omega)] at does
    -- the way to the crash passes a copy out of bounds
    have safe : ∀ c, Leads (chunkStep (fun _ => true) input) (chunkStart fun _ => true) c →
        c ≠ .crashed := by
      rintro c ⟨k, rfl⟩
      induction k with
      | zero => exact Config.noConfusion
      | succ k ih =>
          rw [Function.iterate_succ_apply']
          have bounds := (bounded (fun _ => true) _ ⟨k, rfl⟩).2
          generalize (chunkStep (fun _ => true) input)^[k] (chunkStart fun _ => true) = c at ih bounds
          apply chunkStep_ne_crashed ih
          intro d pos size copy
          have fits := bounds d pos size copy
          omega
    exact safe _ (way.trans does) rfl
  · intro noWrap granted c way
    have sound := sound_reached short way
    refine ⟨sound.reads short, ?_⟩
    rintro d pos size rfl
    exact sound.fits short (noWrap _ _ _ sound.1.announced)

/-- The one size that a body of one byte announces. -/
private theorem announces_byte {pos n size : Nat} (h : Announces (ascii "1\r\na\r\n") pos n size) :
    pos ≤ 6 ∧ n = 0 ∧ size = 1 := by
  have first : ∀ {size pos}, SizeLine (ascii "1\r\na\r\n") 0 size pos → size = 1 ∧ pos = 3 := by
    intro size pos line
    obtain ⟨read, behind⟩ := line.read
    have one : strtoul16 ((ascii "1\r\na\r\n").take (crlfOffset (ascii "1\r\na\r\n"))) = some 1 := by
      decide +kernel
    exact ⟨Option.some.inj (read.symm.trans one), behind⟩
  have second : ∀ {size pos}, ¬ SizeLine (ascii "1\r\na\r\n") 6 size pos := by
    intro size pos line
    have := line.inside
    have long : (ascii "1\r\na\r\n").length = 6 := rfl
    omega
  have boundaries : ∀ {pos n}, Boundary (ascii "1\r\na\r\n") pos n → pos = 0 ∧ n = 0 ∨ pos = 6 := by
    intro pos n boundary
    induction boundary with
    | start => exact .inl ⟨rfl, rfl⟩
    | chunk _ line _ _ ih =>
        rcases ih with ⟨rfl, rfl⟩ | rfl
        · obtain ⟨rfl, rfl⟩ := first line
          exact .inr rfl
        · exact absurd line second
  obtain ⟨start, boundary, line, -⟩ := h
  rcases boundaries boundary with ⟨rfl, rfl⟩ | rfl
  · obtain ⟨rfl, rfl⟩ := first line
    exact ⟨by decide, rfl, rfl⟩
  · exact absurd line second

/-- A body of one byte. -/
theorem chunk_decoding_in_bounds_byte :
    (∀ pos n size, Announces (ascii "1\r\na\r\n") pos n size → n + size + 1 < 2 ^ 64) ∧
    ∀ granted c, Leads (chunkStep granted (ascii "1\r\na\r\n")) (chunkStart granted) c →
      c.InBounds (ascii "1\r\na\r\n") := by
  have small : ∀ pos n size, Announces (ascii "1\r\na\r\n") pos n size →
      n + size + 1 < 2 ^ 64 := by
    intro pos n size announced
    obtain ⟨-, rfl, rfl⟩ := announces_byte announced
    decide
  exact ⟨small, (chunk_decoding_in_bounds_iff (by decide)).mpr small⟩

/-- A size of 2^64 - 1: both sums wrap, and the copy is out of bounds. -/
theorem chunk_decoding_out_of_bounds :
    ¬ ∀ granted c, Leads (chunkStep granted (ascii "ffffffffffffffff\r\n")) (chunkStart granted) c →
      c.InBounds (ascii "ffffffffffffffff\r\n") := by
  intro bounded
  have way : Leads (chunkStep (fun _ => true) (ascii "ffffffffffffffff\r\n"))
      (chunkStart fun _ => true) (.copy ⟨0, 1024, []⟩ 18 (2 ^ 64 - 1)) := ⟨20, by decide +kernel⟩
  have fits := ((bounded _ _ way).2 _ _ _ rfl).1
  exact absurd fits (by decide)

/-! ## Termination -/

/-- A chunk taken leads to the next boundary. -/
theorem At.taken {size pos alloc : Nat} (h : At input d) (line : SizeLine input d.pos size pos)
    (some_ : size ≠ 0) (closed : CRLF <+: input.drop (pos + size))
    (roomy : Roomy ⟨pos + size + 2, alloc, d.buf ++ (input.drop pos).take size⟩) :
    At input ⟨pos + size + 2, alloc, d.buf ++ (input.drop pos).take size⟩ := by
  have next_ := h.boundary.chunk line some_ closed
  have taken : ((input.drop pos).take size).length = size := by
    have long := next_.le.2
    rw [List.length_take, List.length_drop]
    omega
  exact ⟨roomy, by rwa [List.length_append, taken]⟩

/-- Where every size that wraps the first sum wraps the second as well, no doubling is endless. -/
theorem At.not_diverges (short : input.length < 2 ^ 63)
    (noWrap : ∀ pos n size, Announces input pos n size → n + size + 1 < 2 ^ 64 → pos + size < 2 ^ 64)
    (h : At input d) : decodeLoop granted input d ≠ .diverges := by
  generalize left : input.length - d.pos = m
  induction m using Nat.strong_induction_on generalizing d with
  | _ m ih =>
      by_cases inside : d.pos < input.length
      · have turned := @decodeTurn_turned granted input d h.roomy short
        generalize turn : decodeTurn granted input d = t at turned
        cases turned with
        | failed code =>
            rw [decodeLoop_fail inside turn]
            simp
        | finished =>
            rw [decodeLoop_finish inside turn, decodeLoop.finish]
            split <;> simp
        | @taken size pos alloc line some_ closed roomy =>
            rw [decodeLoop_next turn]
            have on := line.inside.1
            refine ih _ ?_ (h.taken line some_ closed roomy) rfl
            simp only
            omega
        | overrun =>
            rw [decodeLoop_undefined inside turn]
            simp
        | endless line some_ wraps fitting =>
            have := noWrap _ _ _ ⟨d.pos, h.boundary, line, some_⟩ fitting
            omega
      · rw [decodeLoop, if_neg inside, decodeLoop.finish]
        split <;> simp

/-- The decoder stops, with every allocator, exactly when for no announced size `pos + chunk_size`
wraps and `buf_len + chunk_size + 1` does not. -/
theorem chunk_decoding_stops_iff (short : input.length < 2 ^ 63) :
    (∀ granted, Stops (chunkStep granted input) Config.isFinal (chunkStart granted)) ↔
      ∀ pos n size, Announces input pos n size → n + size + 1 < 2 ^ 64 → pos + size < 2 ^ 64 := by
  constructor
  · intro stops pos n size announced noWrap
    by_contra wraps
    obtain ⟨d, way, does⟩ := announced.turn short (by omega)
    rw [if_neg (by omega)] at does
    exact does ((stops fun _ => true).on (fun _ => chunkStep_final) way)
  · intro noWrap granted
    have ends := decodeChunked_ends granted short
    have start : At input ⟨0, 1024, []⟩ := ⟨roomy_start, .start⟩
    cases result : decodeChunked granted input with
    | returns result' =>
        rw [result] at ends
        exact ⟨_, ends, trivial⟩
    | undefined =>
        rw [result] at ends
        exact ⟨_, ends, trivial⟩
    | diverges =>
        rw [decodeChunked] at result
        split at result
        · exact absurd result (start.not_diverges short noWrap)
        · cases result

/-- A body of one byte. -/
theorem chunk_decoding_stops_byte :
    (∀ pos n size, Announces (ascii "1\r\na\r\n") pos n size → n + size + 1 < 2 ^ 64 →
      pos + size < 2 ^ 64) ∧
    ∀ granted, Stops (chunkStep granted (ascii "1\r\na\r\n")) Config.isFinal
      (chunkStart granted) := by
  have near : ∀ pos n size, Announces (ascii "1\r\na\r\n") pos n size → n + size + 1 < 2 ^ 64 →
      pos + size < 2 ^ 64 := by
    intro pos n size announced _
    obtain ⟨small, -, rfl⟩ := announces_byte announced
    omega
  exact ⟨near, (chunk_decoding_stops_iff (by decide)).mpr near⟩

/-- A size of 2^64 - 2: only the first sum wraps, and the buffer is doubled for ever. -/
theorem chunk_decoding_endless :
    ¬ ∀ granted, Stops (chunkStep granted (ascii "fffffffffffffffe\r\n")) Config.isFinal
      (chunkStart granted) := by
  intro stops
  have way : Leads (chunkStep (fun _ => true) (ascii "fffffffffffffffe\r\n"))
      (chunkStart fun _ => true) (.grow ⟨0, 1024, []⟩ 18 (2 ^ 64 - 2)) := ⟨20, by decide +kernel⟩
  have endless := @grow_not_stops (fun _ => true) (ascii "fffffffffffffffe\r\n") 18 (2 ^ 64 - 2) 0 1024 []
    (.inr ⟨10, by decide, rfl⟩) (by decide)
  exact endless ((stops fun _ => true).on (fun _ => chunkStep_final) way)

end JustWeather.Http
