import JustWeather.Http.ChunkTurns
import JustWeather.Machine.Halting

/-! # `decode_chunked`, step by step

The same function with each test of its three loops as a step of its own, so that what it reads and
copies, and whether it ends, can be said. Every sum of `size_t` is taken modulo 2^64.
-/

namespace JustWeather.Http

open CLib Machine

/-- Where `decode_chunked` is, and with which values. In `search` and `line` the decoder's position
is `line_start`; `chunk`, `grow` and `copy` are about `size` bytes from `pos` on. -/
inductive Config where
  /-- `while (pos < in_len)`. -/
  | outer (d : Decoder)
  /-- The test of the line search. -/
  | search (d : Decoder) (pos : Nat)
  /-- Behind the line search. -/
  | line (d : Decoder) (pos : Nat)
  /-- `chunk_size == 0`. -/
  | closing (d : Decoder) (pos : Nat)
  /-- The two bound checks. -/
  | chunk (d : Decoder) (pos size : Nat)
  /-- The test of the doubling loop. -/
  | grow (d : Decoder) (pos size : Nat)
  /-- `memcpy(buf + buf_len, in + pos, chunk_size)`. -/
  | copy (d : Decoder) (pos size : Nat)
  /-- The test for the CRLF behind the data. -/
  | tail (d : Decoder)
  /-- Behind the outer loop. -/
  | ending (d : Decoder)
  | halted (result : Except Int Bytes)
  /-- Behind a `memcpy` out of bounds. -/
  | crashed
  deriving DecidableEq

namespace Config

def isFinal : Config → Prop
  | halted _ | crashed => True
  | _ => False

end Config

/-- `in[pos] == '\r' && pos + 1 < in_len && in[pos + 1] == '\n'`. -/
def crlfAt (input : Bytes) (pos : Nat) : Bool :=
  input[pos]? == some CR && decide (wrap64 (pos + 1) < input.length) &&
    input[wrap64 (pos + 1)]? == some LF

/-- One step. A final configuration stays. -/
def chunkStep (granted : Allocator) (input : Bytes) : Config → Config
  | .outer d => if d.pos < input.length then .search d d.pos else .ending d
  | .search d pos =>
      if pos < input.length && !crlfAt input pos then .search d (wrap64 (pos + 1)) else .line d pos
  | .line d pos =>
      if input.length ≤ pos then .halted (.error (-3))
      else if pos - d.pos = 0 then .halted (.error (-4))
      else if !granted (.sizeLine d.pos) then .halted (.error (-5))
      else
        match strtoul16 ((input.drop d.pos).take (pos - d.pos)) with
        | none => .halted (.error (-6))
        | some 0 => .closing d (wrap64 (pos + 2))
        | some size => .chunk d (wrap64 (pos + 2)) size
  | .closing d pos => .ending { d with pos := if crlfAt input pos then wrap64 (pos + 2) else pos }
  | .chunk d pos size =>
      if input.length < wrap64 (pos + size) then .halted (.error (-7))
      else if d.alloc < wrap64 (d.buf.length + size + 1) then .grow d pos size
      else .copy d pos size
  | .grow d pos size =>
      if d.alloc < wrap64 (d.buf.length + size + 1) then
        .grow { d with alloc := wrap64 (d.alloc * 2) } pos size
      else if granted (.chunkGrow pos) then .copy d pos size
      else .halted (.error (-8))
  | .copy d pos size =>
      if pos + size ≤ input.length ∧ d.buf.length + size ≤ d.alloc then
        .tail ⟨wrap64 (pos + size), d.alloc, d.buf ++ (input.drop pos).take size⟩
      else .crashed
  | .tail d =>
      if wrap64 (d.pos + 1) < input.length && crlfAt input d.pos then
        .outer { d with pos := wrap64 (d.pos + 2) }
      else .halted (.error (-9))
  | .ending d =>
      if d.alloc < wrap64 (d.buf.length + 1) ∧ granted .chunkEnd = false then .halted (.error (-10))
      else .halted (.ok d.buf)
  | .halted result => .halted result
  | .crashed => .crashed

def chunkStart (granted : Allocator) : Config :=
  if granted .chunkBuffer then .outer ⟨0, 1024, []⟩ else .halted (.error (-2))

/-- The bytes of the input that the step may look at. -/
def Config.reads (input : Bytes) : Config → List Nat
  | search _ pos =>
      if pos < input.length then
        pos :: (if input[pos]? = some CR ∧ wrap64 (pos + 1) < input.length then [wrap64 (pos + 1)] else [])
      else []
  | line d pos => if pos < input.length then List.range' d.pos (pos - d.pos) else []
  | closing _ pos =>
      if wrap64 (pos + 1) < input.length then
        pos :: (if input[pos]? = some CR then [wrap64 (pos + 1)] else [])
      else []
  | tail d =>
      if wrap64 (d.pos + 1) < input.length then
        d.pos :: (if input[d.pos]? = some CR then [wrap64 (d.pos + 1)] else [])
      else []
  | _ => []

/-! ## What the steps amount to -/

section Simulation

variable {granted : Allocator} {input : Bytes} {d : Decoder} {pos size : Nat}

theorem wrap64_of_lt {n : Nat} (small : n < 2 ^ 64) : wrap64 n = n := Nat.mod_eq_of_lt small

theorem chunkStep_final {c : Config} (final : c.isFinal) : chunkStep granted input c = c := by
  cases c with
  | halted | crashed => rfl
  | _ => exact False.elim final

/-- Only a copy out of bounds crashes. -/
theorem chunkStep_ne_crashed {c : Config} (alive : c ≠ .crashed)
    (bounds : ∀ d pos size, c = .copy d pos size →
      pos + size ≤ input.length ∧ d.buf.length + size ≤ d.alloc) :
    chunkStep granted input c ≠ .crashed := by
  cases c with
  | copy d pos size =>
      rw [chunkStep, if_pos (bounds d pos size rfl)]
      exact Config.noConfusion
  | crashed => exact absurd rfl alive
  | halted | closing => exact Config.noConfusion
  | outer | search | line | chunk | grow | tail | ending =>
      unfold chunkStep
      grind

/-- The test for a CRLF, where the sum does not wrap. -/
theorem crlfAt_iff (small : pos + 1 < 2 ^ 64) :
    crlfAt input pos = CRLF.isPrefixOf (input.drop pos) := by
  have first : input[pos]? = (input.drop pos)[0]? := by rw [List.getElem?_drop, Nat.add_zero]
  have second : input[pos + 1]? = (input.drop pos)[1]? := by rw [List.getElem?_drop]
  have long : pos + 1 < input.length ↔ 1 < (input.drop pos).length := by
    rw [List.length_drop]
    omega
  rw [crlfAt, wrap64_of_lt small, first, second, Bool.eq_iff_iff]
  simp only [long]
  generalize input.drop pos = s
  match s with
  | [] => simp [CRLF]
  | [c] => simp [CRLF]
  | c :: c' :: s =>
      simp only [CRLF, List.getElem?_cons_zero, List.getElem?_cons_succ, List.length_cons]
      simp only [List.isPrefixOf, Bool.and_eq_true, beq_iff_eq, Option.some.injEq, and_true]
      constructor
      · rintro ⟨⟨rfl, -⟩, rfl⟩
        exact ⟨rfl, rfl⟩
      · rintro ⟨rfl, rfl⟩
        exact ⟨⟨rfl, by simp⟩, rfl⟩

theorem crlfAt_drop {c : UInt8} {s : Bytes} (short : input.length < 2 ^ 63)
    (rest : input.drop pos = c :: s) :
    pos < input.length ∧ crlfAt input pos = CRLF.isPrefixOf (c :: s) := by
  have more : pos < input.length := by
    have := congrArg List.length rest
    rw [List.length_drop, List.length_cons] at this
    omega
  refine ⟨more, ?_⟩
  rw [crlfAt_iff (by omega), rest]

theorem leads_search (short : input.length < 2 ^ 63) (inside : pos ≤ input.length) :
    Leads (chunkStep granted input) (.search d pos) (.line d (pos + crlfOffset (input.drop pos))) := by
  induction rest : input.drop pos generalizing pos with
  | nil =>
      have ends : ¬ pos < input.length := by
        have := List.drop_eq_nil_iff.mp rest
        omega
      apply Leads.single
      simp [chunkStep, ends, crlfOffset]
  | cons c s ih =>
      obtain ⟨more, test⟩ := crlfAt_drop short rest
      rw [crlfOffset]
      split
      · next found =>
          apply Leads.single
          simp [chunkStep, test, found]
      · next other =>
          have next_ : chunkStep granted input (.search d pos) = .search d (pos + 1) := by
            simp [chunkStep, test, other, more, wrap64_of_lt (show pos + 1 < 2 ^ 64 by omega)]
          apply Leads.head
          rw [next_, show pos + (crlfOffset s + 1) = pos + 1 + crlfOffset s by omega]
          apply ih more
          rw [← List.tail_drop, rest]
          rfl

theorem leads_grow {fuel p alloc alloc' : Nat} {buf : Bytes}
    (grown : growLoop fuel (wrap64 (buf.length + size + 1)) alloc = some alloc') :
    Leads (chunkStep granted input) (.grow ⟨p, alloc, buf⟩ pos size)
      (if granted (.chunkGrow pos) then .copy ⟨p, alloc', buf⟩ pos size else .halted (.error (-8))) := by
  induction fuel generalizing alloc with
  | zero => cases grown
  | succ fuel ih =>
      rw [growLoop] at grown
      split at grown
      · next less =>
          apply Leads.head
          simp only [chunkStep, if_pos less]
          exact ih grown
      · next enough =>
          cases grown
          apply Leads.single
          simp only [chunkStep, if_neg enough]

/-- A need above 2^63 keeps the doubling going for ever. -/
theorem grow_not_stops {p alloc : Nat} {buf : Bytes} (capacity : Doubled alloc)
    (large : 2 ^ 63 < wrap64 (buf.length + size + 1)) :
    ¬ Stops (chunkStep granted input) Config.isFinal (.grow ⟨p, alloc, buf⟩ pos size) := by
  refine not_stops (fun c => ∃ a, Doubled a ∧ c = .grow ⟨p, a, buf⟩ pos size) ?_ ?_
    ⟨alloc, capacity, rfl⟩
  · rintro c ⟨a, doubled, rfl⟩
    have := doubled.le
    exact ⟨wrap64 (a * 2), doubled.double, by simp only [chunkStep]; rw [if_pos (by omega)]⟩
  · rintro c ⟨a, -, rfl⟩ final
    exact final

/-- From this configuration on the machine does what the turn says. -/
def Does (granted : Allocator) (input : Bytes) (d : Decoder) (c : Config) : Exec Turn → Prop
  | .returns (.next d') => Leads (chunkStep granted input) c (.outer d')
  | .returns .finish => ∃ pos, Leads (chunkStep granted input) c (.ending { d with pos })
  | .returns (.fail code) => Leads (chunkStep granted input) c (.halted (.error code))
  | .undefined => Leads (chunkStep granted input) c .crashed
  | .diverges => ¬ Stops (chunkStep granted input) Config.isFinal c

theorem Does.of_leads {c c' : Config} {turn : Exec Turn} (way : Leads (chunkStep granted input) c c')
    (h : Does granted input d c' turn) : Does granted input d c turn := by
  match turn with
  | .returns (.next _) | .returns (.fail _) | .undefined => exact way.trans h
  | .returns .finish =>
      obtain ⟨pos, h⟩ := h
      exact ⟨pos, way.trans h⟩
  | .diverges => exact fun stops => h (stops.on (fun _ => chunkStep_final) way)

/-- The copy of the data, and the test behind it. -/
theorem does_copy {alloc : Nat} (short : input.length < 2 ^ 63) :
    Does granted input d (.copy { d with alloc } pos size)
      (if pos + size ≤ input.length ∧ d.buf.length + size ≤ alloc then
        if CRLF.isPrefixOf (input.drop (pos + size)) then
          .returns (.next ⟨pos + size + 2, alloc, d.buf ++ (input.drop pos).take size⟩)
        else .returns (.fail (-9))
      else .undefined) := by
  split
  · next inside =>
      have noWrap : wrap64 (pos + size) = pos + size := wrap64_of_lt (by omega)
      have test : crlfAt input (pos + size) = CRLF.isPrefixOf (input.drop (pos + size)) :=
        crlfAt_iff (by omega)
      refine Does.of_leads (Leads.single (t := .tail ⟨pos + size, alloc,
        d.buf ++ (input.drop pos).take size⟩) ?_) ?_
      · simp only [chunkStep, if_pos inside, noWrap]
      · split
        · next closed =>
            have long : pos + size + 1 < input.length := by
              have := (List.isPrefixOf_iff_prefix.mp closed).length_le
              simp only [CRLF, List.length_drop, List.length_cons, List.length_nil] at this
              omega
            apply Leads.single
            simp [chunkStep, test, closed, long, wrap64_of_lt (show pos + size + 1 < 2 ^ 64 by omega),
              wrap64_of_lt (show pos + size + 2 < 2 ^ 64 by omega)]
        · next cut =>
            apply Leads.single
            simp [chunkStep, test, cut]
  · next outside =>
      apply Leads.single
      simp only [chunkStep, if_neg outside]

theorem does_chunk (hr : Roomy d) (short : input.length < 2 ^ 63) :
    Does granted input d (.chunk d pos size) (chunkData granted input d pos size) := by
  rw [chunkData]
  split
  · next outside =>
      apply Leads.single
      simp only [chunkStep, if_pos outside]
  · next inside =>
      rw [makeRoom]
      split
      · next less =>
          refine Does.of_leads (Leads.single (t := .grow d pos size) ?_) ?_
          · simp only [chunkStep, if_neg inside, if_pos less]
          · obtain ⟨k, hk, capacity⟩ := hr.capacity
            rw [grow]
            cases grown : growLoop 65 (wrap64 (d.buf.length + size + 1)) d.alloc with
            | some alloc =>
                refine Does.of_leads (leads_grow grown) ?_
                cases granted (.chunkGrow pos) with
                | true => exact does_copy short
                | false => exact Leads.refl _
            | none =>
                refine grow_not_stops (.inr ⟨k, hk, capacity⟩) ?_
                by_contra small
                obtain ⟨j, -, done, -⟩ := @growLoop_pow _ 65 k (Nat.not_lt.mp small) hk (by omega)
                rw [capacity, done] at grown
                cases grown
      · next enough =>
          refine Does.of_leads (Leads.single (t := .copy d pos size) ?_) ?_
          · simp only [chunkStep, if_neg inside, if_neg enough]
          · exact does_copy short

/-- One turn of the outer loop. -/
theorem does_turn (hr : Roomy d) (short : input.length < 2 ^ 63) (inside : d.pos < input.length) :
    Does granted input d (.outer d) (decodeTurn granted input d) := by
  have begin_ : Leads (chunkStep granted input) (.outer d)
      (.line d (d.pos + crlfOffset (input.drop d.pos))) := by
    apply Leads.head
    rw [chunkStep, if_pos inside]
    exact leads_search short inside.le
  refine Does.of_leads begin_ ?_
  have ends : (input.drop d.pos).length ≤ crlfOffset (input.drop d.pos) ↔
      input.length ≤ d.pos + crlfOffset (input.drop d.pos) := by
    rw [List.length_drop]
    omega
  simp only [decodeTurn, ends]
  split
  · next open_ =>
      apply Leads.single
      simp only [chunkStep, if_pos open_]
  · next found =>
      split
      · next empty =>
          apply Leads.single
          simp only [chunkStep, if_neg found, Nat.add_sub_cancel_left, if_pos empty]
      · next line =>
          split
          · next refused =>
              apply Leads.single
              simp only [chunkStep, if_neg found, Nat.add_sub_cancel_left, if_neg line, if_pos refused]
          · next allocated =>
              have noWrap : wrap64 (d.pos + crlfOffset (input.drop d.pos) + 2) =
                  d.pos + crlfOffset (input.drop d.pos) + 2 := wrap64_of_lt (by omega)
              have step : chunkStep granted input (.line d (d.pos + crlfOffset (input.drop d.pos))) =
                  match strtoul16 ((input.drop d.pos).take (crlfOffset (input.drop d.pos))) with
                  | none => .halted (.error (-6))
                  | some 0 => .closing d (d.pos + crlfOffset (input.drop d.pos) + 2)
                  | some size => .chunk d (d.pos + crlfOffset (input.drop d.pos) + 2) size := by
                simp only [chunkStep, if_neg found, Nat.add_sub_cancel_left, if_neg line,
                  if_neg allocated, noWrap]
              split
              · next unread =>
                  apply Leads.single
                  rw [step, unread]
              · next zero =>
                  have closing : ∀ p, Leads (chunkStep granted input) (.closing d p)
                      (.ending { d with pos := if crlfAt input p then wrap64 (p + 2) else p }) :=
                    fun p => Leads.single rfl
                  rw [zero] at step
                  exact ⟨_, (Leads.single step).trans (closing _)⟩
              · next size _ read =>
                  refine Does.of_leads (Leads.single ?_) (does_chunk hr short)
                  rw [step, read]
                  cases size with
                  | zero => contradiction
                  | succ size => rfl

/-- From this configuration on the machine comes to this end. -/
def EndsIn (granted : Allocator) (input : Bytes) (c : Config) : Exec (Except Int Bytes) → Prop
  | .returns result => Leads (chunkStep granted input) c (.halted result)
  | .undefined => Leads (chunkStep granted input) c .crashed
  | .diverges => ¬ Stops (chunkStep granted input) Config.isFinal c

theorem EndsIn.of_leads {c c' : Config} {result : Exec (Except Int Bytes)}
    (way : Leads (chunkStep granted input) c c') (h : EndsIn granted input c' result) :
    EndsIn granted input c result := by
  cases result with
  | returns | undefined => exact way.trans h
  | diverges => exact fun stops => h (stops.on (fun _ => chunkStep_final) way)

theorem ending_ends (hr : Roomy d) (pos : Nat) :
    EndsIn granted input (.ending { d with pos }) (decodeLoop.finish granted d) := by
  obtain ⟨k, hk, capacity⟩ := hr.capacity
  have bound : d.alloc ≤ 2 ^ 63 := Doubled.le (.inr ⟨k, hk, capacity⟩)
  have fits := hr.fits
  have noWrap : wrap64 (d.buf.length + 1) = d.buf.length + 1 := wrap64_of_lt (by omega)
  have enough : ¬ (d.alloc < d.buf.length + 1 ∧ granted .chunkEnd = false) := by omega
  rw [decodeLoop.finish, if_neg enough]
  apply Leads.single
  simp only [chunkStep, noWrap, if_neg enough]

theorem decodeLoop_ends (hr : Roomy d) (short : input.length < 2 ^ 63) :
    EndsIn granted input (.outer d) (decodeLoop granted input d) := by
  generalize left : input.length - d.pos = n
  induction n using Nat.strong_induction_on generalizing d with
  | _ n ih =>
      by_cases inside : d.pos < input.length
      · have turned := @decodeTurn_turned granted input d hr short
        have does := @does_turn granted input d hr short inside
        generalize turn : decodeTurn granted input d = t at turned does
        cases turned with
        | failed code =>
            rw [decodeLoop_fail inside turn]
            exact does
        | finished =>
            obtain ⟨pos, way⟩ := does
            rw [decodeLoop_finish inside turn]
            exact EndsIn.of_leads way (ending_ends hr pos)
        | taken line some_ closed hr' =>
            rw [decodeLoop_next turn]
            have on := line.inside.1
            refine EndsIn.of_leads does (ih _ ?_ hr' rfl)
            simp only
            omega
        | overrun =>
            rw [decodeLoop_undefined inside turn]
            exact does
        | endless =>
            rw [decodeLoop_diverges inside turn]
            exact does
      · have ends : chunkStep granted input (.outer d) = .ending d := by
          simp only [chunkStep, if_neg inside]
        rw [decodeLoop, if_neg inside]
        exact EndsIn.of_leads (Leads.single ends) (ending_ends hr d.pos)

/-- The steps end as `decodeChunked` says. -/
theorem decodeChunked_ends (granted : Allocator) (short : input.length < 2 ^ 63) :
    EndsIn granted input (chunkStart granted) (decodeChunked granted input) := by
  unfold chunkStart decodeChunked
  split
  · exact decodeLoop_ends roomy_start short
  · exact Leads.refl _

end Simulation

end JustWeather.Http
