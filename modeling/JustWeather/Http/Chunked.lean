import JustWeather.CLib.Exec
import JustWeather.CLib.Numerals

/-! # `decode_chunked`

`size_t` and `unsigned long` sums are taken modulo 2^64 where they can pass it:
the two bound checks and the doubling of the buffer. `pos` itself stays within
two bytes of the input, which is shorter than 2^63.
-/

namespace JustWeather.Http

open CLib

/-- The calls of `malloc` and `realloc` on the receive path. -/
inductive AllocSite where
  /-- The `nth` growth of `full_response`. -/
  | response (nth : Nat)
  | body
  | chunkBuffer
  /-- The copy of the size line that starts at `pos`. -/
  | sizeLine (pos : Nat)
  /-- The growth of the buffer for the data that starts at `pos`. -/
  | chunkGrow (pos : Nat)
  | chunkEnd
  deriving DecidableEq

/-- Which allocations succeed. -/
abbrev Allocator := AllocSite → Bool

def wrap64 (n : Nat) : Nat := n % 2 ^ 64

/-- Position, capacity, and the `buf_len` bytes decoded so far. -/
structure Decoder where
  pos : Nat
  alloc : Nat
  buf : Bytes
  deriving DecidableEq

/-- How one turn of the outer loop ends. -/
inductive Turn where
  | fail (code : Int)
  | finish
  | next (d : Decoder)
  deriving DecidableEq

/-- The line search: how far the next CRLF is, or the end. -/
def crlfOffset : Bytes → Nat
  | [] => 0
  | c :: s => if CRLF.isPrefixOf (c :: s) then 0 else crlfOffset s + 1

/-- `while (need > alloc) alloc *= 2`, for at most `fuel` tests. -/
def growLoop : Nat → Nat → Nat → Option Nat
  | 0, _, _ => none
  | fuel + 1, need, alloc =>
      if alloc < need then growLoop fuel need (wrap64 (alloc * 2)) else some alloc

/-- The doubling loop. The capacity is a power of two, so 64 doublings have made it 0, where it
stays: a loop still running then never ends. -/
def grow (need alloc : Nat) : Exec Nat :=
  match growLoop 65 need alloc with
  | some alloc => .returns alloc
  | none => .diverges

/-- Room for `chunkSize` more bytes and the terminator: the new capacity, or the error. -/
def makeRoom (granted : Allocator) (d : Decoder) (pos chunkSize : Nat) : Exec (Option Nat) :=
  let need := wrap64 (d.buf.length + chunkSize + 1)
  if d.alloc < need then
    (grow need d.alloc).andThen fun alloc =>
      .returns (if granted (.chunkGrow pos) then some alloc else none)
  else .returns (some d.alloc)

/-- The data of a chunk of `chunkSize > 0` bytes, from `pos` on. -/
def chunkData (granted : Allocator) (input : Bytes) (d : Decoder) (pos chunkSize : Nat) : Exec Turn :=
  if input.length < wrap64 (pos + chunkSize) then .returns (.fail (-7))
  else
    (makeRoom granted d pos chunkSize).andThen fun
      | none => .returns (.fail (-8))
      | some alloc =>
          -- memcpy(buf + buf_len, in + pos, chunk_size)
          if pos + chunkSize ≤ input.length ∧ d.buf.length + chunkSize ≤ alloc then
            if CRLF.isPrefixOf (input.drop (pos + chunkSize)) then
              .returns (.next ⟨pos + chunkSize + 2, alloc,
                d.buf ++ (input.drop pos).take chunkSize⟩)
            else .returns (.fail (-9))
          else .undefined

/-- One turn of the outer loop, at `pos < in_len`. -/
def decodeTurn (granted : Allocator) (input : Bytes) (d : Decoder) : Exec Turn :=
  let rest := input.drop d.pos
  let lineLen := crlfOffset rest
  if rest.length ≤ lineLen then .returns (.fail (-3))
  else if lineLen = 0 then .returns (.fail (-4))
  else if !granted (.sizeLine d.pos) then .returns (.fail (-5))
  else
    match strtoul16 (rest.take lineLen) with
    | none => .returns (.fail (-6))
    | some 0 => .returns .finish
    | some chunkSize => chunkData granted input d (d.pos + lineLen + 2) chunkSize

theorem chunkData_next {granted : Allocator} {input : Bytes} {d d' : Decoder} {pos size : Nat}
    (h : chunkData granted input d pos size = .returns (.next d')) :
    pos + size ≤ input.length ∧ d'.pos = pos + size + 2 ∧
      d'.buf = d.buf ++ (input.drop pos).take size ∧ d'.buf.length ≤ d'.alloc := by
  rw [chunkData] at h
  split at h
  · cases h
  · obtain ⟨room, -, h⟩ := Exec.andThen_eq_returns.mp h
    cases room with
    | none => cases h
    | some alloc =>
        simp only at h
        split at h
        · next inside =>
            split at h
            · cases h
              refine ⟨inside.1, rfl, rfl, ?_⟩
              simp only [List.length_append, List.length_take]
              omega
            · cases h
        · cases h

theorem decodeTurn_next {granted : Allocator} {input : Bytes} {d d' : Decoder}
    (h : decodeTurn granted input d = .returns (.next d')) :
    d.pos < d'.pos ∧ d.pos < input.length := by
  simp only [decodeTurn, List.length_drop] at h
  split at h
  · cases h
  · next found =>
      split at h
      · cases h
      · split at h
        · cases h
        · split at h
          · cases h
          · cases h
          · have := (chunkData_next h).2.1
            omega

/-- The outer loop and the end of the function: the decoded bytes or an error code. -/
def decodeLoop (granted : Allocator) (input : Bytes) (d : Decoder) : Exec (Except Int Bytes) :=
  if d.pos < input.length then
    match _turn : decodeTurn granted input d with
    | .returns (.fail code) => .returns (.error code)
    | .returns .finish => finish d
    | .returns (.next d') => decodeLoop granted input d'
    | .undefined => .undefined
    | .diverges => .diverges
  else finish d
termination_by input.length - d.pos
decreasing_by
  have := decodeTurn_next _turn
  omega
where
  finish (d : Decoder) : Exec (Except Int Bytes) :=
    if d.alloc < d.buf.length + 1 ∧ granted .chunkEnd = false then .returns (.error (-10))
    else .returns (.ok d.buf)

def decodeChunked (granted : Allocator) (input : Bytes) : Exec (Except Int Bytes) :=
  if granted .chunkBuffer then decodeLoop granted input ⟨0, 1024, []⟩ else .returns (.error (-2))

section Turns

variable {granted : Allocator} {input : Bytes} {d : Decoder}

theorem decodeLoop_next {d' : Decoder} (turn : decodeTurn granted input d = .returns (.next d')) :
    decodeLoop granted input d = decodeLoop granted input d' := by
  rw [decodeLoop, if_pos (decodeTurn_next turn).2]
  split <;> rename_i other <;> rw [turn] at other <;> cases other
  rfl

theorem decodeLoop_fail {code : Int} (inside : d.pos < input.length)
    (turn : decodeTurn granted input d = .returns (.fail code)) :
    decodeLoop granted input d = .returns (.error code) := by
  rw [decodeLoop, if_pos inside]
  split <;> rename_i other <;> rw [turn] at other <;> cases other
  rfl

theorem decodeLoop_finish (inside : d.pos < input.length)
    (turn : decodeTurn granted input d = .returns .finish) :
    decodeLoop granted input d = decodeLoop.finish granted d := by
  rw [decodeLoop, if_pos inside]
  split <;> rename_i other <;> rw [turn] at other <;> cases other

theorem decodeLoop_undefined (inside : d.pos < input.length)
    (turn : decodeTurn granted input d = .undefined) :
    decodeLoop granted input d = .undefined := by
  rw [decodeLoop, if_pos inside]
  split <;> rename_i other <;> rw [turn] at other <;> cases other

theorem decodeLoop_diverges (inside : d.pos < input.length)
    (turn : decodeTurn granted input d = .diverges) :
    decodeLoop granted input d = .diverges := by
  rw [decodeLoop, if_pos inside]
  split <;> rename_i other <;> rw [turn] at other <;> cases other

end Turns

end JustWeather.Http
