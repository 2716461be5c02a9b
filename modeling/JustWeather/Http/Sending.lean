import JustWeather.Http.RequestLines

/-! # What is sent

`client_tcp_send` with its counter. Each call of `send` is offered the data from
`total_sent` on and takes some of it, so that what the calls have taken is always
the start of the data.
-/

namespace JustWeather.Http

open CLib

/-- The loop of `client_tcp_send` from `total_sent` on: its result, and what each call of `send`
takes of the bytes that it is offered. -/
def sendCalls (data : Bytes) : List SendOutcome → Nat → Exec Int × List Bytes
  | [], totalSent => (if totalSent < data.length then .diverges else .returns 0, [])
  | outcome :: script, totalSent =>
      if totalSent < data.length then
        match outcome with
        | .interrupted => sendCalls data script totalSent
        | .failed => (.returns (-1), [])
        | .accepted count =>
            let (ret, parts) := sendCalls data script (totalSent + count)
            (ret, (data.drop totalSent).take count :: parts)
      else (.returns 0, [])

def SendOutcome.count : SendOutcome → Nat
  | .accepted count => count
  | _ => 0

/-- An error other than `EINTR` comes before so many bytes are accepted. -/
def FailsFirst (script : List SendOutcome) (length : Nat) : Prop :=
  ∃ before after, script = before ++ .failed :: after ∧ .failed ∉ before ∧
    (before.map SendOutcome.count).sum < length

variable {script : List SendOutcome} {data : Bytes}

/-- Counting the bytes sent, or dropping them from the data, is the same. -/
theorem sendLoop_drop (data : Bytes) (script : List SendOutcome) (totalSent : Nat) :
    sendLoop script (data.drop totalSent) =
      ((sendCalls data script totalSent).1, (sendCalls data script totalSent).2.flatten) := by
  induction script generalizing totalSent with
  | nil =>
      by_cases more : totalSent < data.length
      · rw [List.drop_eq_getElem_cons more, sendCalls, if_pos more]
        rfl
      · rw [List.drop_eq_nil_of_le (Nat.not_lt.mp more), sendCalls, if_neg more]
        rfl
  | cons outcome script ih =>
      unfold sendCalls
      by_cases more : totalSent < data.length
      · obtain ⟨c, rest, offered⟩ : ∃ c rest, data.drop totalSent = c :: rest :=
          ⟨_, _, List.drop_eq_getElem_cons more⟩
        rw [if_pos more, offered]
        cases outcome with
        | interrupted =>
            rw [sendLoop, ← offered]
            exact ih totalSent
        | failed => rfl
        | accepted count =>
            have next := ih (totalSent + count)
            rw [← List.drop_drop, offered] at next
            rw [sendLoop, next]
            rfl
      · rw [if_neg more, List.drop_eq_nil_of_le (Nat.not_lt.mp more)]
        rfl

/-! ## Errors -/

theorem failsFirst_failed {length : Nat} : FailsFirst (.failed :: script) length ↔ 0 < length := by
  constructor
  · rintro ⟨before, after, split, fine, short⟩
    omega
  · intro some_
    exact ⟨[], script, rfl, by simp, some_⟩

/-- An outcome that is no failure only leaves less to send. -/
theorem failsFirst_cons {outcome : SendOutcome} {length : Nat} (fine : outcome ≠ .failed) :
    FailsFirst (outcome :: script) length ↔ FailsFirst script (length - outcome.count) := by
  constructor
  · rintro ⟨before, after, split, clean, short⟩
    cases before with
    | nil =>
        cases split
        exact absurd rfl fine
    | cons first before =>
        cases split
        rw [List.map_cons, List.sum_cons] at short
        exact ⟨before, after, rfl, fun mem => clean (List.mem_cons_of_mem _ mem), by omega⟩
  · rintro ⟨before, after, rfl, clean, short⟩
    refine ⟨outcome :: before, after, rfl, ?_, ?_⟩
    · rw [List.mem_cons, not_or]
      exact ⟨fine.symm, clean⟩
    · rw [List.map_cons, List.sum_cons]
      omega

/-- The loop gives up exactly when an error comes before the end of the data. -/
theorem sendLoop_failed :
    (sendLoop script data).1 = .returns (-1) ↔ FailsFirst script data.length := by
  induction script generalizing data with
  | nil =>
      have none : ∀ length, ¬ FailsFirst [] length := by
        rintro length ⟨before, after, split, -⟩
        simp at split
      cases data with
      | nil => simpa [sendLoop] using none 0
      | cons c data => simpa [sendLoop] using none (data.length + 1)
  | cons outcome script ih =>
      cases data with
      | nil =>
          have never : ¬ FailsFirst (outcome :: script) 0 := by
            rintro ⟨before, after, -, -, short⟩
            exact absurd short (Nat.not_lt_zero _)
          simpa [sendLoop] using never
      | cons c data =>
          cases outcome with
          | interrupted =>
              rw [failsFirst_cons (by decide)]
              exact ih
          | failed =>
              rw [failsFirst_failed]
              simp [sendLoop]
          | accepted count =>
              rw [failsFirst_cons (by simp), SendOutcome.count, ← List.length_drop]
              exact ih

/-- On an open client the calls of `send` take, one behind the other, the start of the data: all of
it exactly when 0 is returned, and -1 is returned exactly when an error comes first. -/
theorem clientTcpSend_delivers (fd : Nat) (script : List SendOutcome) (data : Bytes) :
    clientTcpSend (some fd) script data =
      ((sendCalls data script 0).1, (sendCalls data script 0).2.flatten) ∧
    (sendCalls data script 0).2.flatten <+: data ∧
    ((sendCalls data script 0).1 = .returns 0 ↔ (sendCalls data script 0).2.flatten = data) ∧
    ((sendCalls data script 0).1 = .returns (-1) ↔ FailsFirst script data.length) := by
  have calls : sendLoop script data =
      ((sendCalls data script 0).1, (sendCalls data script 0).2.flatten) := sendLoop_drop data script 0
  have part := sendLoop_prefix script data
  have zero := @sendLoop_zero script data
  have failed := @sendLoop_failed script data
  rw [calls] at part zero failed
  exact ⟨calls, part, zero, failed⟩

/-- Two interruptions, three pieces. -/
example : sendCalls (ascii "GET /") [.interrupted, .accepted 2, .accepted 1, .interrupted,
    .accepted 2] 0 = (.returns 0, [ascii "GE", ascii "T", ascii " /"]) := by decide

end JustWeather.Http
