import JustWeather.Http.OneResponse
import JustWeather.Http.SizeLines

/-! # Memory

What is read where some allocations fail is read where none does.
-/

namespace JustWeather.Http

open CLib

/-- No allocation fails. -/
def plenty : Allocator := fun _ => true

variable {granted : Allocator} {input : Bytes} {d d' : Decoder}

theorem makeRoom_plenty {pos size alloc : Nat}
    (room : makeRoom granted d pos size = .returns (some alloc)) :
    makeRoom plenty d pos size = .returns (some alloc) := by
  unfold makeRoom at room ⊢
  simp only at room ⊢
  split
  · next short =>
      rw [if_pos short] at room
      obtain ⟨grown, grows, given⟩ := Exec.andThen_eq_returns.mp room
      rw [grows, Exec.andThen_returns]
      split at given
      · cases given
        rfl
      · cases given
  · next fits =>
      rw [if_neg fits] at room
      exact room

theorem chunkData_plenty {pos size : Nat}
    (taken : chunkData granted input d pos size = .returns (.next d')) :
    chunkData plenty input d pos size = .returns (.next d') := by
  unfold chunkData at taken ⊢
  split
  · next outside =>
      rw [if_pos outside] at taken
      cases taken
  · next inside =>
      rw [if_neg inside] at taken
      obtain ⟨room, made, copied⟩ := Exec.andThen_eq_returns.mp taken
      cases room with
      | none => cases copied
      | some alloc =>
          rw [makeRoom_plenty made, Exec.andThen_returns]
          exact copied

/-- A turn that does not fail is the same with all the memory there can be. -/
theorem decodeTurn_plenty {t : Turn} (turn : decodeTurn granted input d = .returns t)
    (fine : ∀ code, t ≠ .fail code) : decodeTurn plenty input d = .returns t := by
  unfold decodeTurn at turn ⊢
  simp only at turn ⊢
  split
  · next open_ =>
      rw [if_pos open_] at turn
      cases turn
      exact absurd rfl (fine _)
  · next found =>
      rw [if_neg found] at turn
      split
      · next empty =>
          rw [if_pos empty] at turn
          cases turn
          exact absurd rfl (fine _)
      · next nonempty =>
          rw [if_neg nonempty] at turn
          rw [if_neg (by simp [plenty])]
          split at turn
          · cases turn
            exact absurd rfl (fine _)
          · cases read : strtoul16 ((input.drop d.pos).take (crlfOffset (input.drop d.pos))) with
            | none =>
                simp only [read] at turn
                cases turn
                exact absurd rfl (fine _)
            | some size =>
                rw [read] at turn
                cases size with
                | zero => exact turn
                | succ size =>
                    cases t with
                    | fail code => exact absurd rfl (fine code)
                    | finish => exact absurd turn chunkData_ne_finish
                    | next d' => exact chunkData_plenty turn

theorem finish_plenty {out : Bytes} (ok : decodeLoop.finish granted d = .returns (.ok out)) :
    decodeLoop.finish plenty d = .returns (.ok out) := by
  unfold decodeLoop.finish at ok ⊢
  split at ok
  · cases ok
  · rw [if_neg (by simp [plenty])]
    exact ok

theorem decodeLoop_plenty {out : Bytes} (ok : decodeLoop granted input d = .returns (.ok out)) :
    decodeLoop plenty input d = .returns (.ok out) := by
  generalize left : input.length - d.pos = n
  induction n using Nat.strong_induction_on generalizing d with
  | _ n ih =>
      by_cases inside : d.pos < input.length
      · rcases turn_of_ok inside ok with ⟨d', turn⟩ | turn
        · have on := (decodeTurn_next turn).1
          rw [decodeLoop_next turn] at ok
          rw [decodeLoop_next (decodeTurn_plenty turn (by simp))]
          exact ih _ (by omega) ok rfl
        · rw [decodeLoop_finish inside turn] at ok
          rw [decodeLoop_finish inside (decodeTurn_plenty turn (by simp))]
          exact finish_plenty ok
      · rw [decodeLoop, if_neg inside] at ok ⊢
        exact finish_plenty ok

theorem decodeChunked_plenty {out : Bytes} (ok : decodeChunked granted input = .returns (.ok out)) :
    decodeChunked plenty input = .returns (.ok out) := by
  unfold decodeChunked at ok ⊢
  split at ok
  · exact decodeLoop_plenty ok
  · cases ok

/-- A whole response is the same with all the memory there can be. -/
theorem reading_plenty {full body : Bytes} {code : Int}
    (read : reading granted full = .returns (.whole code body)) :
    reading plenty full = .returns (.whole code body) := by
  unfold reading at read ⊢
  simp only at read ⊢
  split
  · next failed =>
      rw [if_pos failed] at read
      cases read
  · next fine =>
      rw [if_neg fine] at read
      cases blank : strstr blankLine full with
      | none =>
          rw [blank] at read
          cases read
      | some lineEnd =>
          simp only [blank] at read ⊢
          split
          · next chunked =>
              rw [if_pos chunked] at read
              obtain ⟨r, decoded, whole⟩ := Exec.andThen_eq_returns.mp read
              cases r with
              | error e => cases whole
              | ok out =>
                  rw [decodeChunked_plenty decoded, Exec.andThen_returns]
                  exact whole
          · next plain =>
              rw [if_neg plain] at read
              have memory : plenty .body = true := rfl
              rw [if_pos memory]
              split at read
              · exact read
              · cases read

end JustWeather.Http
