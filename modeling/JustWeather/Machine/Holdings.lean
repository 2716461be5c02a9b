import Mathlib.Data.Finset.Basic

/-! # Resources taken and given back

A log of dealings with resources of one kind. It is settled when each one that is
taken is given back once before it is taken again, and nothing else is given.
-/

namespace JustWeather.Machine

variable {α ι : Type*} [DecidableEq α]

inductive Dealing (α : Type*) where
  | take (resource : α)
  | give (resource : α)
  deriving DecidableEq

/-- What is held after the dealings; `none` when one is taken that is held, or given that is not. -/
def held : Finset α → List (Dealing α) → Option (Finset α)
  | holding, [] => some holding
  | holding, .take a :: log => if a ∈ holding then none else held (insert a holding) log
  | holding, .give a :: log => if a ∈ holding then held (holding.erase a) log else none

/-- From nothing to nothing. -/
def Settled (log : List (Dealing α)) : Prop := held ∅ log = some ∅

instance (log : List (Dealing α)) : Decidable (Settled log) :=
  inferInstanceAs (Decidable (held ∅ log = some ∅))

theorem held_append (holding : Finset α) (log log' : List (Dealing α)) :
    held holding (log ++ log') = (held holding log).bind fun after => held after log' := by
  induction log generalizing holding with
  | nil => rfl
  | cons dealing log ih =>
      cases dealing with
      | take a =>
          simp only [List.cons_append, held]
          split
          · rfl
          · exact ih _
      | give a =>
          simp only [List.cons_append, held]
          split
          · exact ih _
          · rfl

theorem settled_nil : Settled ([] : List (Dealing α)) := rfl

theorem Settled.append {log log' : List (Dealing α)} (first : Settled log) (second : Settled log') :
    Settled (log ++ log') := by
  unfold Settled at first second ⊢
  rw [held_append, first, Option.bind_some, second]

theorem Settled.flatMap {xs : List ι} {logs : ι → List (Dealing α)}
    (each : ∀ x ∈ xs, Settled (logs x)) : Settled (xs.flatMap logs) := by
  induction xs with
  | nil => exact settled_nil
  | cons x xs ih =>
      rw [List.flatMap_cons]
      apply (each x List.mem_cons_self).append
      exact ih fun y later => each y (List.mem_cons_of_mem x later)

end JustWeather.Machine
