import Mathlib.Init

/-! # How a call ends

C code may return, may leave the memory it was given, or may loop for ever. The
last two are results of the model, so that a statement about what is returned
does not silently assume that something is.
-/

namespace JustWeather.CLib

inductive Exec (α : Type) where
  | returns (value : α)
  /-- Memory is accessed outside the object a pointer belongs to. -/
  | undefined
  | diverges
  deriving DecidableEq

namespace Exec

variable {α β : Type}

/-- Run `f` on the result, if there is one. -/
def andThen (x : Exec α) (f : α → Exec β) : Exec β :=
  match x with
  | returns a => f a
  | undefined => undefined
  | diverges => diverges

@[simp] theorem andThen_returns (a : α) (f : α → Exec β) : (returns a).andThen f = f a := rfl

@[simp] theorem andThen_undefined (f : α → Exec β) : (undefined : Exec α).andThen f = undefined := rfl

@[simp] theorem andThen_diverges (f : α → Exec β) : (diverges : Exec α).andThen f = diverges := rfl

theorem andThen_eq_returns {x : Exec α} {f : α → Exec β} {b : β} :
    x.andThen f = returns b ↔ ∃ a, x = returns a ∧ f a = returns b := by
  cases x <;> simp

/-- One statement behind another. -/
instance : Monad Exec where
  pure := returns
  bind := andThen

@[simp] theorem pure_eq (a : α) : (pure a : Exec α) = returns a := rfl

@[simp] theorem returns_bind (a : α) (f : α → Exec β) : (returns a >>= f) = f a := rfl

end Exec

end JustWeather.CLib
