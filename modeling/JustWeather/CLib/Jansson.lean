import JustWeather.CLib.Strings

/-! # `jansson`

The library behind the JSON values is not modelled. What a caller relies on is
stated where it is used.
-/

namespace JustWeather.CLib

structure Jansson where
  Value : Type
  /-- `json_loads` and `json_load_file` with flags 0, or `json_error_t.text`. -/
  load : Bytes → Except Bytes Value
  /-- The text of `JSON_INDENT(2) | JSON_PRESERVE_ORDER`. -/
  dump : Value → Bytes
  objectGet : Value → Bytes → Option Value
  /-- The value, when it is a boolean. -/
  boolean : Value → Option Bool
  /-- The value, when it is a string. -/
  string : Value → Option Bytes

namespace Jansson

/-- Loading undoes dumping, for what can be loaded. -/
def LoadUndoesDump (J : Jansson) : Prop := ∀ t v, J.load t = .ok v → J.load (J.dump v) = .ok v

/-- A dumped text that is cut short does not load. -/
def CutTextFails (J : Jansson) : Prop :=
  ∀ v n w, n < (J.dump v).length → J.load ((J.dump v).take n) ≠ .ok w

/-- A library that knows the empty object and the empty array. -/
def emptyTexts : Jansson where
  Value := Bool
  load t :=
    if t = ascii "\x7b\x7d" then .ok true
    else if t = ascii "[]" then .ok false
    else .error (ascii "unexpected token")
  dump v := if v then ascii "\x7b\x7d" else ascii "[]"
  objectGet _ _ := none
  boolean _ := none
  string _ := none

instance : DecidableEq emptyTexts.Value := inferInstanceAs (DecidableEq Bool)

theorem emptyTexts_loadUndoesDump : emptyTexts.LoadUndoesDump := by
  intro t v load
  have both : ∀ b : Bool, emptyTexts.load (emptyTexts.dump b) = .ok b := by
    intro b
    cases b <;> rfl
  exact both v

theorem emptyTexts_cutTextFails : emptyTexts.CutTextFails := by
  intro v n w short
  have two : (emptyTexts.dump v).length = 2 := by
    have both : ∀ b : Bool, (emptyTexts.dump b).length = 2 := by decide
    exact both v
  have cut : ∀ b : Bool, ∀ n < 2,
      (emptyTexts.load ((emptyTexts.dump b).take n)).toOption.isNone = true := by decide
  intro load
  have := cut v n (two ▸ short)
  rw [load] at this
  cases this

end Jansson

end JustWeather.CLib
