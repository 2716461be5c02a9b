import JustWeather.CLib.Double
import JustWeather.Text.FormData

/-! # Arguments of a request

Validation and `url_encode`. An encoded text is made of few bytes, and
form-decodes to the text it was made from.
-/

namespace JustWeather.Utils

open CLib Text

def validateLatitude (lat : Double) : Bool := lat.within 90

def validateLongitude (lon : Double) : Bool := lon.within 180

def validateCityName (city : Bytes) : Bool := (cStr city).length ≠ 0 && (cStr city).length ≤ 100

/-- The bytes that `url_encode` copies. -/
def isUnreserved (c : UInt8) : Bool := isAlnum c || c == 45 || c == 95 || c == 46 || c == 126

/-- What `url_encode` writes for one byte. -/
def urlEncodeByte (c : UInt8) : Bytes :=
  if isUnreserved c then [c]
  else if c = 32 then [43]
  else [37, upperHexDigit (c.toNat / 16), upperHexDigit (c.toNat % 16)]

/-- The text `url_encode` writes. -/
def encoded (str : Bytes) : Bytes := (cStr str).flatMap urlEncodeByte

/-- `url_encode`; `granted` is the answer of `malloc`. -/
def urlEncode (granted : Bool) (str : Bytes) : Option Bytes :=
  if granted then some (encoded str) else none

/-- The bytes of an encoded text. -/
def isEncodedByte (c : UInt8) : Bool := isUnreserved c || c == 43 || c == 37

private theorem upperHexDigit_value : ∀ n < 16,
    isBase 16 (upperHexDigit n) = true ∧ digitOf (upperHexDigit n) = n := by decide

private theorem urlEncodeByte_bytes (c : UInt8) : ∀ z ∈ urlEncodeByte c, isEncodedByte z = true := by
  have hex : ∀ n < 16, isEncodedByte (upperHexDigit n) = true := by decide
  intro z hz
  unfold urlEncodeByte at hz
  split at hz
  · next plain =>
      rw [List.mem_singleton.mp hz]
      simp [isEncodedByte, plain]
  · split at hz
    · rw [List.mem_singleton.mp hz]
      decide
    · simp only [List.mem_cons, List.not_mem_nil, or_false] at hz
      have := c.toNat_lt
      rcases hz with rfl | rfl | rfl
      · decide
      · exact hex _ (by omega)
      · exact hex _ (by omega)

theorem encoded_bytes (s : Bytes) : ∀ z ∈ encoded s, isEncodedByte z = true := by
  intro z hz
  obtain ⟨c, -, hc⟩ := List.mem_flatMap.mp hz
  exact urlEncodeByte_bytes c z hc

/-- A byte of another kind does not get into an encoded text. -/
theorem not_mem_encoded {z : UInt8} (s : Bytes) (foreign : isEncodedByte z = false) :
    z ∉ encoded s := by
  intro mem
  rw [encoded_bytes s z mem] at foreign
  cases foreign

private theorem formDecode_urlEncodeByte (c : UInt8) (s : Bytes) :
    formDecode (urlEncodeByte c ++ s) = (formDecode s).map (c :: ·) := by
  unfold urlEncodeByte
  split
  · next plain =>
      have percent : c ≠ 37 := by
        rintro rfl
        exact absurd plain (by decide)
      have plus : c ≠ 43 := by
        rintro rfl
        exact absurd plain (by decide)
      rw [List.singleton_append, formDecode_plain s percent, if_neg plus]
  · split
    · next space =>
        rw [space]
        exact formDecode_plain s (by decide)
    · have := c.toNat_lt
      obtain ⟨hexHigh, high⟩ := upperHexDigit_value (c.toNat / 16) (by omega)
      obtain ⟨hexLow, low⟩ := upperHexDigit_value (c.toNat % 16) (by omega)
      have byte : UInt8.ofNat (c.toNat / 16 * 16 + c.toNat % 16) = c := by
        rw [Nat.div_add_mod']
        simp
      simp only [List.cons_append, List.nil_append]
      rw [formDecode_escape s hexHigh hexLow, high, low, byte]

theorem formDecode_encoded {s : Bytes} (clean : 0 ∉ s) : formDecode (encoded s) = some s := by
  rw [encoded, cStr_of_clean clean]
  clear clean
  induction s with
  | nil => rfl
  | cons c s ih =>
      rw [List.flatMap_cons, formDecode_urlEncodeByte, ih]
      rfl

end JustWeather.Utils
