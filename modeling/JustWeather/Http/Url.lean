import JustWeather.CLib.Exec
import JustWeather.CLib.Numerals

/-! # `parse_url`

Lengths are pointer differences narrowed to `int`. A negative one passes the
test against 255 and reaches `strncpy` as a huge count.
-/

namespace JustWeather.Http

open CLib

structure Url where
  hostname : Bytes
  port : Int
  path : Bytes
  deriving DecidableEq

def COLON : UInt8 := 58
def SLASH : UInt8 := 47

/-- The scheme prefix, if any, removed, and the default port. -/
def splitScheme (url : Bytes) : Bytes × Int :=
  if startsWith (ascii "http://") url then (url.drop 7, 80)
  else if startsWith (ascii "https://") url then (url.drop 8, 443)
  else (url, 80)

/-- The bytes of a host: the loop stops at `:` and `/`. -/
def inHost (c : UInt8) : Bool := c ≠ COLON && c ≠ SLASH

/-- The port and the cursor behind it, from the cursor behind the host. -/
def parsePort (port : Int) : Bytes → Int × Bytes
  | [] => (port, [])
  | c :: s =>
      if c = COLON then
        let portText := s.takeWhile (· ≠ SLASH)
        let portLen := narrow32 portText.length
        (if 0 < portLen && portLen < 16 then atoi (portText.take portLen.toNat) else port,
          s.dropWhile (· ≠ SLASH))
      else (port, c :: s)

/-- The path buffer, from the cursor behind host and port. -/
def parsePath : Bytes → Bytes
  | [] => ascii "/"
  | c :: s => if c = SLASH then (c :: s).take 511 else ascii "/"

/-- `parse_url` on a C string; `none` is the result -1. -/
def parseUrl (url : Bytes) : Exec (Option Url) :=
  let start := (splitScheme url).1
  let host := start.takeWhile inHost
  let hostnameLen := narrow32 host.length
  if hostnameLen = 0 ∨ 255 < hostnameLen then .returns none
  else if hostnameLen < 0 then .undefined
  else
    let behind := parsePort (splitScheme url).2 (start.dropWhile inHost)
    .returns (some ⟨host.take hostnameLen.toNat, behind.1, parsePath behind.2⟩)

theorem parsePath_prefix (s : Bytes) : parsePath s <+: s ∨ parsePath s = ascii "/" := by
  cases s with
  | nil => exact .inr rfl
  | cons c s =>
      simp only [parsePath]
      split
      · exact .inl (List.take_prefix _ _)
      · exact .inr rfl

theorem parsePath_length_le (s : Bytes) : (parsePath s).length ≤ 511 := by
  rcases parsePath_prefix s with h | h
  · cases s with
    | nil => simp [parsePath, ascii]
    | cons c s =>
        simp only [parsePath]
        split
        · exact List.length_take_le _ _
        · simp [ascii]
  · simp [h, ascii]

/-- The path returned is read behind host and port. The hostname starts the authority, is not empty
and fits its buffer. -/
theorem parseUrl_spec {url : Bytes} {u : Url} (h : parseUrl url = .returns (some u)) :
    u.path = parsePath (parsePort (splitScheme url).2 ((splitScheme url).1.dropWhile inHost)).2 ∧
    u.hostname <+: (splitScheme url).1.takeWhile inHost ∧
    u.hostname.length ≤ 255 ∧ u.hostname ≠ [] := by
  simp only [parseUrl] at h
  generalize len : narrow32 ((splitScheme url).1.takeWhile inHost).length = n at h
  split at h
  · cases h
  · next inRange =>
      split at h
      · cases h
      · next nonneg =>
          simp only [Exec.returns.injEq, Option.some.injEq] at h
          subst h
          simp only [not_or, not_lt] at inRange nonneg
          refine ⟨rfl, List.take_prefix _ _, ?_, ?_⟩
          · simp only [List.length_take]
            omega
          · intro none
            have := congrArg List.length none
            simp only [List.length_take, List.length_nil] at this
            have empty : ((splitScheme url).1.takeWhile inHost).length = 0 := by omega
            rw [empty] at len
            exact inRange.1 (len.symm.trans (narrow32_of_small (by decide) (by decide)))

end JustWeather.Http
