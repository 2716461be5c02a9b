import JustWeather.CLib.Strings
import JustWeather.Text.Words

/-! # `normalize_string_for_cache`

The loop lower-cases, turns a run of separators into one `_` and drops leading
and trailing ones. It stops when the buffer is full, so its result is the start
of the words joined by `_`.
-/

namespace JustWeather.Utils

open CLib Text

/-- Space, tab, `+` and `_`. -/
def isSeparator (c : UInt8) : Bool := c == 32 || c == 9 || c == 43 || c == 95

/-- The loop, from what is left to read, the bytes written and `prev_was_sep`. -/
def normalizeLoop (outSize : Nat) : Bytes → Bytes → Bool → Bytes
  | [], out, _ => out
  | c :: s, out, prevWasSep =>
      if out.length + 1 < outSize then
        if isSeparator c then
          if out.length = 0 || prevWasSep then normalizeLoop outSize s out prevWasSep
          else normalizeLoop outSize s (out ++ [95]) true
        else normalizeLoop outSize s (out ++ [toLower c]) false
      else out

def dropTrailing (out : Bytes) : Bytes := if out.getLast? = some 95 then out.dropLast else out

/-- `normalize_string_for_cache`: the C string in the buffer afterwards, `out` being the one before. -/
def normalizeStringForCache (input out : Bytes) (outSize : Nat) : Bytes :=
  if outSize = 0 then out else dropTrailing (normalizeLoop outSize (cStr input) [] false)

/-- The words that normalisation keeps apart. -/
def normalWords (s : Bytes) : List Bytes := words isSeparator (s.map toLower)

/-- The words with one `_` between them. -/
def normalText (s : Bytes) : Bytes := joinWords 95 (normalWords s)

/-! ## Without a bound -/

/-- What the loop writes in a buffer without end; `skip` when a separator would be dropped. -/
private def spread : Bool → Bytes → Bytes
  | _, [] => []
  | skip, c :: s =>
      if isSeparator c then if skip then spread true s else 95 :: spread true s
      else toLower c :: spread false s

private theorem normalizeLoop_eq {n : Nat} (s out : Bytes) (prev : Bool) (fits : out.length ≤ n) :
    normalizeLoop (n + 1) s out prev = (out ++ spread (out.length = 0 || prev) s).take n := by
  induction s generalizing out prev with
  | nil => simp [normalizeLoop, spread, List.take_of_length_le fits]
  | cons c s ih =>
      simp only [normalizeLoop, Nat.add_lt_add_iff_right]
      by_cases room : out.length < n
      · rw [if_pos room]
        have step : ∀ b, (out ++ [b]).length ≤ n := fun b => by simp; omega
        by_cases sep : isSeparator c = true
        · rw [if_pos sep]
          by_cases skip : (decide (out.length = 0) || prev) = true
          · rw [if_pos skip, ih out prev fits, skip]
            simp [spread, sep]
          · rw [if_neg skip, ih _ true (step 95), Bool.not_eq_true _ |>.mp skip]
            simp [spread, sep]
        · rw [if_neg sep, ih _ false (step _)]
          simp [spread, sep]
      · have full : out.length = n := by omega
        rw [if_neg room, ← full, List.take_left]

theorem isSeparator_toLower (c : UInt8) : isSeparator (toLower c) = isSeparator c := by
  simp only [isSeparator, toLower]
  grind

/-- At most one separator is left over at the end, and none without a word before it. -/
private def Trailing (text tail : Bytes) : Prop := tail = [] ∨ tail = [95] ∧ text ≠ []

mutual
private theorem spread_skipping (s : Bytes) :
    ∃ tail, spread true s = normalText s ++ tail ∧ Trailing (normalText s) tail := by
  cases s with
  | nil => exact ⟨[], rfl, .inl rfl⟩
  | cons c s =>
      by_cases sep : isSeparator c = true
      · have lower : isSeparator (toLower c) = true := by rw [isSeparator_toLower, sep]
        have same : normalText (c :: s) = normalText s := by
          rw [normalText, normalWords, List.map_cons, words_cons_sep _ _ lower]
          rfl
        simpa only [spread, sep, if_true, same] using spread_skipping s
      · have letter : isSeparator (toLower c) = false := by
          rw [isSeparator_toLower]
          simpa using sep
        obtain ⟨tail, eq, trailing⟩ := spread_within s (w := [toLower c]) (by simp) (by simpa using letter)
        exact ⟨tail, by simpa [spread, sep, normalText, normalWords] using eq,
          by simpa [normalText, normalWords] using trailing⟩
termination_by (s.length, 0)

private theorem spread_within (s : Bytes) {w : Bytes} (nonempty : w ≠ [])
    (inside : ∀ x ∈ w, isSeparator x = false) :
    ∃ tail, w ++ spread false s = joinWords 95 (words isSeparator (w ++ s.map toLower)) ++ tail ∧
      Trailing (joinWords 95 (words isSeparator (w ++ s.map toLower))) tail := by
  cases s with
  | nil =>
      refine ⟨[], ?_, .inl rfl⟩
      simp [words_single _ nonempty inside, joinWords, spread]
  | cons c s =>
      by_cases sep : isSeparator c = true
      · have lower : isSeparator (toLower c) = true := by rw [isSeparator_toLower, sep]
        obtain ⟨tail, eq, trailing⟩ := spread_skipping s
        rw [List.map_cons, words_append_sep _ _ nonempty inside lower]
        simp only [spread, sep, if_true, Bool.false_eq_true, if_false, eq]
        by_cases more : words isSeparator (s.map toLower) = []
        · have none : normalText s = [] := by rw [normalText, normalWords, more]; rfl
          have noTail : tail = [] := by
            rcases trailing with rfl | ⟨-, some⟩
            · rfl
            · exact absurd none some
          refine ⟨[95], ?_, .inr ⟨rfl, ?_⟩⟩
          · rw [none, noTail, more]
            simp [joinWords]
          · rw [more]
            simpa [joinWords] using nonempty
        · refine ⟨tail, ?_, trailing.imp id fun h => ⟨h.1, ?_⟩⟩
          · rw [joinWords_cons more]
            simp [normalText, normalWords]
          · rw [joinWords_cons more]
            simp
      · have letter : isSeparator (toLower c) = false := by
          rw [isSeparator_toLower]
          simpa using sep
        have longer := spread_within s (w := w ++ [toLower c]) (by simp) (by
          intro x hx
          rcases List.mem_append.mp hx with hx | hx
          · exact inside x hx
          · rw [List.mem_singleton.mp hx, letter])
        simpa [spread, sep] using longer
termination_by (s.length, 1)
end

/-! ## With the bound -/

theorem normalWords_clean {s w : Bytes} (mem : w ∈ normalWords s) : w ≠ [] ∧ 95 ∉ w := by
  obtain ⟨nonempty, inside⟩ := mem_words _ mem
  exact ⟨nonempty, fun bad => absurd (inside 95 bad) (by decide)⟩

theorem dropTrailing_of_ne {s : Bytes} (h : s.getLast? ≠ some 95) : dropTrailing s = s :=
  if_neg h

/-- The result is the joined words, as far as the buffer goes. -/
theorem normalizeStringForCache_eq {s : Bytes} (out : Bytes) (n : Nat) (clean : 0 ∉ s) :
    normalizeStringForCache s out (n + 1) = dropTrailing ((normalText s).take n) := by
  obtain ⟨tail, eq, trailing⟩ := spread_skipping s
  have written : normalizeLoop (n + 1) s [] false = (normalText s ++ tail).take n := by
    rw [normalizeLoop_eq s [] false (Nat.zero_le n), ← eq]
    rfl
  rw [normalizeStringForCache, if_neg (Nat.succ_ne_zero n), cStr_of_clean clean, written]
  rcases trailing with rfl | ⟨rfl, -⟩
  · rw [List.append_nil]
  · rcases Nat.lt_or_ge (normalText s).length n with short | long
    · have whole : (normalText s).getLast? ≠ some 95 := fun last =>
        joinWords_getLast (fun w hw => normalWords_clean hw) last rfl
      rw [List.take_of_length_le (by simpa using Nat.succ_le_of_lt short), List.take_of_length_le short.le,
        dropTrailing_of_ne whole]
      simp [dropTrailing]
    · rw [List.take_append_of_le_length long]

theorem normalText_injective {s s' : Bytes} (same : normalText s = normalText s') :
    normalWords s = normalWords s' :=
  joinWords_injective (fun _ => normalWords_clean) (fun _ => normalWords_clean) same

end JustWeather.Utils
