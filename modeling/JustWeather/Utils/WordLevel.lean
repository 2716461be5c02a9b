import JustWeather.CLib.Buffers
import JustWeather.Utils.Normalize

/-! # Normalisation word by word

The loop of `normalize_string_for_cache` in the buffer that it writes, and its
result as the words of the input: cut, lower-cased, joined and cut off.
-/

namespace JustWeather.Utils

open CLib Text

/-! ## In the buffer -/

/-- The loop on the buffer, from `j` and `prev_was_sep`; the buffer and `j` behind it. -/
def writeLoop {size : Nat} (outSize : Nat) : Bytes → Buffer size → Nat → Bool →
    Exec (Buffer size × Nat)
  | [], out, j, _ => pure (out, j)
  | c :: s, out, j, prevWasSep =>
      if j + 1 < outSize then
        if isSeparator c then
          if j = 0 || prevWasSep then writeLoop outSize s out j prevWasSep
          else do
            let out ← out.store j 95
            writeLoop outSize s out (j + 1) true
        else do
          let out ← out.store j (toLower c)
          writeLoop outSize s out (j + 1) false
      else pure (out, j)

/-- `normalize_string_for_cache` on the buffer `out`. -/
def writeNormalized {size : Nat} (input : Bytes) (out : Buffer size) (outSize : Nat) :
    Exec (Buffer size) :=
  if outSize = 0 then pure out
  else do
    let (out, j) ← writeLoop outSize (cStr input) out 0 false
    let j := if 0 < j ∧ out.toList[j - 1]? = some 95 then j - 1 else j
    out.store j 0

/-- The loop leaves what `normalizeLoop` computes at the start of the buffer, and room behind it. -/
theorem writeLoop_eq {size : Nat} {rest : Bytes} {out : Buffer size} (s written : Bytes) (prev : Bool)
    (start : out.toList = written ++ rest) (room : written.length < size) :
    ∃ b back, writeLoop size s out written.length prev =
        .returns (b, (normalizeLoop size s written prev).length) ∧
      b.toList = normalizeLoop size s written prev ++ back ∧
      (normalizeLoop size s written prev).length < size := by
  induction s generalizing out written rest prev with
  | nil => exact ⟨out, rest, rfl, start, room⟩
  | cons c s ih =>
      simp only [writeLoop, normalizeLoop]
      by_cases more : written.length + 1 < size
      · rw [if_pos more, if_pos more]
        obtain ⟨old, rest, rfl⟩ : ∃ old rest', rest = old :: rest' := by
          refine List.exists_cons_of_ne_nil ?_
          rintro rfl
          have := congrArg List.length start
          simp only [Vector.length_toList, List.append_nil] at this
          omega
        have stored : ∀ z, (out.set written.length z room).toList = (written ++ [z]) ++ rest := by
          intro z
          rw [Vector.toList_set, start, List.set_append_right _ _ (Nat.le_refl _)]
          simp
        have next : ∀ z prev, ∃ b back, writeLoop size s (out.set written.length z room)
              (written.length + 1) prev =
              .returns (b, (normalizeLoop size s (written ++ [z]) prev).length) ∧
            b.toList = normalizeLoop size s (written ++ [z]) prev ++ back ∧
            (normalizeLoop size s (written ++ [z]) prev).length < size := by
          intro z prev
          simpa only [List.length_append, List.length_singleton] using
            ih (written ++ [z]) prev (stored z) (by simpa using more)
        by_cases sep : isSeparator c = true
        · rw [if_pos sep, if_pos sep]
          by_cases skip : (decide (written.length = 0) || prev) = true
          · rw [if_pos skip, if_pos skip]
            exact ih written prev start room
          · rw [if_neg skip, if_neg skip, Buffer.store_inside 95 room, Exec.returns_bind]
            exact next 95 true
        · rw [if_neg sep, if_neg sep, Buffer.store_inside (toLower c) room, Exec.returns_bind]
          exact next (toLower c) false
      · rw [if_neg more, if_neg more]
        exact ⟨out, rest, rfl, start, room⟩

theorem toLower_ne_nul {c : UInt8} (h : c ≠ 0) : toLower c ≠ 0 := by
  simp only [toLower]
  grind

theorem normalizeLoop_clean {n : Nat} {s written : Bytes} {prev : Bool} (clean : 0 ∉ s)
    (start : 0 ∉ written) : 0 ∉ normalizeLoop n s written prev := by
  induction s generalizing written prev with
  | nil => exact start
  | cons c s ih =>
      simp only [List.mem_cons, not_or] at clean
      have letter : 0 ∉ written ++ [toLower c] := by
        simpa [start] using (toLower_ne_nul (Ne.symm clean.1)).symm
      simp only [normalizeLoop]
      split
      · split
        · split
          · exact ih clean.2 start
          · exact ih clean.2 (by simpa using start)
        · exact ih clean.2 letter
      · exact start

/-- The buffer holds the result: nothing is stored outside it. -/
theorem writeNormalized_holds {n : Nat} (s : Bytes) (out : Buffer (n + 1)) :
    ∃ b, writeNormalized s out (n + 1) = .returns b ∧
      b.Holds (normalizeStringForCache s out.toList (n + 1)) := by
  obtain ⟨b, back, looped, left, room⟩ := writeLoop_eq (cStr s) [] false
    (List.nil_append out.toList).symm (Nat.succ_pos n)
  rw [List.length_nil] at looped
  have clean : 0 ∉ normalizeLoop (n + 1) (cStr s) [] false :=
    normalizeLoop_clean (fun mem => by simpa using List.mem_takeWhile_imp mem) (by simp)
  rw [normalizeStringForCache, if_neg (Nat.succ_ne_zero n)]
  rw [writeNormalized, if_neg (Nat.succ_ne_zero n), looped, Exec.returns_bind]
  generalize normalizeLoop (n + 1) (cStr s) [] false = r at left room clean
  simp only
  by_cases last : r.getLast? = some 95
  · obtain ⟨r, rfl⟩ : ∃ r', r = r' ++ [95] := List.getLast?_eq_some_iff.mp last
    rw [if_pos ⟨by simp, by rw [left]; simp⟩, dropTrailing, if_pos last, List.dropLast_concat]
    rw [List.append_assoc, List.singleton_append] at left
    have stored := Buffer.store_holds left fun mem => clean (List.mem_append_left _ mem)
    simpa using stored
  · have kept : ¬ (0 < r.length ∧ b.toList[r.length - 1]? = some 95) := by
      rintro ⟨positive, here⟩
      rw [left, List.getElem?_append_left (by omega), ← List.getLast?_eq_getElem?] at here
      exact last here
    obtain ⟨o, back, rfl⟩ : ∃ o back', back = o :: back' := by
      refine List.exists_cons_of_ne_nil ?_
      rintro rfl
      have := congrArg List.length left
      simp only [Vector.length_toList, List.append_nil] at this
      omega
    rw [if_neg kept, dropTrailing_of_ne last]
    exact Buffer.store_holds left clean

/-! ## As words -/

/-- The words of an input, lower-cased. -/
def lowerWords (s : Bytes) : List Bytes := (words isSeparator s).map (List.map toLower)

theorem normalWords_eq (s : Bytes) : normalWords s = lowerWords s := words_map _ isSeparator_toLower s

theorem normalText_eq (s : Bytes) : normalText s = joinWords 95 (lowerWords s) := by
  rw [normalText, normalWords_eq]

theorem toLower_toLower (c : UInt8) : toLower (toLower c) = toLower c := by
  simp only [toLower]
  grind

/-- The words of a normalised text: not empty, without separators, lower case. -/
def Normal (ws : List Bytes) : Prop := ∀ w ∈ ws, w ≠ [] ∧ ∀ c ∈ w, isSeparator c = false ∧ toLower c = c

theorem normal_normalWords (s : Bytes) : Normal (normalWords s) := by
  intro w mem
  obtain ⟨nonempty, inside⟩ := mem_words _ mem
  rw [normalWords_eq] at mem
  obtain ⟨v, -, rfl⟩ := List.mem_map.mp mem
  refine ⟨nonempty, fun c hc => ⟨inside c hc, ?_⟩⟩
  obtain ⟨z, -, rfl⟩ := List.mem_map.mp hc
  exact toLower_toLower z

theorem Normal.clean {ws : List Bytes} (normal : Normal ws) : ∀ w ∈ ws, w ≠ [] ∧ 95 ∉ w := by
  intro w mem
  refine ⟨(normal w mem).1, fun bad => ?_⟩
  have := ((normal w mem).2 95 bad).1
  exact absurd this (by decide)

/-- Normal words joined are their own normalised text. -/
theorem normalText_joinWords {ws : List Bytes} (normal : Normal ws) :
    normalText (joinWords 95 ws) = joinWords 95 ws := by
  have cut : words isSeparator (joinWords 95 ws) = ws :=
    words_joinWords _ (by decide) fun w mem =>
      ⟨(normal w mem).1, fun c hc => ((normal w mem).2 c hc).1⟩
  have lower : ws.map (List.map toLower) = ws := by
    rw [List.map_congr_left (g := id) fun w mem => ?_, List.map_id]
    rw [List.map_congr_left (g := id) fun c hc => ((normal w mem).2 c hc).2, List.map_id]
    rfl
  rw [normalText_eq, lowerWords, cut, lower]

theorem joinWords_noTrailing {ws : List Bytes} (normal : Normal ws) :
    dropTrailing (joinWords 95 ws) = joinWords 95 ws :=
  dropTrailing_of_ne fun last => joinWords_getLast normal.clean last rfl

/-- A normalised text cut off is a normalised text. -/
theorem dropTrailing_take {ws : List Bytes} (normal : Normal ws) (n : Nat) :
    ∃ vs, Normal vs ∧ dropTrailing ((joinWords 95 ws).take n) = joinWords 95 vs := by
  obtain ⟨vs, parts, cut⟩ := take_joinWords (c := 95) (fun w mem => (normal w mem).1) n
  have normalVs : Normal vs := by
    intro v mem
    obtain ⟨nonempty, w, listed, part⟩ := parts v mem
    exact ⟨nonempty, fun c hc => (normal w listed).2 c (part.subset hc)⟩
  refine ⟨vs, normalVs, ?_⟩
  rcases cut with cut | ⟨-, cut⟩
  · rw [cut, joinWords_noTrailing normalVs]
  · rw [cut, dropTrailing, if_pos (by simp), List.dropLast_concat]

/-- A result normalised again, in a buffer of the same size, is the result. -/
theorem normalizeStringForCache_again {n : Nat} {s : Bytes} (out out' : Bytes) (clean : 0 ∉ s)
    (result : 0 ∉ normalizeStringForCache s out (n + 1)) :
    normalizeStringForCache (normalizeStringForCache s out (n + 1)) out' (n + 1) =
      normalizeStringForCache s out (n + 1) := by
  rw [normalizeStringForCache_eq out' n result]
  have short : (normalizeStringForCache s out (n + 1)).length ≤ n := by
    rw [normalizeStringForCache_eq out n clean, dropTrailing]
    have cut : ((normalText s).take n).length ≤ n := List.length_take_le n _
    split
    · rw [List.length_dropLast]
      omega
    · exact cut
  obtain ⟨vs, normal, (words : dropTrailing ((normalText s).take n) = _)⟩ :=
    dropTrailing_take (normal_normalWords s) n
  rw [normalizeStringForCache_eq out n clean, words] at short ⊢
  rw [normalText_joinWords normal, List.take_of_length_le short, joinWords_noTrailing normal]

/-- What fits is not cut. -/
theorem normalizeStringForCache_fits {n : Nat} {s : Bytes} (out : Bytes) (clean : 0 ∉ s)
    (fits : (joinWords 95 (lowerWords s)).length ≤ n) :
    normalizeStringForCache s out (n + 1) = joinWords 95 (lowerWords s) := by
  rw [normalizeStringForCache_eq out n clean, normalText_eq, List.take_of_length_le fits,
    ← normalWords_eq, joinWords_noTrailing (normal_normalWords s)]

/-- Nothing is stored outside the buffer, and the result is the lower-cased words joined, cut off,
less one `_` at the end. It is its own result, and where all words fit it tells the words. -/
theorem normalizeStringForCache_words {n : Nat} {s : Bytes} (out : Buffer (n + 1)) (clean : 0 ∉ s) :
    (∃ b, writeNormalized s out (n + 1) = .returns b ∧
      b.Holds (normalizeStringForCache s out.toList (n + 1))) ∧
    normalizeStringForCache s out.toList (n + 1) =
      dropTrailing ((joinWords 95 (lowerWords s)).take n) ∧
    (∀ out', normalizeStringForCache (normalizeStringForCache s out.toList (n + 1)) out' (n + 1) =
      normalizeStringForCache s out.toList (n + 1)) ∧
    ∀ s' out', 0 ∉ s' → (joinWords 95 (lowerWords s)).length ≤ n →
      (joinWords 95 (lowerWords s')).length ≤ n →
      (normalizeStringForCache s out.toList (n + 1) = normalizeStringForCache s' out' (n + 1) ↔
        lowerWords s = lowerWords s') := by
  obtain ⟨b, written, holds⟩ := writeNormalized_holds s out
  refine ⟨⟨b, written, holds⟩, ?_, fun out' => normalizeStringForCache_again _ out' clean holds.1, ?_⟩
  · rw [normalizeStringForCache_eq _ n clean, normalText_eq]
  · intro s' out' clean' fits fits'
    rw [normalizeStringForCache_fits _ clean fits, normalizeStringForCache_fits out' clean' fits']
    constructor
    · intro same
      rw [← normalWords_eq, ← normalWords_eq]
      apply normalText_injective
      rw [normalText_eq, normalText_eq, same]
    · intro same
      rw [same]

theorem normalizeStringForCache_words_city :
    normalizeStringForCache (ascii "+ New  York_") (Vector.replicate 256 0).toList 256 =
      dropTrailing ((joinWords 95 (lowerWords (ascii "+ New  York_"))).take 255) ∧
    lowerWords (ascii "+ New  York_") = [ascii "new", ascii "york"] :=
  ⟨(normalizeStringForCache_words (Vector.replicate 256 0) (by decide)).2.1, by decide⟩

end JustWeather.Utils
