import JustWeather.CLib.Numerals

/-! # `sscanf`

Formats made of literal bytes, white space and `%d`, `%*d`. White space in the
format, and before every number, matches any amount of white space in the
input, line ends included, so a scan can run on past the line it started in.
`hungry` says when it runs on past the whole input; otherwise nothing that
follows the input can change what was scanned.
-/

namespace JustWeather.CLib

inductive Directive where
  | literal (c : UInt8)
  | blank
  /-- `%d`, or `%*d` when nothing is stored. -/
  | integer (stored : Bool)
  deriving DecidableEq

/-- The values stored by `sscanf(s, fmt, ...)`; their number is its result. -/
def sscanf : List Directive → Bytes → List Int
  | [], _ => []
  | .literal _ :: _, [] => []
  | .literal c :: fmt, d :: s => if d = c then sscanf fmt s else []
  | .blank :: fmt, s => sscanf fmt (s.dropWhile isSpace)
  | .integer stored :: fmt, s =>
      match readInt s with
      | none => []
      | some (v, rest) => if stored then v :: sscanf fmt rest else sscanf fmt rest

/-- The scan reaches the end of `s` and still wants input. -/
def hungry : List Directive → Bytes → Bool
  | [], _ => false
  | .literal _ :: _, [] => true
  | .literal c :: fmt, d :: s => d = c && hungry fmt s
  | .blank :: fmt, s => hungry fmt (s.dropWhile isSpace)
  | .integer _ :: fmt, s =>
      s.all isSpace || match readInt s with
        | none => false
        | some (_, rest) => hungry fmt rest

/-- Empty, or ending in white space: a numeral cannot reach the end of such text. -/
def SpaceEnded (s : Bytes) : Prop := ∀ c ∈ s.getLast?, isSpace c = true

theorem SpaceEnded.suffix {p s : Bytes} (h : SpaceEnded (p ++ s)) : SpaceEnded s := by
  cases s with
  | nil => simp [SpaceEnded]
  | cons c s => simpa [SpaceEnded, List.getLast?_append] using h

theorem SpaceEnded.append {p s : Bytes} (nonempty : s ≠ []) (h : SpaceEnded s) :
    SpaceEnded (p ++ s) := by
  intro c hc
  rw [List.getLast?_append_of_ne_nil _ nonempty] at hc
  exact h c hc

theorem SpaceEnded.dropSpace {s : Bytes} (h : SpaceEnded s) : SpaceEnded (s.dropWhile isSpace) := by
  rw [← List.takeWhile_append_dropWhile (p := isSpace) (l := s)] at h
  exact h.suffix

theorem dropWhile_append_of_exists {p : UInt8 → Bool} {s : Bytes} (u : Bytes) (h : s.dropWhile p ≠ []) :
    (s ++ u).dropWhile p = s.dropWhile p ++ u := by
  rw [List.dropWhile_append, if_neg (by simpa using h)]

theorem takeWhile_append_of_exists {p : UInt8 → Bool} {s : Bytes} (u : Bytes) (h : s.dropWhile p ≠ []) :
    (s ++ u).takeWhile p = s.takeWhile p := by
  rw [List.takeWhile_append, if_neg]
  intro whole
  have := congrArg List.length (List.takeWhile_append_dropWhile (p := p) (l := s))
  rw [List.length_append, whole] at this
  exact h (List.eq_nil_of_length_eq_zero (by omega))

theorem dropSpace_eq_nil {s : Bytes} : s.dropWhile isSpace = [] ↔ s.all isSpace = true := by
  simp [List.dropWhile_eq_nil_iff, List.all_eq_true]

/-- Digits do not reach the end of text that ends in white space. -/
theorem SpaceEnded.dropDigits {base : Nat} {s : Bytes} (hb : base ≤ 36) (nonempty : s ≠ [])
    (h : SpaceEnded s) : s.dropWhile (isBase base) ≠ [] := by
  intro none
  obtain ⟨s, z, rfl⟩ := (List.eq_nil_or_concat' s).resolve_left nonempty
  have digit : isBase base z = true := by
    rw [List.dropWhile_eq_nil_iff] at none
    exact none z (by simp)
  have space := h z (by simp)
  rw [isBase_not_space hb digit] at space
  cases space

private theorem splitSign_append {s : Bytes} (u : Bytes) (nonempty : s ≠ []) :
    splitSign (s ++ u) = ((splitSign s).1, (splitSign s).2 ++ u) := by
  obtain ⟨c, s, rfl⟩ := List.exists_cons_of_ne_nil nonempty
  simp only [List.cons_append, splitSign]
  split
  · rfl
  · split <;> rfl

private theorem splitSign_spaceEnded {s : Bytes} (nonempty : s ≠ []) (h : SpaceEnded s) :
    (splitSign s).2 ≠ [] ∧ SpaceEnded (splitSign s).2 := by
  obtain ⟨c, s, rfl⟩ := List.exists_cons_of_ne_nil nonempty
  have rest : SpaceEnded s := h.suffix (p := [c])
  have sign : isSpace c = false → s ≠ [] := by
    rintro hc rfl
    have := h c (by simp)
    rw [hc] at this
    cases this
  simp only [splitSign]
  split
  · next e => exact ⟨sign (by subst e; decide), rest⟩
  · split
    · next e => exact ⟨sign (by subst e; decide), rest⟩
    · exact ⟨by simp, h⟩

private theorem readDigits_extend {base : Nat} {s : Bytes} (u : Bytes) (hb : base ≤ 36)
    (nonempty : s ≠ []) (h : SpaceEnded s) :
    readDigits base (s ++ u) = (readDigits base s).map fun (ds, rest) => (ds, rest ++ u) := by
  have stops := h.dropDigits hb nonempty
  simp only [readDigits, takeWhile_append_of_exists u stops, dropWhile_append_of_exists u stops]
  split <;> rfl

/-- What a number is read from: something behind the white space, and behind a sign. -/
private theorem SpaceEnded.number {s : Bytes} (h : SpaceEnded s) (text : s.all isSpace = false) :
    s.dropWhile isSpace ≠ [] ∧ (splitSign (s.dropWhile isSpace)).2 ≠ [] ∧
      SpaceEnded (splitSign (s.dropWhile isSpace)).2 := by
  have some : s.dropWhile isSpace ≠ [] := by
    rw [Ne, dropSpace_eq_nil, text]
    simp
  exact ⟨some, splitSign_spaceEnded some h.dropSpace⟩

/-- A numeral followed by white space is read the same whatever comes after. -/
theorem readInt_extend {s : Bytes} (u : Bytes) (h : SpaceEnded s) (text : s.all isSpace = false) :
    readInt (s ++ u) = (readInt s).map fun (v, rest) => (v, rest ++ u) := by
  obtain ⟨some, signed⟩ := h.number text
  simp only [readInt, dropWhile_append_of_exists u some, splitSign_append u some,
    readDigits_extend u (by decide : 10 ≤ 36) signed.1 signed.2, Option.map_map]
  rfl

theorem readSize_extend {s : Bytes} (u : Bytes) (h : SpaceEnded s) (text : s.all isSpace = false) :
    readSize (s ++ u) = readSize s := by
  obtain ⟨some, signed⟩ := h.number text
  simp only [readSize, dropWhile_append_of_exists u some, splitSign_append u some,
    readDigits_extend u (by decide : 10 ≤ 36) signed.1 signed.2, Option.map_map]
  rfl

/-- What is left after a number ends as the input did. -/
theorem readInt_rest {s rest : Bytes} {v : Int} (h : readInt s = some (v, rest)) :
    ∃ p, s = p ++ rest := by
  simp only [readInt, readDigits, Option.map_eq_some_iff] at h
  obtain ⟨⟨ds, tail⟩, read, same⟩ := h
  split at read
  · cases read
  · cases read
    cases same
    obtain ⟨p, hp⟩ : ∃ p, s.dropWhile isSpace = p ++ (splitSign (s.dropWhile isSpace)).2 := by
      generalize s.dropWhile isSpace = t
      cases t with
      | nil => exact ⟨[], rfl⟩
      | cons c t =>
          simp only [splitSign]
          split
          · exact ⟨[c], rfl⟩
          · split
            · exact ⟨[c], rfl⟩
            · exact ⟨[], rfl⟩
    refine ⟨s.takeWhile isSpace ++ p ++ (splitSign (s.dropWhile isSpace)).2.takeWhile (isBase 10), ?_⟩
    rw [List.append_assoc, List.takeWhile_append_dropWhile, List.append_assoc, ← hp,
      List.takeWhile_append_dropWhile]

theorem readInt_blank {s : Bytes} (blank : s.all isSpace = true) (t : Bytes) :
    readInt (s ++ t) = readInt t := by
  rw [readInt, List.dropWhile_append, if_pos (by simpa [← dropSpace_eq_nil] using blank)]
  rfl

theorem readSize_blank {s : Bytes} (blank : s.all isSpace = true) (t : Bytes) :
    readSize (s ++ t) = readSize t := by
  rw [readSize, List.dropWhile_append, if_pos (by simpa [← dropSpace_eq_nil] using blank)]
  rfl

theorem sscanf_length_le (fmt : List Directive) (s : Bytes) :
    (sscanf fmt s).length ≤ fmt.countP (· = .integer true) := by
  fun_induction sscanf fmt s with
  | case1 | case2 => simp
  | case3 fmt c s ih => simpa using ih
  | case4 => simp
  | case5 fmt s ih => simpa using ih
  | case6 => simp
  | case7 fmt s v rest read ih => simpa using ih
  | case8 stored fmt s v rest read notStored ih =>
      rw [Bool.not_eq_true] at notStored
      subst notStored
      simpa using ih

/-- A hungry scan has matched the format up to some directive, and resumes there with
whatever text comes next. -/
theorem hungry_resume {fmt : List Directive} {s : Bytes} (ended : SpaceEnded s)
    (h : hungry fmt s = true) : ∃ vs k, k < fmt.length ∧
      ∀ t, sscanf fmt (s ++ t) = vs ++ sscanf (fmt.drop k) t := by
  induction fmt generalizing s with
  | nil => simp [hungry] at h
  | cons d fmt ih =>
      cases d with
      | literal c =>
          cases s with
          | nil => exact ⟨[], 0, by simp, fun t => rfl⟩
          | cons d s =>
              simp only [hungry, Bool.and_eq_true, decide_eq_true_eq] at h
              obtain ⟨vs, k, inside, resume⟩ := ih (ended.suffix (p := [d])) h.2
              exact ⟨vs, k + 1, by simpa using inside, fun t => by simp [sscanf, h.1, resume t]⟩
      | blank =>
          simp only [hungry] at h
          by_cases blank : s.dropWhile isSpace = []
          · refine ⟨[], 0, by simp, fun t => ?_⟩
            simp only [sscanf, List.drop_zero, List.nil_append]
            rw [List.dropWhile_append, if_pos (by simpa using blank)]
          · obtain ⟨vs, k, inside, resume⟩ := ih ended.dropSpace h
            refine ⟨vs, k + 1, by simpa using inside, fun t => ?_⟩
            rw [sscanf, dropWhile_append_of_exists t blank, resume t]
            rfl
      | integer stored =>
          cases blank : s.all isSpace with
          | true =>
              refine ⟨[], 0, by simp, fun t => ?_⟩
              simp only [sscanf, readInt_blank blank, List.drop_zero, List.nil_append]
          | false =>
              simp only [hungry, blank, Bool.false_or] at h
              cases read : readInt s with
              | none => simp [read] at h
              | some r =>
                  obtain ⟨v, rest⟩ := r
                  simp only [read] at h
                  obtain ⟨p, rfl⟩ := readInt_rest read
                  obtain ⟨vs, k, inside, resume⟩ := ih ended.suffix h
                  refine ⟨if stored then v :: vs else vs, k + 1, by simpa using inside, fun t => ?_⟩
                  rw [sscanf, readInt_extend t ended blank, read]
                  cases stored <;> simp [resume t]

/-- A scan that is not hungry is not influenced by what follows the input. -/
theorem sscanf_extend {fmt : List Directive} {s : Bytes} (u : Bytes) (h : SpaceEnded s)
    (sated : hungry fmt s = false) : sscanf fmt (s ++ u) = sscanf fmt s := by
  induction fmt generalizing s with
  | nil => simp [sscanf]
  | cons d fmt ih =>
      cases d with
      | literal c =>
          cases s with
          | nil => simp [hungry] at sated
          | cons d s =>
              simp only [hungry, Bool.and_eq_false_iff, decide_eq_false_iff_not] at sated
              simp only [List.cons_append, sscanf]
              split
              · next e => exact ih (h.suffix (p := [d])) (sated.resolve_left (not_not.mpr e))
              · rfl
      | blank =>
          simp only [hungry] at sated
          simp only [sscanf]
          by_cases blank : s.dropWhile isSpace = []
          · rw [blank] at sated ⊢
            rw [List.dropWhile_append, if_pos (by simpa using blank)]
            exact hungry_nil_sscanf sated u
          · rw [dropWhile_append_of_exists u blank]
            exact ih h.dropSpace sated
      | integer stored =>
          simp only [hungry, Bool.or_eq_false_iff] at sated
          simp only [sscanf, readInt_extend u h sated.1]
          cases read : readInt s with
          | none => rfl
          | some r =>
              obtain ⟨p, hp⟩ := @readInt_rest s r.2 r.1 read
              have rest := ih (s := r.2) (hp ▸ h : SpaceEnded (p ++ r.2)).suffix
                (by simpa [read] using sated.2)
              simp only [Option.map_some, rest]
where
  hungry_nil_sscanf {fmt : List Directive} (sated : hungry fmt [] = false) (u : Bytes) :
      sscanf fmt (u.dropWhile isSpace) = sscanf fmt [] := by
    induction fmt generalizing u with
    | nil => simp [sscanf]
    | cons d fmt ih =>
        cases d with
        | literal c => simp [hungry] at sated
        | integer stored => simp [hungry] at sated
        | blank =>
            have rest := ih sated (u.dropWhile isSpace)
            simpa [sscanf] using rest

end JustWeather.CLib
