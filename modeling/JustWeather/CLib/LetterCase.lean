import JustWeather.CLib.Scanf

/-! # Letter case

Texts that differ in the case of letters only. Scans for white space, signs and
numbers cannot tell them apart.
-/

namespace JustWeather.CLib

def isLetter (c : UInt8) : Bool := (65 ≤ c && c ≤ 90) || (97 ≤ c && c ≤ 122)

/-- Equal up to the case of letters. -/
def CaseEq : Bytes → Bytes → Prop := List.Forall₂ fun c d => toLower c = toLower d

theorem caseEq_iff {s t : Bytes} : CaseEq s t ↔ s.map toLower = t.map toLower := by
  rw [CaseEq, ← List.forall₂_eq_eq_eq, List.forall₂_map_left_iff, List.forall₂_map_right_iff]

instance (s t : Bytes) : Decidable (CaseEq s t) := decidable_of_iff _ caseEq_iff.symm

theorem CaseEq.refl (s : Bytes) : CaseEq s s := caseEq_iff.mpr rfl

theorem CaseEq.length {s t : Bytes} (h : CaseEq s t) : s.length = t.length := List.Forall₂.length_eq h

theorem CaseEq.append {s t u v : Bytes} (h : CaseEq s t) (h' : CaseEq u v) :
    CaseEq (s ++ u) (t ++ v) := List.rel_append h h'

/-- A byte that is no letter has one case. -/
theorem eq_of_toLower {c d : UInt8} (plain : isLetter c = false) (same : toLower c = toLower d) :
    c = d := by
  simp only [isLetter, toLower, Bool.or_eq_false_iff, Bool.and_eq_false_iff,
    decide_eq_false_iff_not] at *
  grind

theorem toLower_plain {z : UInt8} (plain : isLetter z = false) : toLower z = z := by
  simp only [isLetter, Bool.or_eq_false_iff] at plain
  simp [toLower, plain.1]

theorem not_mem_map_toLower {z : UInt8} {s : Bytes} (plain : isLetter z = false) (absent : z ∉ s) :
    z ∉ s.map toLower := by
  intro mem
  obtain ⟨c, inside, same⟩ := List.mem_map.mp mem
  rw [← eq_of_toLower plain ((toLower_plain plain).trans same.symm)] at inside
  exact absent inside

/-- A name that ends in a mark is found where the same name stands in front of the mark. -/
theorem startsNoCase_marked {name field value : Bytes} {z : UInt8} (plain : isLetter z = false)
    (absent : z ∉ name) (absent' : z ∉ field) :
    startsNoCase (field ++ [z]) (name ++ z :: value) = true ↔ CaseEq name field := by
  have upTo : ∀ {s t : Bytes}, z ∉ s → (s.map toLower ++ z :: t).takeWhile (· ≠ z) = s.map toLower := by
    intro s t absent
    refine takeWhile_append_stop (fun c mem => ?_) (by simp)
    rw [decide_eq_true_eq]
    rintro rfl
    exact not_mem_map_toLower plain absent mem
  rw [startsNoCase, beq_iff_eq, caseEq_iff]
  constructor
  · intro same
    have whole : (name ++ z :: value).map toLower =
        field.map toLower ++ z :: ((name ++ z :: value).drop (field ++ [z]).length).map toLower := by
      conv_lhs => rw [← List.take_append_drop (field ++ [z]).length (name ++ z :: value), List.map_append,
        same]
      simp [toLower_plain plain]
    rw [List.map_append, List.map_cons, toLower_plain plain] at whole
    have names := congrArg (List.takeWhile (· ≠ z)) whole
    rwa [upTo absent, upTo absent'] at names
  · intro same
    have long : (field ++ [z]).length = (name ++ [z]).length := by
      simpa using (congrArg List.length same).symm
    have start : (name ++ z :: value).take (field ++ [z]).length = name ++ [z] := by
      have split : name ++ z :: value = (name ++ [z]) ++ value := by simp
      rw [long, split, List.take_left]
    rw [start, List.map_append, List.map_append, same]

/-- A run of bytes other than letters. -/
theorem CaseEq.span {p : UInt8 → Bool} {s t : Bytes} (plain : ∀ c, p c = true → isLetter c = false)
    (h : CaseEq s t) : s.takeWhile p = t.takeWhile p ∧ CaseEq (s.dropWhile p) (t.dropWhile p) := by
  induction h with
  | nil => exact ⟨rfl, .nil⟩
  | @cons c d s t same rest ih =>
      by_cases inside : p c = true
      · obtain rfl := eq_of_toLower (plain c inside) same
        simp only [List.takeWhile_cons, List.dropWhile_cons, inside, if_true, ih.1]
        exact ⟨trivial, ih.2⟩
      · have outside : ¬ p d = true := by
          intro inside'
          rw [eq_of_toLower (plain d inside') same.symm] at inside'
          exact inside inside'
        simp only [List.takeWhile_cons, List.dropWhile_cons, inside, outside, Bool.false_eq_true,
          if_false]
        exact ⟨trivial, .cons same rest⟩

theorem CaseEq.splitSign {s t : Bytes} (h : CaseEq s t) :
    (splitSign s).1 = (CLib.splitSign t).1 ∧ CaseEq (CLib.splitSign s).2 (CLib.splitSign t).2 := by
  cases h with
  | nil => exact ⟨rfl, .nil⟩
  | @cons c d s t same rest =>
      have sign : ∀ z, isLetter z = false → (c = z ↔ d = z) := by
        intro z plain
        constructor
        · rintro rfl
          exact (eq_of_toLower plain same).symm
        · rintro rfl
          exact (eq_of_toLower plain same.symm).symm
      simp only [CLib.splitSign, sign 45 (by decide), sign 43 (by decide)]
      split
      · exact ⟨rfl, rest⟩
      · split
        · exact ⟨rfl, rest⟩
        · exact ⟨rfl, .cons same rest⟩

theorem isSpace_not_letter {c : UInt8} (h : isSpace c = true) : isLetter c = false := by
  simp only [isSpace, isLetter] at *
  grind

theorem isBase_ten_not_letter {c : UInt8} (h : isBase 10 c = true) : isLetter c = false := by
  rw [isBase_ten] at h
  simp only [isDigit, isLetter] at *
  grind

/-- The same number is read, and what is left differs in case only. -/
theorem CaseEq.readInt {s t : Bytes} (h : CaseEq s t) :
    Option.Rel (fun a b => a.1 = b.1 ∧ CaseEq a.2 b.2) (readInt s) (CLib.readInt t) := by
  have space := (h.span fun _ => isSpace_not_letter).2
  obtain ⟨sign, number⟩ := space.splitSign
  obtain ⟨digits, rest⟩ := number.span fun _ => isBase_ten_not_letter
  simp only [CLib.readInt, readDigits, sign, digits]
  by_cases none : (CLib.splitSign (t.dropWhile isSpace)).2.takeWhile (isBase 10) = []
  · rw [if_pos none, if_pos none]
    exact .none
  · rw [if_neg none, if_neg none]
    exact .some ⟨rfl, rest⟩

/-- A format without letters. -/
def Caseless (fmt : List Directive) : Prop := ∀ c, Directive.literal c ∈ fmt → isLetter c = false

theorem CaseEq.sscanf {fmt : List Directive} {s t : Bytes} (caseless : Caseless fmt) (h : CaseEq s t) :
    sscanf fmt s = CLib.sscanf fmt t := by
  induction fmt generalizing s t with
  | nil => cases h <;> rfl
  | cons directive fmt ih =>
      have rest : Caseless fmt := fun c mem => caseless c (List.mem_cons_of_mem _ mem)
      cases directive with
      | literal c =>
          cases h with
          | nil => rfl
          | @cons d e s t same tails =>
              have plain := caseless c List.mem_cons_self
              have head : d = c ↔ e = c := by
                constructor
                · rintro rfl
                  exact (eq_of_toLower plain same).symm
                · rintro rfl
                  exact (eq_of_toLower plain same.symm).symm
              simp only [CLib.sscanf, head, ih rest tails]
      | blank =>
          simp only [CLib.sscanf]
          exact ih rest (h.span fun _ => isSpace_not_letter).2
      | integer stored =>
          have read := h.readInt
          simp only [CLib.sscanf]
          generalize CLib.readInt s = a at read
          generalize CLib.readInt t = b at read
          cases read with
          | none => rfl
          | some same => simp only [same.1, ih rest same.2]

/-- Letters of a format that are matched in a first line do not see what follows it. -/
theorem sscanf_line {letters line s t : Bytes} {fmt : List Directive} {z : UInt8}
    (ends : z ∉ letters) (caseless : Caseless fmt) (h : CaseEq s t) :
    sscanf (letters.map .literal ++ fmt) (line ++ z :: s) =
      sscanf (letters.map .literal ++ fmt) (line ++ z :: t) := by
  induction letters generalizing line with
  | nil => exact CaseEq.sscanf caseless ((CaseEq.refl line).append (.cons rfl h))
  | cons c letters ih =>
      simp only [List.mem_cons, not_or] at ends
      cases line with
      | nil => simp [sscanf, ends.1]
      | cons d line =>
          simp only [List.map_cons, List.cons_append, sscanf]
          rw [ih ends.2]

end JustWeather.CLib
