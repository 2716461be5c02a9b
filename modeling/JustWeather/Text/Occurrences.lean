import Mathlib.Data.List.Basic
import Mathlib.Data.List.Infix

/-! # Two marks in one text

When the same text is cut at two marks that cannot overlap, either the cuts are
the same, or one mark lies wholly before the other. Three parts glued with two
marks can therefore be read in other ways, which are listed.
-/

namespace JustWeather.Text

variable {α : Type*}

/-- No occurrence of `w` starts inside an occurrence of `v`, past its first byte. -/
def Apart (v w : List α) : Prop :=
  ∀ n < v.length, 0 < n → ¬ v.drop n <+: w ∧ ¬ w <+: v.drop n

instance [DecidableEq α] (v w : List α) : Decidable (Apart v w) :=
  inferInstanceAs (Decidable (∀ n < v.length, 0 < n → ¬ v.drop n <+: w ∧ ¬ w <+: v.drop n))

/-- What follows `v` is cut by `w` at the start of `v` or behind it. -/
private theorem Apart.behind {v w c d p : List α} (apart : Apart v w)
    (h : v ++ c = p ++ (w ++ d)) : p = [] ∨ ∃ z, p = v ++ z ∧ c = z ++ (w ++ d) := by
  rcases List.append_eq_append_iff.mp h with ⟨z, rfl, rest⟩ | ⟨z, rfl, rest⟩
  · exact .inr ⟨z, rfl, rest⟩
  · by_cases none : p = []
    · exact .inl none
    · right
      by_cases whole : z = []
      · subst whole
        exact ⟨[], by simp, by simpa using rest.symm⟩
      · exfalso
        have start : 0 < p.length := List.length_pos_of_ne_nil none
        have inside : p.length < (p ++ z).length := by
          have := List.length_pos_of_ne_nil whole
          simp only [List.length_append]
          omega
        have := apart p.length inside start
        rw [List.drop_left] at this
        have both := List.prefix_or_prefix_of_prefix
          (rest ▸ List.prefix_append w d : w <+: z ++ c) (List.prefix_append z c)
        exact both.elim this.2 this.1

theorem cut_cases {v w a b c d : List α} (vw : Apart v w) (wv : Apart w v)
    (h : a ++ (v ++ c) = b ++ (w ++ d)) :
    (a = b ∧ v ++ c = w ++ d) ∨ (∃ z, b = a ++ (v ++ z) ∧ c = z ++ (w ++ d)) ∨
      ∃ z, a = b ++ (w ++ z) ∧ d = z ++ (v ++ c) := by
  rcases List.append_eq_append_iff.mp h with ⟨p, rfl, rest⟩ | ⟨p, rfl, rest⟩
  · rcases vw.behind rest with rfl | ⟨z, rfl, hc⟩
    · exact .inl ⟨by simp, rest⟩
    · exact .inr (.inl ⟨z, rfl, hc⟩)
  · rcases wv.behind rest with rfl | ⟨z, rfl, hd⟩
    · exact .inl ⟨by simp, rest.symm⟩
    · exact .inr (.inr ⟨z, rfl, hd⟩)

/-! ## Three parts and two marks -/

/-- Three parts with a mark behind the first and another behind the second. -/
def glue (v w : List α) (t : List α × List α × List α) : List α :=
  t.1 ++ (v ++ (t.2.1 ++ (w ++ t.2.2)))

/-- Two readings of the same glued text, the first mark of the left one not behind that of the
right one. -/
inductive Resplit (v w : List α) : List α × List α × List α → List α × List α × List α → Prop where
  | second (a b x c) : Resplit v w (a, b, x ++ (w ++ c)) (a, b ++ (w ++ x), c)
  | first (a y b c) : Resplit v w (a, y ++ (v ++ b), c) (a ++ (v ++ y), b, c)
  | both (a y z x c) : Resplit v w (a, y ++ (v ++ z), x ++ (w ++ c)) (a ++ (v ++ y), z ++ (w ++ x), c)
  | inner (a y b x c) : Resplit v w (a, y ++ (v ++ (b ++ (w ++ x))), c) (a ++ (v ++ y), b, x ++ (w ++ c))
  | outer (a b z b' c) : Resplit v w (a, b, z ++ (v ++ (b' ++ (w ++ c))))
      (a ++ (v ++ (b ++ (w ++ z))), b', c)

theorem Resplit.glue_eq {v w : List α} {t t' : List α × List α × List α} (h : Resplit v w t t') :
    glue v w t = glue v w t' := by
  cases h <;> simp [glue]

/-- The two readings differ. -/
theorem Resplit.ne {v w : List α} {t t' : List α × List α × List α} (marks : v ≠ [] ∧ w ≠ [])
    (h : Resplit v w t t') : t ≠ t' := by
  have hv := List.length_pos_of_ne_nil marks.1
  have hw := List.length_pos_of_ne_nil marks.2
  intro same
  cases h with
  | second a b x c =>
      have len := congrArg (fun t => t.2.1.length) same
      simp only [List.length_append] at len
      omega
  | first | both | inner | outer =>
      have len := congrArg (fun t => t.1.length) same
      simp only [List.length_append] at len
      omega

/-- Marks that neither overlap nor start each other. -/
structure Marks (v w : List α) : Prop where
  nonempty : v ≠ [] ∧ w ≠ []
  vv : Apart v v
  ww : Apart w w
  vw : Apart v w
  wv : Apart w v
  differ : ¬ v <+: w ∧ ¬ w <+: v

theorem Marks.ne {v w : List α} (marks : Marks v w) (c d : List α) : v ++ c ≠ w ++ d := by
  intro same
  have both := List.prefix_or_prefix_of_prefix (List.prefix_append v c)
    (same ▸ List.prefix_append w d : w <+: v ++ c)
  exact both.elim marks.differ.1 marks.differ.2

/-- The second parts, when the first mark of one side lies in the second part of the other. -/
private theorem glue_shifted {v w : List α} (marks : Marks v w) {a y b c b' c' : List α}
    (h : b ++ (w ++ c) = y ++ (v ++ (b' ++ (w ++ c')))) :
    Resplit v w (a, b, c) (a ++ (v ++ y), b', c') := by
  rcases cut_cases marks.wv marks.vw h with ⟨-, same⟩ | ⟨z, rfl, rfl⟩ | ⟨z, rfl, rest⟩
  · exact absurd same.symm (marks.ne _ _)
  · exact .outer a b z b' c'
  · rcases cut_cases marks.ww marks.ww rest with ⟨rfl, same⟩ | ⟨x, rfl, rfl⟩ | ⟨x, rfl, rfl⟩
    · rw [List.append_cancel_left same]
      exact .first a y b' c
    · exact .inner a y b' x c
    · exact .both a y z x c'

/-- Glued texts are equal just when the parts are, or one reading is a shift of the other. -/
theorem glue_eq_iff {v w : List α} (marks : Marks v w) {t t' : List α × List α × List α} :
    glue v w t = glue v w t' ↔ t = t' ∨ Resplit v w t t' ∨ Resplit v w t' t := by
  constructor
  · obtain ⟨a, b, c⟩ := t
    obtain ⟨a', b', c'⟩ := t'
    intro h
    simp only [glue] at h
    rcases cut_cases marks.vv marks.vv h with ⟨rfl, rest⟩ | ⟨y, rfl, rest⟩ | ⟨y, rfl, rest⟩
    · rcases cut_cases marks.ww marks.ww (List.append_cancel_left rest) with
        ⟨rfl, same⟩ | ⟨x, rfl, rfl⟩ | ⟨x, rfl, rfl⟩
      · rw [List.append_cancel_left same]
        exact .inl rfl
      · exact .inr (.inl (.second a b x c'))
      · exact .inr (.inr (.second a b' x c))
    · exact .inr (.inl (glue_shifted marks rest))
    · exact .inr (.inr (glue_shifted marks rest))
  · rintro (rfl | shift | shift)
    · rfl
    · exact shift.glue_eq
    · exact shift.glue_eq.symm

end JustWeather.Text
