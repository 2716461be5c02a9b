import Mathlib.Data.List.Basic

/-! # Words

A text is cut into words at runs of separators. Words joined by one separator
determine the words.
-/

namespace JustWeather.Text

variable {α : Type*} (sep : α → Bool)

/-- The maximal runs of bytes that are not separators. -/
def words (s : List α) : List (List α) := (s.splitOnP sep).filter fun w => !w.isEmpty

@[simp] theorem words_nil : words sep [] = [] := rfl

theorem words_cons_sep {c : α} (s : List α) (hc : sep c = true) : words sep (c :: s) = words sep s := by
  rw [words, List.splitOnP_cons_eq_if_modifyHead, if_pos hc]
  rfl

theorem words_append_sep {w : List α} {c : α} (s : List α) (nonempty : w ≠ [])
    (inside : ∀ x ∈ w, sep x = false) (hc : sep c = true) :
    words sep (w ++ c :: s) = w :: words sep s := by
  rw [words, List.splitOnP_append_cons_of_forall_mem inside c hc,
    List.filter_cons_of_pos (by simpa using nonempty)]
  rfl

theorem words_single {w : List α} (nonempty : w ≠ []) (inside : ∀ x ∈ w, sep x = false) :
    words sep w = [w] := by
  rw [words, List.splitOnP_eq_singleton inside, List.filter_cons_of_pos (by simpa using nonempty)]
  rfl

private theorem inside_of_mem_splitOnP {s w : List α} (mem : w ∈ s.splitOnP sep) :
    ∀ c ∈ w, sep c = false := by
  induction s generalizing w with
  | nil => simp_all
  | cons c s ih =>
      rw [List.splitOnP_cons_eq_if_modifyHead] at mem
      split at mem
      · rcases List.mem_cons.mp mem with rfl | mem
        · simp
        · exact ih mem
      · next hc =>
          obtain ⟨v, vs, pieces⟩ := List.exists_cons_of_ne_nil (List.splitOnP_ne_nil sep s)
          rw [pieces, List.modifyHead_cons] at mem
          rcases List.mem_cons.mp mem with rfl | mem
          · intro x hx
            rcases List.mem_cons.mp hx with rfl | hx
            · simpa using hc
            · exact ih (by rw [pieces]; exact List.mem_cons_self) x hx
          · exact ih (by rw [pieces]; exact List.mem_cons_of_mem _ mem)

theorem mem_words {s w : List α} (mem : w ∈ words sep s) : w ≠ [] ∧ ∀ c ∈ w, sep c = false := by
  obtain ⟨piece, some⟩ := List.mem_filter.mp mem
  exact ⟨by simpa using some, inside_of_mem_splitOnP sep piece⟩

/-- Letters may be changed before or after the cutting. -/
theorem words_map {f : α → α} (same : ∀ c, sep (f c) = sep c) (s : List α) :
    words sep (s.map f) = (words sep s).map (List.map f) := by
  have pieces : (s.map f).splitOnP sep = (s.splitOnP sep).map (List.map f) := by
    induction s with
    | nil => simp
    | cons c s ih =>
        rw [List.map_cons, List.splitOnP_cons_eq_if_modifyHead, List.splitOnP_cons_eq_if_modifyHead,
          same, ih]
        split
        · rfl
        · cases s.splitOnP sep <;> rfl
  rw [words, words, pieces, List.filter_map]
  congr 1
  apply List.filter_congr
  intro w _
  simp

/-- Words with one separator between them. -/
def joinWords (c : α) (ws : List (List α)) : List α := List.intercalate [c] ws

@[simp] theorem joinWords_single (c : α) (w : List α) : joinWords c [w] = w := by simp [joinWords]

theorem joinWords_cons {c : α} {w : List α} {ws : List (List α)} (more : ws ≠ []) :
    joinWords c (w :: ws) = w ++ c :: joinWords c ws := by
  rw [joinWords, List.intercalate_cons_of_ne_nil more]
  simp [joinWords]

theorem joinWords_eq_nil {c : α} {ws : List (List α)} (nonempty : ∀ w ∈ ws, w ≠ []) :
    joinWords c ws = [] ↔ ws = [] := by
  constructor
  · intro none
    cases ws with
    | nil => rfl
    | cons w ws =>
        exfalso
        refine nonempty w (by simp) ?_
        cases ws with
        | nil => simpa [joinWords] using none
        | cons v ws =>
            rw [joinWords_cons (by simp)] at none
            simp at none
  · rintro rfl
    rfl

/-- A joined text does not end in the separator. -/
theorem joinWords_getLast {c z : α} {ws : List (List α)}
    (clean : ∀ w ∈ ws, w ≠ [] ∧ c ∉ w) (last : (joinWords c ws).getLast? = some z) : z ≠ c := by
  induction ws with
  | nil => simp [joinWords] at last
  | cons w ws ih =>
      by_cases more : ws = []
      · subst more
        rw [joinWords_single] at last
        rintro rfl
        exact (clean w (by simp)).2 (List.mem_of_getLast? last)
      · have some : joinWords c ws ≠ [] :=
          fun none => more ((joinWords_eq_nil fun v hv => (clean v (by simp [hv])).1).mp none)
        rw [joinWords_cons more, List.getLast?_append_of_ne_nil _ (by simp), List.getLast?_cons,
          List.getLast?_eq_some_getLast some] at last
        refine ih (fun v hv => clean v (by simp [hv])) ?_
        rw [List.getLast?_eq_some_getLast some]
        simpa using last

/-- Joined words are cut into the same words. -/
theorem words_joinWords {c : α} {ws : List (List α)} (hc : sep c = true)
    (clean : ∀ w ∈ ws, w ≠ [] ∧ ∀ x ∈ w, sep x = false) : words sep (joinWords c ws) = ws := by
  induction ws with
  | nil => rfl
  | cons w ws ih =>
      obtain ⟨⟨nonempty, inside⟩, rest⟩ := List.forall_mem_cons.mp clean
      by_cases more : ws = []
      · rw [more, joinWords_single, words_single sep nonempty inside]
      · rw [joinWords_cons more, words_append_sep sep _ nonempty inside hc, ih rest]

/-- The start of a joined text: joined words again, the last one cut, or a separator behind them. -/
theorem take_joinWords {c : α} {ws : List (List α)} (nonempty : ∀ w ∈ ws, w ≠ []) (n : Nat) :
    ∃ vs, (∀ v ∈ vs, v ≠ [] ∧ ∃ w ∈ ws, v <+: w) ∧
      ((joinWords c ws).take n = joinWords c vs ∨
        vs ≠ [] ∧ (joinWords c ws).take n = joinWords c vs ++ [c]) := by
  induction ws generalizing n with
  | nil => exact ⟨[], by simp, .inl (by simp [joinWords])⟩
  | cons w ws ih =>
      obtain ⟨some, rest⟩ := List.forall_mem_cons.mp nonempty
      have whole : ∀ v ∈ [w], v ≠ [] ∧ ∃ x ∈ w :: ws, v <+: x := by
        intro v mem
        rw [List.mem_singleton.mp mem]
        exact ⟨some, w, List.mem_cons_self, List.prefix_refl w⟩
      rcases Nat.eq_zero_or_pos n with rfl | positive
      · exact ⟨[], by simp, .inl (by simp [joinWords])⟩
      by_cases inside : n ≤ w.length
      · refine ⟨[w.take n], ?_, .inl ?_⟩
        · intro v mem
          rw [List.mem_singleton.mp mem]
          refine ⟨fun none => ?_, w, List.mem_cons_self, List.take_prefix n w⟩
          rcases List.take_eq_nil_iff.mp none with zero | none
          · omega
          · exact some none
        · rw [joinWords_single]
          by_cases more : ws = []
          · rw [more, joinWords_single]
          · rw [joinWords_cons more, List.take_append_of_le_length inside]
      · by_cases more : ws = []
        · refine ⟨[w], whole, .inl ?_⟩
          rw [more, joinWords_single, List.take_of_length_le (by omega)]
        · obtain ⟨vs, parts, cut⟩ := ih rest (n - w.length - 1)
          have split : (joinWords c (w :: ws)).take n =
              w ++ c :: (joinWords c ws).take (n - w.length - 1) := by
            rw [joinWords_cons more, List.take_append, List.take_of_length_le (by omega),
              List.take_cons (by omega)]
          by_cases noMore : vs = []
          · subst noMore
            refine ⟨[w], whole, .inr ⟨by simp, ?_⟩⟩
            rcases cut with cut | ⟨absent, -⟩
            · rw [split, cut, joinWords_single]
              rfl
            · exact absurd rfl absent
          · refine ⟨w :: vs, ?_, ?_⟩
            · refine List.forall_mem_cons.mpr ⟨whole w (by simp), fun v mem => ?_⟩
              obtain ⟨some, x, listed, part⟩ := parts v mem
              exact ⟨some, x, List.mem_cons_of_mem _ listed, part⟩
            · rw [split, joinWords_cons noMore]
              rcases cut with cut | ⟨-, cut⟩
              · exact .inl (by rw [cut])
              · exact .inr ⟨by simp, by rw [cut, List.append_assoc, List.cons_append]⟩

theorem joinWords_injective [DecidableEq α] {c : α} {ws vs : List (List α)}
    (cleanWs : ∀ w ∈ ws, w ≠ [] ∧ c ∉ w) (cleanVs : ∀ v ∈ vs, v ≠ [] ∧ c ∉ v)
    (same : joinWords c ws = joinWords c vs) : ws = vs := by
  by_cases noWs : ws = []
  · subst noWs
    exact ((joinWords_eq_nil fun v hv => (cleanVs v hv).1).mp same.symm).symm
  · by_cases noVs : vs = []
    · subst noVs
      exact (joinWords_eq_nil fun w hw => (cleanWs w hw).1).mp same
    · rw [← List.splitOn_intercalate c (fun w hw => (cleanWs w hw).2) noWs,
        ← List.splitOn_intercalate c (fun v hv => (cleanVs v hv).2) noVs]
      exact congrArg (List.splitOn c) same

end JustWeather.Text
