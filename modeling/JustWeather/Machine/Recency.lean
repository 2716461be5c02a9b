import Mathlib.Data.Finset.Card
import Mathlib.Data.List.Nodup

/-! # Bounded lists by recency

A list of keyed items takes a new one at its end, in place of the old one with its key. When the
other items fill it, the first of them goes.
-/

namespace JustWeather.Machine.Recency

variable {Item Key : Type*} [DecidableEq Key] (key : Item → Key)

/-- The items with other keys. -/
def others (k : Key) (items : List Item) : List Item := items.filter fun item => key item ≠ k

/-- An item is taken by a list for so many. -/
def push (most : Nat) (new : Item) (items : List Item) : List Item :=
  (if most ≤ (others key (key new) items).length then (others key (key new) items).tail
    else others key (key new) items) ++ [new]

/-- The item is in the list, and these are the keys of the items behind it. -/
def Behind (item : Item) (keys : Finset Key) (items : List Item) : Prop :=
  ∃ front back, items = front ++ item :: back ∧ (back.map key).toFinset = keys

variable {key} {item new : Item} {keys : Finset Key} {items : List Item} {most : Nat}

theorem others_keys (k : Key) (items : List Item) :
    ((others key k items).map key).toFinset = (items.map key).toFinset.erase k := by
  ext k'
  simp only [others, List.mem_toFinset, List.mem_map, List.mem_filter, decide_eq_true_eq,
    Finset.mem_erase, ne_eq]
  constructor
  · rintro ⟨item, ⟨mem, other⟩, rfl⟩
    exact ⟨other, item, mem, rfl⟩
  · rintro ⟨other, item, mem, rfl⟩
    exact ⟨item, ⟨mem, other⟩, rfl⟩

/-- Distinct keys are as many as the items. -/
theorem card_keys (distinct : (items.map key).Nodup) : (items.map key).toFinset.card = items.length := by
  rw [List.toFinset_card_of_nodup distinct, List.length_map]

theorem others_distinct {k : Key} (distinct : (items.map key).Nodup) :
    ((others key k items).map key).Nodup :=
  distinct.sublist (List.filter_sublist.map key)

/-- With the new key they are one more than without it. -/
theorem card_others (k : Key) (distinct : (items.map key).Nodup) :
    (others key k items).length + 1 = (insert k (items.map key).toFinset).card := by
  rw [← card_keys (others_distinct distinct), others_keys, ← Finset.erase_insert_eq_erase,
    Finset.card_erase_add_one (Finset.mem_insert_self _ _)]

theorem keys_push (new : Item) (items : List Item) :
    ((others key (key new) items ++ [new]).map key).toFinset =
      insert (key new) (items.map key).toFinset := by
  rw [List.map_append, List.toFinset_append, others_keys]
  ext k
  by_cases here : k = key new <;> simp [here]

theorem others_split {front back : List Item} (other : key new ≠ key item) :
    others key (key new) (front ++ item :: back) =
      others key (key new) front ++ item :: others key (key new) back := by
  simp [others, Ne.symm other]

/-- As long as fewer other keys than the list is for have come, the item stays and they are behind it. -/
theorem Behind.push (distinct : (items.map key).Nodup) (other : key new ≠ key item)
    (h : Behind key item keys items) (few : (insert (key new) keys).card < most) :
    Behind key item (insert (key new) keys) (push key most new items) := by
  obtain ⟨front, back, rfl, rfl⟩ := h
  have apart : (back.map key).Nodup := by
    rw [List.map_append, List.map_cons] at distinct
    exact (List.nodup_cons.mp (List.nodup_append.mp distinct).2.1).2
  have size := card_others (key new) apart
  have kept := @keys_push _ _ _ key new back
  unfold Recency.push
  rw [others_split other]
  cases before : others key (key new) front with
  | nil =>
      rw [List.nil_append, List.length_cons, if_neg (by omega)]
      exact ⟨[], others key (key new) back ++ [new], rfl, kept⟩
  | cons first rest =>
      split
      · exact ⟨rest, others key (key new) back ++ [new], by simp, kept⟩
      · exact ⟨first :: rest, others key (key new) back ++ [new], by simp, kept⟩

/-- With one more of them it goes. -/
theorem Behind.push_full (distinct : (items.map key).Nodup) (bounded : items.length ≤ most)
    (other : key new ≠ key item) (h : Behind key item keys items) (few : keys.card < most)
    (full : most ≤ (insert (key new) keys).card) :
    key item ∉ (Recency.push key most new items).map key := by
  obtain ⟨front, back, rfl, rfl⟩ := h
  have apart : key item ∉ back.map key ∧ (back.map key).Nodup := by
    rw [List.map_append, List.map_cons] at distinct
    exact List.nodup_cons.mp (List.nodup_append.mp distinct).2.1
  have size := card_others (key new) apart.2
  have least := Finset.card_insert_le (key new) (back.map key).toFinset
  have behind := card_keys apart.2
  simp only [List.length_append, List.length_cons] at bounded
  have none : front = [] := List.length_eq_zero_iff.mp (by omega)
  have first : others key (key new) (front ++ item :: back) = item :: others key (key new) back := by
    rw [others_split other, none]
    rfl
  unfold Recency.push
  rw [first, List.length_cons, if_pos (by omega), List.tail_cons, List.map_append]
  intro mem
  rcases List.mem_append.mp mem with old | last
  · exact apart.1 ((List.filter_sublist.map key).subset old)
  · exact other (List.mem_singleton.mp last).symm

/-- An item before it goes. -/
theorem Behind.others {k : Key} (other : k ≠ key item) (none : k ∉ keys)
    (h : Behind key item keys items) : Behind key item keys (others key k items) := by
  obtain ⟨front, back, rfl, rfl⟩ := h
  refine ⟨Recency.others key k front, back, ?_, rfl⟩
  have all : Recency.others key k back = back := by
    apply List.filter_eq_self.mpr
    intro item mem
    have apart : key item ≠ k := by
      rintro rfl
      exact none (List.mem_toFinset.mpr (List.mem_map_of_mem mem))
    simpa using apart
  unfold Recency.others at all ⊢
  rw [List.filter_append, List.filter_cons_of_pos (by simpa using Ne.symm other), all]

end JustWeather.Machine.Recency
