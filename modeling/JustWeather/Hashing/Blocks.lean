import Mathlib.Data.List.Basic
import Mathlib.Data.List.Induction

/-! # Folds over blocks

A state takes in a text block by block. The text may come in pieces: what does
not fill a block waits for the next piece. Two texts that lead to one state make
the step function collide.
-/

namespace JustWeather.Hashing

variable {α β σ : Type*} {size : Nat}

/-! ## Cutting into blocks -/

/-- The first `count` blocks of this size. -/
def blocks (size : Nat) : Nat → List α → List (List α)
  | 0, _ => []
  | count + 1, data => data.take size :: blocks size count (data.drop size)

/-- All the whole blocks. -/
def wholeBlocks (size : Nat) (data : List α) : List (List α) := blocks size (data.length / size) data

/-- What is behind the whole blocks. -/
def remainder (size : Nat) (data : List α) : List α := data.drop (data.length / size * size)

theorem blocks_add (m n : Nat) (data : List α) :
    blocks size (m + n) data = blocks size m data ++ blocks size n (data.drop (m * size)) := by
  induction m generalizing data with
  | zero => simp [blocks]
  | succ m ih =>
      have shift : m + 1 + n = m + n + 1 := by omega
      have behind : size + m * size = (m + 1) * size := by rw [Nat.add_mul, Nat.one_mul, Nat.add_comm]
      rw [shift, blocks, blocks, ih, List.drop_drop, behind]
      rfl

/-- The blocks of a text do not change when more comes. -/
theorem blocks_append {count : Nat} {xs : List α} (ys : List α) (whole : count * size ≤ xs.length) :
    blocks size count (xs ++ ys) = blocks size count xs := by
  induction count generalizing xs with
  | zero => rfl
  | succ count ih =>
      rw [Nat.add_mul, Nat.one_mul] at whole
      have rest : count * size ≤ (xs.drop size).length := by
        rw [List.length_drop]
        omega
      rw [blocks, blocks, List.take_append_of_le_length (by omega),
        List.drop_append_of_le_length (by omega), ih rest]

theorem blocks_length (count : Nat) (data : List α) : (blocks size count data).length = count := by
  induction count generalizing data with
  | zero => rfl
  | succ count ih => rw [blocks, List.length_cons, ih]

theorem length_of_mem_blocks {count : Nat} {data b : List α} (whole : count * size ≤ data.length)
    (mem : b ∈ blocks size count data) : b.length = size := by
  induction count generalizing data with
  | zero => cases mem
  | succ count ih =>
      rw [Nat.add_mul, Nat.one_mul] at whole
      rw [blocks, List.mem_cons] at mem
      rcases mem with rfl | later
      · exact List.length_take_of_le (by omega)
      · exact ih (by rw [List.length_drop]; omega) later

/-- A text that is whole blocks is made of them. -/
theorem flatten_blocks {count : Nat} {data : List α} (whole : data.length = count * size) :
    (blocks size count data).flatten = data := by
  induction count generalizing data with
  | zero =>
      rw [Nat.zero_mul, List.length_eq_zero_iff] at whole
      rw [whole]
      rfl
  | succ count ih =>
      rw [Nat.add_mul, Nat.one_mul] at whole
      rw [blocks, List.flatten_cons, ih (by rw [List.length_drop]; omega), List.take_append_drop]

/-- Less than a block has no block. -/
theorem wholeBlocks_short {data : List α} (short : data.length < size) : wholeBlocks size data = [] := by
  rw [wholeBlocks, Nat.div_eq_of_lt short]
  rfl

theorem remainder_short {data : List α} (short : data.length < size) : remainder size data = data := by
  rw [remainder, Nat.div_eq_of_lt short, Nat.zero_mul, List.drop_zero]

private theorem div_append (pos : 0 < size) (xs ys : List α) : (xs ++ ys).length / size =
    xs.length / size + (remainder size xs ++ ys).length / size := by
  have within := Nat.div_mul_le_self xs.length size
  have split : (xs ++ ys).length =
      xs.length / size * size + (remainder size xs ++ ys).length := by
    simp only [List.length_append, remainder, List.length_drop]
    omega
  rw [split, Nat.mul_comm, Nat.mul_add_div pos]

/-- What was left over goes to the next piece. -/
theorem wholeBlocks_append (pos : 0 < size) (xs ys : List α) : wholeBlocks size (xs ++ ys) =
    wholeBlocks size xs ++ wholeBlocks size (remainder size xs ++ ys) := by
  have within := Nat.div_mul_le_self xs.length size
  simp only [wholeBlocks]
  rw [div_append pos, blocks_add, blocks_append ys within, List.drop_append_of_le_length within]
  rfl

theorem remainder_append (pos : 0 < size) (xs ys : List α) :
    remainder size (xs ++ ys) = remainder size (remainder size xs ++ ys) := by
  have within := Nat.div_mul_le_self xs.length size
  conv => lhs; unfold remainder
  rw [div_append pos, Nat.add_mul, ← List.drop_drop, List.drop_append_of_le_length within]
  rfl

/-- A block in front is cut off. -/
theorem wholeBlocks_cons {b : List α} (pos : 0 < size) (whole : b.length = size) (tail : List α) :
    wholeBlocks size (b ++ tail) = b :: wholeBlocks size tail := by
  have one : (b ++ tail).length / size = tail.length / size + 1 := by
    rw [List.length_append, whole, Nat.add_div_left _ pos]
  rw [wholeBlocks, one, blocks, List.take_left' whole, List.drop_left' whole]
  rfl

theorem wholeBlocks_one {b : List α} (pos : 0 < size) (whole : b.length = size) :
    wholeBlocks size b = [b] := by
  have none : wholeBlocks size ([] : List α) = [] := wholeBlocks_short pos
  have cut := wholeBlocks_cons pos whole []
  rwa [List.append_nil, none] at cut

theorem remainder_cons {b : List α} (pos : 0 < size) (whole : b.length = size) (tail : List α) :
    remainder size (b ++ tail) = remainder size tail := by
  have one : (b ++ tail).length / size * size = size + tail.length / size * size := by
    rw [List.length_append, whole, Nat.add_div_left _ pos, Nat.add_mul, Nat.one_mul, Nat.add_comm]
  rw [remainder, one, ← List.drop_drop, List.drop_left' whole]
  rfl

/-! ## Collisions -/

/-- What a fold hands to its function, step by step. -/
def handed (f : σ → β → σ) : σ → List β → List (σ × β)
  | _, [] => []
  | s, x :: xs => (s, x) :: handed f (f s x) xs

/-- A step of each fold, with different arguments and the same result. -/
def Collide (f : σ → β → σ) (s : σ) (xs : List β) (t : σ) (ys : List β) : Prop :=
  ∃ c ∈ handed f s xs, ∃ d ∈ handed f t ys, c ≠ d ∧ f c.1 c.2 = f d.1 d.2

variable {f : σ → β → σ} {s t : σ} {xs ys : List β}

theorem handed_append (f : σ → β → σ) (s : σ) (xs ys : List β) :
    handed f s (xs ++ ys) = handed f s xs ++ handed f (xs.foldl f s) ys := by
  induction xs generalizing s with
  | nil => rfl
  | cons x xs ih => rw [List.cons_append, handed, ih, handed, List.foldl_cons, List.cons_append]

theorem Collide.append (more more' : List β) (h : Collide f s xs t ys) :
    Collide f s (xs ++ more) t (ys ++ more') := by
  obtain ⟨c, mem, d, mem', collide⟩ := h
  refine ⟨c, ?_, d, ?_, collide⟩
  · rw [handed_append]
    exact List.mem_append_left _ mem
  · rw [handed_append]
    exact List.mem_append_left _ mem'

section Map

variable {τ : Type*} {f' : τ → β → τ} {g : σ → τ}

theorem handed_map (commutes : ∀ s x, g (f s x) = f' (g s) x) (s : σ) (xs : List β) :
    handed f' (g s) xs = (handed f s xs).map fun c => (g c.1, c.2) := by
  induction xs generalizing s with
  | nil => rfl
  | cons x xs ih => rw [handed, handed, List.map_cons, ← commutes, ih]

/-- Steps that collide in another view of the states collide. -/
theorem Collide.of_map (injective : Function.Injective g) (commutes : ∀ s x, g (f s x) = f' (g s) x)
    (h : Collide f' (g s) xs (g t) ys) : Collide f s xs t ys := by
  obtain ⟨c, mem, d, mem', differ, same⟩ := h
  rw [handed_map commutes] at mem mem'
  obtain ⟨c, handedC, rfl⟩ := List.mem_map.mp mem
  obtain ⟨d, handedD, rfl⟩ := List.mem_map.mp mem'
  refine ⟨c, handedC, d, handedD, ?_, ?_⟩
  · rintro rfl
    exact differ rfl
  · rw [← commutes, ← commutes] at same
    exact injective same

end Map

/-- The last steps collide, unless they are the same step. -/
theorem collide_last {x y : β} (same : (xs ++ [x]).foldl f s = (ys ++ [y]).foldl f t) :
    (xs.foldl f s = ys.foldl f t ∧ x = y) ∨ Collide f s (xs ++ [x]) t (ys ++ [y]) := by
  rw [List.foldl_append, List.foldl_append] at same
  by_cases last : (xs.foldl f s, x) = (ys.foldl f t, y)
  · exact .inl ⟨(Prod.mk.inj last).1, (Prod.mk.inj last).2⟩
  · refine .inr ⟨(xs.foldl f s, x), ?_, (ys.foldl f t, y), ?_, last, same⟩
    · rw [handed_append]
      exact List.mem_append_right _ List.mem_cons_self
    · rw [handed_append]
      exact List.mem_append_right _ List.mem_cons_self

/-- Two folds of equal length with one result are one fold, or collide on the way. -/
theorem eq_or_collide (length : xs.length = ys.length) (same : xs.foldl f s = ys.foldl f t) :
    (s = t ∧ xs = ys) ∨ Collide f s xs t ys := by
  induction xs using List.reverseRecOn generalizing ys with
  | nil =>
      rw [List.length_nil] at length
      obtain rfl := List.length_eq_zero_iff.mp length.symm
      exact .inl ⟨same, rfl⟩
  | append_singleton xs x ih =>
      rcases List.eq_nil_or_concat' ys with rfl | ⟨ys, y, rfl⟩
      · simp at length
      · simp only [List.length_append, List.length_singleton, Nat.add_right_cancel_iff] at length
        rcases collide_last same with ⟨before, rfl⟩ | collide
        · rcases ih length before with ⟨start, rfl⟩ | collide
          · exact .inl ⟨start, rfl⟩
          · exact .inr (collide.append [x] [x])
        · exact .inr collide

/-- When the last block tells how many there are, two texts with one result collide. -/
theorem collide_of_ne (some_ : xs ≠ []) (some' : ys ≠ [])
    (last : xs.getLast? = ys.getLast? → xs.length = ys.length) (differ : xs ≠ ys)
    (same : xs.foldl f s = ys.foldl f s) : Collide f s xs s ys := by
  obtain ⟨before, x, rfl⟩ := (List.eq_nil_or_concat' xs).resolve_left some_
  obtain ⟨before', y, rfl⟩ := (List.eq_nil_or_concat' ys).resolve_left some'
  rcases collide_last same with ⟨-, rfl⟩ | collide
  · have length := last (by simp)
    exact (eq_or_collide length same).resolve_left fun equal => differ equal.2
  · exact collide

end JustWeather.Hashing
