import Mathlib.Data.List.Induction
import Mathlib.Data.List.Nodup
import Mathlib.Logic.Function.Basic

/-! # Doubly linked chains

A store of nodes with a link to either side. The nodes of a chain are linked both ways: a chain is
walked from either end, cut at any seam, and edited by the two links at a seam.
-/

namespace JustWeather.Memory

variable {A V : Type*}

structure Node (A V : Type*) where
  back : Option A
  front : Option A
  item : V
  deriving DecidableEq

/-- The nodes in use. -/
abbrev Store (A V : Type*) := A → Option (Node A V)

def addresses (xs : List (A × V)) : List A := xs.map Prod.fst

/-- The link into `xs` from behind: to its first node, or past it. -/
def first : List (A × V) → Option A → Option A
  | [], after => after
  | x :: _, _ => some x.1

/-- The link into `xs` from ahead: to its last node, or past it. -/
def last : Option A → List (A × V) → Option A
  | before, [] => before
  | _, x :: xs => last (some x.1) xs

/-- The nodes are stored with these items and linked both ways, between `before` and `after`. -/
def Chain (m : Store A V) : Option A → List (A × V) → Option A → Prop
  | _, [], _ => True
  | before, x :: xs, after => m x.1 = some ⟨before, first xs after, x.2⟩ ∧ Chain m (some x.1) xs after

/-- The nodes met, with their items, on the way from a place to the end of the links. -/
inductive Walk (m : Store A V) (link : Node A V → Option A) : Option A → List (A × V) → Prop
  | nil : Walk m link none []
  | cons {a : A} {n : Node A V} {xs : List (A × V)} : m a = some n → Walk m link (link n) xs →
      Walk m link (some a) ((a, n.item) :: xs)

variable {m m' : Store A V} {before after : Option A} {x : A × V} {xs ys : List (A × V)} {a : A}

@[simp] theorem addresses_nil : addresses ([] : List (A × V)) = [] := rfl

@[simp] theorem addresses_cons : addresses (x :: xs) = x.1 :: addresses xs := rfl

@[simp] theorem addresses_append : addresses (xs ++ ys) = addresses xs ++ addresses ys :=
  List.map_append

@[simp] theorem first_nil : first ([] : List (A × V)) after = after := rfl

@[simp] theorem first_cons : first (x :: xs) after = some x.1 := rfl

@[simp] theorem last_nil : last before ([] : List (A × V)) = before := rfl

@[simp] theorem last_cons : last before (x :: xs) = last (some x.1) xs := rfl

theorem first_append : first (xs ++ ys) after = first xs (first ys after) := by
  cases xs <;> rfl

theorem last_append : last before (xs ++ ys) = last (last before xs) ys := by
  induction xs generalizing before with
  | nil => rfl
  | cons x xs ih => exact ih

theorem last_concat : last before (xs ++ [x]) = some x.1 := last_append

theorem first_mem (h : first xs none = some a) : a ∈ addresses xs := by
  cases xs with
  | nil => cases h
  | cons x xs =>
      cases h
      exact List.mem_cons_self

theorem last_mem (h : last none xs = some a) : a ∈ addresses xs := by
  induction xs using List.reverseRecOn with
  | nil => cases h
  | append_singleton xs x =>
      rw [last_concat] at h
      cases h
      simp

theorem last_some (b : A) (xs : List (A × V)) : ∃ c, last (some b) xs = some c := by
  induction xs generalizing b with
  | nil => exact ⟨b, rfl⟩
  | cons x xs ih => exact ih x.1

/-- A chain is cut at any seam. -/
theorem chain_append : Chain m before (xs ++ ys) after ↔
    Chain m before xs (first ys after) ∧ Chain m (last before xs) ys after := by
  induction xs generalizing before with
  | nil => simp [Chain]
  | cons x xs ih => simp only [List.cons_append, Chain, last_cons, first_append, ih, and_assoc]

/-- A chain stands in every store that agrees on its nodes. -/
theorem Chain.congr (h : Chain m before xs after) (same : ∀ a ∈ addresses xs, m' a = m a) :
    Chain m' before xs after := by
  induction xs generalizing before with
  | nil => trivial
  | cons x xs ih =>
      simp only [addresses_cons, List.forall_mem_cons] at same
      exact ⟨same.1.trans h.1, ih h.2 same.2⟩

theorem Chain.stored (h : Chain m before xs after) (mem : a ∈ addresses xs) : (m a).isSome = true := by
  induction xs generalizing before with
  | nil => cases mem
  | cons x xs ih =>
      rcases List.mem_cons.mp mem with rfl | mem
      · rw [h.1]
        rfl
      · exact ih h.2 mem

/-! ## Walks -/

theorem Chain.walk_front (h : Chain m before xs none) : Walk m Node.front (first xs none) xs := by
  induction xs generalizing before with
  | nil => exact .nil
  | cons x xs ih => exact .cons h.1 (ih h.2)

theorem Chain.walk_back (h : Chain m none xs after) : Walk m Node.back (last none xs) xs.reverse := by
  induction xs using List.reverseRecOn generalizing after with
  | nil => exact .nil
  | append_singleton xs x ih =>
      obtain ⟨init, at_, -⟩ := chain_append.mp h
      rw [last_concat, List.reverse_concat]
      exact .cons at_ (ih init)

theorem Walk.start {link : Node A V → Option A} {p : Option A} (h : Walk m link p xs) :
    p = first xs none := by
  cases h <;> rfl

theorem first_drop (n : Nat) : first (xs.drop n) none = xs[n]?.map Prod.fst := by
  rw [← List.head?_drop]
  cases xs.drop n <;> rfl

/-! ## Edits -/

section Edits

variable [DecidableEq A]

/-- `p->front = q`; nothing happens at the end of a chain. -/
def setFront (m : Store A V) (p q : Option A) : Store A V :=
  match p with
  | none => m
  | some a => Function.update m a ((m a).map fun n => { n with front := q })

/-- `p->back = q`; nothing happens at the end of a chain. -/
def setBack (m : Store A V) (p q : Option A) : Store A V :=
  match p with
  | none => m
  | some a => Function.update m a ((m a).map fun n => { n with back := q })

variable {p q : Option A}

/-- The node `x` comes between the neighbours `p` and `q`. -/
def linkIn (m : Store A V) (x : A × V) (p q : Option A) : Store A V :=
  setBack (setFront (Function.update m x.1 (some ⟨p, q, x.2⟩)) p (some x.1)) q (some x.1)

/-- What is between the neighbours `p` and `q` goes. -/
def linkOut (m : Store A V) (p q : Option A) : Store A V := setBack (setFront m p q) q p

theorem setFront_ne (other : p ≠ some a) : setFront m p q a = m a := by
  cases p with
  | none => rfl
  | some b => exact Function.update_of_ne (fun same => other (congrArg some same.symm)) _ _

theorem setBack_ne (other : p ≠ some a) : setBack m p q a = m a := by
  cases p with
  | none => rfl
  | some b => exact Function.update_of_ne (fun same => other (congrArg some same.symm)) _ _

@[simp] theorem setFront_isSome : (setFront m p q a).isSome = (m a).isSome := by
  cases p with
  | none => rfl
  | some b =>
      by_cases same : a = b
      · subst same
        simp [setFront]
      · rw [setFront_ne (by simpa using Ne.symm same)]

@[simp] theorem setBack_isSome : (setBack m p q a).isSome = (m a).isSome := by
  cases p with
  | none => rfl
  | some b =>
      by_cases same : a = b
      · subst same
        simp [setBack]
      · rw [setBack_ne (by simpa using Ne.symm same)]

theorem setFront_outside (outside : a ∉ addresses xs) : setFront m (last none xs) q a = m a :=
  setFront_ne fun here => outside (last_mem here)

theorem setBack_outside (outside : a ∉ addresses xs) : setBack m (first xs none) q a = m a :=
  setBack_ne fun here => outside (first_mem here)

theorem linkIn_outside (other : a ≠ x.1) (outside : a ∉ addresses (xs ++ ys)) :
    linkIn m x (last none xs) (first ys none) a = m a := by
  rw [addresses_append, List.mem_append, not_or] at outside
  rw [linkIn, setBack_outside outside.2, setFront_outside outside.1, Function.update_of_ne other]

theorem linkOut_outside (outside : a ∉ addresses (xs ++ ys)) :
    linkOut m (last none xs) (first ys none) a = m a := by
  rw [addresses_append, List.mem_append, not_or] at outside
  rw [linkOut, setBack_outside outside.2, setFront_outside outside.1]

/-- The last node of a chain is linked on. -/
theorem Chain.setFront (h : Chain m before xs after) (distinct : (addresses xs).Nodup) :
    Chain (setFront m (last before xs) q) before xs q := by
  cases xs using List.reverseRecOn with
  | nil => trivial
  | append_singleton xs x =>
      obtain ⟨init, at_, -⟩ := chain_append.mp h
      rw [addresses_append, List.nodup_append'] at distinct
      rw [last_concat]
      refine chain_append.mpr ⟨init.congr fun a mem => setFront_ne ?_, ?_, trivial⟩
      · rintro ⟨⟩
        exact distinct.2.2 mem (List.mem_singleton_self _)
      · simp [Memory.setFront, at_]

/-- The first node of a chain is linked back. -/
theorem Chain.setBack (h : Chain m before xs after) (distinct : (addresses xs).Nodup) :
    Chain (setBack m (first xs after) q) q xs after := by
  cases xs with
  | nil => trivial
  | cons x xs =>
      refine ⟨by simp [Memory.setBack, h.1], h.2.congr fun a mem => setBack_ne ?_⟩
      rintro ⟨⟩
      exact (List.nodup_cons.mp distinct).1 mem

/-- A node is linked in at a seam. -/
theorem Chain.linkIn (h : Chain m none (xs ++ ys) none) (distinct : (addresses (xs ++ ys)).Nodup)
    (fresh : x.1 ∉ addresses (xs ++ ys)) :
    Chain (linkIn m x (last none xs) (first ys none)) none (xs ++ x :: ys) none := by
  obtain ⟨left, right⟩ := chain_append.mp h
  rw [addresses_append] at distinct fresh
  obtain ⟨ofLeft, ofRight, apart⟩ := List.nodup_append'.mp distinct
  rw [List.mem_append, not_or] at fresh
  have kept : ∀ a, a ≠ x.1 →
      Function.update m x.1 (some ⟨last none xs, first ys none, x.2⟩) a = m a :=
    fun a other => Function.update_of_ne other _ _
  refine chain_append.mpr ⟨?_, ?_, ?_⟩
  · refine ((left.congr fun a mem => kept a ?_).setFront ofLeft).congr fun a mem => ?_
    · exact fun same => fresh.1 (same ▸ mem)
    · exact setBack_outside fun there => apart mem there
  · rw [Memory.linkIn, setBack_outside fresh.2, setFront_outside fresh.1, Function.update_self]
  · refine (right.congr fun a mem => ?_).setBack ofRight
    rw [setFront_outside fun there => apart there mem]
    exact kept a fun same => fresh.2 (same ▸ mem)

/-- A node is linked out. -/
theorem Chain.linkOut (h : Chain m none (xs ++ x :: ys) none)
    (distinct : (addresses (xs ++ x :: ys)).Nodup) :
    Chain (linkOut m (last none xs) (first ys none)) none (xs ++ ys) none := by
  obtain ⟨left, -, right⟩ := chain_append.mp h
  rw [addresses_append] at distinct
  obtain ⟨ofLeft, ofRight, apart⟩ := List.nodup_append'.mp distinct
  have apart : ∀ a ∈ addresses xs, a ∉ addresses ys :=
    fun a mem there => apart mem (List.mem_cons_of_mem _ there)
  refine chain_append.mpr ⟨?_, ?_⟩
  · exact (left.setFront ofLeft).congr fun a mem => setBack_outside (apart a mem)
  · exact (right.congr fun a mem => setFront_outside fun there => apart a there mem).setBack
      (List.nodup_cons.mp ofRight).2

end Edits

end JustWeather.Memory
