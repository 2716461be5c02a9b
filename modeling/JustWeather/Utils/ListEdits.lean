import JustWeather.Utils.ClientList
import Mathlib.Data.Fintype.Card

/-! # What the list functions do to a chain

On a list whose nodes are a chain, each function is one edit of the chain, and of the three fields
of the list.
-/

namespace JustWeather.Utils

open CLib Memory

variable {Item : Type}

/-- The fields of a list with these nodes. -/
def header (xs : List (Address × Item)) : LinkedList := ⟨first xs none, last none xs, xs.length⟩

/-- The heap with another list at `p`, and other nodes. -/
def Heap.edit (h : Heap Item) (p : Address) (l : LinkedList) (m : Store Address Item) : Heap Item :=
  { h with lists := Function.update h.lists p (some l), nodes := m }

variable {h : Heap Item} {p a b : Address} {l : LinkedList} {m : Store Address Item}
  {n : Node Address Item} {target : Option Address}

/-! ## Statements -/

theorem Heap.edit_self (here : h.lists p = some l) : h.edit p l h.nodes = h := by
  rw [Heap.edit, ← here, Function.update_eq_self]

@[simp] theorem list_edit : (h.edit p l m).list p = .returns l := by
  simp [Heap.list, Heap.edit]

@[simp] theorem putNode_edit : (h.edit p l m).putNode a n = h.edit p l (Function.update m a (some n)) :=
  rfl

theorem putList_edit {l' : LinkedList} : (h.edit p l m).putList p l' = h.edit p l' m := by
  simp [Heap.putList, Heap.edit]

@[simp] theorem setHead_edit :
    (h.edit p l m).setHead p target = .returns (h.edit p { l with head := target } m) := by
  simp [Heap.setHead, putList_edit]

@[simp] theorem setTail_edit :
    (h.edit p l m).setTail p target = .returns (h.edit p { l with tail := target } m) := by
  simp [Heap.setTail, putList_edit]

@[simp] theorem setSize_edit {size : Nat} :
    (h.edit p l m).setSize p size = .returns (h.edit p { l with size := size % 2 ^ 64 } m) := by
  simp [Heap.setSize, putList_edit]

theorem node_edit (stored : m a = some n) : (h.edit p l m).node a = .returns n := by
  simp [Heap.node, Heap.edit, stored]

theorem setFront_edit (stored : (m a).isSome = true) : (h.edit p l m).setFront a target =
    .returns (h.edit p l (setFront m (some a) target)) := by
  obtain ⟨n, stored⟩ := Option.isSome_iff_exists.mp stored
  simp [Heap.setFront, node_edit stored, Memory.setFront, stored]

theorem setBack_edit (stored : (m a).isSome = true) : (h.edit p l m).setBack a target =
    .returns (h.edit p l (setBack m (some a) target)) := by
  obtain ⟨n, stored⟩ := Option.isSome_iff_exists.mp stored
  simp [Heap.setBack, node_edit stored, Memory.setBack, stored]

theorem freeNode_edit (stored : (m a).isSome = true) : (h.edit p l m).freeNode a =
    .returns (h.edit p l (Function.update m a none)) := by
  obtain ⟨n, stored⟩ := Option.isSome_iff_exists.mp stored
  rw [Heap.freeNode, node_edit stored]
  rfl

theorem freeList_edit : (h.edit p l m).freeList p =
    .returns { h with lists := Function.update h.lists p none, nodes := m } := by
  rw [Heap.freeList, list_edit]
  simp [Heap.edit]

theorem dispose_edit (disposes : Bool) (item : Item) :
    (h.edit p l m).dispose disposes item = (h.dispose disposes item).edit p l m := by
  cases disposes <;> rfl

theorem linkFront_edit {back : Option Address} (stored : ∀ b, back = some b → (m b).isSome = true) :
    (h.edit p l m).linkFront p back target = .returns
      (h.edit p { l with head := back.elim target fun _ => l.head } (setFront m back target)) := by
  cases back with
  | none => simp [Heap.linkFront, Memory.setFront]
  | some b => simp [Heap.linkFront, setFront_edit (stored b rfl)]

theorem linkBack_edit {front : Option Address} (stored : ∀ b, front = some b → (m b).isSome = true) :
    (h.edit p l m).linkBack p front target = .returns
      (h.edit p { l with tail := front.elim target fun _ => l.tail } (setBack m front target)) := by
  cases front with
  | none => simp [Heap.linkBack, Memory.setBack]
  | some b => simp [Heap.linkBack, setBack_edit (stored b rfl)]

/-! ## The header at a seam -/

variable {xs ys : List (Address × Item)} {x : Address × Item}

theorem first_of_last (old new : Option Address) :
    ((last none xs).elim new fun _ => first xs old) = first xs new := by
  cases xs with
  | nil => rfl
  | cons x xs =>
      obtain ⟨c, some_⟩ := last_some x.1 xs
      simp [some_]

theorem last_of_first (old new : Option Address) :
    ((first ys none).elim new fun _ => last old ys) = last new ys := by
  cases ys <;> rfl

/-- Different nodes are fewer than 64 bits count. -/
theorem length_lt (distinct : (addresses xs).Nodup) : xs.length < 2 ^ 64 := by
  have bound := distinct.length_le_card
  rw [addresses, List.length_map, Fintype.card_fin] at bound
  omega

/-! ## Lookup -/

theorem seek_walk {link : Node Address Item → Option Address} {q : Option Address} {steps : Nat}
    (walk : Walk m link q xs) (inside : steps ≤ xs.length) :
    seek link (h.edit p l m) steps q = .returns (first (xs.drop steps) none) := by
  induction steps generalizing q xs with
  | zero => exact congrArg Exec.returns walk.start
  | succ steps ih =>
      cases walk with
      | nil => cases inside
      | cons stored rest =>
          rw [seek, node_edit stored, Exec.returns_bind, ih rest (Nat.le_of_succ_le_succ inside)]
          rfl

/-- Whichever end it starts from, a lookup ends at the node with the index. -/
theorem linkedListGetIndex_chain (chain : Chain m none xs none) (index : Nat) :
    linkedListGetIndex (some p) index (h.edit p (header xs) m) =
      .returns (xs[index]?.map Prod.fst) := by
  simp only [linkedListGetIndex, list_edit, Exec.returns_bind, header]
  split
  · next outside =>
      rw [List.getElem?_eq_none outside]
      rfl
  · next inside =>
      split
      · rw [seek_walk chain.walk_front (by omega), first_drop]
      · rw [seek_walk chain.walk_back (by rw [List.length_reverse]; omega), first_drop,
          List.getElem?_reverse (by omega)]
        congr 3
        omega

/-! ## `LinkedList_foreach` -/

theorem untilNode_walk {wanted : Address × Item → Bool} {q : Option Address} {turns : Nat}
    (walk : Walk m Node.front q xs) (enough : xs.length ≤ turns) :
    untilNode wanted turns q (h.edit p l m) = .returns (xs.find? wanted) := by
  induction walk generalizing turns with
  | nil => cases turns <;> rfl
  | @cons a n xs stored rest ih =>
      cases turns with
      | zero => cases enough
      | succ turns =>
          rw [untilNode, node_edit stored, Exec.returns_bind, List.find?_cons]
          cases wanted (a, n.item) with
          | true => rfl
          | false => exact ih (Nat.le_of_succ_le_succ enough)

theorem linkedListForeachUntil_chain (chain : Chain m none xs none)
    (distinct : (addresses xs).Nodup) (wanted : Address × Item → Bool) :
    linkedListForeachUntil wanted p (h.edit p (header xs) m) = .returns (xs.find? wanted) := by
  rw [linkedListForeachUntil, list_edit]
  exact untilNode_walk chain.walk_front (Nat.le_of_lt (length_lt distinct))

theorem eachNode_walk {β : Type} {body : β → Address × Item → β} {b : β} {q : Option Address}
    {turns : Nat} (walk : Walk m Node.front q xs) (enough : xs.length ≤ turns) :
    eachNode body turns q b (h.edit p l m) = .returns (xs.foldl body b) := by
  induction walk generalizing turns b with
  | nil => cases turns <;> rfl
  | cons stored rest ih =>
      cases turns with
      | zero => cases enough
      | succ turns =>
          rw [eachNode, node_edit stored, Exec.returns_bind, List.foldl_cons]
          exact ih (Nat.le_of_succ_le_succ enough)

theorem linkedListForeach_chain {β : Type} (chain : Chain m none xs none)
    (distinct : (addresses xs).Nodup) (body : β → Address × Item → β) (b : β) :
    linkedListForeach body p b (h.edit p (header xs) m) = .returns (xs.foldl body b) := by
  rw [linkedListForeach, list_edit]
  exact eachNode_walk chain.walk_front (Nat.le_of_lt (length_lt distinct))

/-! ## Insertion -/

section Inserting

variable {item : Item}

/-- `calloc` fails: nothing happens. -/
theorem linkedListAppend_refused {list : Option Address} :
    linkedListAppend none list item h = .returns (1, h) := by
  cases list <;> rfl

theorem linkedListAppend_chain (chain : Chain m none xs none)
    (distinct : (addresses (xs ++ [(a, item)])).Nodup) :
    linkedListAppend (some a) (some p) item (h.edit p (header xs) m) =
      .returns (0, h.edit p (header (xs ++ [(a, item)])) (linkIn m (a, item) (last none xs) none)) := by
  have size : (xs.length + 1) % 2 ^ 64 = (xs ++ [(a, item)]).length := by
    have small := length_lt distinct
    rw [List.length_append, List.length_singleton] at small ⊢
    exact Nat.mod_eq_of_lt small
  cases xs using List.reverseRecOn with
  | nil => simp [linkedListAppend, header, linkIn, setFront, setBack]
  | append_singleton xs x =>
      have fresh : x.1 ≠ a := by grind [addresses_append, addresses_cons]
      have stored : (m x.1).isSome = true := chain.stored (by simp)
      simp only [linkedListAppend, putNode_edit, list_edit, Exec.returns_bind, setSize_edit, header,
        last_concat]
      rw [size, setBack_edit (by simp), Exec.returns_bind, setFront_edit (by simp [fresh, stored])]
      simp [first_append, linkIn, Memory.setBack]

/-- The new node of an insertion, before it is linked. -/
theorem setFront_setBack_new (before after : Option Address) :
    setFront (setBack (Function.update m a (some ⟨none, none, item⟩)) (some a) before) (some a) after =
      Function.update m a (some ⟨before, after, item⟩) := by
  simp [Memory.setFront, Memory.setBack]

theorem linkedListInsert_chain (chain : Chain m none (xs ++ x :: ys) none)
    (distinct : (addresses (xs ++ (a, item) :: x :: ys)).Nodup) :
    linkedListInsert (some a) (some p) xs.length item (h.edit p (header (xs ++ x :: ys)) m) =
      .returns (0, h.edit p (header (xs ++ (a, item) :: x :: ys))
        (linkIn m (a, item) (last none xs) (some x.1))) := by
  have size : ((header (xs ++ x :: ys)).size + 1) % 2 ^ 64 = (xs ++ (a, item) :: x :: ys).length := by
    have small := length_lt distinct
    simp only [header, List.length_append, List.length_cons] at small ⊢
    exact Nat.mod_eq_of_lt small
  have inside : ¬ (header (xs ++ x :: ys)).size ≤ xs.length := by simp [header]
  have found : (xs ++ x :: ys)[xs.length]?.map Prod.fst = some x.1 := by simp
  obtain ⟨-, at_, -⟩ := chain_append.mp chain
  obtain ⟨target, fresh⟩ : x.1 ≠ a ∧ a ∉ addresses xs := by
    simp only [addresses_append, addresses_cons, List.nodup_append', List.nodup_cons,
      List.mem_cons, not_or] at distinct
    exact ⟨Ne.symm distinct.2.1.1.1, fun mem => distinct.2.2 mem List.mem_cons_self⟩
  have stored : ∀ b, last none xs = some b →
      (Function.update m a (some ⟨last none xs, some x.1, item⟩) b).isSome = true := by
    intro b here
    have mem := last_mem here
    have other : b ≠ a := by grind
    rw [Function.update_of_ne other]
    apply chain.stored
    simp [mem]
  simp only [linkedListInsert, list_edit, Exec.returns_bind]
  rw [if_neg inside, linkedListGetIndex_chain chain, found]
  simp only [putNode_edit, setSize_edit, Exec.returns_bind, size]
  rw [node_edit ((Function.update_of_ne target _ _).trans at_), Exec.returns_bind,
    setBack_edit (by simp), Exec.returns_bind, setFront_edit (by simp), Exec.returns_bind,
    setFront_setBack_new, linkFront_edit stored, Exec.returns_bind,
    setBack_edit (by simp [target, at_])]
  simp [header, first_append, last_append, first_of_last, linkIn]

end Inserting

/-! ## Removal -/

/-- The items that a `free_function` gets. -/
def handed (disposes : Bool) (items : List Item) : List Item := if disposes then items else []

def Heap.logged (h : Heap Item) (items : List Item) : Heap Item :=
  { h with disposed := h.disposed ++ items }

theorem dispose_eq (disposes : Bool) (item : Item) :
    h.dispose disposes item = h.logged (handed disposes [item]) := by
  cases disposes <;> simp [Heap.dispose, Heap.logged, handed]

theorem linkedListRemove_chain (chain : Chain m none (xs ++ x :: ys) none)
    (distinct : (addresses (xs ++ x :: ys)).Nodup) (disposes : Bool) :
    linkedListRemove (some p) (some x.1) disposes (h.edit p (header (xs ++ x :: ys)) m) =
      .returns (0, (h.logged (handed disposes [x.2])).edit p (header (xs ++ ys))
        (Function.update (linkOut m (last none xs) (first ys none)) x.1 none)) := by
  have size : ((header (xs ++ x :: ys)).size + (2 ^ 64 - 1)) % 2 ^ 64 = (xs ++ ys).length := by
    have small := length_lt distinct
    simp only [header, List.length_append, List.length_cons] at small ⊢
    omega
  obtain ⟨-, at_, -⟩ := chain_append.mp chain
  have outside : x.1 ∉ addresses (xs ++ ys) := by
    simp only [addresses_append, addresses_cons, List.nodup_append', List.nodup_cons,
      List.mem_append, not_or] at distinct ⊢
    exact ⟨fun mem => distinct.2.2 mem List.mem_cons_self, distinct.2.1.1⟩
  have back : ∀ b, last none xs = some b → (m b).isSome = true :=
    fun b here => chain.stored (by simp [last_mem here])
  have front : ∀ b, first ys none = some b →
      (setFront m (last none xs) (first ys none) b).isSome = true := by
    intro b here
    rw [setFront_isSome]
    exact chain.stored (by simp [first_mem here])
  have kept : linkOut m (last none xs) (first ys none) x.1 =
      some ⟨last none xs, first ys none, x.2⟩ := (linkOut_outside outside).trans at_
  -- Both links of the node are taken back before it is freed.
  have cleared : setFront (setBack (linkOut m (last none xs) (first ys none)) (some x.1) none)
      (some x.1) none =
      Function.update (linkOut m (last none xs) (first ys none)) x.1 (some ⟨none, none, x.2⟩) := by
    simp [Memory.setFront, Memory.setBack, kept]
  simp only [linkedListRemove]
  rw [node_edit at_, Exec.returns_bind, linkFront_edit back, Exec.returns_bind, linkBack_edit front,
    Exec.returns_bind, ← linkOut]
  simp only [list_edit, setSize_edit, Exec.returns_bind, size]
  rw [setBack_edit (by simp [kept]), Exec.returns_bind, setFront_edit (by simp [kept]),
    Exec.returns_bind, cleared, node_edit (Function.update_self _ _ _), Exec.returns_bind,
    dispose_edit, freeNode_edit (by simp), Exec.returns_bind, dispose_eq]
  simp [header, first_append, last_append, first_of_last, last_of_first]

/-! ## Clearing -/

/-- The nodes behind a chain that is freed. -/
def freed (m : Store Address Item) (xs : List (Address × Item)) : Store Address Item :=
  fun a => if a ∈ addresses xs then none else m a

theorem freed_nil : freed m [] = m := by
  funext a
  simp [freed]

theorem freed_cons : freed (Function.update m x.1 none) xs = freed m (x :: xs) := by
  funext a
  grind [freed, addresses_cons]

theorem logged_logged (items items' : List Item) :
    (h.logged items).logged items' = h.logged (items ++ items') := by
  simp [Heap.logged]

theorem handed_cons (disposes : Bool) (item : Item) (items : List Item) :
    handed disposes (item :: items) = handed disposes [item] ++ handed disposes items := by
  cases disposes <;> rfl

theorem clearNodes_chain {before : Option Address} (chain : Chain m before xs none)
    (distinct : (addresses xs).Nodup) {turns : Nat} (enough : xs.length ≤ turns) (disposes : Bool) :
    clearNodes disposes turns (first xs none) (h.edit p l m) =
      .returns ((h.logged (handed disposes (xs.map Prod.snd))).edit p l (freed m xs)) := by
  induction xs generalizing before turns m h with
  | nil =>
      have none : handed disposes ([] : List Item) = [] := by cases disposes <;> rfl
      cases turns <;> simp [clearNodes, none, Heap.logged, freed_nil]
  | cons x xs ih =>
      obtain ⟨fresh, distinct⟩ := List.nodup_cons.mp distinct
      have rest : Chain (Function.update m x.1 none) (some x.1) xs none := by
        refine chain.2.congr fun a mem => Function.update_of_ne ?_ _ _
        rintro rfl
        exact fresh mem
      cases turns with
      | zero => cases enough
      | succ turns =>
          rw [first_cons, clearNodes, node_edit chain.1, Exec.returns_bind, dispose_edit,
            freeNode_edit (by simp [chain.1]), Exec.returns_bind,
            ih rest distinct (Nat.le_of_succ_le_succ enough), dispose_eq, logged_logged, freed_cons,
            ← handed_cons]
          rfl

theorem linkedListClear_chain (chain : Chain m none xs none) (distinct : (addresses xs).Nodup)
    (disposes : Bool) : linkedListClear (some p) disposes (h.edit p (header xs) m) =
      .returns ((h.logged (handed disposes (xs.map Prod.snd))).edit p
        (header ([] : List (Address × Item))) (freed m xs)) := by
  simp only [linkedListClear, list_edit, Exec.returns_bind]
  rw [header, clearNodes_chain chain distinct (Nat.le_of_lt (length_lt distinct))]
  simp [header]

theorem linkedListDispose_chain (chain : Chain m none xs none) (distinct : (addresses xs).Nodup)
    (disposes : Bool) : linkedListDispose (some p) disposes (h.edit p (header xs) m) =
      .returns { h.logged (handed disposes (xs.map Prod.snd)) with
        lists := Function.update h.lists p none
        nodes := freed m xs } := by
  rw [linkedListDispose, linkedListClear_chain chain distinct, Exec.returns_bind]
  exact freeList_edit

end JustWeather.Utils
