import JustWeather.Machine.Runs
import JustWeather.Utils.ListEdits

/-! # Lists as sequences

Abstractly a list is a sequence of items, each at the address of its node. The heap refines the
sequences of all lists in it: each list has its chain of nodes, and there is no other node.
-/

namespace JustWeather.Utils

open CLib Memory Machine

variable {Item : Type}

/-! ## Sequences -/

structure Lists (Item : Type) where
  sequences : Address → Option (List (Address × Item))
  disposed : List Item

namespace Lists

/-- There is no list, and nothing was disposed of. -/
def empty : Lists Item := ⟨fun _ => none, []⟩

def sequence (S : Lists Item) (p : Address) : List (Address × Item) := (S.sequences p).getD []

def put (S : Lists Item) (p : Address) (xs : Option (List (Address × Item))) : Lists Item :=
  { S with sequences := Function.update S.sequences p xs }

def logged (S : Lists Item) (items : List Item) : Lists Item :=
  { S with disposed := S.disposed ++ items }

end Lists

inductive ListOp (Item : Type) where
  | create
  | append (item : Item)
  | insert (index : Nat) (item : Item)
  | remove (node : Option Address)
  | pop (index : Nat)
  | clear
  | dispose
  | getIndex (index : Nat)

/-- A call: the list, whether a `free_function` is given, and what `calloc` returns. -/
structure ListCall (Item : Type) where
  op : ListOp Item
  list : Option Address
  disposes : Bool
  alloc : Option Address

/-- What a call returns. -/
inductive Answer where
  | pointer (p : Option Address)
  | code (ret : Int)
  | nothing

/-- The call on the heap. -/
def perform (h : Heap Item) (c : ListCall Item) : Exec (Answer × Heap Item) :=
  match c.op with
  | .create =>
      let (p, h) := linkedListCreate c.alloc h
      pure (.pointer p, h)
  | .append item => do
      let (ret, h) ← linkedListAppend c.alloc c.list item h
      pure (.code ret, h)
  | .insert index item => do
      let (ret, h) ← linkedListInsert c.alloc c.list index item h
      pure (.code ret, h)
  | .remove node => do
      let (ret, h) ← linkedListRemove c.list node c.disposes h
      pure (.code ret, h)
  | .pop index => do
      let (ret, h) ← linkedListPop c.list index c.disposes h
      pure (.code ret, h)
  | .clear => do
      let h ← linkedListClear c.list c.disposes h
      pure (.nothing, h)
  | .dispose => do
      let h ← linkedListDispose c.list c.disposes h
      pure (.nothing, h)
  | .getIndex index => do
      let p ← linkedListGetIndex c.list index h
      pure (.pointer p, h)

/-- The call on the sequences. A new item stands before what has the index, or at the end; nothing
changes without a list, without memory, or where there is no node. -/
def answer (S : Lists Item) (c : ListCall Item) : Answer × Lists Item :=
  match c.op, c.list with
  | .create, _ =>
      match c.alloc with
      | none => (.pointer none, S)
      | some a => (.pointer (some a), S.put a (some []))
  | .append item, some p =>
      match c.alloc with
      | none => (.code 1, S)
      | some a => (.code 0, S.put p (some (S.sequence p ++ [(a, item)])))
  | .insert index item, some p =>
      match c.alloc with
      | none => (.code 1, S)
      | some a =>
          (.code 0, S.put p
            (some ((S.sequence p).take index ++ (a, item) :: (S.sequence p).drop index)))
  | .remove node, some p =>
      match node with
      | none => (.code 1, S)
      | some a =>
          (.code 0, (S.put p (some ((S.sequence p).eraseP fun x => x.1 = a))).logged
            (handed c.disposes (((S.sequence p).filter fun x => x.1 = a).map Prod.snd)))
  | .pop index, some p =>
      match (S.sequence p)[index]? with
      | none => (.code 1, S)
      | some x =>
          (.code 0, (S.put p (some ((S.sequence p).eraseIdx index))).logged (handed c.disposes [x.2]))
  | .clear, some p =>
      (.nothing, (S.put p (some [])).logged (handed c.disposes ((S.sequence p).map Prod.snd)))
  | .dispose, some p =>
      (.nothing, (S.put p none).logged (handed c.disposes ((S.sequence p).map Prod.snd)))
  | .getIndex index, some p => (.pointer ((S.sequence p)[index]?.map Prod.fst), S)
  | .getIndex _, none => (.pointer none, S)
  | .clear, none | .dispose, none => (.nothing, S)
  | _, none => (.code 1, S)

/-- No list and no node is at the address. -/
structure Unused (S : Lists Item) (a : Address) : Prop where
  list : S.sequences a = none
  node : ∀ p xs, S.sequences p = some xs → a ∉ addresses xs

/-- The list is there, `calloc` returns an address that is not in use, and a node to be removed is in
the list. -/
structure Legal (S : Lists Item) (c : ListCall Item) : Prop where
  list : ∀ p, c.list = some p → (S.sequences p).isSome = true
  alloc : ∀ a, c.alloc = some a → Unused S a
  node : ∀ p a, c.op = .remove (some a) → c.list = some p → a ∈ addresses (S.sequence p)

/-! ## Refinement -/

/-- The heap holds these lists, with these chains of nodes, and nothing else. -/
structure Refines (h : Heap Item) (S : Lists Item) : Prop where
  header : ∀ p, h.lists p = (S.sequences p).map header
  chain : ∀ p xs, S.sequences p = some xs → Chain h.nodes none xs none
  distinct : ∀ p xs, S.sequences p = some xs → (addresses xs).Nodup
  apart : ∀ p q xs ys a, S.sequences p = some xs → S.sequences q = some ys →
    a ∈ addresses xs → a ∈ addresses ys → p = q
  owned : ∀ a, (h.nodes a).isSome = true → ∃ p xs, S.sequences p = some xs ∧ a ∈ addresses xs
  disposed : h.disposed = S.disposed

variable {h : Heap Item} {S : Lists Item} {p a : Address} {xs ys zs : List (Address × Item)}
  {x : Address × Item} {m : Store Address Item}

theorem Lists.put_self (xs : Option (List (Address × Item))) : (S.put p xs).sequences p = xs :=
  Function.update_self _ _ _

theorem Lists.put_ne {q : Address} (other : q ≠ p) (xs : Option (List (Address × Item))) :
    (S.put p xs).sequences q = S.sequences q :=
  Function.update_of_ne other _ _

theorem Lists.put_some {q : Address} {new : Option (List (Address × Item))}
    (there : (S.put p new).sequences q = some zs) :
    q = p ∧ new = some zs ∨ q ≠ p ∧ S.sequences q = some zs := by
  by_cases same : q = p
  · subst same
    exact .inl ⟨rfl, (Lists.put_self new).symm.trans there⟩
  · exact .inr ⟨same, (Lists.put_ne same new).symm.trans there⟩

theorem Lists.sequence_of (here : S.sequences p = some xs) : S.sequence p = xs := by
  rw [Lists.sequence, here]
  rfl

theorem Refines.logged (R : Refines h S) (items : List Item) :
    Refines (h.logged items) (S.logged items) where
  header := R.header
  chain := R.chain
  distinct := R.distinct
  apart := R.apart
  owned := R.owned
  disposed := congrArg (· ++ items) R.disposed

/-- What the heap has nothing at, no list uses. -/
theorem Refines.unused (R : Refines h S) (list : h.lists a = none) (node : h.nodes a = none) :
    Unused S a := by
  refine ⟨?_, fun p xs here mem => ?_⟩
  · rw [R.header a] at list
    exact Option.map_eq_none_iff.mp list
  · have stored := (R.chain p xs here).stored mem
    rw [node] at stored
    cases stored

/-- The nodes of another list are not among those of this one. -/
theorem Refines.foreign (R : Refines h S) {q : Address} (other : q ≠ p)
    (there : S.sequences q = some zs) (mem : a ∈ addresses zs) : a ∉ addresses (S.sequence p) := by
  intro old
  cases here : S.sequences p with
  | none =>
      rw [Lists.sequence, here] at old
      cases old
  | some xs =>
      rw [Lists.sequence_of here] at old
      exact other (R.apart q p zs xs a there here mem old)

/-- One list comes, goes or gets another chain of nodes; the other lists keep theirs. -/
theorem Refines.edit (R : Refines h S) (new : Option (List (Address × Item)))
    (chain : Chain m none (new.getD []) none) (distinct : (addresses (new.getD [])).Nodup)
    (fresh : ∀ a ∈ addresses (new.getD []), a ∈ addresses (S.sequence p) ∨ Unused S a)
    (others : ∀ a, a ∉ addresses (S.sequence p) → a ∉ addresses (new.getD []) → m a = h.nodes a)
    (freed : ∀ a ∈ addresses (S.sequence p), a ∉ addresses (new.getD []) → m a = none) :
    Refines { h with lists := Function.update h.lists p (new.map Utils.header), nodes := m }
      (S.put p new) := by
  have notNew : ∀ q zs a, q ≠ p → S.sequences q = some zs → a ∈ addresses zs →
      a ∉ addresses (new.getD []) := by
    intro q zs a other there mem now
    rcases fresh a now with old | unused
    · exact R.foreign other there mem old
    · exact unused.node q zs there mem
  constructor
  · intro q
    by_cases same : q = p
    · subst same
      rw [Lists.put_self]
      exact Function.update_self _ _ _
    · rw [Lists.put_ne same, ← R.header q]
      exact Function.update_of_ne same _ _
  · intro q zs there
    rcases Lists.put_some there with ⟨rfl, rfl⟩ | ⟨other, there⟩
    · exact chain
    · exact (R.chain q zs there).congr fun a mem =>
        others a (R.foreign other there mem) (notNew q zs a other there mem)
  · intro q zs there
    rcases Lists.put_some there with ⟨rfl, rfl⟩ | ⟨-, there⟩
    · exact distinct
    · exact R.distinct q zs there
  · intro q r us vs a ofQ ofR memQ memR
    rcases Lists.put_some ofQ with ⟨rfl, rfl⟩ | ⟨otherQ, oldQ⟩
    · rcases Lists.put_some ofR with ⟨rfl, -⟩ | ⟨otherR, oldR⟩
      · rfl
      · exact absurd memQ (notNew r vs a otherR oldR memR)
    · rcases Lists.put_some ofR with ⟨rfl, rfl⟩ | ⟨-, oldR⟩
      · exact absurd memR (notNew q us a otherQ oldQ memQ)
      · exact R.apart q r us vs a oldQ oldR memQ memR
  · intro a stored
    by_cases now : a ∈ addresses (new.getD [])
    · cases new with
      | none => cases now
      | some ys => exact ⟨p, ys, Lists.put_self _, now⟩
    · by_cases old : a ∈ addresses (S.sequence p)
      · simp only [freed a old now] at stored
        cases stored
      · simp only [others a old now] at stored
        obtain ⟨q, zs, there, mem⟩ := R.owned a stored
        have other : q ≠ p := by
          rintro rfl
          rw [Lists.sequence_of there] at old
          exact old mem
        exact ⟨q, zs, (Lists.put_ne other new).trans there, mem⟩
  · exact R.disposed

theorem mem_addresses_middle :
    a ∈ addresses (xs ++ x :: ys) ↔ a = x.1 ∨ a ∈ addresses (xs ++ ys) := by
  simp only [addresses_append, addresses_cons]
  grind

theorem nodup_addresses_middle : (addresses (xs ++ x :: ys)).Nodup ↔
    x.1 ∉ addresses (xs ++ ys) ∧ (addresses (xs ++ ys)).Nodup := by
  rw [addresses_append, addresses_cons, List.nodup_middle, ← addresses_append, List.nodup_cons]

/-- A new node keeps the addresses apart. -/
theorem Refines.distinct_middle (R : Refines h S) (here : S.sequences p = some (xs ++ ys))
    (unused : Unused S x.1) : (addresses (xs ++ x :: ys)).Nodup :=
  nodup_addresses_middle.mpr ⟨unused.node p _ here, R.distinct p _ here⟩

/-- A node comes in at a seam. -/
theorem Refines.linkIn (R : Refines h S) (here : S.sequences p = some (xs ++ ys))
    (unused : Unused S x.1) :
    Refines (h.edit p (Utils.header (xs ++ x :: ys))
      (linkIn h.nodes x (last none xs) (first ys none))) (S.put p (some (xs ++ x :: ys))) := by
  have chain := (R.chain p _ here).linkIn (R.distinct p _ here) (unused.node p _ here)
  have old := Lists.sequence_of here
  refine R.edit (some (xs ++ x :: ys)) chain (R.distinct_middle here unused)
    (fun a mem => ?_) (fun a _ outside => ?_) fun a mem outside => ?_
  · rw [old]
    rcases mem_addresses_middle.mp mem with rfl | mem
    · exact .inr unused
    · exact .inl mem
  · rw [Option.getD_some, mem_addresses_middle, not_or] at outside
    exact linkIn_outside outside.1 outside.2
  · rw [old] at mem
    exact absurd (mem_addresses_middle.mpr (.inr mem)) outside

/-- A node goes. -/
theorem Refines.linkOut (R : Refines h S) (here : S.sequences p = some (xs ++ x :: ys)) :
    Refines (h.edit p (Utils.header (xs ++ ys))
      (Function.update (linkOut h.nodes (last none xs) (first ys none)) x.1 none))
      (S.put p (some (xs ++ ys))) := by
  have linked := (R.chain p _ here).linkOut (R.distinct p _ here)
  obtain ⟨gone, rest⟩ := nodup_addresses_middle.mp (R.distinct p _ here)
  have chain : Chain (Function.update (Memory.linkOut h.nodes (last none xs) (first ys none)) x.1 none)
      none (xs ++ ys) none := by
    refine linked.congr fun a mem => Function.update_of_ne ?_ _ _
    rintro rfl
    exact gone mem
  have old := Lists.sequence_of here
  refine R.edit (some (xs ++ ys)) chain rest (fun a mem => ?_) (fun a outside _ => ?_)
    fun a mem outside => ?_
  · rw [old]
    exact .inl (mem_addresses_middle.mpr (.inr mem))
  · rw [old, mem_addresses_middle, not_or] at outside
    rw [Function.update_of_ne outside.1, linkOut_outside outside.2]
  · rw [old] at mem
    rcases mem_addresses_middle.mp mem with rfl | mem
    · exact Function.update_self _ _ _
    · exact absurd mem outside

theorem Refines.create (R : Refines h S) (unused : Unused S a) :
    Refines (h.putList a ⟨none, none, 0⟩) (S.put a (some [])) := by
  have old : S.sequence a = [] := by rw [Lists.sequence, unused.list]; rfl
  refine R.edit (some []) trivial List.nodup_nil (fun a mem => by cases mem) (fun _ _ _ => rfl) ?_
  intro b mem
  rw [old] at mem
  cases mem

/-- All nodes go, and perhaps the list. -/
theorem Refines.freed (R : Refines h S) (here : S.sequences p = some xs)
    (new : Option (List (Address × Item))) (nothing : new.getD [] = []) :
    Refines { h with
        lists := Function.update h.lists p (new.map Utils.header)
        nodes := Utils.freed h.nodes xs } (S.put p new) := by
  have old := Lists.sequence_of here
  apply R.edit new
  all_goals rw [nothing]
  · trivial
  · exact List.nodup_nil
  · exact fun a mem => by cases mem
  · intro a outside _
    rw [old] at outside
    exact if_neg outside
  · intro a mem _
    rw [old] at mem
    exact if_pos mem

/-! ## The functions -/

section Functions

variable (item : Item) (index : Nat) (disposes : Bool)

theorem Refines.edit_self (R : Refines h S) (here : S.sequences p = some xs) :
    h.edit p (Utils.header xs) h.nodes = h := by
  apply Heap.edit_self
  rw [R.header p, here]
  rfl

theorem Refines.getIndex (R : Refines h S) (here : S.sequences p = some xs) :
    linkedListGetIndex (some p) index h = .returns (xs[index]?.map Prod.fst) := by
  have lookup := linkedListGetIndex_chain (h := h) (p := p) (R.chain p xs here) index
  rwa [R.edit_self here] at lookup

theorem Refines.foreachUntil (R : Refines h S) (here : S.sequences p = some xs)
    (wanted : Address × Item → Bool) :
    linkedListForeachUntil wanted p h = .returns (xs.find? wanted) := by
  have search := linkedListForeachUntil_chain (h := h) (p := p) (R.chain p xs here)
    (R.distinct p xs here) wanted
  rwa [R.edit_self here] at search

theorem Refines.foreach (R : Refines h S) (here : S.sequences p = some xs) {β : Type}
    (body : β → Address × Item → β) (b : β) :
    linkedListForeach body p b h = .returns (xs.foldl body b) := by
  have loop := linkedListForeach_chain (h := h) (p := p) (R.chain p xs here) (R.distinct p xs here)
    body b
  rwa [R.edit_self here] at loop

theorem Refines.append (R : Refines h S) (here : S.sequences p = some xs) (unused : Unused S a) :
    ∃ h', linkedListAppend (some a) (some p) item h = .returns (0, h') ∧
      Refines h' (S.put p (some (xs ++ [(a, item)]))) := by
  have end_ : S.sequences p = some (xs ++ []) := by rw [here, List.append_nil]
  have after := R.linkIn (x := (a, item)) end_ unused
  have appends := linkedListAppend_chain (h := h) (p := p) (R.chain p xs here)
    (R.distinct_middle (x := (a, item)) end_ unused)
  rw [R.edit_self here] at appends
  exact ⟨_, appends, after⟩

theorem Refines.insert (R : Refines h S) (here : S.sequences p = some xs) (unused : Unused S a) :
    ∃ h', linkedListInsert (some a) (some p) index item h = .returns (0, h') ∧
      Refines h' (S.put p (some (xs.take index ++ (a, item) :: xs.drop index))) := by
  have listed : h.list p = .returns (Utils.header xs) := by
    rw [← R.edit_self here, list_edit]
  rcases Nat.lt_or_ge index xs.length with inside | outside
  · obtain ⟨y, ys, drop⟩ := List.exists_cons_of_ne_nil
      (List.ne_nil_of_length_pos (by rw [List.length_drop]; omega) : xs.drop index ≠ [])
    have parts : xs = xs.take index ++ y :: ys := by rw [← drop, List.take_append_drop]
    have position : (xs.take index).length = index := List.length_take_of_le (Nat.le_of_lt inside)
    rw [drop]
    generalize xs.take index = front at parts position ⊢
    subst parts position
    have after := R.linkIn (x := (a, item)) here unused
    have inserts := linkedListInsert_chain (h := h) (p := p) (R.chain p _ here)
      (R.distinct_middle (x := (a, item)) here unused)
    rw [R.edit_self here] at inserts
    exact ⟨_, inserts, after⟩
  · rw [List.take_of_length_le outside, List.drop_of_length_le outside]
    have falls : linkedListInsert (some a) (some p) index item h =
        linkedListAppend (some a) (some p) item h := by
      rw [linkedListInsert, listed, Exec.returns_bind]
      exact if_pos outside
    rw [falls]
    exact R.append item here unused

/-- A failed allocation changes nothing. -/
theorem Refines.insert_refused (R : Refines h S) (here : S.sequences p = some xs) :
    linkedListInsert none (some p) index item h = .returns (1, h) := by
  have listed : h.list p = .returns (Utils.header xs) := by
    rw [← R.edit_self here, list_edit]
  rw [linkedListInsert, listed, Exec.returns_bind]
  split
  · exact linkedListAppend_refused
  · rw [R.getIndex index here, Exec.returns_bind]
    cases xs[index]?.map Prod.fst <;> rfl

/-- The node between `xs` and `ys` is removed. -/
theorem Refines.remove (R : Refines h S) (here : S.sequences p = some (xs ++ x :: ys)) :
    ∃ h', linkedListRemove (some p) (some x.1) disposes h = .returns (0, h') ∧
      Refines h' ((S.put p (some (xs ++ ys))).logged (handed disposes [x.2])) := by
  have removes := linkedListRemove_chain (h := h) (p := p) (R.chain p _ here) (R.distinct p _ here)
    disposes
  rw [R.edit_self here] at removes
  exact ⟨_, removes, (R.linkOut here).logged _⟩

theorem Refines.clear (R : Refines h S) (here : S.sequences p = some xs) :
    ∃ h', linkedListClear (some p) disposes h = .returns h' ∧
      Refines h' ((S.put p (some [])).logged (handed disposes (xs.map Prod.snd))) := by
  have clears := linkedListClear_chain (h := h) (p := p) (R.chain p xs here) (R.distinct p xs here)
    disposes
  rw [R.edit_self here] at clears
  exact ⟨_, clears, (R.freed here (some []) rfl).logged _⟩

theorem Refines.dispose (R : Refines h S) (here : S.sequences p = some xs) :
    ∃ h', linkedListDispose (some p) disposes h = .returns h' ∧
      Refines h' ((S.put p none).logged (handed disposes (xs.map Prod.snd))) := by
  have disposed := linkedListDispose_chain (h := h) (p := p) (R.chain p xs here) (R.distinct p xs here)
    disposes
  rw [R.edit_self here] at disposed
  exact ⟨_, disposed, (R.freed here none rfl).logged _⟩

/-- The node with this address is removed. -/
theorem Refines.remove_address (R : Refines h S) (here : S.sequences p = some xs)
    (mem : a ∈ addresses xs) :
    ∃ h', linkedListRemove (some p) (some a) disposes h = .returns (0, h') ∧
      Refines h' ((S.put p (some (xs.eraseP fun x => x.1 = a))).logged
        (handed disposes ((xs.filter fun x => x.1 = a).map Prod.snd))) := by
  obtain ⟨x, listed, rfl⟩ := List.mem_map.mp mem
  obtain ⟨front, back, rfl⟩ := List.append_of_mem listed
  obtain ⟨alone, -⟩ := nodup_addresses_middle.mp (R.distinct p _ here)
  have other : ∀ y ∈ front ++ back, ¬ y.1 = x.1 := by
    intro y mem same
    exact alone (List.mem_map.mpr ⟨y, mem, same⟩)
  have erased : (front ++ x :: back).eraseP (fun y => y.1 = x.1) = front ++ back := by
    rw [List.eraseP_append_right _ fun y mem => by simpa using other y (List.mem_append_left _ mem),
      List.eraseP_cons_of_pos (by simp)]
  have found : (front ++ x :: back).filter (fun y => y.1 = x.1) = [x] := by
    rw [List.filter_append, List.filter_cons_of_pos (by simp),
      List.filter_eq_nil_iff.mpr fun y mem => by simpa using other y (List.mem_append_left _ mem),
      List.filter_eq_nil_iff.mpr fun y mem => by simpa using other y (List.mem_append_right _ mem)]
    rfl
  rw [erased, found]
  exact R.remove disposes here

/-- The node with this index is removed. -/
theorem Refines.remove_index (R : Refines h S) (here : S.sequences p = some xs)
    (found : xs[index]? = some x) :
    ∃ h', linkedListRemove (some p) (some x.1) disposes h = .returns (0, h') ∧
      Refines h' ((S.put p (some (xs.eraseIdx index))).logged (handed disposes [x.2])) := by
  obtain ⟨inside, at_⟩ := List.getElem?_eq_some_iff.mp found
  have parts : xs = xs.take index ++ x :: xs.drop (index + 1) := by
    rw [← at_, List.getElem_cons_drop, List.take_append_drop]
  rw [List.eraseIdx_eq_take_drop_succ]
  exact R.remove disposes (here.trans (congrArg some parts))

theorem Refines.pop (R : Refines h S) (here : S.sequences p = some xs)
    (found : xs[index]? = some x) :
    ∃ h', linkedListPop (some p) index disposes h = .returns (0, h') ∧
      Refines h' ((S.put p (some (xs.eraseIdx index))).logged (handed disposes [x.2])) := by
  rw [linkedListPop, R.getIndex index here, found]
  exact R.remove_index index disposes here found

theorem Refines.pop_outside (R : Refines h S) (here : S.sequences p = some xs)
    (outside : xs[index]? = none) : linkedListPop (some p) index disposes h = .returns (1, h) := by
  rw [linkedListPop, R.getIndex index here, outside]
  rfl

end Functions

/-! ## Runs -/

/-- A call does to the heap what it does to the sequences. -/
theorem perform_refines {c : ListCall Item} (R : Refines h S) (legal : Legal S c) :
    ∃ h', perform h c = .returns ((answer S c).1, h') ∧ Refines h' (answer S c).2 := by
  obtain ⟨op, list, disposes, alloc⟩ := c
  cases list with
  | none =>
      cases op with
      | create =>
          cases alloc with
          | none => exact ⟨h, rfl, R⟩
          | some a => exact ⟨_, rfl, R.create (legal.alloc a rfl)⟩
      | append | insert | remove | pop | clear | dispose | getIndex => exact ⟨h, rfl, R⟩
  | some p =>
      have here : S.sequences p = some (S.sequence p) := by
        obtain ⟨xs, here⟩ := Option.isSome_iff_exists.mp (legal.list p rfl)
        rw [Lists.sequence_of here, here]
      cases op with
      | create =>
          cases alloc with
          | none => exact ⟨h, rfl, R⟩
          | some a => exact ⟨_, rfl, R.create (legal.alloc a rfl)⟩
      | append item =>
          cases alloc with
          | none => exact ⟨h, rfl, R⟩
          | some a =>
              obtain ⟨h', appends, after⟩ := R.append item here (legal.alloc a rfl)
              exact ⟨h', by simp only [perform, appends]; rfl, after⟩
      | insert index item =>
          cases alloc with
          | none => exact ⟨h, by simp only [perform, R.insert_refused item index here]; rfl, R⟩
          | some a =>
              obtain ⟨h', inserts, after⟩ := R.insert item index here (legal.alloc a rfl)
              exact ⟨h', by simp only [perform, inserts]; rfl, after⟩
      | remove node =>
          cases node with
          | none => exact ⟨h, rfl, R⟩
          | some a =>
              obtain ⟨h', removes, after⟩ := R.remove_address disposes here (legal.node p a rfl rfl)
              exact ⟨h', by simp only [perform, removes]; rfl, after⟩
      | pop index =>
          cases found : (S.sequence p)[index]? with
          | none =>
              have pops := R.pop_outside index disposes here found
              exact ⟨h, by simp only [perform, pops, answer, found]; rfl, by simpa only [answer, found]⟩
          | some x =>
              obtain ⟨h', pops, after⟩ := R.pop index disposes here found
              exact ⟨h', by simp only [perform, pops, answer, found]; rfl, by simpa only [answer, found]⟩
      | clear =>
          obtain ⟨h', clears, after⟩ := R.clear disposes here
          exact ⟨h', by simp only [perform, clears]; rfl, after⟩
      | dispose =>
          obtain ⟨h', disposed, after⟩ := R.dispose disposes here
          exact ⟨h', by simp only [perform, disposed]; rfl, after⟩
      | getIndex index =>
          exact ⟨h, by simp only [perform, R.getIndex index here]; rfl, R⟩

def Heap.empty : Heap Item := ⟨fun _ => none, fun _ => none, []⟩

/-- The calls on the heap, one after another. -/
def performAll (h : Heap Item) : List (ListCall Item) → Exec (List Answer × Heap Item)
  | [] => pure ([], h)
  | c :: calls => do
      let (answer, h) ← perform h c
      let (answers, h) ← performAll h calls
      pure (answer :: answers, h)

/-- The sequences after a call. -/
def after (S : Lists Item) (c : ListCall Item) : Lists Item := (answer S c).2

def answers (S : Lists Item) : List (ListCall Item) → List Answer
  | [] => []
  | c :: calls => (answer S c).1 :: answers (after S c) calls

theorem Refines.empty : Refines (Heap.empty : Heap Item) .empty where
  header _ := rfl
  chain _ _ here := by cases here
  distinct _ _ here := by cases here
  apart _ _ _ _ _ here := by cases here
  owned _ stored := by cases stored
  disposed := rfl

theorem performAll_refines {calls : List (ListCall Item)} (R : Refines h S)
    (legal : Along after Legal S calls) :
    ∃ h', performAll h calls = .returns (answers S calls, h') ∧ Refines h' (run after S calls) := by
  induction calls generalizing h S with
  | nil => exact ⟨h, rfl, R⟩
  | cons c calls ih =>
      obtain ⟨h₁, performs, R₁⟩ := perform_refines R legal.1
      obtain ⟨h₂, rest, R₂⟩ := ih R₁ legal.2
      refine ⟨h₂, ?_, R₂⟩
      simp only [performAll, performs, Exec.returns_bind, answers, after] at rest ⊢
      rw [rest]
      rfl

/-- What the fields and the links of a list say, and what a lookup in it returns. -/
structure Reads (h : Heap Item) (p : Address) (xs : List (Address × Item)) : Prop where
  links : ∃ l, h.lists p = some l ∧ Walk h.nodes Node.front l.head xs ∧
    Walk h.nodes Node.back l.tail xs.reverse ∧ l.size = xs.length
  distinct : (addresses xs).Nodup
  lookup : ∀ index, linkedListGetIndex (some p) index h = .returns (xs[index]?.map Prod.fst)

theorem Refines.reads (R : Refines h S) (here : S.sequences p = some xs) : Reads h p xs where
  links := ⟨Utils.header xs, by rw [R.header, here]; rfl, (R.chain p xs here).walk_front,
    (R.chain p xs here).walk_back, rfl⟩
  distinct := R.distinct p xs here
  lookup index := R.getIndex index here

/-- Whatever the calls, the heap answers as the sequences do, and both ways along the links of each
list lead over its sequence. -/
theorem lists_refine_sequences {calls : List (ListCall Item)}
    (legal : Along after Legal .empty calls) :
    ∃ h, performAll .empty calls = .returns (answers .empty calls, h) ∧
      ∀ p xs, (run after .empty calls).sequences p = some xs → Reads h p xs := by
  obtain ⟨h, performs, R⟩ := performAll_refines .empty legal
  exact ⟨h, performs, fun p xs here => R.reads here⟩

theorem Unused.empty (a : Address) : Unused (.empty : Lists Item) a :=
  ⟨rfl, fun _ _ here => by cases here⟩

theorem Unused.put (unused : Unused S a) (other : a ≠ p) (outside : a ∉ addresses xs) :
    Unused (S.put p (some xs)) a := by
  refine ⟨(Lists.put_ne other _).trans unused.list, fun q zs there => ?_⟩
  rcases Lists.put_some there with ⟨-, ⟨⟩⟩ | ⟨-, there⟩
  · exact outside
  · exact unused.node q zs there

/-- A list is made, gets an item and another one before it, and loses the first. -/
def pairCalls : List (ListCall Nat) :=
  [⟨.create, none, false, some 0⟩, ⟨.append 7, some 0, false, some 1⟩,
    ⟨.insert 0 8, some 0, false, some 2⟩, ⟨.remove (some 1), some 0, true, none⟩]

theorem lists_refine_sequences_pair :
    ∃ h, performAll .empty pairCalls = .returns (answers .empty pairCalls, h) ∧
      ∀ p xs, (run after .empty pairCalls).sequences p = some xs → Reads h p xs := by
  refine lists_refine_sequences ⟨⟨?_, ?_, ?_⟩, ⟨?_, ?_, ?_⟩, ⟨?_, ?_, ?_⟩, ⟨?_, ?_, ?_⟩, trivial⟩
  · rintro p ⟨⟩
  · rintro a ⟨⟩
    exact .empty 0
  · rintro p a ⟨⟩
  · rintro p ⟨⟩
    rfl
  · rintro a ⟨⟩
    exact (Unused.empty 1).put (by decide) (by decide)
  · rintro p a ⟨⟩
  · rintro p ⟨⟩
    rfl
  · rintro a ⟨⟩
    exact ((Unused.empty 2).put (by decide) (by decide)).put (by decide) (by decide)
  · rintro p a ⟨⟩
  · rintro p ⟨⟩
    rfl
  · rintro a ⟨⟩
  · rintro p a ⟨⟩ ⟨⟩
    decide

end JustWeather.Utils
