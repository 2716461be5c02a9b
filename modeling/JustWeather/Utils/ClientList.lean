import JustWeather.CLib.Exec
import JustWeather.Memory.Chains
import Mathlib.Algebra.Group.Nat.Defs

/-! # `client_list`

A heap of lists and nodes. A statement that reads or writes through a pointer is undefined where
the pointer leads to nothing. An allocation is what `calloc` returns: an address, or none.
-/

namespace JustWeather.Utils

open CLib Memory

/-- The 64-bit pointers but `NULL`; a pointer is an `Option` of these. -/
abbrev Address := Fin 0xFFFFFFFFFFFFFFFF

structure LinkedList where
  head : Option Address
  tail : Option Address
  size : Nat
  deriving DecidableEq

/-- The lists and the nodes in use, and the items handed to a `free_function` so far. -/
structure Heap (Item : Type) where
  lists : Address → Option LinkedList
  nodes : Store Address Item
  disposed : List Item

variable {Item : Type}

/-! ## Statements -/

namespace Heap

/-- Read `*p`. -/
def list (h : Heap Item) (p : Address) : Exec LinkedList :=
  match h.lists p with
  | none => .undefined
  | some l => pure l

def node (h : Heap Item) (p : Address) : Exec (Node Address Item) :=
  match h.nodes p with
  | none => .undefined
  | some n => pure n

def putList (h : Heap Item) (p : Address) (l : LinkedList) : Heap Item :=
  { h with lists := Function.update h.lists p (some l) }

def putNode (h : Heap Item) (p : Address) (n : Node Address Item) : Heap Item :=
  { h with nodes := Function.update h.nodes p (some n) }

/-- `p->head = target`. -/
def setHead (h : Heap Item) (p : Address) (target : Option Address) : Exec (Heap Item) := do
  let l ← h.list p
  pure (h.putList p { l with head := target })

/-- `p->tail = target`. -/
def setTail (h : Heap Item) (p : Address) (target : Option Address) : Exec (Heap Item) := do
  let l ← h.list p
  pure (h.putList p { l with tail := target })

/-- `p->size = size`, where the size is counted in 64 bits. -/
def setSize (h : Heap Item) (p : Address) (size : Nat) : Exec (Heap Item) := do
  let l ← h.list p
  pure (h.putList p { l with size := size % 2 ^ 64 })

/-- `p->front = target`. -/
def setFront (h : Heap Item) (p : Address) (target : Option Address) : Exec (Heap Item) := do
  let n ← h.node p
  pure (h.putNode p { n with front := target })

/-- `p->back = target`. -/
def setBack (h : Heap Item) (p : Address) (target : Option Address) : Exec (Heap Item) := do
  let n ← h.node p
  pure (h.putNode p { n with back := target })

/-- `if (back != NULL) back->front = target; else list->head = target;` -/
def linkFront (h : Heap Item) (list : Address) (back target : Option Address) : Exec (Heap Item) :=
  match back with
  | some b => h.setFront b target
  | none => h.setHead list target

/-- `if (front != NULL) front->back = target; else list->tail = target;` -/
def linkBack (h : Heap Item) (list : Address) (front target : Option Address) : Exec (Heap Item) :=
  match front with
  | some f => h.setBack f target
  | none => h.setTail list target

/-- `free(p)`. -/
def freeNode (h : Heap Item) (p : Address) : Exec (Heap Item) := do
  let _ ← h.node p
  pure { h with nodes := Function.update h.nodes p none }

def freeList (h : Heap Item) (p : Address) : Exec (Heap Item) := do
  let _ ← h.list p
  pure { h with lists := Function.update h.lists p none }

/-- `free_function(item)`, if there is one. -/
def dispose (h : Heap Item) (disposes : Bool) (item : Item) : Heap Item :=
  if disposes then { h with disposed := h.disposed ++ [item] } else h

end Heap

/-! ## The functions -/

def linkedListCreate (alloc : Option Address) (h : Heap Item) : Option Address × Heap Item :=
  match alloc with
  | none => (none, h)
  | some a => (some a, h.putList a ⟨none, none, 0⟩)

/-- So many steps along one of the links. -/
def seek (link : Node Address Item → Option Address) (h : Heap Item) :
    Nat → Option Address → Exec (Option Address)
  | 0, cur => pure cur
  | _ + 1, none => .undefined
  | n + 1, some cur => do
      let node ← h.node cur
      seek link h n (link node)

/-- `linked_list_get_index`: the first loop runs while `pos < index`, from 0 up, the second while
`pos > index`, from the last position down. -/
def linkedListGetIndex (list : Option Address) (index : Nat) (h : Heap Item) :
    Exec (Option Address) :=
  match list with
  | none => pure none
  | some p => do
      let l ← h.list p
      if l.size ≤ index then pure none
      else if index ≤ l.size / 2 then seek Node.front h index l.head
      else seek Node.back h (l.size - 1 - index) l.tail

def linkedListAppend (alloc list : Option Address) (item : Item) (h : Heap Item) :
    Exec (Int × Heap Item) :=
  match list, alloc with
  | none, _ => pure (1, h)
  | some _, none => pure (1, h)
  | some p, some a => do
      let h := h.putNode a ⟨none, none, item⟩
      let l ← h.list p
      let h ← h.setSize p (l.size + 1)
      let h ← match l.tail with
        | none => h.setHead p (some a)
        | some t => do
            let h ← h.setBack a (some t)
            h.setFront t (some a)
      let h ← h.setTail p (some a)
      pure (0, h)

def linkedListInsert (alloc list : Option Address) (index : Nat) (item : Item) (h : Heap Item) :
    Exec (Int × Heap Item) :=
  match list with
  | none => pure (1, h)
  | some p => do
      let l ← h.list p
      if l.size ≤ index then linkedListAppend alloc (some p) item h
      else do
        let target ← linkedListGetIndex (some p) index h
        match target, alloc with
        | none, _ => pure (1, h)
        | some _, none => pure (1, h)
        | some t, some a => do
            let h := h.putNode a ⟨none, none, item⟩
            let h ← h.setSize p (l.size + 1)
            let n ← h.node t
            let h ← h.setBack a n.back
            let h ← h.setFront a (some t)
            let h ← h.linkFront p n.back (some a)
            let h ← h.setBack t (some a)
            pure (0, h)

def linkedListRemove (list item : Option Address) (disposes : Bool) (h : Heap Item) :
    Exec (Int × Heap Item) :=
  match list, item with
  | none, _ => pure (1, h)
  | some _, none => pure (1, h)
  | some p, some a => do
      let n ← h.node a
      let h ← h.linkFront p n.back n.front
      let h ← h.linkBack p n.front n.back
      let l ← h.list p
      let h ← h.setSize p (l.size + (2 ^ 64 - 1))
      let h ← h.setBack a none
      let h ← h.setFront a none
      let n ← h.node a
      let h ← (h.dispose disposes n.item).freeNode a
      pure (0, h)

def linkedListPop (list : Option Address) (index : Nat) (disposes : Bool) (h : Heap Item) :
    Exec (Int × Heap Item) := do
  let item ← linkedListGetIndex list index h
  match item with
  | none => pure (1, h)
  | some a => linkedListRemove list (some a) disposes h

/-- The loop of `linked_list_clear`. Every turn frees a node, so there are fewer turns than
pointers. -/
def clearNodes (disposes : Bool) : Nat → Option Address → Heap Item → Exec (Heap Item)
  | _, none, h => pure h
  | 0, some _, _ => .diverges
  | turns + 1, some cur, h => do
      let node ← h.node cur
      let h ← (h.dispose disposes node.item).freeNode cur
      clearNodes disposes turns node.front h

def linkedListClear (list : Option Address) (disposes : Bool) (h : Heap Item) : Exec (Heap Item) :=
  match list with
  | none => pure h
  | some p => do
      let l ← h.list p
      let h ← clearNodes disposes (2 ^ 64) l.head h
      let h ← h.setHead p none
      let h ← h.setTail p none
      h.setSize p 0

/-- `linked_list_dispose`; the caller's pointer is `NULL` afterwards. -/
def linkedListDispose (list : Option Address) (disposes : Bool) (h : Heap Item) : Exec (Heap Item) := do
  let h ← linkedListClear list disposes h
  match list with
  | none => pure h
  | some p => h.freeList p

/-! ## `LinkedList_foreach` -/

/-- The loop with a `break` at the first node wanted: that node and its item. Every turn meets
another node, so there are fewer turns than pointers. -/
def untilNode (wanted : Address × Item → Bool) :
    Nat → Option Address → Heap Item → Exec (Option (Address × Item))
  | _, none, _ => pure none
  | 0, some _, _ => .diverges
  | turns + 1, some cur, h => do
      let node ← h.node cur
      if wanted (cur, node.item) then pure (some (cur, node.item))
      else untilNode wanted turns node.front h

def linkedListForeachUntil (wanted : Address × Item → Bool) (list : Address) (h : Heap Item) :
    Exec (Option (Address × Item)) := do
  let l ← h.list list
  untilNode wanted (2 ^ 64) l.head h

/-- The loop without a `break`, whose body leaves the heap alone. -/
def eachNode {β : Type} (body : β → Address × Item → β) :
    Nat → Option Address → β → Heap Item → Exec β
  | _, none, b, _ => pure b
  | 0, some _, _, _ => .diverges
  | turns + 1, some cur, b, h => do
      let node ← h.node cur
      eachNode body turns node.front (body b (cur, node.item)) h

def linkedListForeach {β : Type} (body : β → Address × Item → β) (list : Address) (b : β)
    (h : Heap Item) : Exec β := do
  let l ← h.list list
  eachNode body (2 ^ 64) l.head b h

end JustWeather.Utils
