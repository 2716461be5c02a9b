import Mathlib.Data.Finset.Basic
import JustWeather.CLib.Exec

/-! # Blocks of memory

What `malloc` gives and `free` takes back. Every block has a number of its own, so a block that is
used, resized or freed behind its `free` does not go unnoticed.
-/

namespace JustWeather.CLib

/-- The blocks there are, and the number of the next one. -/
structure Blocks where
  live : Finset Nat
  next : Nat
  fresh : ∀ b ∈ live, b < next

/-- Code that allocates and frees. -/
def Owning (α : Type) : Type := Blocks → Exec (α × Blocks)

namespace Owning

variable {α β γ δ : Type}

instance : Monad Owning where
  pure a := fun s => .returns (a, s)
  bind m f := fun s => (m s).andThen fun r => f r.1 r.2

/-- Code that leaves the blocks alone. -/
def lift (x : Exec α) : Owning α := fun s => x.andThen fun a => .returns (a, s)

theorem bind_apply (m : Owning α) (f : α → Owning β) (s : Blocks) :
    (m >>= f) s = (m s).andThen fun r => f r.1 r.2 := rfl

end Owning

/-! ## The functions -/

/-- With one block more. -/
def Blocks.push (s : Blocks) : Blocks where
  live := insert s.next s.live
  next := s.next + 1
  fresh b mem := by
    rcases Finset.mem_insert.mp mem with rfl | mem
    · exact Nat.lt_succ_self _
    · exact (s.fresh b mem).trans (Nat.lt_succ_self _)

def Blocks.erase (s : Blocks) (b : Nat) : Blocks :=
  ⟨s.live.erase b, s.next, fun c mem => s.fresh c (Finset.mem_of_mem_erase mem)⟩

/-- A block that there is memory for. -/
def block : Owning Nat := fun s => .returns (s.next, s.push)

def malloc (granted : Bool) : Owning (Option Nat) := fun s =>
  if granted then .returns (some s.next, s.push) else .returns (none, s)

/-- Reading or writing inside the block. -/
def use (b : Nat) : Owning Unit := fun s => if b ∈ s.live then .returns ((), s) else .undefined

/-- `free`, which does nothing with a null pointer. -/
def free : Option Nat → Owning Unit
  | none => pure ()
  | some b => fun s => if b ∈ s.live then .returns ((), s.erase b) else .undefined

/-- `realloc`. What is refused leaves the old block. -/
def realloc (granted : Bool) (p : Option Nat) : Owning (Option Nat) :=
  if granted then do
    free p
    malloc true
  else pure none

/-! ## Holding a block -/

/-- Apart from these blocks there is only what the pointer points to. -/
def Holding (others : Finset Nat) : Option Nat → Blocks → Prop
  | none, s => s.live = others
  | some b, s => b ∉ others ∧ s.live = insert b others

variable {others : Finset Nat} {p : Option Nat} {b : Nat} {s : Blocks}

/-- A block that is held is one of the others for the next one. -/
theorem Holding.among (h : Holding others (some b) s) : Holding (insert b others) none s := h.2

theorem Holding.of_among (new : b ∉ others) (h : Holding (insert b others) none s) :
    Holding others (some b) s := ⟨new, h⟩

theorem Holding.of_mem (mem : b ∈ others) (h : Holding others none s) :
    Holding (others.erase b) (some b) s := by
  apply Holding.of_among (Finset.notMem_erase b others)
  rw [Finset.insert_erase mem]
  exact h

theorem Holding.fresh (h : Holding others none s) : Holding others (some s.next) s.push := by
  constructor
  · intro mem
    exact absurd (s.fresh s.next (h.symm ▸ mem)) (Nat.lt_irrefl _)
  · exact congrArg (insert s.next) h

theorem Holding.malloc (h : Holding others none s) :
    ∃ b s', malloc true s = .returns (some b, s') ∧ Holding others (some b) s' :=
  ⟨s.next, s.push, rfl, h.fresh⟩

theorem Holding.use (h : Holding others (some b) s) : use b s = .returns ((), s) := by
  apply if_pos
  rw [h.2]
  exact Finset.mem_insert_self b others

/-- The others can be used too. -/
theorem Holding.use_among (h : Holding others p s) (mem : b ∈ others) :
    CLib.use b s = .returns ((), s) := by
  apply if_pos
  cases p with
  | none => exact h ▸ mem
  | some c =>
      rw [h.2]
      exact Finset.mem_insert_of_mem mem

theorem Holding.free (h : Holding others p s) :
    ∃ s', free p s = .returns ((), s') ∧ Holding others none s' := by
  cases p with
  | none => exact ⟨s, rfl, h⟩
  | some b =>
      refine ⟨s.erase b, if_pos ?_, ?_⟩
      · rw [h.2]
        exact Finset.mem_insert_self b others
      · change s.live.erase b = others
        rw [h.2, Finset.erase_insert h.1]

/-- One of two blocks is freed. -/
theorem Holding.free_among {c : Nat} (h : Holding (insert c others) (some b) s) (new : c ∉ others) :
    ∃ s', CLib.free (some c) s = .returns ((), s') ∧ Holding others (some b) s' := by
  have apart := h.1
  rw [Finset.mem_insert, not_or] at apart
  have both : Holding (insert b others) (some c) s := by
    constructor
    · rw [Finset.mem_insert, not_or]
      exact ⟨fun same => apart.1 same.symm, new⟩
    · rw [h.2, Finset.insert_comm]
  obtain ⟨s', freed, rest⟩ := both.free
  exact ⟨s', freed, rest.of_among apart.2⟩

theorem Holding.realloc (h : Holding others p s) :
    ∃ b s', realloc true p s = .returns (some b, s') ∧ Holding others (some b) s' := by
  obtain ⟨s', freed, none⟩ := h.free
  obtain ⟨b, s'', made, held⟩ := none.malloc
  refine ⟨b, s'', ?_, held⟩
  rw [CLib.realloc, if_pos rfl, Owning.bind_apply, freed]
  exact made

/-! ## Code that does the same -/

namespace Owning

variable {α β γ δ : Type}

/-- From these blocks the code ends as `x` says, with a result and blocks in this relation to the
result of `x`. -/
def Behaves (x : Exec β) (m : Owning α) (s : Blocks) (ends : β → α → Blocks → Prop) : Prop :=
  match x with
  | .returns b => ∃ a s', m s = .returns (a, s') ∧ ends b a s'
  | .undefined => m s = .undefined
  | .diverges => m s = .diverges

variable {x : Exec β} {m : Owning α} {ends : β → α → Blocks → Prop}

theorem Behaves.pure {b : β} {a : α} (h : ends b a s) : Behaves (.returns b) (pure a) s ends :=
  ⟨a, s, rfl, h⟩

theorem Behaves.bind {f : β → Exec δ} {g : α → Owning γ} {ends' : δ → γ → Blocks → Prop}
    (first : Behaves x m s ends)
    (rest : ∀ b a s', x = .returns b → ends b a s' → Behaves (f b) (g a) s' ends') :
    Behaves (x.andThen f) (m >>= g) s ends' := by
  cases x with
  | returns b =>
      obtain ⟨a, s', made, related⟩ := first
      have next := rest b a s' rfl related
      have same : (m >>= g) s = g a s' := by
        rw [bind_apply, made]
        rfl
      unfold Behaves at next ⊢
      simp only [Exec.andThen_returns, same]
      exact next
  | undefined | diverges =>
      have made : m s = _ := first
      simp only [Behaves, Exec.andThen_undefined, Exec.andThen_diverges, bind_apply, made]

/-- Code that only deals with blocks, before the rest. -/
theorem Behaves.step {g : α → Owning γ} {ends' : β → γ → Blocks → Prop} {a : α} {s' : Blocks}
    (made : m s = .returns (a, s')) (rest : Behaves x (g a) s' ends') :
    Behaves x (m >>= g) s ends' := by
  have same : (m >>= g) s = g a s' := by
    rw [bind_apply, made]
    rfl
  unfold Behaves at rest ⊢
  simp only [same]
  exact rest

/-- The same code on both sides, before the rest. -/
theorem Behaves.lift {x : Exec β} {f : β → Exec δ} {g : β → Owning γ} {ends : δ → γ → Blocks → Prop}
    (rest : ∀ b, x = .returns b → Behaves (f b) (g b) s ends) :
    Behaves (x.andThen f) (lift x >>= g) s ends := by
  cases x with
  | returns b => exact rest b rfl
  | undefined | diverges => rfl

/-- More code, which keeps the result. -/
theorem Behaves.after {g : α → Owning γ} {ends' : β → γ → Blocks → Prop} (first : Behaves x m s ends)
    (rest : ∀ b a s', x = .returns b → ends b a s' → Behaves (.returns b) (g a) s' ends') :
    Behaves x (m >>= g) s ends' := by
  have same : x.andThen Exec.returns = x := by cases x <;> rfl
  rw [← same]
  exact first.bind rest

/-- The result in another form. -/
theorem Behaves.map {f : β → δ} {ends' : δ → α → Blocks → Prop} (h : Behaves x m s ends)
    (weaker : ∀ b a s', ends b a s' → ends' (f b) a s') :
    Behaves (x.andThen fun b => .returns (f b)) m s ends' := by
  cases x with
  | returns b =>
      obtain ⟨a, s', made, related⟩ := h
      exact ⟨a, s', made, weaker b a s' related⟩
  | undefined | diverges => exact h

end Owning

end JustWeather.CLib
