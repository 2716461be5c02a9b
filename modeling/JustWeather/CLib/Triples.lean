import Mathlib.Data.Finset.Card
import JustWeather.CLib.Ownership

/-! # Triples about blocks

Which blocks there are before a piece of code, what it returns, and which it leaves. Where a triple
holds, the code touches nothing that is not there and frees nothing twice.
-/

namespace JustWeather.CLib

/-- There are just these blocks. -/
structure Owns (bs : List Nat) (s : Blocks) : Prop where
  distinct : bs.Nodup
  live : s.live = bs.toFinset

variable {b : Nat} {bs bs' : List Nat} {s : Blocks}

theorem Owns.perm (h : Owns bs s) (same : bs.Perm bs') : Owns bs' s where
  distinct := same.nodup_iff.mp h.distinct
  live := h.live.trans (List.toFinset_eq_of_perm bs bs' same)

theorem Owns.push (h : Owns bs s) : Owns (s.next :: bs) s.push := by
  constructor
  · apply List.nodup_cons.mpr ⟨_, h.distinct⟩
    intro mem
    have live : s.next ∈ s.live := by rwa [h.live, List.mem_toFinset]
    exact absurd (s.fresh s.next live) (Nat.lt_irrefl _)
  · rw [List.toFinset_cons, ← h.live]
    rfl

theorem Owns.use (h : Owns bs s) (mem : b ∈ bs) : CLib.use b s = .returns ((), s) := by
  apply if_pos
  rwa [h.live, List.mem_toFinset]

theorem Owns.free (h : Owns (b :: bs) s) :
    ∃ s', CLib.free (some b) s = .returns ((), s') ∧ Owns bs s' := by
  obtain ⟨new, distinct⟩ := List.nodup_cons.mp h.distinct
  have held : Holding bs.toFinset (some b) s := by
    constructor
    · rwa [List.mem_toFinset]
    · rw [h.live, List.toFinset_cons]
  obtain ⟨s', freed, rest⟩ := held.free
  exact ⟨s', freed, distinct, rest⟩

/-- The blocks of a state, in some order. -/
theorem owns_live (s : Blocks) : Owns s.live.toList s where
  distinct := s.live.nodup_toList
  live := s.live.toList_toFinset.symm

theorem Owns.card (h : Owns bs s) : s.live.card = bs.length := by
  rw [h.live, List.toFinset_card_of_nodup h.distinct]

theorem Owns.mem (h : Owns bs s) : b ∈ s.live ↔ b ∈ bs := by
  rw [h.live, List.mem_toFinset]

namespace Owning

variable {α β : Type}

/-- From just these blocks the code returns, with such a result and such blocks. -/
def Leaves (bs : List Nat) (m : Owning α) (ends : α → List Nat → Prop) : Prop :=
  ∀ s, Owns bs s → ∃ a s' bs', m s = .returns (a, s') ∧ Owns bs' s' ∧ ends a bs'

variable {m : Owning α} {f : α → Owning β} {mid : α → List Nat → Prop} {ends : β → List Nat → Prop}

theorem Leaves.pure {a : β} (h : ends a bs) : Leaves bs (pure a) ends :=
  fun s owns => ⟨a, s, bs, rfl, owns, h⟩

theorem Leaves.perm {m : Owning β} (same : bs.Perm bs') (h : Leaves bs' m ends) : Leaves bs m ends :=
  fun s owns => h s (owns.perm same)

/-- No block is there twice. -/
theorem Leaves.distinct {m : Owning β} (h : bs.Nodup → Leaves bs m ends) : Leaves bs m ends :=
  fun s owns => h owns.distinct s owns

theorem Leaves.weaken {ends' : β → List Nat → Prop} {m : Owning β} (h : Leaves bs m ends)
    (weaker : ∀ b bs', ends b bs' → ends' b bs') : Leaves bs m ends' := by
  intro s owns
  obtain ⟨b, s', bs', made, owns', ended⟩ := h s owns
  exact ⟨b, s', bs', made, owns', weaker b bs' ended⟩

theorem Leaves.bind (first : Leaves bs m mid)
    (rest : ∀ a bs', mid a bs' → Leaves bs' (f a) ends) : Leaves bs (m >>= f) ends := by
  intro s owns
  obtain ⟨a, s', bs', made, owns', between⟩ := first s owns
  obtain ⟨b, s'', bs'', made', owns'', ended⟩ := rest a bs' between s' owns'
  refine ⟨b, s'', bs'', ?_, owns'', ended⟩
  rw [bind_apply, made]
  exact made'

theorem Leaves.free_end {ends : Unit → List Nat → Prop} (h : ends () bs) :
    Leaves (b :: bs) (CLib.free (some b)) ends := by
  intro s owns
  obtain ⟨s', freed, owns'⟩ := owns.free
  exact ⟨(), s', bs, freed, owns', h⟩

/-! ## Before the rest -/

theorem Leaves.use {f : Unit → Owning β} (mem : b ∈ bs) (rest : Leaves bs (f ()) ends) :
    Leaves bs (use b >>= f) ends := by
  intro s owns
  rw [bind_apply, owns.use mem]
  exact rest s owns

theorem Leaves.free {f : Unit → Owning β} (rest : Leaves bs (f ()) ends) :
    Leaves (b :: bs) (free (some b) >>= f) ends := by
  apply Leaves.bind (@Leaves.free_end _ bs (fun _ left => left = bs) rfl)
  rintro ⟨⟩ left rfl
  exact rest

/-- A pointer that may be null. -/
theorem Leaves.freeOption {f : Unit → Owning β} {p : Option Nat} (rest : Leaves bs (f ()) ends) :
    Leaves (p.toList ++ bs) (CLib.free p >>= f) ends := by
  cases p with
  | none => exact rest
  | some b => exact Leaves.free rest

theorem Leaves.block {f : Nat → Owning β} (rest : ∀ b, Leaves (b :: bs) (f b) ends) :
    Leaves bs (block >>= f) ends :=
  fun s owns => rest s.next s.push owns.push

theorem Leaves.malloc {granted : Bool} {f : Option Nat → Owning β}
    (refused : granted = false → Leaves bs (f none) ends)
    (made : ∀ b, granted = true → Leaves (b :: bs) (f (some b)) ends) :
    Leaves bs (malloc granted >>= f) ends := by
  cases granted with
  | false => exact refused rfl
  | true => exact Leaves.block fun b => made b rfl

end Owning

end JustWeather.CLib
