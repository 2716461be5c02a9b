import Mathlib.Logic.Function.Iterate

/-! # Halting

A machine that takes one step after another, by itself. A state it stays in is
final.
-/

namespace JustWeather.Machine

variable {State : Type*} {step : State → State} {final : State → Prop} {s t u : State}

variable (step) in
/-- Some number of steps leads from one state to the other. -/
def Leads (s t : State) : Prop := ∃ n, step^[n] s = t

variable (step final) in
/-- The machine comes to a final state. -/
def Stops (s : State) : Prop := ∃ t, Leads step s t ∧ final t

theorem Leads.refl (s : State) : Leads step s s := ⟨0, rfl⟩

theorem Leads.head (h : Leads step (step s) t) : Leads step s t := by
  obtain ⟨n, eq⟩ := h
  exact ⟨n + 1, eq⟩

theorem Leads.single (h : step s = t) : Leads step s t := ⟨1, h⟩

theorem Leads.trans (h : Leads step s t) (h' : Leads step t u) : Leads step s u := by
  obtain ⟨n, rfl⟩ := h
  obtain ⟨m, rfl⟩ := h'
  exact ⟨m + n, Function.iterate_add_apply step m n s⟩

/-- What every step preserves holds wherever the machine is led. -/
theorem Leads.invariant {Inv : State → Prop} (preserves : ∀ s, Inv s → Inv (step s))
    (start : Inv s) (h : Leads step s t) : Inv t := by
  obtain ⟨n, rfl⟩ := h
  induction n with
  | zero => exact start
  | succ n ih =>
      rw [Function.iterate_succ_apply']
      exact preserves _ ih

/-- There is only one way to go on. -/
theorem Leads.total (h : Leads step s t) (h' : Leads step s u) : Leads step t u ∨ Leads step u t := by
  obtain ⟨n, rfl⟩ := h
  obtain ⟨m, rfl⟩ := h'
  rcases Nat.le_total n m with le | le
  · exact .inl ⟨m - n, by rw [← Function.iterate_add_apply, Nat.sub_add_cancel le]⟩
  · exact .inr ⟨n - m, by rw [← Function.iterate_add_apply, Nat.sub_add_cancel le]⟩

theorem Leads.of_final (stays : ∀ s, final s → step s = s) (end_ : final s) (h : Leads step s t) :
    t = s := by
  obtain ⟨n, rfl⟩ := h
  exact Function.iterate_fixed (stays s end_) n

theorem Stops.of_leads (h : Leads step s t) (stops : Stops step final t) : Stops step final s := by
  obtain ⟨u, on, end_⟩ := stops
  exact ⟨u, h.trans on, end_⟩

/-- On its way to the end a machine that stops can stop from everywhere. -/
theorem Stops.on (stays : ∀ s, final s → step s = s) (h : Leads step s t)
    (stops : Stops step final s) : Stops step final t := by
  obtain ⟨u, way, end_⟩ := stops
  rcases h.total way with on | back
  · exact ⟨u, on, end_⟩
  · rw [Leads.of_final stays end_ back]
    exact ⟨u, Leads.refl u, end_⟩

/-- A machine caught in a set of states that are not final never stops. -/
theorem not_stops (Trap : State → Prop) (keeps : ∀ s, Trap s → Trap (step s))
    (never : ∀ s, Trap s → ¬ final s) (caught : Trap s) : ¬ Stops step final s := by
  rintro ⟨t, way, end_⟩
  exact never t (way.invariant keeps caught) end_

end JustWeather.Machine
