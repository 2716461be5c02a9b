import Mathlib.Data.List.Basic

/-! # Runs of a state machine

Conditions on every step of a run, invariants, and what was last written to a
place that steps may write, forget or leave alone.
-/

namespace JustWeather.Machine

variable {State Label Value : Type*} (step : State → Label → State)

/-- The state after a run. -/
def run (s : State) (ls : List Label) : State := ls.foldl step s

@[simp] theorem run_nil (s : State) : run step s [] = s := rfl

@[simp] theorem run_cons (s : State) (l : Label) (ls : List Label) :
    run step s (l :: ls) = run step (step s l) ls := rfl

@[simp] theorem run_append (s : State) (ls ls' : List Label) :
    run step s (ls ++ ls') = run step (run step s ls) ls' := List.foldl_append

/-- Every step of the run meets `P`, at the state it is taken in. -/
def Along (P : State → Label → Prop) : State → List Label → Prop
  | _, [] => True
  | s, l :: ls => P s l ∧ Along P (step s l) ls

variable {step}

theorem Along.mono {P Q : State → Label → Prop} (weaker : ∀ s l, P s l → Q s l) {s : State}
    {ls : List Label} (h : Along step P s ls) : Along step Q s ls := by
  induction ls generalizing s with
  | nil => trivial
  | cons l ls ih => exact ⟨weaker s l h.1, ih h.2⟩

theorem along_append {P : State → Label → Prop} {s : State} {ls ls' : List Label} :
    Along step P s (ls ++ ls') ↔ Along step P s ls ∧ Along step P (run step s ls) ls' := by
  induction ls generalizing s with
  | nil => simp [Along]
  | cons l ls ih => simp only [List.cons_append, Along, ih, run_cons, and_assoc]

/-- A condition on labels alone. -/
theorem along_of_forall {P : Label → Prop} {s : State} {ls : List Label} (h : ∀ l ∈ ls, P l) :
    Along step (fun _ l => P l) s ls := by
  induction ls generalizing s with
  | nil => trivial
  | cons l ls ih => exact ⟨h l (by simp), ih fun l hl => h l (by simp [hl])⟩

theorem along_iff {P : State → Label → Prop} {s : State} {ls : List Label} : Along step P s ls ↔
    ∀ before l after, ls = before ++ l :: after → P (run step s before) l := by
  induction ls generalizing s with
  | nil =>
      apply iff_of_true trivial
      intro before l after split
      simp at split
  | cons l ls ih =>
      constructor
      · rintro ⟨here, later⟩ before l' after split
        cases before with
        | nil =>
            cases split
            exact here
        | cons b before =>
            cases split
            exact ih.mp later before l' after rfl
      · intro all
        exact ⟨all [] l ls rfl, ih.mpr fun before l' after split => all (l :: before) l' after (split ▸ rfl)⟩

/-- What a step preserves, a run preserves. -/
theorem run_invariant {P : State → Label → Prop} {Inv : State → Prop}
    (preserves : ∀ s l, P s l → Inv s → Inv (step s l)) {s : State} {ls : List Label}
    (start : Inv s) (along : Along step P s ls) : Inv (run step s ls) := by
  induction ls generalizing s with
  | nil => exact start
  | cons l ls ih => exact ih (preserves s l along.1 start) along.2

/-- When a step keeps `Inv` exactly under `P`, a run keeps it all the way exactly along `P`. -/
theorem always_iff_along {P : State → Label → Prop} {Inv : State → Prop}
    (exact_ : ∀ s l, Inv s → (Inv (step s l) ↔ P s l)) {s : State} {ls : List Label}
    (start : Inv s) : (∀ before, before <+: ls → Inv (run step s before)) ↔ Along step P s ls := by
  induction ls generalizing s with
  | nil =>
      refine ⟨fun _ => trivial, fun _ before part => ?_⟩
      rw [List.prefix_nil.mp part]
      exact start
  | cons l ls ih =>
      constructor
      · intro all
        have first : Inv (step s l) := all [l] (List.prefix_iff_eq_take.mpr rfl)
        exact ⟨(exact_ s l start).mp first, (ih first).mp fun before part =>
          all (l :: before) (List.cons_prefix_cons.mpr ⟨rfl, part⟩)⟩
      · rintro ⟨here, later⟩ before part
        rcases List.prefix_cons_iff.mp part with rfl | ⟨before, rfl, rest⟩
        · exact start
        · exact (ih ((exact_ s l start).mpr here)).mpr later before rest

/-! ## The last write -/

/-- What a step does to one place. -/
inductive Effect (Value : Type*) where
  | write (value : Value)
  | forget
  | keep

/-- The place after a step with this effect. -/
def Effect.apply : Effect Value → Option Value → Option Value
  | write v, _ => some v
  | forget, _ => none
  | keep, m => m

variable (step) in
/-- The place after a run. -/
def remember (effect : State → Label → Effect Value) : Option Value → State → List Label → Option Value
  | m, _, [] => m
  | m, s, l :: ls => remember effect ((effect s l).apply m) (step s l) ls

variable {effect : State → Label → Effect Value}

/-- What a step preserves of a state and a place, a run preserves. -/
theorem remember_invariant {P : State → Label → Prop} {Inv : Option Value → State → Prop}
    (preserves : ∀ m s l, P s l → Inv m s → Inv ((effect s l).apply m) (step s l))
    {m : Option Value} {s : State} {ls : List Label} (start : Inv m s)
    (along : Along step P s ls) : Inv (remember step effect m s ls) (run step s ls) := by
  induction ls generalizing m s with
  | nil => exact start
  | cons l ls ih => exact ih (preserves m s l along.1 start) along.2

/-- A value remembered was there from the start, or was written at some step; the steps since then
keep it. -/
theorem remember_eq_some {m : Option Value} {s : State} {ls : List Label} {v : Value}
    (h : remember step effect m s ls = some v) :
    (m = some v ∧ Along step (fun s l => effect s l = .keep) s ls) ∨
    ∃ before l after, ls = before ++ l :: after ∧ effect (run step s before) l = .write v ∧
      Along step (fun s l => effect s l = .keep) (step (run step s before) l) after := by
  induction ls generalizing m s with
  | nil => exact .inl ⟨h, trivial⟩
  | cons l ls ih =>
      rcases ih h with ⟨held, kept⟩ | ⟨before, l', after, rfl, wrote, kept⟩
      · cases done : effect s l with
        | write w =>
            rw [done] at held
            cases held
            exact .inr ⟨[], l, ls, rfl, done, kept⟩
        | forget =>
            rw [done] at held
            cases held
        | keep =>
            rw [done] at held
            exact .inl ⟨held, done, kept⟩
      · exact .inr ⟨l :: before, l', after, rfl, wrote, kept⟩

end JustWeather.Machine
