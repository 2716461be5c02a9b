import Mathlib.Order.Bounds.Defs
import JustWeather.Cache.Sharing

/-! # How old a returned text is

A process may take a file into its list at the end of the file's age, and the entry lives as long
again. That is the most there is, whoever else works on the directory and whatever fails.
-/

namespace JustWeather.Cache

open CLib ClientCache Machine

variable {Process : Type*}

/-- A store at time `t` of this data, under a key with this path: one of these calls, or one before
them, which left its file. -/
def StoredBy (J : Jansson) (start : Shared Process) (calls : List (SharedCall Process)) (path : Bytes)
    (t : Int) (x : Bytes) : Prop :=
  (∃ c ∈ calls, ∃ key jsonData, c.call.op = .set key jsonData ∧ cachePath key = path ∧
    c.call.env.now = t ∧ SameData J jsonData x) ∨
  ∃ content v, start.dir.stat path = some (.file content t) ∧ J.load content = .ok v ∧ x = J.dump v

theorem StoredBy.snoc {J : Jansson} {start : Shared Process} {calls : List (SharedCall Process)}
    {path x : Bytes} {t : Int} (h : StoredBy J start calls path t x) (c : SharedCall Process) :
    StoredBy J start (calls ++ [c]) path t x := by
  rcases h with ⟨c', mem, rest⟩ | file
  · exact .inl ⟨c', List.mem_append_left _ mem, rest⟩
  · exact .inr file

/-- An entry was made before its data was too old, and a file at the time it bears. -/
structure Aged (J : Jansson) (start : Shared Process) (calls : List (SharedCall Process))
    (s : Shared Process) : Prop where
  memory : ∀ p, ∀ entry ∈ (s.caches p).entries, entry.ttl = (start.caches p).defaultTtl ∧
    ∃ t, StoredBy J start calls (cachePath entry.key) t entry.jsonData ∧
      entry.createdAt - t ≤ entry.ttl
  disk : ∀ key content t v, s.dir.stat (cachePath key) = some (.file content t) →
    J.load content = .ok v → StoredBy J start calls (cachePath key) t (J.dump v)

variable [DecidableEq Process] {J : Jansson} {start : Shared Process}
  {calls : List (SharedCall Process)} {c : SharedCall Process}

theorem performShared_limits (s : Shared Process) (c : SharedCall Process) (p : Process) :
    ((performShared J s c).caches p).defaultTtl = (s.caches p).defaultTtl := by
  by_cases mine : p = c.process
  · subst mine
    rw [performShared_caches_self]
    exact (perform_limits J (s.view c.process) c.call).2
  · rw [performShared_caches_ne mine]

theorem runShared_limits (s : Shared Process) (calls : List (SharedCall Process)) (p : Process) :
    ((run (performShared J) s calls).caches p).defaultTtl = (s.caches p).defaultTtl := by
  have preserves : ∀ t c, True → (t.caches p).defaultTtl = (s.caches p).defaultTtl →
      ((performShared J t c).caches p).defaultTtl = (s.caches p).defaultTtl :=
    fun t c _ same => (performShared_limits t c p).trans same
  exact run_invariant preserves rfl (along_of_forall fun _ _ => trivial)

theorem Aged.step (undo : J.LoadUndoesDump) (cut : J.CutTextFails)
    (h : Aged J start calls (run (performShared J) start calls)) :
    Aged J start (calls ++ [c]) (performShared J (run (performShared J) start calls) c) := by
  have ttl := @runShared_limits _ _ J start calls
  have old : ∀ p, ∀ entry ∈ ((run (performShared J) start calls).caches p).entries,
      entry.ttl = (start.caches p).defaultTtl ∧
        ∃ t, StoredBy J start (calls ++ [c]) (cachePath entry.key) t entry.jsonData ∧
          entry.createdAt - t ≤ entry.ttl := by
    intro p entry mem
    obtain ⟨same, t, stored, young⟩ := h.memory p entry mem
    exact ⟨same, t, stored.snoc c, young⟩
  constructor
  · intro p entry mem
    by_cases mine : p = c.process
    · subst mine
      rw [performShared_caches_self] at mem
      rcases perform_entries mem with before | ⟨key, jsonData, set, rfl⟩ | ⟨key, v, reloads, rfl⟩
      · exact old _ entry before
      · have alive := (start.caches c.process).lifetime
        refine ⟨ttl _, c.call.env.now, .inl ⟨c, by simp, key, jsonData, set, rfl, rfl, .inl rfl⟩, ?_⟩
        rw [Int.sub_self]
        exact (ttl _).symm ▸ Int.le_of_lt alive
      · -- the file's age is part of the entry's
        obtain ⟨content, t, here, young, load⟩ := reloads.2.2.2.file
        exact ⟨ttl _, t, (h.disk key content t v here load).snoc c, young⟩
    · rw [performShared_caches_ne mine] at mem
      exact old p entry mem
  · intro key content t v here load
    rcases perform_stat here with before | ⟨key', jsonData, set, path, saved⟩
    · exact (h.disk key content t v before load).snoc c
    · obtain ⟨now, same⟩ := saved.loads undo cut load
      exact .inl ⟨c, by simp, key', jsonData, set, path.symm, now.symm, same⟩

theorem Aged.run (undo : J.LoadUndoesDump) (cut : J.CutTextFails)
    (noEntry : ∀ p, (start.caches p).entries = []) (calls : List (SharedCall Process)) :
    Aged J start calls (run (performShared J) start calls) := by
  induction calls using List.reverseRecOn with
  | nil =>
      constructor
      · intro p entry mem
        rw [run_nil, noEntry p] at mem
        cases mem
      · intro key content t v here load
        exact .inr ⟨content, v, here, load, rfl⟩
  | append_singleton calls c ih =>
      rw [run_append]
      exact ih.step undo cut

theorem performShared_view (s : Shared Process) (c : SharedCall Process) :
    (performShared J s c).view c.process = perform J (s.view c.process) c.call :=
  congrArg (CacheState.mk · _) performShared_caches_self

end JustWeather.Cache
