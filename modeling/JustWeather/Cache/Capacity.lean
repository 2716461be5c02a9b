import JustWeather.Cache.Run

/-! # Capacity

A store makes room before it adds an entry. A lookup that takes a file into the
list does not.
-/

namespace JustWeather.Cache

open CLib ClientCache Machine

/-- After eviction there is room for one more entry. -/
theorem evict_length {env : Surroundings} {cache : ClientCache} {dir : CacheDir}
    (bounded : cache.entries.length ≤ cache.maxEntries) :
    (evict env cache dir).1.entries.length < cache.maxEntries := by
  have := cache.capacity
  unfold evict victim
  by_cases full : cache.maxEntries ≤ cache.entries.length
  · rw [if_pos full]
    cases pick : oldest cache.entries with
    | none =>
        have empty : cache.entries = [] := by simpa [oldest] using pick
        rw [empty] at full
        simp at full
        omega
    | some entry =>
        have shorter := List.length_erase_of_mem (oldest_mem pick)
        simp only [thin, shorter]
        omega
  · rw [if_neg full]
    simp only
    omega

theorem remove_length (cache : ClientCache) (key : Bytes) :
    (cache.remove key).entries.length ≤ cache.entries.length :=
  List.length_eraseP_le

theorem clientCacheSet_length {J : Jansson} {env : Surroundings} {key jsonData : Bytes}
    {s : CacheState} (bounded : s.cache.entries.length ≤ s.cache.maxEntries) :
    (clientCacheSet J env key jsonData s).2.cache.entries.length ≤ s.cache.maxEntries := by
  have room : (evict env (s.cache.remove key) s.dir).1.entries.length < s.cache.maxEntries :=
    evict_length ((remove_length s.cache key).trans bounded)
  unfold clientCacheSet
  simp only
  split
  · simp only [append, List.length_append, List.length_singleton]
    exact room
  · exact room.le

/-- A lookup grows the list by the entry it reloads, and never otherwise. -/
theorem clientCacheGet_length {J : Jansson} {env : Surroundings} {key : Bytes} {s : CacheState} :
    (∃ v, Reloads J s ⟨.get key, env⟩ key v) ∧
      (clientCacheGet J env key s).2.cache.entries.length = s.cache.entries.length + 1 ∨
    (¬ ∃ v, Reloads J s ⟨.get key, env⟩ key v) ∧
      (clientCacheGet J env key s).2.cache.entries.length ≤ s.cache.entries.length := by
  obtain ⟨found, s', eq, looked⟩ := @clientCacheGet_looked J env key s
  rw [eq]
  cases looked with
  | hit here =>
      refine .inr ⟨?_, Nat.le_refl _⟩
      rintro ⟨v, -, absent, -⟩
      rw [here] at absent
      cases absent
  | dropped here =>
      refine .inr ⟨?_, remove_length s.cache key⟩
      rintro ⟨v, -, absent, -⟩
      rw [here] at absent
      cases absent
  | missed _ _ none => exact .inr ⟨fun ⟨v, _, _, _, loadable⟩ => none v loadable, Nat.le_refl _⟩
  | reloaded absent loadable stores =>
      exact .inl ⟨⟨_, rfl, absent, stores, loadable⟩, by simp [append]⟩
  | unkept _ _ refused =>
      refine .inr ⟨?_, Nat.le_refl _⟩
      rintro ⟨v, -, -, stores, -⟩
      rw [refused] at stores
      cases stores

/-- The size of the list. -/
def Bounded (s : CacheState) : Prop := s.cache.entries.length ≤ s.cache.maxEntries

/-- A call that takes a file into the list finds room there. -/
def RoomToReload (J : Jansson) (s : CacheState) (call : CacheCall) : Prop :=
  (∃ key v, Reloads J s call key v) → s.cache.entries.length < s.cache.maxEntries

theorem perform_bounded_iff {J : Jansson} (s : CacheState) (call : CacheCall) (bounded : Bounded s) :
    Bounded (perform J s call) ↔ RoomToReload J s call := by
  have limit := (perform_limits J s call).1
  obtain ⟨op, env⟩ := call
  unfold Bounded
  rw [limit]
  have other : (∀ key, op ≠ .get key) → RoomToReload J s ⟨op, env⟩ := by
    rintro noGet ⟨key, v, get, -⟩
    exact absurd get (noGet key)
  cases op with
  | set key jsonData =>
      exact iff_of_true (clientCacheSet_length bounded) (other fun _ => CacheOp.noConfusion)
  | get key =>
      rcases @clientCacheGet_length J env key s with ⟨reloads, grown⟩ | ⟨stays, size⟩
      · obtain ⟨v, reloads⟩ := reloads
        constructor
        · intro bounded' _
          have : (clientCacheGet J env key s).2.cache.entries.length ≤ s.cache.maxEntries := bounded'
          omega
        · intro room
          have := room ⟨key, v, reloads⟩
          have : (clientCacheGet J env key s).2.cache.entries.length ≤ s.cache.maxEntries := by omega
          exact this
      · refine iff_of_true (size.trans bounded) ?_
        rintro ⟨key', v, get, rest⟩
        cases get
        exact absurd ⟨v, rfl, rest⟩ stays
  | clear => exact iff_of_true (Nat.zero_le _) (other fun _ => CacheOp.noConfusion)
  | restart => exact iff_of_true (Nat.zero_le _) (other fun _ => CacheOp.noConfusion)

/-- The list stays within its limit, in every state of a run, exactly when every lookup that
takes a file into it finds room. -/
theorem cache_bounded_iff (J : Jansson) (maxEntries : Nat) (defaultTtl : Int) (dir : CacheDir)
    (calls : List CacheCall) :
    (∀ before, before <+: calls →
      Bounded (run (perform J) ⟨clientCacheCreate maxEntries defaultTtl, dir⟩ before)) ↔
    Along (perform J) (RoomToReload J) ⟨clientCacheCreate maxEntries defaultTtl, dir⟩ calls :=
  always_iff_along perform_bounded_iff (Nat.zero_le _)

/-- Two files of an earlier process, looked up with a limit of one entry. -/
theorem cache_exceeds_limit :
    ¬ ∀ before, before <+: [⟨.get (ascii "a"), .calm 0⟩, ⟨.get (ascii "b"), .calm 0⟩] →
      Bounded (run (perform .emptyTexts) ⟨clientCacheCreate 1 300, .present fun p =>
        if p = cachePath (ascii "a") ∨ p = cachePath (ascii "b") then
          some (.file (ascii "[]") 0) else none⟩ before) := by
  intro all
  have := all _ (List.prefix_refl _)
  revert this
  unfold Bounded
  decide +kernel

end JustWeather.Cache
