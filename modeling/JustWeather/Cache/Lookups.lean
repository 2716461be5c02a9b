import JustWeather.Cache.Coherence

/-! # What a lookup shows

What a lookup returns depends on the entry for its key and on what stands at its
path. A lookup that drops an entry or removes a file has found one that is not
shown again.
-/

namespace JustWeather.Cache

open CLib ClientCache

/-- The text that is made of what stands at the path. -/
def fromFile (J : Jansson) (env : Surroundings) (k : Bytes) (ttl : Int) : Option Inode → Option Bytes
  | some (.file content mtime) =>
      if env.now - mtime ≤ ttl ∧ env.granted (.filepath k) = true ∧ env.readable = true ∧
          env.granted .json = true ∧ env.granted .dump = true then
        (J.load content).toOption.map J.dump
      else none
  | _ => none

/-- The text that is copied from an entry. -/
def fromEntry (env : Surroundings) (k : Bytes) (entry : CacheEntry) (inode : Option Inode) :
    Option Bytes :=
  if entry.ttl < env.now - entry.createdAt then none
  else if env.granted (.filepath k) && inode.isNone then none
  else if env.granted .result then some entry.jsonData else none

def shown (J : Jansson) (env : Surroundings) (k : Bytes) (ttl : Int) (entry : Option CacheEntry)
    (inode : Option Inode) : Option Bytes :=
  match entry with
  | some entry => fromEntry env k entry inode
  | none => fromFile J env k ttl inode

variable {J : Jansson} {env : Surroundings} {k : Bytes} {s : CacheState} {ttl : Int} {dir : CacheDir}

theorem fromFile_eq_some {x : Bytes} : fromFile J env k ttl (dir.stat (cachePath k)) = some x ↔
    ∃ v, Loadable J env k ttl dir v ∧ x = J.dump v := by
  constructor
  · intro some
    rcases here : dir.stat (cachePath k) with _ | ⟨content, mtime⟩ | mtime <;> rw [here] at some
    · cases some
    · simp only [fromFile] at some
      split at some
      · next can =>
          obtain ⟨young, path, readable, json, dump⟩ := can
          cases load : J.load content with
          | error text =>
              rw [load] at some
              cases some
          | ok v =>
              rw [load] at some
              cases some
              exact ⟨v, ⟨path, ⟨content, mtime, here, young, load⟩, readable, json, dump⟩, rfl⟩
      · cases some
    · cases some
  · rintro ⟨v, ⟨path, ⟨content, mtime, here, young, load⟩, readable, json, dump⟩, rfl⟩
    rw [here, fromFile, if_pos ⟨young, path, readable, json, dump⟩, load]
    rfl

theorem loadFromFile_fst :
    (loadFromFile J env k ttl dir).1 = fromFile J env k ttl (dir.stat (cachePath k)) := by
  rcases loadFromFile_cases J env k ttl dir with ⟨v, loadable, eq⟩ | ⟨none, dir', -, eq⟩
  · rw [eq]
    exact (fromFile_eq_some.mpr ⟨v, loadable, rfl⟩).symm
  · rw [eq]
    apply Eq.symm
    apply Option.eq_none_iff_forall_ne_some.mpr
    intro x some
    obtain ⟨v, loadable, -⟩ := fromFile_eq_some.mp some
    exact none v loadable

/-- What a lookup returns, by the entry for the key and what stands at its path. -/
theorem clientCacheGet_shown : (clientCacheGet J env k s).1 =
    shown J env k s.cache.defaultTtl (s.cache.lookup k) (s.dir.stat (cachePath k)) := by
  cases found : s.cache.lookup k with
  | some entry =>
      have gone : ((getCacheFilepath env k).any fun filepath => (s.dir.stat filepath).isNone) =
          (env.granted (.filepath k) && (s.dir.stat (cachePath k)).isNone) := by
        unfold getCacheFilepath
        cases env.granted (.filepath k) <;> rfl
      rw [clientCacheGet_found found, gone, shown, fromEntry]
      split
      · rfl
      · split <;> rfl
  | none =>
      rw [clientCacheGet_absent found, shown, ← loadFromFile_fst, reload]
      rcases loadFromFile J env k s.cache.defaultTtl s.dir with ⟨_ | jsonData, dir⟩
      · rfl
      · simp only
        split <;> rfl

/-! ## Other keys -/

theorem reload_dir (absent : s.cache.lookup k = none) :
    (reload J env k s absent).2.dir = (loadFromFile J env k s.cache.defaultTtl s.dir).2 := by
  unfold reload
  rcases loadFromFile J env k s.cache.defaultTtl s.dir with ⟨_ | jsonData, dir⟩
  · rfl
  · simp only
    split <;> rfl

theorem clientCacheGet_lookup_ne {k' : Bytes} (other : k' ≠ k) :
    (clientCacheGet J env k s).2.cache.lookup k' = s.cache.lookup k' := by
  obtain ⟨result, s', eq, looked⟩ := @clientCacheGet_looked J env k s
  rw [eq]
  cases looked with
  | hit | missed | unkept => rfl
  | dropped => exact lookup_remove_ne other
  | reloaded absent => exact lookup_append_ne other (lookup_none absent)

theorem clientCacheGet_stat_ne {p : Bytes} (other : p ≠ cachePath k) :
    (clientCacheGet J env k s).2.dir.stat p = s.dir.stat p := by
  cases found : s.cache.lookup k with
  | some entry =>
      rw [clientCacheGet_found found]
      split
      · exact stat_deleteFile_ne other
      · split <;> rfl
  | none =>
      rw [clientCacheGet_absent found, reload_dir, loadFromFile_snd]
      split
      · exact CacheDir.stat_unlink_ne other
      · rfl

/-! ## One lookup after another -/

/-- Nothing is made of a file that was removed. -/
theorem fromFile_unlinked {later : Surroundings} (unlink : env.unlink (cachePath k) = true) :
    fromFile J later k ttl ((dir.unlink env (cachePath k)).stat (cachePath k)) = none := by
  rw [CacheDir.stat_unlink_self, unlink, Bool.and_true]
  rcases dir.stat (cachePath k) with _ | ⟨content, mtime⟩ | mtime <;> rfl

/-- Nothing is made of a file that was too old before. -/
theorem fromFile_invalid {later : Surroundings} (clock : env.now ≤ later.now)
    (invalid : isCacheFileValid env dir (cachePath k) ttl = false) :
    fromFile J later k ttl (dir.stat (cachePath k)) = none := by
  unfold isCacheFileValid at invalid
  rcases here : dir.stat (cachePath k) with _ | ⟨content, mtime⟩ | mtime
  · rfl
  · rw [here] at invalid
    simp only [Inode.mtime, Bool.not_eq_false'] at invalid
    have old := of_decide_eq_true invalid
    exact if_neg fun can => by omega
  · rfl

/-- Without an entry, and with none made, what is left at the path is not shown later unless it was
shown before. -/
theorem fromFile_after {later : Surroundings} (path : env.granted (.filepath k) = true)
    (unlink : env.unlink (cachePath k) = true) (clock : env.now ≤ later.now) :
    fromFile J later k ttl ((loadFromFile J env k ttl dir).2.stat (cachePath k)) =
      fromFile J later k ttl (dir.stat (cachePath k)) := by
  rw [loadFromFile_snd, path, Bool.true_and]
  cases valid : isCacheFileValid env dir (cachePath k) ttl with
  | true => rfl
  | false =>
      rw [fromFile_invalid clock valid]
      exact fromFile_unlinked unlink

section Again

variable {later : Surroundings} (path : env.granted (.filepath k) = true)
  (unlink : env.unlink (cachePath k) = true) (path' : later.granted (.filepath k) = true)
  (clock : env.now ≤ later.now)
  (unmade : s.cache.lookup k = none → (clientCacheGet J env k s).1 = none)

include path unlink path' clock unmade

theorem clientCacheGet_again :
    (clientCacheGet J later k (clientCacheGet J env k s).2).1 = (clientCacheGet J later k s).1 := by
  have filepath : getCacheFilepath env k = some (cachePath k) := if_pos path
  rw [clientCacheGet_shown, clientCacheGet_shown, clientCacheGet_limits.2]
  cases found : s.cache.lookup k with
  | some entry =>
      rw [clientCacheGet_found found]
      split
      · next old =>
          have before : fromEntry later k entry (s.dir.stat (cachePath k)) = none := if_pos (by omega)
          rw [lookup_remove_self, shown, shown, before, deleteFile, filepath]
          exact fromFile_unlinked unlink
      · split
        · next gone =>
            rw [filepath] at gone
            have none : s.dir.stat (cachePath k) = none := by simpa using gone
            simp [lookup_remove_self, shown, fromEntry, fromFile, none, path']
        · simp only [found]
  | none =>
      have nothing := unmade found
      have list : (clientCacheGet J env k s).2.cache.lookup k = none := by
        obtain ⟨result, s', eq, looked⟩ := @clientCacheGet_looked J env k s
        rw [eq] at nothing ⊢
        cases looked with
        | hit here => cases here.symm.trans found
        | dropped => exact lookup_remove_self s.cache k
        | missed | unkept => exact found
        | reloaded => cases nothing
      rw [list, clientCacheGet_absent found, reload_dir]
      exact fromFile_after path unlink clock

/-- Where a lookup makes no entry, every later lookup shows what it would have shown without it. -/
theorem clientCacheGet_after {k' : Bytes} (apart : hashMd5String k' = hashMd5String k → k' = k) :
    (clientCacheGet J later k' (clientCacheGet J env k s).2).1 = (clientCacheGet J later k' s).1 := by
  by_cases here : k' = k
  · subst here
    exact clientCacheGet_again path unlink path' clock unmade
  · have elsewhere : cachePath k' ≠ cachePath k := fun same => here (apart (cachePath_inj same))
    rw [clientCacheGet_shown, clientCacheGet_shown, clientCacheGet_limits.2,
      clientCacheGet_lookup_ne here, clientCacheGet_stat_ne elsewhere]

end Again

end JustWeather.Cache
