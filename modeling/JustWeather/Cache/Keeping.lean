import JustWeather.Cache.Retention

/-! # Keeping everything

A process that stores no more keys than its list has room for, within the life of an entry, has all
it has stored, and nothing else.
-/

namespace JustWeather.Cache

open CLib ClientCache Machine

/-- The directory is there, or its parent is. -/
def CacheDir.reachable : CacheDir → Bool
  | present _ => true
  | missing parent => parent
  | blocked => false

/-- What the process has stored since `t₀`, each text under its key, is there, and is all there is. -/
structure Kept (J : Jansson) (keys : Finset Bytes) (t₀ now : Int) (texts : Bytes → Option Bytes)
    (s : CacheState) : Prop where
  resident : Resident (keys : Set Bytes) s
  ordered : Ordered now s
  reachable : s.dir.reachable = true
  room : keys.card ≤ s.cache.maxEntries
  listed : ∀ entry ∈ s.cache.entries, (texts entry.key).isSome = true
  retained : ∀ k d, texts k = some d → k ∈ keys ∧ (∃ v, J.load d = .ok v) ∧
    ∃ t stored, t₀ ≤ t ∧ stored ⊆ keys.erase k ∧
      Retained (keys : Set Bytes) ⟨k, d, t, s.cache.defaultTtl⟩ stored now s

variable {J : Jansson} {keys : Finset Bytes} {t₀ now : Int} {texts : Bytes → Option Bytes}
  {s : CacheState} {env : Surroundings} {k d : Bytes}

/-! ## The directory -/

theorem ready_of_reachable {dir : CacheDir} (mkdir : env.mkdir = true)
    (reachable : dir.reachable = true) : dir.ready env = true := by
  cases dir with
  | present => rfl
  | missing parent =>
      rw [CacheDir.reachable] at reachable
      rw [CacheDir.ready, mkdir, reachable]
      rfl
  | blocked => cases reachable

theorem reachable_put (path : Bytes) (inode : Option Inode) (dir : CacheDir) :
    (dir.put path inode).reachable = dir.reachable := by
  cases dir <;> rfl

theorem reachable_unlink (env : Surroundings) (path : Bytes) (dir : CacheDir) :
    (dir.unlink env path).reachable = dir.reachable := by
  unfold CacheDir.unlink
  split
  · exact reachable_put path none dir
  · rfl

theorem reachable_deleteFile (env : Surroundings) (key : Bytes) (dir : CacheDir) :
    (deleteFile env key dir).reachable = dir.reachable := by
  unfold deleteFile
  split
  · rfl
  · exact reachable_unlink env _ dir

theorem reachable_evict (env : Surroundings) (cache : ClientCache) (dir : CacheDir) :
    (evict env cache dir).2.reachable = dir.reachable := by
  unfold evict
  split
  · rfl
  · exact reachable_deleteFile env _ dir

theorem reachable_ensure {dir : CacheDir} (reachable : dir.reachable = true) :
    (dir.ensure env).reachable = true := by
  cases dir with
  | missing parent =>
      cases parent with
      | false => cases reachable
      | true =>
          simp only [CacheDir.ensure]
          split <;> rfl
  | present | blocked => exact reachable

theorem reachable_saveToFile {dir : CacheDir} (reachable : dir.reachable = true) :
    (saveToFile J env k d dir).2.reachable = true := by
  have ensured : (dir.ensure env).reachable = true := reachable_ensure reachable
  cases json : J.load d with
  | error text =>
      rw [saveToFile_error json]
      exact ensured
  | ok v =>
      rw [saveToFile_ok json]
      split
      · rw [CacheDir.dumpFile_dir]
        split
        · rwa [reachable_put]
        · exact ensured
      · exact ensured

theorem reachable_set (stores : storesEntry env = true) (reachable : s.dir.reachable = true) :
    (clientCacheSet J env k d s).2.dir.reachable = true := by
  rw [clientCacheSet_dir stores]
  apply reachable_saveToFile
  rwa [reachable_evict]

theorem reachable_get (J : Jansson) (env : Surroundings) (k : Bytes) (s : CacheState) :
    (clientCacheGet J env k s).2.dir.reachable = s.dir.reachable := by
  cases found : s.cache.lookup k with
  | some entry =>
      rw [clientCacheGet_found found]
      split
      · exact reachable_deleteFile env k s.dir
      · split <;> rfl
  | none =>
      rw [clientCacheGet_absent found, reload_dir, loadFromFile_snd]
      split
      · exact reachable_unlink env _ s.dir
      · rfl

/-! ## Lookups -/

/-- The keys stored behind one leave room for it. -/
theorem Kept.few (h : Kept J keys t₀ now texts s) (mem : k ∈ keys) {stored : Finset Bytes}
    (part : stored ⊆ keys.erase k) : stored.card < s.cache.maxEntries := by
  have fewer := Finset.card_le_card part
  have room := h.room
  rw [Finset.card_erase_of_mem mem] at fewer
  have pos := Finset.card_pos.mpr ⟨k, mem⟩
  omega

theorem Kept.get (apart : Set.InjOn hashMd5String (keys : Set Bytes)) (calm : env.Calm) (mem : k ∈ keys)
    (later : now ≤ env.now) (early : env.now ≤ t₀ + s.cache.defaultTtl)
    (h : Kept J keys t₀ now texts s) :
    Kept J keys t₀ env.now texts (clientCacheGet J env k s).2 := by
  obtain ⟨most, ttl⟩ := perform_limits J s ⟨.get k, env⟩
  have steady : Steady (keys : Set Bytes) ⟨.get k, env⟩ :=
    ⟨calm.unlink, calm.granted, nofun, nofun, fun _ op => by cases op; exact mem⟩
  have performs : perform J s ⟨.get k, env⟩ = (clientCacheGet J env k s).2 := rfl
  rw [← performs]
  refine ⟨h.resident.step apart steady, @Ordered.step J s now ⟨.get k, env⟩ later h.ordered,
    (reachable_get J env k s).trans h.reachable, h.room.trans most.ge, ?_, ?_⟩
  · intro entry listed
    rcases clientCacheGet_entries listed with old | ⟨v, absent, -, loadable, -⟩
    · exact h.listed entry old
    · exact absurd loadable (h.resident.not_loadable apart mem absent _ v)
  · intro k' d' text
    obtain ⟨mem', json, t, stored, after, part, retained⟩ := h.retained k' d' text
    refine ⟨mem', json, t, stored, after, part, ?_⟩
    rw [ttl]
    exact retained.get apart calm mem later (by simp only; omega)

/-- What has been stored is found, and nothing else. -/
theorem Kept.found (apart : Set.InjOn hashMd5String (keys : Set Bytes)) (calm : env.Calm)
    (mem : k ∈ keys)
    (early : env.now ≤ t₀ + s.cache.defaultTtl) (h : Kept J keys t₀ now texts s) :
    (clientCacheGet J env k s).1 = texts k := by
  cases text : texts k with
  | some d =>
      obtain ⟨-, -, t, stored, after, part, retained⟩ := h.retained k d text
      have found := retained.found (J := J) apart calm mem (by simp only; omega)
      rwa [if_pos (h.few mem part)] at found
  | none =>
      have absent : s.cache.lookup k = none := by
        apply lookup_eq_none
        intro listed
        obtain ⟨entry, inside, rfl⟩ := List.mem_map.mp listed
        have some := h.listed entry inside
        rw [text] at some
        cases some
      cases result : (clientCacheGet J env k s).1 with
      | none => rfl
      | some x =>
          rcases clientCacheGet_some result with ⟨e, here, -⟩ | ⟨v, -, loadable, -⟩
          · cases absent.symm.trans here
          · exact absurd loadable (h.resident.not_loadable apart mem absent _ v)

theorem Kept.later {now' : Int} (later : now ≤ now') (h : Kept J keys t₀ now texts s) :
    Kept J keys t₀ now' texts s := by
  refine ⟨h.resident, h.ordered.sublist later (List.Sublist.refl _), h.reachable, h.room, h.listed, ?_⟩
  intro k d text
  obtain ⟨mem, json, t, stored, since, part, retained⟩ := h.retained k d text
  exact ⟨mem, json, t, stored, since, part, retained.later later⟩

/-! ## Stores -/

theorem Kept.set (apart : Set.InjOn hashMd5String (keys : Set Bytes)) (calm : env.Calm) (mem : k ∈ keys)
    (later : now ≤ env.now) (since : t₀ ≤ env.now) {v : J.Value} (json : J.load d = .ok v)
    (new : texts k = none) (h : Kept J keys t₀ now texts s) :
    Kept J keys t₀ env.now (Function.update texts k (some d)) (clientCacheSet J env k d s).2 := by
  obtain ⟨most, ttl⟩ := perform_limits J s ⟨.set k d, env⟩
  have stores := storesEntry_granted calm.granted
  have steady : Steady (keys : Set Bytes) ⟨.set k d, env⟩ :=
    ⟨calm.unlink, calm.granted, nofun, fun _ _ op => by cases op; exact mem, nofun⟩
  have performs : perform J s ⟨.set k d, env⟩ = (clientCacheSet J env k d s).2 := rfl
  rw [← performs]
  refine ⟨h.resident.step apart steady, @Ordered.step J s now ⟨.set k d, env⟩ later h.ordered,
    reachable_set stores h.reachable, h.room.trans most.ge, ?_, ?_⟩
  · intro entry listed
    rcases clientCacheSet_entries listed with ⟨old, other, -⟩ | ⟨-, rfl⟩
    · rw [Function.update_of_ne other]
      exact h.listed entry old
    · rw [Function.update_self]
      rfl
  · intro k' d' text
    by_cases same : k' = k
    · subst same
      rw [Function.update_self] at text
      cases text
      have written : ((clientCacheSet J env k' d s).2.dir.stat (cachePath k')).isSome = true := by
        rw [clientCacheSet_dir stores, saveToFile_stat_isSome json]
        right
        refine ⟨calm.granted _, calm.granted _, by simp [calm.write], ?_⟩
        rw [evict_ready]
        exact ready_of_reachable calm.mkdir h.reachable
      refine ⟨mem, ⟨v, json⟩, env.now, ∅, since, Finset.empty_subset _, ?_⟩
      rw [ttl]
      exact Retained.start apart calm mem later h.resident h.ordered written
    · rw [Function.update_of_ne same] at text
      obtain ⟨mem', json', t, stored, after, part, retained⟩ := h.retained k' d' text
      refine ⟨mem', json', t, insert k stored, after, ?_, ?_⟩
      · exact Finset.insert_subset (Finset.mem_erase.mpr ⟨Ne.symm same, mem⟩) part
      · rw [ttl]
        exact retained.set apart calm mem (Ne.symm same) json later

theorem Kept.start {maxEntries : Nat} {defaultTtl : Int} {dir : CacheDir}
    (empty : ∀ p, dir.stat p = none) (reachable : dir.reachable = true)
    (room : keys.card ≤ (clientCacheCreate maxEntries defaultTtl).maxEntries) :
    Kept J keys t₀ t₀ (fun _ => none) ⟨clientCacheCreate maxEntries defaultTtl, dir⟩ where
  resident := ⟨nofun, fun p inode here => absurd (here.symm.trans (empty p)) (Option.some_ne_none inode),
    Nat.zero_le _⟩
  ordered := ⟨List.Pairwise.nil, nofun⟩
  reachable := reachable
  room := room
  listed := nofun
  retained := nofun

end JustWeather.Cache
