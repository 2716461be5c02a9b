import Mathlib.Data.Set.Card
import JustWeather.Cache.Capacity
import JustWeather.Cache.Coherence

/-! # Residence

For a single process that starts with an empty directory every file is the file of an entry in
memory. Each branch that drops an entry removes its file, or has found none.
-/

namespace JustWeather.Cache

open CLib ClientCache Machine

/-- A call of a single process, under a key out of `keys`: deletions and allocations succeed, a
file may fail to be made or written. -/
structure Steady (keys : Set Bytes) (call : CacheCall) : Prop where
  unlink : ∀ path, call.env.unlink path = true
  granted : ∀ site, call.env.granted site = true
  stays : call.op ≠ .restart
  set : ∀ key jsonData, call.op = .set key jsonData → key ∈ keys
  get : ∀ key, call.op = .get key → key ∈ keys

/-- Every file is the file of an entry, and the list is within its limit. -/
structure Resident (keys : Set Bytes) (s : CacheState) : Prop where
  keyed : ∀ entry ∈ s.cache.entries, entry.key ∈ keys
  owned : ∀ p inode, s.dir.stat p = some inode → inode.isFile = true ∧
    ∃ entry ∈ s.cache.entries, p = cachePath entry.key
  bounded : Bounded s

variable {J : Jansson} {keys : Set Bytes} {env : Surroundings} {key jsonData : Bytes} {s : CacheState}

/-! ## What stays in the list -/

theorem evict_spares {cache : ClientCache} {dir : CacheDir} {entry : CacheEntry}
    (mem : entry ∈ cache.entries) (spared : cache.victim.map CacheEntry.key ≠ some entry.key) :
    entry ∈ (evict env cache dir).1.entries := by
  unfold evict
  cases pick : cache.victim with
  | none => exact mem
  | some evicted =>
      refine (List.mem_erase_of_ne ?_).mpr mem
      rintro rfl
      exact spared (by rw [pick]; rfl)

/-- After a store the new entry is in the list, and an old one unless its key was stored or evicted. -/
theorem clientCacheSet_keeps (stores : storesEntry env = true) :
    (⟨key, jsonData, env.now, s.cache.defaultTtl⟩ ∈
      (clientCacheSet J env key jsonData s).2.cache.entries) ∧
    ∀ entry ∈ s.cache.entries, entry.key ≠ key → evictedKey s key ≠ some entry.key →
      entry ∈ (clientCacheSet J env key jsonData s).2.cache.entries := by
  unfold clientCacheSet
  simp only [stores, if_true]
  constructor
  · exact List.mem_append_right _ (List.mem_singleton.mpr rfl)
  · intro entry mem other spared
    exact List.mem_append_left _ (evict_spares (mem_remove.mpr ⟨mem, other⟩) spared)

theorem clientCacheGet_expired {entry : CacheEntry} (here : s.cache.lookup key = some entry)
    (old : entry.ttl < env.now - entry.createdAt) :
    clientCacheGet J env key s = (none, ⟨s.cache.remove key, deleteFile env key s.dir⟩) :=
  (clientCacheGet_found here).trans (if_pos old)

/-! ## Single operations -/

theorem Resident.isFile (h : Resident keys s) {p : Bytes} (inode : Inode)
    (here : s.dir.stat p = some inode) : inode.isFile = true :=
  (h.owned p inode here).1

/-- A key without an entry has no file. -/
theorem Resident.no_file (apart : Set.InjOn hashMd5String keys) (h : Resident keys s)
    (mem : key ∈ keys) (absent : s.cache.lookup key = none) : s.dir.stat (cachePath key) = none := by
  cases here : s.dir.stat (cachePath key) with
  | none => rfl
  | some inode =>
      exfalso
      obtain ⟨-, entry, listed, path⟩ := h.owned _ inode here
      have same : key = entry.key := apart mem (h.keyed entry listed) (cachePath_inj path)
      apply lookup_none absent
      rw [same]
      exact List.mem_map_of_mem listed

theorem Resident.not_loadable (apart : Set.InjOn hashMd5String keys) (h : Resident keys s)
    (mem : key ∈ keys) (absent : s.cache.lookup key = none) (ttl : Int) (v : J.Value) :
    ¬ Loadable J env key ttl s.dir v := by
  intro loadable
  obtain ⟨content, mtime, here, -⟩ := loadable.file
  rw [h.no_file apart mem absent] at here
  cases here

/-- After a store: the file is the one written, or an old one whose entry was neither replaced nor
evicted. -/
theorem Resident.owned_set (apart : Set.InjOn hashMd5String keys) (h : Resident keys s)
    (unlink : ∀ path, env.unlink path = true) (granted : ∀ site, env.granted site = true)
    (mem : key ∈ keys) {p : Bytes} {inode : Inode}
    (here : (clientCacheSet J env key jsonData s).2.dir.stat p = some inode) :
    inode.isFile = true ∧
      ∃ entry ∈ (clientCacheSet J env key jsonData s).2.cache.entries, p = cachePath entry.key := by
  have stores := storesEntry_granted granted
  obtain ⟨new, kept⟩ := @clientCacheSet_keeps J env key jsonData s stores
  rcases clientCacheSet_stat here with old | ⟨-, path, saved⟩
  · refine ⟨h.isFile inode old, ?_⟩
    obtain ⟨-, entry, listed, rfl⟩ := h.owned p inode old
    by_cases replaced : entry.key = key
    · exact ⟨_, new, by rw [replaced]⟩
    · by_cases evicted : evictedKey s key = some entry.key
      · have path : cachePath entry.key ≠ cachePath key := fun same =>
          replaced (apart (h.keyed entry listed) mem (cachePath_inj same))
        rw [clientCacheSet_evicts stores (granted _) (unlink _) evicted path h.isFile] at here
        cases here
      · exact ⟨entry, kept entry listed replaced evicted, rfl⟩
  · exact ⟨saved.isFile, _, new, path⟩

/-- After a lookup: an entry that is dropped leaves no file. -/
theorem Resident.owned_get (h : Resident keys s) (unlink : ∀ path, env.unlink path = true)
    (granted : ∀ site, env.granted site = true) {p : Bytes} {inode : Inode}
    (here : (clientCacheGet J env key s).2.dir.stat p = some inode) :
    inode.isFile = true ∧
      ∃ entry ∈ (clientCacheGet J env key s).2.cache.entries, p = cachePath entry.key := by
  have old := clientCacheGet_within p inode here
  refine ⟨h.isFile inode old, ?_⟩
  obtain ⟨-, entry, listed, rfl⟩ := h.owned p inode old
  by_cases expires : ∃ e, s.cache.lookup key = some e ∧ e.ttl < env.now - e.createdAt
  · obtain ⟨e, found, age⟩ := expires
    rw [clientCacheGet_expired found age] at here ⊢
    refine ⟨entry, mem_remove.mpr ⟨listed, ?_⟩, rfl⟩
    rintro rfl
    have gone : (deleteFile env entry.key s.dir).stat (cachePath entry.key) = none :=
      stat_deleteFile_none (granted _) (unlink _) h.isFile
    exact absurd (here.symm.trans gone) (Option.some_ne_none inode)
  · obtain ⟨result, s', eq, looked⟩ := @clientCacheGet_looked J env key s
    rw [eq] at here ⊢
    cases looked with
    | hit | missed | unkept => exact ⟨entry, listed, rfl⟩
    | reloaded => exact ⟨entry, List.mem_append_left _ listed, rfl⟩
    | dropped found _ reason =>
        refine ⟨entry, mem_remove.mpr ⟨listed, ?_⟩, rfl⟩
        rintro rfl
        rcases reason with age | ⟨-, gone⟩
        · exact expires ⟨_, found, age⟩
        · exact absurd (old.symm.trans gone) (Option.some_ne_none inode)

/-- Deleting the files of all entries leaves none. -/
theorem stat_deleteFiles (unlink : ∀ path, env.unlink path = true)
    (granted : ∀ site, env.granted site = true) {entries : List CacheEntry} {dir : CacheDir}
    (owned : ∀ p inode, dir.stat p = some inode → inode.isFile = true ∧
      ∃ entry ∈ entries, p = cachePath entry.key) (p : Bytes) :
    (entries.foldl (fun dir entry => deleteFile env entry.key dir) dir).stat p = none := by
  induction entries generalizing dir with
  | nil =>
      rw [List.foldl_nil]
      cases here : dir.stat p with
      | none => rfl
      | some inode =>
          obtain ⟨-, entry, mem, -⟩ := owned p inode here
          cases mem
  | cons e entries ih =>
      rw [List.foldl_cons]
      apply ih
      intro p inode here
      obtain ⟨file, entry, mem, rfl⟩ := owned p inode (deleteFile_within env e.key dir p inode here)
      refine ⟨file, ?_⟩
      rcases List.mem_cons.mp mem with rfl | later
      · have gone : (deleteFile env entry.key dir).stat (cachePath entry.key) = none :=
          stat_deleteFile_none (granted _) (unlink _) fun inode here => (owned _ inode here).1
        exact absurd (here.symm.trans gone) (Option.some_ne_none inode)
      · exact ⟨entry, later, rfl⟩

theorem Resident.stat_clear (h : Resident keys s) (unlink : ∀ path, env.unlink path = true)
    (granted : ∀ site, env.granted site = true) (p : Bytes) :
    (clientCacheClear env s).dir.stat p = none := by
  cases here : (clientCacheClear env s).dir.stat p with
  | none => rfl
  | some inode =>
      have old := sweep_within env _ p inode here
      rw [stat_deleteFiles unlink granted h.owned p] at old
      cases old

/-! ## Runs -/

theorem Resident.step (apart : Set.InjOn hashMd5String keys) {call : CacheCall}
    (steady : Steady keys call) (h : Resident keys s) : Resident keys (perform J s call) := by
  have noReload : ∀ key v, ¬ Reloads J s call key v := by
    rintro key v ⟨get, absent, -, loadable⟩
    exact h.not_loadable apart (steady.get key get) absent _ v loadable
  constructor
  · intro entry mem
    rcases perform_entries mem with old | ⟨key, jsonData, set, rfl⟩ | ⟨key, v, reloads, -⟩
    · exact h.keyed entry old
    · exact steady.set key jsonData set
    · exact absurd reloads (noReload key v)
  · obtain ⟨op, env⟩ := call
    obtain ⟨unlink, granted, stays, set, -⟩ := steady
    intro p inode here
    cases op with
    | set key jsonData => exact h.owned_set apart unlink granted (set key jsonData rfl) here
    | get key => exact h.owned_get unlink granted here
    | clear =>
        have gone := h.stat_clear unlink granted p
        exact absurd (here.symm.trans gone) (Option.some_ne_none inode)
    | restart => exact absurd rfl stays
  · apply (perform_bounded_iff s call h.bounded).mpr
    rintro ⟨key, v, reloads⟩
    exact absurd reloads (noReload key v)

/-- There are no more files than the list may have entries. -/
theorem Resident.files_le (h : Resident keys s) :
    {p | (s.dir.stat p).isSome = true}.encard ≤ s.cache.maxEntries := by
  have listed : {p | (s.dir.stat p).isSome = true} ⊆
      ((s.cache.entries.map fun entry => cachePath entry.key).toFinset : Set Bytes) := by
    intro p some
    obtain ⟨inode, here⟩ := Option.isSome_iff_exists.mp some
    obtain ⟨-, entry, mem, rfl⟩ := h.owned p inode here
    apply Finset.mem_coe.mpr
    exact List.mem_toFinset.mpr (List.mem_map.mpr ⟨entry, mem, rfl⟩)
  have fits : (s.cache.entries.map fun entry => cachePath entry.key).toFinset.card ≤
      s.cache.maxEntries := by
    calc (s.cache.entries.map fun entry => cachePath entry.key).toFinset.card
        ≤ (s.cache.entries.map fun entry => cachePath entry.key).length := List.toFinset_card_le _
      _ = s.cache.entries.length := List.length_map _
      _ ≤ s.cache.maxEntries := h.bounded
  calc {p | (s.dir.stat p).isSome = true}.encard
      ≤ ((s.cache.entries.map fun entry => cachePath entry.key).toFinset : Set Bytes).encard :=
        Set.encard_le_encard listed
    _ = (s.cache.entries.map fun entry => cachePath entry.key).toFinset.card :=
        Set.encard_coe_eq_coe_finsetCard _
    _ ≤ s.cache.maxEntries := by exact_mod_cast fits

/-- In every state of a run by a single process that starts with an empty directory, a file of the
cache is the file of exactly one entry, there are at most `max_entries` of them, and a key without
an entry has nothing to load. -/
theorem cache_files_listed {J : Jansson} {maxEntries : Nat} {defaultTtl : Int} {dir : CacheDir}
    {keys : Set Bytes} {calls : List CacheCall} (apart : Set.InjOn hashMd5String keys)
    (empty : ∀ p, dir.stat p = none) (steady : ∀ call ∈ calls, Steady keys call) :
    let s := run (perform J) ⟨clientCacheCreate maxEntries defaultTtl, dir⟩ calls
    (∀ p inode, s.dir.stat p = some inode →
      ∃! entry, entry ∈ s.cache.entries ∧ p = cachePath entry.key) ∧
    {p | (s.dir.stat p).isSome = true}.encard ≤ s.cache.maxEntries ∧
    ∀ key ∈ keys, s.cache.lookup key = none → ∀ env : Surroundings,
      loadFromFile J env key s.cache.defaultTtl s.dir = (none, s.dir) := by
  intro s
  have start : Resident keys ⟨clientCacheCreate maxEntries defaultTtl, dir⟩ := by
    refine ⟨?_, ?_, Nat.zero_le _⟩
    · intro entry mem
      cases mem
    · intro p inode here
      exact absurd (here.symm.trans (empty p)) (Option.some_ne_none inode)
  have resident : Resident keys s :=
    run_invariant (P := fun _ call => Steady keys call) (fun _ _ => Resident.step apart) start
      (along_of_forall steady)
  refine ⟨?_, resident.files_le, ?_⟩
  · intro p inode here
    obtain ⟨-, entry, mem, path⟩ := resident.owned p inode here
    refine ⟨entry, ⟨mem, path⟩, ?_⟩
    rintro other ⟨mem', path'⟩
    have same : other.key = entry.key := by
      apply apart (resident.keyed other mem') (resident.keyed entry mem)
      exact cachePath_inj (path'.symm.trans path)
    exact List.inj_on_of_nodup_map s.cache.distinct mem' mem same
  · intro key mem absent env
    have gone := resident.no_file apart mem absent
    unfold loadFromFile getCacheFilepath isCacheFileValid CacheDir.unlink
    cases env.granted (.filepath key) <;> simp [gone]

/-- Two keys with room for one entry. -/
theorem cache_files_listed_evicted :
    let s := run (perform .emptyTexts) ⟨clientCacheCreate 1 300, .missing true⟩
      [⟨.set (ascii "a") (ascii "[]"), .calm 0⟩, ⟨.set (ascii "b") (ascii "[]"), .calm 1⟩,
        ⟨.get (ascii "b"), .calm 400⟩]
    (∀ p inode, s.dir.stat p = some inode →
      ∃! entry, entry ∈ s.cache.entries ∧ p = cachePath entry.key) ∧
    {p | (s.dir.stat p).isSome = true}.encard ≤ s.cache.maxEntries ∧
    ∀ key ∈ ({ascii "a", ascii "b"} : Set Bytes), s.cache.lookup key = none →
      ∀ env : Surroundings, loadFromFile .emptyTexts env key s.cache.defaultTtl s.dir = (none, s.dir) := by
  apply cache_files_listed
  · rintro x (rfl | rfl) y (rfl | rfl) same
    · rfl
    · exact absurd same (by decide +kernel)
    · exact absurd same (by decide +kernel)
    · rfl
  · exact fun _ => rfl
  · intro call mem
    have calm : ∀ now op, op ≠ .restart → (∀ key jsonData, op = .set key jsonData →
        key ∈ ({ascii "a", ascii "b"} : Set Bytes)) → (∀ key, op = .get key →
        key ∈ ({ascii "a", ascii "b"} : Set Bytes)) →
        Steady {ascii "a", ascii "b"} ⟨op, .calm now⟩ :=
      fun _ _ stays set get => ⟨fun _ => rfl, fun _ => rfl, stays, set, get⟩
    simp only [List.mem_cons, List.not_mem_nil, or_false] at mem
    rcases mem with rfl | rfl | rfl <;>
      exact calm _ _ CacheOp.noConfusion (fun _ _ op => by cases op <;> simp)
        (fun _ op => by cases op <;> simp)

end JustWeather.Cache
