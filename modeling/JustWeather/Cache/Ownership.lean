import JustWeather.Cache.EntryList
import JustWeather.CLib.Triples

/-! # The memory of the cache

`client_cache` with its blocks: an entry has one for its node, one for itself, one for its key and one
for its data, and paths and texts come and go. How the nodes are linked is in `EntryList`.
-/

namespace JustWeather.Cache

open CLib ClientCache Owning

/-! ## Entries -/

/-- An entry in the list, and its blocks. -/
structure OwnedEntry where
  node : Nat
  entry : Nat
  key : Nat
  data : Nat
  value : CacheEntry

/-- A cache in memory, with `cache->entries` in the block `list`. -/
structure OwnedCache where
  cache : Nat
  list : Nat
  entries : List OwnedEntry
  maxEntries : Nat
  defaultTtl : Int
  dir : CacheDir

/-- `free_cache_entry`. -/
def freeCacheEntryOwned (entry : Nat) (key data : Option Nat) : Owning Unit := do
  use entry
  free key
  free data
  free (some entry)

/-- What `linked_list_remove` and `linked_list_clear` do to a node. -/
def OwnedEntry.freeOwned (e : OwnedEntry) : Owning Unit := do
  use e.node
  freeCacheEntryOwned e.entry (some e.key) (some e.data)
  free (some e.node)

/-- `linked_list_remove(cache->entries, node, free_cache_entry)`. -/
def OwnedCache.removeNode (c : OwnedCache) (e : OwnedEntry) : Owning OwnedCache := do
  use c.list
  e.freeOwned
  return { c with entries := c.entries.eraseP (·.node == e.node) }

/-- `get_cache_filepath`, with the `free` behind the last use of the path. -/
def filepathOwned (env : Surroundings) (key : Bytes) : Owning Unit := do
  match ← malloc (env.granted (.filepath key)) with
  | none => return ()
  | some filepath =>
      use filepath
      free (some filepath)

/-! ## The loops -/

/-- The first entry for a key. -/
def searchOwned (key : Bytes) : List OwnedEntry → Owning (Option OwnedEntry)
  | [] => return none
  | e :: entries => do
      use e.node
      use e.entry
      use e.key
      if keyed key e.value then return some e else searchOwned key entries

/-- The loop over `created_at`. -/
def oldestOwned : OwnedEntry → List OwnedEntry → Owning OwnedEntry
  | oldest, [] => return oldest
  | oldest, e :: entries => do
      use e.node
      use e.entry
      use oldest.entry
      oldestOwned (if e.value.createdAt < oldest.value.createdAt then e else oldest) entries

/-- The loop that compares `node->item`. -/
def itemOwned (item : Nat) : List OwnedEntry → Owning (Option OwnedEntry)
  | [] => return none
  | e :: entries => do
      use e.node
      if e.entry = item then return some e else itemOwned item entries

/-- The loop of `client_cache_clear` over the entries. -/
def deleteFilesOwned (env : Surroundings) : List OwnedEntry → Owning Unit
  | [] => return ()
  | e :: entries => do
      use e.node
      use e.entry
      use e.key
      filepathOwned env e.value.key
      deleteFilesOwned env entries

/-- `linked_list_clear`. -/
def clearNodesOwned : List OwnedEntry → Owning Unit
  | [] => return ()
  | e :: entries => do
      e.freeOwned
      clearNodesOwned entries

/-! ## The calls -/

def OwnedCache.removeKey (c : OwnedCache) (key : Bytes) : Owning OwnedCache := do
  match ← searchOwned key c.entries with
  | none => return c
  | some e => c.removeNode e

def OwnedCache.evict (env : Surroundings) (c : OwnedCache) : Owning OwnedCache := do
  use c.list
  if c.maxEntries ≤ c.entries.length then
    match c.entries with
    | [] => return c
    | head :: rest =>
        use head.node
        let oldest ← oldestOwned head (head :: rest)
        match ← itemOwned oldest.entry (head :: rest) with
        | none => return c
        | some e =>
            use oldest.key
            filepathOwned env oldest.value.key
            { c with dir := deleteFile env oldest.value.key c.dir }.removeNode e
  else return c

/-- The entry with its key and its data, or none of them. -/
def makeEntryOwned (env : Surroundings) : Owning (Option (Nat × Nat × Nat)) := do
  match ← malloc (env.granted .entry) with
  | none => return none
  | some entry =>
      let key ← malloc (env.granted .key)
      let data ← malloc (env.granted .data)
      use entry
      match key, data with
      | some key, some data => return some (entry, key, data)
      | key, data =>
          freeCacheEntryOwned entry key data
          return none

/-- The cache with an entry more. -/
def OwnedCache.push (c : OwnedCache) (e : OwnedEntry) : OwnedCache :=
  { c with entries := c.entries ++ [e] }

def clientCacheSetOwned (J : Jansson) (env : Surroundings) (key jsonData : Bytes) (c : OwnedCache) :
    Owning (Int × OwnedCache) := do
  use c.cache
  let c ← c.removeKey key
  let c ← c.evict env
  match ← makeEntryOwned env with
  | none => return (-1, c)
  | some (entry, k, d) =>
      match ← malloc (env.granted .node) with
      | none =>
          freeCacheEntryOwned entry (some k) (some d)
          return (-1, c)
      | some node =>
          use node
          use c.list
          filepathOwned env key
          let c := c.push ⟨node, entry, k, d, ⟨key, jsonData, env.now, c.defaultTtl⟩⟩
          return (0, { c with dir := (saveToFile J env key jsonData c.dir).2 })

/-- The text, with its block. -/
def clientCacheGetOwned (J : Jansson) (env : Surroundings) (key : Bytes) (c : OwnedCache) :
    Owning (Option (Bytes × Nat) × OwnedCache) := do
  use c.cache
  match ← searchOwned key c.entries with
  | some e =>
      if e.value.ttl < env.now - e.value.createdAt then
        let c ← c.removeNode e
        filepathOwned env key
        return (none, { c with dir := deleteFile env key c.dir })
      else
        filepathOwned env key
        if (getCacheFilepath env key).any fun filepath => (c.dir.stat filepath).isNone then
          let c ← c.removeNode e
          return (none, c)
        else
          use e.entry
          use e.data
          let text ← malloc (env.granted .result)
          return (text.map (Prod.mk e.value.jsonData), c)
  | none =>
      filepathOwned env key
      match loadFromFile J env key c.defaultTtl c.dir with
      | (none, dir) => return (none, { c with dir := dir })
      | (some jsonData, dir) =>
          let text ← block
          let c := { c with dir := dir }
          match ← makeEntryOwned env with
          | none => return (some (jsonData, text), c)
          | some (entry, k, d) =>
              match ← malloc (env.granted .node) with
              -- `linked_list_append` fails unnoticed, and the entry is lost
              | none => return (some (jsonData, text), c)
              | some node =>
                  use node
                  use c.list
                  return (some (jsonData, text),
                    c.push ⟨node, entry, k, d, ⟨key, jsonData, env.now, c.defaultTtl⟩⟩)

def clientCacheClearOwned (env : Surroundings) (c : OwnedCache) : Owning OwnedCache := do
  use c.cache
  use c.list
  deleteFilesOwned env c.entries
  clearNodesOwned c.entries
  return { c with
    entries := []
    dir := sweep env (c.entries.foldl (fun dir e => deleteFile env e.value.key dir) c.dir) }

def OwnedCache.new (cache list maxEntries : Nat) (defaultTtl : Int) (dir : CacheDir) : OwnedCache :=
  ⟨cache, list, [], if 0 < maxEntries then maxEntries else CACHE_MAX_ENTRIES,
    if 0 < defaultTtl then defaultTtl else CACHE_DEFAULT_TTL, dir⟩

/-- The cache and its list, or none of both. -/
def clientCacheCreateOwned (first second : Bool) (maxEntries : Nat) (defaultTtl : Int)
    (dir : CacheDir) : Owning (Option OwnedCache) := do
  match ← malloc first with
  | none => return none
  | some cache =>
      match ← malloc second with
      | none =>
          free (some cache)
          return none
      | some list =>
          use cache
          return some (.new cache list maxEntries defaultTtl dir)

def clientCacheDestroyOwned (c : OwnedCache) : Owning Unit := do
  use c.cache
  clearNodesOwned c.entries
  free (some c.list)
  free (some c.cache)

/-- A call, by a caller that frees the text it gets. A new process has a new cache. -/
def performOwned (J : Jansson) (c : OwnedCache) (call : CacheCall) : Owning (CacheReply × OwnedCache) :=
  match call.op with
  | .set key jsonData => do
      let (ret, c) ← clientCacheSetOwned J call.env key jsonData c
      return (.code ret, c)
  | .get key => do
      let (text, c) ← clientCacheGetOwned J call.env key c
      free (text.map Prod.snd)
      return (.text (text.map Prod.fst), c)
  | .clear => do
      let c ← clientCacheClearOwned call.env c
      return (.nothing, c)
  | .restart => do
      clientCacheDestroyOwned c
      let cache ← block
      let list ← block
      return (.nothing, .new cache list c.maxEntries c.defaultTtl c.dir)

def performAllOwned (J : Jansson) : OwnedCache → List CacheCall → Owning (List CacheReply × OwnedCache)
  | c, [] => return ([], c)
  | c, call :: calls => do
      let (reply, c) ← performOwned J c call
      let (replies, c) ← performAllOwned J c calls
      return (reply :: replies, c)

/-- From `client_cache_create` to `client_cache_destroy`. -/
def cacheLifeOwned (J : Jansson) (first second : Bool) (maxEntries : Nat) (defaultTtl : Int)
    (dir : CacheDir) (calls : List CacheCall) : Owning (List CacheReply) := do
  match ← clientCacheCreateOwned first second maxEntries defaultTtl dir with
  | none => return []
  | some c =>
      let (replies, c) ← performAllOwned J c calls
      clientCacheDestroyOwned c
      return replies

/-! ## What the parts leave -/

variable {env : Surroundings} {key : Bytes} {bs : List Nat} {e : OwnedEntry} {entries : List OwnedEntry}

namespace OwnedEntry

def blocks (e : OwnedEntry) : List Nat := [e.key, e.data, e.entry, e.node]

variable (e : OwnedEntry)

theorem node_mem : e.node ∈ e.blocks := by simp [blocks]

theorem entry_mem : e.entry ∈ e.blocks := by simp [blocks]

theorem key_mem : e.key ∈ e.blocks := by simp [blocks]

theorem data_mem : e.data ∈ e.blocks := by simp [blocks]

end OwnedEntry

theorem filepath_leaves : Leaves bs (filepathOwned env key) fun _ left => left = bs := by
  unfold filepathOwned
  apply Leaves.malloc
  · intro _
    exact Leaves.pure rfl
  · intro b _
    apply Leaves.use List.mem_cons_self
    exact Leaves.free_end rfl

theorem freeCacheEntry_leaves {entry : Nat} {key data : Option Nat} :
    Leaves (key.toList ++ (data.toList ++ (entry :: bs))) (freeCacheEntryOwned entry key data)
      fun _ left => left = bs := by
  unfold freeCacheEntryOwned
  apply Leaves.use (by simp)
  apply Leaves.freeOption
  apply Leaves.freeOption
  exact Leaves.free_end rfl

theorem freeOwned_leaves : Leaves (e.blocks ++ bs) e.freeOwned fun _ left => left = bs := by
  unfold OwnedEntry.freeOwned
  apply Leaves.use (List.mem_append_left _ e.node_mem)
  apply Leaves.bind (@freeCacheEntry_leaves (e.node :: bs) e.entry (some e.key) (some e.data))
  rintro _ _ rfl
  exact Leaves.free_end rfl

theorem clearNodes_leaves : Leaves (entries.flatMap OwnedEntry.blocks ++ bs) (clearNodesOwned entries)
    fun _ left => left = bs := by
  induction entries with
  | nil => exact Leaves.pure rfl
  | cons e entries ih =>
      unfold clearNodesOwned
      rw [List.flatMap_cons, List.append_assoc]
      apply Leaves.bind freeOwned_leaves
      rintro _ _ rfl
      exact ih

/-- The blocks of these entries are there. -/
def Within (entries : List OwnedEntry) (bs : List Nat) : Prop := ∀ e ∈ entries, ∀ b ∈ e.blocks, b ∈ bs

theorem search_leaves (within : Within entries bs) : Leaves bs (searchOwned key entries)
    fun found left => left = bs ∧ found = entries.find? fun e => keyed key e.value := by
  induction entries with
  | nil => exact Leaves.pure ⟨rfl, rfl⟩
  | cons e entries ih =>
      obtain ⟨here, later⟩ := List.forall_mem_cons.mp within
      unfold searchOwned
      apply Leaves.use (here _ e.node_mem)
      apply Leaves.use (here _ e.entry_mem)
      apply Leaves.use (here _ e.key_mem)
      rw [List.find?_cons]
      cases keyed key e.value with
      | true => exact Leaves.pure ⟨rfl, rfl⟩
      | false => exact ih later

/-- The first of the oldest entries. -/
def oldestOf (oldest : OwnedEntry) (entries : List OwnedEntry) : OwnedEntry :=
  entries.foldl (fun oldest e => if e.value.createdAt < oldest.value.createdAt then e else oldest) oldest

theorem oldest_leaves {oldest : OwnedEntry} (within : Within (oldest :: entries) bs) :
    Leaves bs (oldestOwned oldest entries)
      fun found left => left = bs ∧ found = oldestOf oldest entries := by
  induction entries generalizing oldest with
  | nil => exact Leaves.pure ⟨rfl, rfl⟩
  | cons e entries ih =>
      obtain ⟨first, rest⟩ := List.forall_mem_cons.mp within
      obtain ⟨here, later⟩ := List.forall_mem_cons.mp rest
      unfold oldestOwned
      apply Leaves.use (here _ e.node_mem)
      apply Leaves.use (here _ e.entry_mem)
      apply Leaves.use (first _ oldest.entry_mem)
      apply ih
      apply List.forall_mem_cons.mpr ⟨_, later⟩
      split
      · exact here
      · exact first

theorem item_leaves {item : Nat} (within : Within entries bs) : Leaves bs (itemOwned item entries)
    fun found left => left = bs ∧ found = entries.find? (·.entry = item) := by
  induction entries with
  | nil => exact Leaves.pure ⟨rfl, rfl⟩
  | cons e entries ih =>
      obtain ⟨here, later⟩ := List.forall_mem_cons.mp within
      unfold itemOwned
      apply Leaves.use (here _ e.node_mem)
      rw [List.find?_cons]
      split
      · next same =>
          rw [decide_eq_true same]
          exact Leaves.pure ⟨rfl, rfl⟩
      · next other =>
          rw [decide_eq_false other]
          exact ih later

theorem deleteFiles_leaves (within : Within entries bs) : Leaves bs (deleteFilesOwned env entries)
    fun _ left => left = bs := by
  induction entries with
  | nil => exact Leaves.pure rfl
  | cons e entries ih =>
      obtain ⟨here, later⟩ := List.forall_mem_cons.mp within
      unfold deleteFilesOwned
      apply Leaves.use (here _ e.node_mem)
      apply Leaves.use (here _ e.entry_mem)
      apply Leaves.use (here _ e.key_mem)
      apply Leaves.bind filepath_leaves
      rintro _ _ rfl
      exact ih later

/-- The three blocks of a new entry, or nothing, as `makesEntry` has it. -/
theorem makeEntry_leaves : Leaves bs (makeEntryOwned env) fun made left =>
    (CacheMemory.makesEntry env = false ∧ made = none ∧ left = bs) ∨
      CacheMemory.makesEntry env = true ∧
        ∃ entry k d, made = some (entry, k, d) ∧ left = k :: d :: entry :: bs := by
  unfold makeEntryOwned CacheMemory.makesEntry
  apply Leaves.malloc
  · intro refused
    exact Leaves.pure (.inl ⟨by simp [refused], rfl, rfl⟩)
  intro entry granted
  have fails : ∀ key data : Option Nat, env.granted .key = false ∨ env.granted .data = false →
      Leaves (key.toList ++ (data.toList ++ (entry :: bs))) (do
        freeCacheEntryOwned entry key data
        return none) fun made left =>
          ((env.granted .entry && env.granted .key && env.granted .data) = false ∧ made = none ∧
              left = bs) ∨
            (env.granted .entry && env.granted .key && env.granted .data) = true ∧
              ∃ entry k d, made = some (entry, k, d) ∧ left = k :: d :: entry :: bs := by
    intro key data refused
    apply Leaves.bind freeCacheEntry_leaves
    rintro _ _ rfl
    exact Leaves.pure (.inl ⟨by rcases refused with h | h <;> simp [h], rfl, rfl⟩)
  apply Leaves.malloc
  · intro noKey
    apply Leaves.malloc
    · intro noData
      apply Leaves.use List.mem_cons_self
      exact fails none none (.inl noKey)
    · intro d _
      apply Leaves.use (by simp)
      exact fails none (some d) (.inl noKey)
  · intro k hasKey
    apply Leaves.malloc
    · intro noData
      apply Leaves.use (by simp)
      exact fails (some k) none (.inr noData)
    · intro d hasData
      apply Leaves.use (by simp)
      refine Leaves.perm (List.Perm.swap k d _) (Leaves.pure (.inr ⟨?_, entry, k, d, rfl, rfl⟩))
      simp [granted, hasKey, hasData]

/-! ## The list and its entries -/

variable {c : OwnedCache} {frame : List Nat} {s : CacheState} {J : Jansson} {jsonData : Bytes}

/-- The blocks of a cache, and others. -/
def OwnedCache.blocks (c : OwnedCache) (frame : List Nat) : List Nat :=
  c.list :: c.cache :: (c.entries.flatMap OwnedEntry.blocks ++ frame)

/-- Without its blocks the cache is this one. -/
structure OwnedCache.Shows (c : OwnedCache) (s : CacheState) : Prop where
  entries : c.entries.map OwnedEntry.value = s.cache.entries
  maxEntries : c.maxEntries = s.cache.maxEntries
  defaultTtl : c.defaultTtl = s.cache.defaultTtl
  dir : c.dir = s.dir

theorem blocks_perm : (c.blocks frame).Perm
    (c.entries.flatMap OwnedEntry.blocks ++ c.list :: c.cache :: frame) :=
  ((List.perm_middle.trans (List.perm_middle.cons _)).symm :
    (c.list :: c.cache :: (c.entries.flatMap OwnedEntry.blocks ++ frame)).Perm _)

theorem within_blocks : Within c.entries (c.blocks frame) := by
  intro e listed b mem
  have inside := List.mem_flatMap.mpr ⟨e, listed, mem⟩
  simp [OwnedCache.blocks, inside]

theorem list_mem_blocks : c.list ∈ c.blocks frame := List.mem_cons_self

theorem cache_mem_blocks : c.cache ∈ c.blocks frame := by simp [OwnedCache.blocks]

/-- Two entries have no block in common. -/
theorem blocks_apart (distinct : (c.blocks frame).Nodup) :
    c.entries.Pairwise fun e e' => e.blocks.Disjoint e'.blocks := by
  have inner : (c.entries.flatMap OwnedEntry.blocks).Nodup :=
    (List.nodup_cons.mp (List.nodup_cons.mp distinct).2).2.of_append_left
  exact (List.nodup_flatMap.mp inner).2

theorem removeNode_leaves {before after : List OwnedEntry} (split : c.entries = before ++ e :: after) :
    Leaves (c.blocks frame) (c.removeNode e) fun c' left =>
      c' = { c with entries := before ++ after } ∧ left = c'.blocks frame := by
  unfold OwnedCache.removeNode
  apply Leaves.distinct
  intro distinct
  have apart := blocks_apart distinct
  rw [split, List.pairwise_append] at apart
  have other : ∀ x ∈ before, ¬ (x.node == e.node) = true := by
    intro x mem same
    apply apart.2.2 x mem e List.mem_cons_self (_ : e.node ∈ x.blocks)
    · exact e.node_mem
    · rw [← beq_iff_eq.mp same]
      exact x.node_mem
  have erased : c.entries.eraseP (·.node == e.node) = before ++ after := by
    rw [split, List.eraseP_append_right _ other]
    exact congrArg (before ++ ·) (List.eraseP_cons_of_pos (beq_self_eq_true _))
  have same : (c.blocks frame).Perm (e.blocks ++ { c with entries := before ++ after }.blocks frame) := by
    simp only [OwnedCache.blocks, split, List.flatMap_append, List.flatMap_cons, List.perm_iff_count,
      List.count_append, List.count_cons]
    intro b
    omega
  apply Leaves.use list_mem_blocks
  apply Leaves.bind (Leaves.perm same freeOwned_leaves)
  rintro _ _ rfl
  rw [erased]
  exact Leaves.pure ⟨rfl, rfl⟩

/-- What the search finds, and what is left without it. -/
theorem found_split (shows : c.Shows s)
    (found : c.entries.find? (fun e => keyed key e.value) = some e) :
    s.cache.lookup key = some e.value ∧ ∃ before after, c.entries = before ++ e :: after ∧
      OwnedCache.Shows { c with entries := before ++ after } ⟨s.cache.remove key, s.dir⟩ := by
  obtain ⟨here, before, after, split, other⟩ := List.find?_eq_some_iff_append.mp found
  constructor
  · rw [ClientCache.lookup, ← shows.entries, List.find?_map]
    exact congrArg (Option.map OwnedEntry.value) found
  · refine ⟨before, after, split, ?_, shows.maxEntries, shows.defaultTtl, shows.dir⟩
    have passed : ∀ x ∈ before.map OwnedEntry.value, ¬ keyed key x = true := by
      intro x mem
      obtain ⟨e', listed, rfl⟩ := List.mem_map.mp mem
      simpa using other e' listed
    change (before ++ after).map OwnedEntry.value = s.cache.entries.eraseP (keyed key)
    rw [← shows.entries, split, List.map_append, List.map_append, List.map_cons,
      List.eraseP_append_right _ passed, List.eraseP_cons_of_pos here]

theorem search_none (shows : c.Shows s) (none : c.entries.find? (fun e => keyed key e.value) = none) :
    s.cache.lookup key = .none := by
  rw [ClientCache.lookup, ← shows.entries, List.find?_map]
  exact congrArg (Option.map OwnedEntry.value) none

theorem removeKey_leaves (shows : c.Shows s) : Leaves (c.blocks frame) (c.removeKey key) fun c' left =>
    left = c'.blocks frame ∧ c'.Shows ⟨s.cache.remove key, s.dir⟩ := by
  unfold OwnedCache.removeKey
  apply Leaves.bind (search_leaves within_blocks)
  rintro found left ⟨rfl, result⟩
  cases found with
  | none =>
      refine Leaves.pure ⟨rfl, ?_, shows.maxEntries, shows.defaultTtl, shows.dir⟩
      have none := List.find?_eq_none.mp (search_none shows result.symm)
      rw [shows.entries]
      exact (List.eraseP_of_forall_not none).symm
  | some e =>
      obtain ⟨-, before, after, split, shows'⟩ := found_split shows result.symm
      apply Leaves.weaken (removeNode_leaves split)
      rintro _ _ ⟨rfl, rfl⟩
      exact ⟨rfl, shows'⟩

/-! ## Eviction -/

theorem oldestOf_value (oldest : OwnedEntry) (entries : List OwnedEntry) :
    (oldestOf oldest entries).value = (entries.map OwnedEntry.value).foldl
      (fun oldest entry => if entry.createdAt < oldest.createdAt then entry else oldest)
      oldest.value := by
  induction entries generalizing oldest with
  | nil => rfl
  | cons e entries ih =>
      rw [List.map_cons, List.foldl_cons, ← apply_ite OwnedEntry.value]
      exact ih _

theorem oldestOf_mem (oldest : OwnedEntry) (entries : List OwnedEntry) :
    oldestOf oldest entries ∈ oldest :: entries := by
  induction entries generalizing oldest with
  | nil => exact List.mem_cons_self
  | cons e entries ih =>
      have step := ih (if e.value.createdAt < oldest.value.createdAt then e else oldest)
      change oldestOf _ entries ∈ _
      grind

/-- The item is in one node only. -/
theorem find_item (distinct : (c.blocks frame).Nodup) (listed : e ∈ c.entries) :
    c.entries.find? (·.entry = e.entry) = some e := by
  cases found : c.entries.find? (·.entry = e.entry) with
  | none => simpa using List.find?_eq_none.mp found e listed
  | some e' =>
      have same : e'.entry = e.entry := by simpa using List.find?_some found
      by_contra other
      have symmetric : Std.Symm fun e e' : OwnedEntry => e.blocks.Disjoint e'.blocks :=
        ⟨fun _ _ apart => apart.symm⟩
      have apart := (blocks_apart distinct).forall listed (List.mem_of_find?_eq_some found)
        fun eq => other (congrArg some eq.symm)
      apply apart (_ : e.entry ∈ e.blocks)
      · rw [← same]
        exact e'.entry_mem
      · exact e.entry_mem

theorem evict_leaves (shows : c.Shows s) : Leaves (c.blocks frame) (c.evict env) fun c' left =>
    left = c'.blocks frame ∧
      c'.Shows ⟨(ClientCache.evict env s.cache s.dir).1, (ClientCache.evict env s.cache s.dir).2⟩ := by
  have limit : s.cache.maxEntries ≤ s.cache.entries.length ↔ c.maxEntries ≤ c.entries.length := by
    rw [shows.maxEntries, ← shows.entries, List.length_map]
  unfold OwnedCache.evict ClientCache.evict victim
  simp only [limit]
  apply Leaves.use list_mem_blocks
  by_cases full : c.maxEntries ≤ c.entries.length
  · rw [if_pos full, if_pos full]
    cases here : c.entries with
    | nil =>
        have none : s.cache.entries = [] := by rw [← shows.entries, here]; rfl
        refine Leaves.pure ⟨rfl, ?_⟩
        simp only [none, oldest, List.head?_nil, Option.map_none]
        exact shows
    | cons head rest =>
        have within : Within (head :: rest) (c.blocks frame) := here ▸ within_blocks
        obtain ⟨o, picked⟩ : ∃ o, o = oldestOf head (head :: rest) := ⟨_, rfl⟩
        have listed : o ∈ c.entries := by
          have mem := oldestOf_mem head (head :: rest)
          rw [here, picked]
          simpa using mem
        have value : oldest s.cache.entries = some o.value := by
          rw [picked, oldestOf_value, oldest, ← shows.entries, here]
          rfl
        apply Leaves.use (within head List.mem_cons_self _ head.node_mem)
        have again : Within (head :: head :: rest) (c.blocks frame) :=
          List.forall_mem_cons.mpr ⟨within head List.mem_cons_self, within⟩
        apply Leaves.bind (oldest_leaves again)
        rintro o' _ ⟨rfl, found⟩
        obtain rfl : o = o' := picked.trans found.symm
        apply Leaves.distinct
        intro distinct
        apply Leaves.bind (item_leaves within)
        rintro found _ ⟨rfl, result⟩
        rw [← here, find_item distinct listed] at result
        subst result
        obtain ⟨before, after, split⟩ := List.append_of_mem listed
        apply Leaves.use (within_blocks _ listed _ o.key_mem)
        apply Leaves.bind filepath_leaves
        rintro _ _ rfl
        rw [← here]
        apply Leaves.weaken (@removeNode_leaves _ { c with dir := deleteFile env o.value.key c.dir }
          frame before after split)
        rintro _ _ ⟨rfl, rfl⟩
        refine ⟨rfl, ?_⟩
        simp only [value]
        refine ⟨?_, shows.maxEntries, shows.defaultTtl, congrArg (deleteFile env o.value.key) shows.dir⟩
        have nodup := List.Nodup.of_map CacheEntry.key s.cache.distinct
        rw [← shows.entries, split, List.map_append, List.map_cons] at nodup
        have new : o.value ∉ before.map OwnedEntry.value := fun mem =>
          (List.disjoint_of_nodup_append nodup) mem List.mem_cons_self
        change (before ++ after).map OwnedEntry.value = s.cache.entries.erase o.value
        rw [← shows.entries, split, List.map_append, List.map_append, List.map_cons,
          List.erase_append_right _ new, List.erase_cons_head]
  · rw [if_neg full, if_neg full]
    exact Leaves.pure ⟨rfl, shows⟩

/-! ## The calls -/

/-- A new entry takes its node, itself, its key and its data. -/
theorem push_blocks {node entry k d : Nat} {value : CacheEntry} :
    (node :: k :: d :: entry :: c.blocks frame).Perm
      ((c.push ⟨node, entry, k, d, value⟩).blocks frame) := by
  simp only [OwnedCache.blocks, OwnedCache.push, OwnedEntry.blocks, List.flatMap_append,
    List.flatMap_cons, List.flatMap_nil, List.perm_iff_count, List.count_append, List.count_cons,
    List.count_nil]
  intro b
  omega

theorem OwnedCache.Shows.push (shows : c.Shows s)
    (fresh : e.value.key ∉ s.cache.entries.map CacheEntry.key) {dir : CacheDir} :
    OwnedCache.Shows { c.push e with dir := dir } ⟨s.cache.append e.value fresh, dir⟩ := by
  refine ⟨?_, shows.maxEntries, shows.defaultTtl, rfl⟩
  change (c.entries ++ [e]).map OwnedEntry.value = s.cache.entries ++ [e.value]
  rw [List.map_append, shows.entries]
  rfl

theorem storesEntry_eq (env : Surroundings) :
    storesEntry env = (CacheMemory.makesEntry env && env.granted .node) := rfl

theorem clientCacheSetOwned_leaves (shows : c.Shows s) : Leaves (c.blocks frame)
    (clientCacheSetOwned J env key jsonData c) fun r left =>
      r.1 = (clientCacheSet J env key jsonData s).1 ∧ r.2.Shows (clientCacheSet J env key jsonData s).2 ∧
        left = r.2.blocks frame := by
  unfold clientCacheSetOwned
  apply Leaves.use cache_mem_blocks
  apply Leaves.bind (removeKey_leaves shows)
  rintro c₁ _ ⟨rfl, shows₁⟩
  apply Leaves.bind (evict_leaves shows₁)
  rintro c₂ _ ⟨rfl, shows₂⟩
  have refused : storesEntry env = false → clientCacheSet J env key jsonData s =
      (-1, ⟨(ClientCache.evict env (s.cache.remove key) s.dir).1,
        (ClientCache.evict env (s.cache.remove key) s.dir).2⟩) := by
    intro none
    rw [clientCacheSet]
    exact if_neg (by simp [none])
  apply Leaves.bind makeEntry_leaves
  rintro made _ (⟨none, rfl, rfl⟩ | ⟨some_, entry, k, d, rfl, rfl⟩)
  · rw [refused (by rw [storesEntry_eq, none]; rfl)]
    exact Leaves.pure ⟨rfl, shows₂, rfl⟩
  apply Leaves.malloc
  · intro none
    rw [refused (by rw [storesEntry_eq, none, Bool.and_false])]
    apply Leaves.bind (@freeCacheEntry_leaves (c₂.blocks frame) entry (some k) (some d))
    rintro _ _ rfl
    exact Leaves.pure ⟨rfl, shows₂, rfl⟩
  · intro node granted
    have stores : storesEntry env = true := by rw [storesEntry_eq, some_, granted]; rfl
    apply Leaves.use List.mem_cons_self
    apply Leaves.use (by simp [OwnedCache.blocks])
    apply Leaves.bind filepath_leaves
    rintro _ _ rfl
    refine Leaves.perm push_blocks (Leaves.pure ⟨?_, ?_, rfl⟩)
    · rw [clientCacheSet, if_pos stores]
    · have ttl : c₂.defaultTtl = s.cache.defaultTtl := shows₂.defaultTtl.trans (evict_limits env _ _).2
      have dir : (ClientCache.evict env (s.cache.remove key) s.dir).2 = c₂.dir := shows₂.dir.symm
      have fresh := @evict_fresh env _ s.dir _ (remove_fresh s.cache key)
      rw [clientCacheSet, if_pos stores, ← ttl, dir]
      exact @OwnedCache.Shows.push ⟨node, entry, k, d, ⟨key, jsonData, env.now, c₂.defaultTtl⟩⟩ c₂ _
        shows₂ fresh _

/-- The blocks that a call loses: the new entry, its key and its data, where there is no node for it. -/
def lost (J : Jansson) (s : CacheState) (call : CacheCall) : Nat :=
  match call.op with
  | .get key =>
      if (s.cache.lookup key).isNone &&
        (loadFromFile J call.env key s.cache.defaultTtl s.dir).1.isSome &&
        CacheMemory.makesEntry call.env && !call.env.granted .node then 3
      else 0
  | _ => 0

/-- A lookup gives its text a block, and may lose others. -/
structure GotText (J : Jansson) (env : Surroundings) (key : Bytes) (s : CacheState) (frame : List Nat)
    (r : Option (Bytes × Nat) × OwnedCache) (left : List Nat) : Prop where
  text : r.1.map Prod.fst = (clientCacheGet J env key s).1
  shows : r.2.Shows (clientCacheGet J env key s).2
  left : ∃ others, left.Perm ((r.1.map Prod.snd).toList ++ r.2.blocks (others ++ frame)) ∧
    others.length = lost J s ⟨.get key, env⟩

theorem clientCacheGetOwned_leaves (shows : c.Shows s) : Leaves (c.blocks frame)
    (clientCacheGetOwned J env key c) (GotText J env key s frame) := by
  unfold clientCacheGetOwned
  apply Leaves.use cache_mem_blocks
  apply Leaves.bind (search_leaves within_blocks)
  rintro found _ ⟨rfl, result⟩
  cases found with
  | some e =>
      obtain ⟨lookup, before, after, split_, shows'⟩ := found_split shows result.symm
      have none : lost J s ⟨.get key, env⟩ = 0 := by simp [lost, lookup]
      have listed : e ∈ c.entries := List.mem_of_find?_eq_some result.symm
      have looked := @clientCacheGet_found J env key s _ lookup
      simp only
      split
      · next old =>
          rw [if_pos old] at looked
          apply Leaves.bind (removeNode_leaves split_)
          rintro _ _ ⟨rfl, rfl⟩
          apply Leaves.bind filepath_leaves
          rintro _ _ rfl
          refine Leaves.pure ⟨by rw [looked]; rfl, ?_, [], List.Perm.refl _, none.symm⟩
          rw [looked]
          exact ⟨shows'.entries, shows.maxEntries, shows.defaultTtl,
            congrArg (deleteFile env key) shows.dir⟩
      · next young =>
          rw [if_neg young] at looked
          apply Leaves.bind filepath_leaves
          rintro _ _ rfl
          rw [shows.dir]
          split
          · next gone =>
              rw [if_pos gone] at looked
              apply Leaves.bind (removeNode_leaves split_)
              rintro _ _ ⟨rfl, rfl⟩
              refine Leaves.pure ⟨by rw [looked]; rfl, ?_, [], List.Perm.refl _, none.symm⟩
              rw [looked]
              exact shows'
          · next there =>
              rw [if_neg there] at looked
              apply Leaves.use (within_blocks e listed _ e.entry_mem)
              apply Leaves.use (within_blocks e listed _ e.data_mem)
              apply Leaves.malloc
              · intro refused
                refine Leaves.pure ⟨?_, looked ▸ shows, [], List.Perm.refl _, none.symm⟩
                rw [looked, refused]
                rfl
              · intro text granted
                refine Leaves.pure ⟨?_, looked ▸ shows, [], List.Perm.refl _, none.symm⟩
                rw [looked, granted]
                rfl
  | none =>
      have absent := search_none shows result.symm
      have looked := @clientCacheGet_absent J env key s absent
      have same : loadFromFile J env key s.cache.defaultTtl s.dir =
          loadFromFile J env key c.defaultTtl c.dir := by rw [shows.defaultTtl, shows.dir]
      unfold reload at looked
      apply Leaves.bind filepath_leaves
      rintro _ _ rfl
      cases loaded : loadFromFile J env key c.defaultTtl c.dir with
      | mk jsonData dir =>
          rw [same, loaded, ← shows.defaultTtl] at looked
          cases jsonData with
          | none =>
              refine Leaves.pure ⟨by rw [looked]; rfl, ?_, [], List.Perm.refl _, ?_⟩
              · rw [looked]
                exact ⟨shows.entries, shows.maxEntries, shows.defaultTtl, rfl⟩
              · simp [lost, same, loaded]
          | some jsonData =>
              have shows' : OwnedCache.Shows { c with dir := dir } ⟨s.cache, dir⟩ :=
                ⟨shows.entries, shows.maxEntries, shows.defaultTtl, rfl⟩
              have loses : lost J s ⟨.get key, env⟩ =
                  if CacheMemory.makesEntry env && !env.granted .node then 3 else 0 := by
                simp [lost, absent, same, loaded]
              apply Leaves.block
              intro text
              apply Leaves.bind makeEntry_leaves
              rintro made _ (⟨none, rfl, rfl⟩ | ⟨some_, entry, k, d, rfl, rfl⟩)
              · rw [storesEntry_eq, none] at looked
                refine Leaves.pure ⟨by rw [looked]; rfl, ?_, [], List.Perm.refl _, ?_⟩
                · rw [looked]
                  exact shows'
                · rw [loses, none]
                  rfl
              apply Leaves.malloc
              · intro refused
                rw [storesEntry_eq, some_, refused] at looked
                refine Leaves.pure ⟨by rw [looked]; rfl, ?_, [k, d, entry], ?_, ?_⟩
                · rw [looked]
                  exact shows'
                · simp only [OwnedCache.blocks, Option.map_some, Option.toList_some, List.perm_iff_count,
                    List.count_append, List.count_cons, List.count_nil]
                  intro b
                  omega
                · rw [loses, some_, refused]
                  rfl
              · intro node granted
                rw [storesEntry_eq, some_, granted] at looked
                apply Leaves.use List.mem_cons_self
                apply Leaves.use (by simp [OwnedCache.blocks])
                refine Leaves.pure ⟨by rw [looked]; rfl, ?_, [], ?_, ?_⟩
                · rw [looked]
                  exact @OwnedCache.Shows.push
                    ⟨node, entry, k, d, ⟨key, jsonData, env.now, c.defaultTtl⟩⟩
                    { c with dir := dir } _ shows' (lookup_none absent) dir
                · exact (@List.perm_middle _ text [node, k, d, entry] _).trans (push_blocks.cons text)
                · rw [loses, some_, granted]
                  rfl

theorem clientCacheClearOwned_leaves (shows : c.Shows s) : Leaves (c.blocks frame)
    (clientCacheClearOwned env c) fun c' left =>
      c'.Shows (clientCacheClear env s) ∧ left = c'.blocks frame := by
  have dirs : c.entries.foldl (fun dir e => deleteFile env e.value.key dir) c.dir =
      s.cache.entries.foldl (fun dir entry => deleteFile env entry.key dir) s.dir := by
    rw [← shows.entries, List.foldl_map, shows.dir]
  unfold clientCacheClearOwned
  apply Leaves.use cache_mem_blocks
  apply Leaves.use list_mem_blocks
  apply Leaves.bind (deleteFiles_leaves within_blocks)
  rintro _ _ rfl
  apply Leaves.bind (Leaves.perm blocks_perm clearNodes_leaves)
  rintro _ _ rfl
  exact Leaves.pure
    ⟨⟨rfl, shows.maxEntries, shows.defaultTtl, congrArg (sweep env) dirs⟩, rfl⟩

theorem clientCacheDestroyOwned_leaves : Leaves (c.blocks frame) (clientCacheDestroyOwned c)
    fun _ left => left = frame := by
  unfold clientCacheDestroyOwned
  apply Leaves.use cache_mem_blocks
  apply Leaves.bind (Leaves.perm blocks_perm clearNodes_leaves)
  rintro _ _ rfl
  apply Leaves.free
  exact Leaves.free_end rfl

theorem new_shows (cache list maxEntries : Nat) (defaultTtl : Int) (dir : CacheDir) :
    (OwnedCache.new cache list maxEntries defaultTtl dir).Shows
      ⟨clientCacheCreate maxEntries defaultTtl, dir⟩ := ⟨rfl, rfl, rfl, rfl⟩

/-! ## Runs -/

theorem perform_leaves (shows : c.Shows s) (call : CacheCall) : Leaves (c.blocks frame)
    (performOwned J c call) fun r left =>
      r.1 = reply J s call ∧ r.2.Shows (perform J s call) ∧
        ∃ others, left = r.2.blocks (others ++ frame) ∧ others.length = lost J s call := by
  obtain ⟨op, env⟩ := call
  cases op with
  | set key jsonData =>
      apply Leaves.bind (clientCacheSetOwned_leaves shows)
      rintro ⟨ret, c'⟩ _ ⟨same, shows', rfl⟩
      exact Leaves.pure ⟨congrArg CacheReply.code same, shows', [], rfl, rfl⟩
  | get key =>
      apply Leaves.bind (clientCacheGetOwned_leaves shows)
      rintro ⟨text, c'⟩ left ⟨same, shows', others, blocks, loses⟩
      apply Leaves.perm blocks
      apply Leaves.freeOption
      exact Leaves.pure ⟨congrArg CacheReply.text same, shows', others, rfl, loses⟩
  | clear =>
      apply Leaves.bind (clientCacheClearOwned_leaves shows)
      rintro c' _ ⟨shows', rfl⟩
      exact Leaves.pure ⟨rfl, shows', [], rfl, rfl⟩
  | restart =>
      apply Leaves.bind clientCacheDestroyOwned_leaves
      rintro _ _ rfl
      apply Leaves.block
      intro cache
      apply Leaves.block
      intro list
      refine Leaves.pure ⟨rfl, ?_, [], rfl, rfl⟩
      simp only [shows.maxEntries, shows.defaultTtl, shows.dir]
      exact new_shows cache list s.cache.maxEntries s.cache.defaultTtl s.dir

/-- The blocks that calls lose, one after another. -/
def lostAlong (J : Jansson) : CacheState → List CacheCall → Nat
  | _, [] => 0
  | s, call :: calls => lost J s call + lostAlong J (perform J s call) calls

theorem performAll_leaves (shows : c.Shows s) (calls : List CacheCall) : Leaves (c.blocks frame)
    (performAllOwned J c calls) fun r left =>
      r.1 = replies J s calls ∧
        ∃ others, left = r.2.blocks (others ++ frame) ∧ others.length = lostAlong J s calls := by
  induction calls generalizing c s frame with
  | nil => exact Leaves.pure ⟨rfl, [], rfl, rfl⟩
  | cons call calls ih =>
      apply Leaves.bind (perform_leaves shows call)
      rintro ⟨first, c'⟩ _ ⟨rfl, shows', others, rfl, loses⟩
      apply Leaves.bind (ih shows')
      rintro ⟨rest, c''⟩ _ ⟨rfl, others', rfl, loses'⟩
      refine Leaves.pure ⟨rfl, others' ++ others, ?_, ?_⟩
      · rw [List.append_assoc]
      · rw [List.length_append, loses, loses', lostAlong, Nat.add_comm]

theorem clientCacheCreateOwned_leaves {first second : Bool} {maxEntries : Nat} {defaultTtl : Int}
    {dir : CacheDir} :
    Leaves frame (clientCacheCreateOwned first second maxEntries defaultTtl dir) fun created left =>
      ((first && second) = false ∧ created = none ∧ left = frame) ∨
        (first && second) = true ∧ ∃ c, created = some c ∧ left = c.blocks frame ∧
          c.Shows ⟨clientCacheCreate maxEntries defaultTtl, dir⟩ := by
  unfold clientCacheCreateOwned
  apply Leaves.malloc
  · rintro rfl
    exact Leaves.pure (.inl ⟨rfl, rfl, rfl⟩)
  rintro cache rfl
  apply Leaves.malloc
  · rintro rfl
    apply Leaves.free
    exact Leaves.pure (.inl ⟨rfl, rfl, rfl⟩)
  · rintro list rfl
    apply Leaves.use (by simp)
    exact Leaves.pure (.inr ⟨rfl, _, rfl, rfl, new_shows ..⟩)

/-- The calls of a life: none, where there is no memory for the cache. -/
def lived (first second : Bool) (calls : List CacheCall) : List CacheCall :=
  if first && second then calls else []

theorem cacheLife_leaves {first second : Bool} {maxEntries : Nat} {defaultTtl : Int} {dir : CacheDir}
    {calls : List CacheCall} :
    Leaves frame (cacheLifeOwned J first second maxEntries defaultTtl dir calls) fun r left =>
      r = replies J ⟨clientCacheCreate maxEntries defaultTtl, dir⟩ (lived first second calls) ∧
        ∃ others, left = others ++ frame ∧ others.length =
          lostAlong J ⟨clientCacheCreate maxEntries defaultTtl, dir⟩ (lived first second calls) := by
  unfold cacheLifeOwned lived
  apply Leaves.bind clientCacheCreateOwned_leaves
  rintro created _ (⟨refused, rfl, rfl⟩ | ⟨granted, c, rfl, rfl, shows⟩)
  · rw [refused]
    exact Leaves.pure ⟨rfl, [], rfl, rfl⟩
  · rw [granted]
    apply Leaves.bind (performAll_leaves shows calls)
    rintro ⟨rs, c'⟩ _ ⟨same, others, rfl, loses⟩
    apply Leaves.bind clientCacheDestroyOwned_leaves
    rintro _ _ rfl
    exact Leaves.pure ⟨same, others, rfl, loses⟩

/-- From its creation to its destruction a cache frees nothing twice, touches nothing that is freed
and answers as `clientCacheSet` and `clientCacheGet` do. It leaves nothing behind but the three
blocks of each entry that it loaded from a file and had no node for. -/
theorem cache_loses_unlisted (J : Jansson) (first second : Bool) (maxEntries : Nat) (defaultTtl : Int)
    (dir : CacheDir) (calls : List CacheCall) (s : Blocks) :
    let start : CacheState := ⟨clientCacheCreate maxEntries defaultTtl, dir⟩
    ∃ s', cacheLifeOwned J first second maxEntries defaultTtl dir calls s =
        .returns (replies J start (lived first second calls), s') ∧
      s.live ⊆ s'.live ∧
      s'.live.card = s.live.card + lostAlong J start (lived first second calls) := by
  intro start
  obtain ⟨_, s', _, ends, owns, rfl, others, rfl, loses⟩ :=
    @cacheLife_leaves _ J first second maxEntries defaultTtl dir calls s (owns_live s)
  refine ⟨s', ends, ?_, ?_⟩
  · intro b mem
    rw [owns.mem, List.mem_append, Finset.mem_toList]
    exact .inr mem
  · rw [owns.card, List.length_append, loses, Finset.length_toList, Nat.add_comm]

end JustWeather.Cache
