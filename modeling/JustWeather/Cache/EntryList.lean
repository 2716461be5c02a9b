import JustWeather.Cache.Run
import JustWeather.Utils.Sequences

/-! # The cache on its list

`client_cache` on the nodes of its list. Whatever the calls, it answers as the model that keeps the
entries in a list does.
-/

namespace JustWeather.Cache

open CLib ClientCache Machine Memory Utils

/-- What `calloc` returns: an address that is not in use, or none. -/
structure Allocator (Item : Type) where
  calloc : Heap Item → Option Address
  unused : ∀ h a, calloc h = some a → h.lists a = none ∧ h.nodes a = none

/-- A cache in memory, with `cache->entries` at `list`, and the directory. -/
structure CacheMemory where
  heap : Heap CacheEntry
  list : Address
  maxEntries : Nat
  defaultTtl : Int
  dir : CacheDir

namespace CacheMemory

/-- `client_cache_create`, with its list at this address. -/
def clientCacheCreate (list : Address) (maxEntries : Nat) (defaultTtl : Int) (dir : CacheDir) :
    CacheMemory where
  heap := (linkedListCreate (some list) Heap.empty).2
  list := list
  maxEntries := if 0 < maxEntries then maxEntries else CACHE_MAX_ENTRIES
  defaultTtl := if 0 < defaultTtl then defaultTtl else CACHE_DEFAULT_TTL
  dir := dir

/-- `linked_list_remove(cache->entries, node, free_cache_entry)`. -/
def removeNode (m : CacheMemory) (node : Address) : Exec CacheMemory := do
  let (_, heap) ← linkedListRemove (some m.list) (some node) true m.heap
  pure { m with heap := heap }

/-- The first loop of `client_cache_set`. -/
def removeKey (m : CacheMemory) (key : Bytes) : Exec CacheMemory := do
  let found ← linkedListForeachUntil (fun x => keyed key x.2) m.list m.heap
  match found with
  | none => pure m
  | some x => m.removeNode x.1

def older (oldest x : Address × CacheEntry) : Address × CacheEntry :=
  if x.2.createdAt < oldest.2.createdAt then x else oldest

/-- The eviction of `client_cache_set`. An item is in one node only, so `node->item == oldest` says
that the node is the one of the oldest entry. -/
def evict (env : Surroundings) (m : CacheMemory) : Exec CacheMemory := do
  let l ← m.heap.list m.list
  if m.maxEntries ≤ l.size then
    match l.head with
    | none => pure m
    | some head => do
        let node ← m.heap.node head
        let oldest ← linkedListForeach older m.list (head, node.item) m.heap
        let found ← linkedListForeachUntil (fun x => x.1 == oldest.1) m.list m.heap
        match found with
        | none => pure m
        | some x => removeNode { m with dir := deleteFile env oldest.2.key m.dir } x.1
  else pure m

/-- The allocations behind a new entry but that of its node. -/
def makesEntry (env : Surroundings) : Bool :=
  env.granted .entry && env.granted .key && env.granted .data

/-- A new entry and `linked_list_append` of it: whether it is in the list, and the memory. -/
def appendEntry (env : Surroundings) (alloc : Allocator CacheEntry) (key jsonData : Bytes)
    (m : CacheMemory) : Exec (Bool × CacheMemory) :=
  if makesEntry env then do
    let (ret, heap) ← linkedListAppend (alloc.calloc m.heap) (some m.list)
      ⟨key, jsonData, env.now, m.defaultTtl⟩ m.heap
    pure (ret == 0, { m with heap := heap })
  else pure (false, m)

def clientCacheSet (J : Jansson) (env : Surroundings) (alloc : Allocator CacheEntry)
    (key jsonData : Bytes) (m : CacheMemory) : Exec (Int × CacheMemory) := do
  let m ← m.removeKey key
  let m ← m.evict env
  let (appended, m) ← m.appendEntry env alloc key jsonData
  if appended then pure (0, { m with dir := (saveToFile J env key jsonData m.dir).2 })
  else pure (-1, m)

def clientCacheGet (J : Jansson) (env : Surroundings) (alloc : Allocator CacheEntry) (key : Bytes)
    (m : CacheMemory) : Exec (Option Bytes × CacheMemory) := do
  let found ← linkedListForeachUntil (fun x => keyed key x.2) m.list m.heap
  match found with
  | some x =>
      if x.2.ttl < env.now - x.2.createdAt then do
        let m ← m.removeNode x.1
        pure (none, { m with dir := deleteFile env key m.dir })
      else if (getCacheFilepath env key).any fun filepath => (m.dir.stat filepath).isNone then do
        let m ← m.removeNode x.1
        pure (none, m)
      else pure (if env.granted .result then some x.2.jsonData else none, m)
  | none =>
      match loadFromFile J env key m.defaultTtl m.dir with
      | (none, dir) => pure (none, { m with dir := dir })
      | (some jsonData, dir) => do
          let (_, m) ← appendEntry env alloc key jsonData { m with dir := dir }
          pure (some jsonData, m)

def clientCacheClear (env : Surroundings) (m : CacheMemory) : Exec CacheMemory := do
  let dir ← linkedListForeach (fun dir x => deleteFile env x.2.key dir) m.list m.dir m.heap
  let heap ← linkedListClear (some m.list) true m.heap
  pure { m with heap := heap, dir := sweep env dir }

def clientCacheDestroy (m : CacheMemory) : Exec (Heap CacheEntry) := do
  let heap ← linkedListClear (some m.list) true m.heap
  linkedListDispose (some m.list) false heap

end CacheMemory

/-! ## The entries of the nodes -/

/-- The nodes of the list at `p` hold these entries, and the heap has no other list. -/
def Holds (h : Heap CacheEntry) (p : Address) (entries : List CacheEntry) : Prop :=
  ∃ S xs, Refines h S ∧ S.sequences p = some xs ∧ xs.map Prod.snd = entries ∧
    ∀ q, q ≠ p → S.sequences q = none

variable {h : Heap CacheEntry} {p : Address} {entries : List CacheEntry}

/-- The list got another sequence. -/
theorem Holds.of_put {S S' : Utils.Lists CacheEntry} {ys : List (Address × CacheEntry)} (R : Refines h S')
    (put : S'.sequences = (S.put p (some ys)).sequences) (alone : ∀ q, q ≠ p → S.sequences q = none) :
    Holds h p (ys.map Prod.snd) := by
  refine ⟨S', ys, R, ?_, rfl, fun q other => ?_⟩
  · rw [put, Lists.put_self]
  · rw [put, Lists.put_ne other, alone q other]

theorem Holds.create (p : Address) :
    Holds (linkedListCreate (some p) (Heap.empty : Heap CacheEntry)).2 p [] :=
  ⟨_, [], Refines.empty.create (Unused.empty p), Lists.put_self _, rfl,
    fun _ other => Lists.put_ne other _⟩

theorem Holds.each (H : Holds h p entries) {β : Type} (body : β → CacheEntry → β) (b : β) :
    linkedListForeach (fun b x => body b x.2) p b h = .returns (entries.foldl body b) := by
  obtain ⟨S, xs, R, here, rfl, -⟩ := H
  rw [R.foreach here, List.foldl_map]

/-- Where a loop breaks is a node of the first such entry, if there is one, and it can be removed. -/
theorem Holds.search (H : Holds h p entries) (wanted : CacheEntry → Bool) :
    (linkedListForeachUntil (fun x => wanted x.2) p h = .returns none ∧
      entries.find? wanted = none) ∨
    ∃ x h', linkedListForeachUntil (fun x => wanted x.2) p h = .returns (some x) ∧
      entries.find? wanted = some x.2 ∧
      linkedListRemove (some p) (some x.1) true h = .returns (0, h') ∧
      Holds h' p (entries.eraseP wanted) := by
  obtain ⟨S, xs, R, here, rfl, alone⟩ := H
  rw [R.foreachUntil here, List.find?_map]
  cases found : xs.find? fun x => wanted x.2 with
  | none => exact .inl ⟨rfl, congrArg _ found⟩
  | some x =>
      obtain ⟨first, front, back, rfl, before⟩ := List.find?_eq_some_iff_append.mp found
      obtain ⟨h', removes, after⟩ := R.remove true here
      refine .inr ⟨x, h', rfl, congrArg _ found, removes, ?_⟩
      have spared : ∀ y ∈ front, ¬ (wanted ∘ Prod.snd) y = true := by simpa using before
      have goes : (x :: back).eraseP (wanted ∘ Prod.snd) = back := List.eraseP_cons_of_pos first
      rw [List.eraseP_map, List.eraseP_append_right _ spared, goes]
      exact .of_put after rfl alone

/-- A new entry stands at the end, unless `calloc` fails. -/
theorem Holds.append (H : Holds h p entries) (alloc : Allocator CacheEntry) (entry : CacheEntry) :
    (∃ h', linkedListAppend (alloc.calloc h) (some p) entry h = .returns (0, h') ∧
      Holds h' p (entries ++ [entry])) ∨
    linkedListAppend (alloc.calloc h) (some p) entry h = .returns (1, h) := by
  obtain ⟨S, xs, R, here, rfl, alone⟩ := H
  cases grants : alloc.calloc h with
  | none => exact .inr linkedListAppend_refused
  | some a =>
      obtain ⟨list, node⟩ := alloc.unused h a grants
      obtain ⟨h', appends, after⟩ := R.append entry here (R.unused list node)
      have holds := Holds.of_put after rfl alone
      rw [List.map_append] at holds
      exact .inl ⟨h', appends, holds⟩

theorem Holds.clear (H : Holds h p entries) :
    ∃ h', linkedListClear (some p) true h = .returns h' ∧ Holds h' p [] := by
  obtain ⟨S, xs, R, here, rfl, alone⟩ := H
  obtain ⟨h', clears, after⟩ := R.clear true here
  exact ⟨h', clears, .of_put after rfl alone⟩

/-- Nothing is left, and all entries were handed to `free_cache_entry`. -/
theorem Holds.destroy (H : Holds h p entries) : ∃ h₁ h₂,
    linkedListClear (some p) true h = .returns h₁ ∧
      linkedListDispose (some p) false h₁ = .returns h₂ ∧ (∀ q, h₂.lists q = none) ∧
        (∀ a, h₂.nodes a = none) ∧ h₂.disposed = h.disposed ++ entries := by
  obtain ⟨S, xs, R, here, rfl, alone⟩ := H
  obtain ⟨h₁, clears, cleared⟩ := R.clear true here
  obtain ⟨h₂, disposes, gone⟩ := cleared.dispose false (Lists.put_self _)
  have lists : ∀ q, h₂.lists q = none := by
    intro q
    rw [gone.header]
    by_cases same : q = p
    · rw [same]
      exact congrArg _ (Lists.put_self _)
    · exact congrArg _ ((Lists.put_ne same _).trans ((Lists.put_ne same _).trans (alone q same)))
  refine ⟨h₁, h₂, clears, disposes, lists, fun a => ?_, ?_⟩
  · rw [← Option.not_isSome_iff_eq_none]
    intro stored
    obtain ⟨q, ys, there, -⟩ := gone.owned a stored
    have none := lists q
    rw [gone.header, there] at none
    cases none
  · rw [gone.disposed, R.disposed]
    simp [Lists.logged, Lists.put, handed]

/-! ## Eviction -/

open CacheMemory

theorem older_self (x : Address × CacheEntry) : older x x = x := if_neg (Int.lt_irrefl _)

theorem foldl_older_mem (xs : List (Address × CacheEntry)) (x : Address × CacheEntry) :
    xs.foldl older x ∈ x :: xs := by
  induction xs generalizing x with
  | nil => exact List.mem_cons_self
  | cons y xs ih =>
      rw [List.foldl_cons]
      rcases List.mem_cons.mp (ih (older x y)) with same | later
      · rw [same]
        unfold older
        split
        · exact List.mem_cons_of_mem _ List.mem_cons_self
        · exact List.mem_cons_self
      · exact List.mem_cons_of_mem _ (List.mem_cons_of_mem _ later)

/-- The loop over the nodes finds the entry that the loop over the entries finds. -/
theorem foldl_older (xs : List (Address × CacheEntry)) (x : Address × CacheEntry) :
    oldest ((x :: xs).map Prod.snd) = some ((x :: xs).foldl older x).2 := by
  have same : ∀ y z : Address × CacheEntry,
      (if z.2.createdAt < y.2.createdAt then z.2 else y.2) = (older y z).2 := by
    intro y z
    unfold older
    split <;> rfl
  rw [oldest, List.map_cons, List.head?_cons, ← List.map_cons, Option.map_some, List.foldl_map]
  exact congrArg some (List.foldl_hom Prod.snd fun y z => same y z)

/-- The first node that is the one at an address of the list is that one. -/
theorem find_address {xs : List (Address × CacheEntry)} {x : Address × CacheEntry}
    (distinct : (addresses xs).Nodup) (mem : x ∈ xs) : xs.find? (fun y => y.1 == x.1) = some x := by
  cases found : xs.find? fun y => y.1 == x.1 with
  | none => exact absurd (List.find?_eq_none.mp found x mem) (by simp)
  | some y =>
      have same : y.1 = x.1 := by simpa using List.find?_some found
      rw [List.inj_on_of_nodup_map distinct (List.mem_of_find?_eq_some found) mem same]

/-- Of different entries, the one of a node goes with the node. -/
theorem remove_entry {S : Utils.Lists CacheEntry} {xs : List (Address × CacheEntry)}
    {x : Address × CacheEntry} (R : Refines h S) (here : S.sequences p = some xs)
    (alone : ∀ q, q ≠ p → S.sequences q = none) (distinct : (xs.map Prod.snd).Nodup) (mem : x ∈ xs) :
    ∃ h', linkedListRemove (some p) (some x.1) true h = .returns (0, h') ∧
      Holds h' p ((xs.map Prod.snd).erase x.2) := by
  obtain ⟨front, back, rfl⟩ := List.append_of_mem mem
  obtain ⟨h', removes, after⟩ := R.remove true here
  refine ⟨h', removes, ?_⟩
  rw [List.map_append, List.map_cons, List.nodup_middle, List.nodup_cons, List.mem_append, not_or]
    at distinct
  rw [List.map_append, List.map_cons, List.erase_append_right _ distinct.1.1, List.erase_cons_head,
    ← List.map_append]
  exact .of_put after rfl alone

variable {m : CacheMemory} {s : CacheState}

/-- The nodes of a cache hold the entries of the other one. -/
structure Simulates (m : CacheMemory) (s : CacheState) : Prop where
  entries : Holds m.heap m.list s.cache.entries
  maxEntries : m.maxEntries = s.cache.maxEntries
  defaultTtl : m.defaultTtl = s.cache.defaultTtl
  dir : m.dir = s.dir

theorem evict_simulates (sim : Simulates m s) (env : Surroundings) :
    ∃ m', m.evict env = .returns m' ∧
      Simulates m' ⟨(evict env s.cache s.dir).1, (evict env s.cache s.dir).2⟩ := by
  obtain ⟨S, xs, R, here, entries, alone⟩ := sim.entries
  have listed : m.heap.list m.list = .returns (header xs) := by
    rw [← R.edit_self here, list_edit]
  have size : (header xs).size = s.cache.entries.length := by
    rw [← entries, List.length_map]
    rfl
  have different : (xs.map Prod.snd).Nodup := by
    rw [entries]
    exact List.Nodup.of_map CacheEntry.key s.cache.distinct
  rw [CacheMemory.evict, listed, Exec.returns_bind, size, sim.maxEntries, ClientCache.evict, victim]
  split
  · next full =>
      cases xs with
      | nil =>
          have none : oldest s.cache.entries = none := by rw [← entries]; rfl
          simp only [none]
          exact ⟨m, rfl, sim⟩
      | cons x xs =>
          obtain ⟨stored, -⟩ := R.chain _ _ here
          have node : m.heap.node x.1 = .returns ⟨none, first xs none, x.2⟩ := by
            rw [Heap.node, stored]
            rfl
          have mem : (x :: xs).foldl older x ∈ x :: xs := by
            rw [List.foldl_cons, older_self]
            exact foldl_older_mem xs x
          have picked : oldest s.cache.entries = some ((x :: xs).foldl older x).2 := by
            rw [← entries, foldl_older]
          obtain ⟨h', removes, after⟩ := remove_entry R here alone different mem
          have loop := R.foreach here older x
          have found := R.foreachUntil here fun y => y.1 == ((x :: xs).foldl older x).1
          rw [find_address (R.distinct _ _ here) mem] at found
          simp only [header, first_cons, node, Exec.returns_bind, loop, found, removeNode, removes,
            picked]
          refine ⟨_, rfl, ?_, rfl, sim.defaultTtl, ?_⟩
          · rw [entries] at after
            exact after
          · rw [sim.dir]
  · next room => exact ⟨m, rfl, sim⟩

theorem removeKey_simulates (sim : Simulates m s) (key : Bytes) :
    ∃ m', m.removeKey key = .returns m' ∧ Simulates m' ⟨s.cache.remove key, s.dir⟩ := by
  rcases sim.entries.search (keyed key) with ⟨searched, absent⟩ | ⟨x, h', searched, -, removes, after⟩
  · refine ⟨m, by rw [removeKey, searched]; rfl, ?_, sim.maxEntries, sim.defaultTtl, sim.dir⟩
    have kept : s.cache.entries.eraseP (keyed key) = s.cache.entries :=
      List.eraseP_of_forall_not (List.find?_eq_none.mp absent)
    have entries := sim.entries
    rw [← kept] at entries
    exact entries
  · refine ⟨{ m with heap := h' }, ?_, after, sim.maxEntries, sim.defaultTtl, sim.dir⟩
    simp only [removeKey, searched, Exec.returns_bind, removeNode, removes]
    rfl

/-! ## Calls -/

/-- The surroundings where the allocation of a node goes this way. -/
def Surroundings.withNode (env : Surroundings) (granted : Bool) : Surroundings where
  __ := env
  granted
    | .node => granted
    | site => env.granted site

theorem appendEntry_simulates (sim : Simulates m s) (alloc : Allocator CacheEntry)
    (env : Surroundings) (jsonData : Bytes) {key : Bytes} {ttl : Int}
    (lifetime : s.cache.defaultTtl = ttl) (fresh : key ∉ s.cache.entries.map CacheEntry.key) :
    ∃ granted m',
      m.appendEntry env alloc key jsonData = .returns (storesEntry (env.withNode granted), m') ∧
      Simulates m' ⟨if storesEntry (env.withNode granted)
        then s.cache.append ⟨key, jsonData, env.now, ttl⟩ fresh else s.cache, s.dir⟩ := by
  have stores : ∀ granted, storesEntry (env.withNode granted) = (makesEntry env && granted) :=
    fun _ => rfl
  obtain rfl : m.defaultTtl = ttl := sim.defaultTtl.trans lifetime
  rw [appendEntry]
  cases made : makesEntry env with
  | false => exact ⟨false, m, by rw [stores, made]; rfl, by rw [stores, made]; exact sim⟩
  | true =>
      rcases sim.entries.append alloc ⟨key, jsonData, env.now, m.defaultTtl⟩ with
        ⟨h', appends, after⟩ | refused
      · refine ⟨true, { m with heap := h' }, ?_, ?_⟩
        · rw [appends, stores, made]
          rfl
        · rw [stores, made]
          exact ⟨after, sim.maxEntries, sim.defaultTtl, sim.dir⟩
      · refine ⟨false, m, ?_, ?_⟩
        · rw [refused, stores, made]
          rfl
        · rw [stores, made]
          exact sim

/-- A store. -/
theorem clientCacheSet_simulates (sim : Simulates m s) (J : Jansson) (env : Surroundings)
    (alloc : Allocator CacheEntry) (key jsonData : Bytes) : ∃ granted m',
      m.clientCacheSet J env alloc key jsonData =
        .returns ((clientCacheSet J (env.withNode granted) key jsonData s).1, m') ∧
      Simulates m' (clientCacheSet J (env.withNode granted) key jsonData s).2 := by
  obtain ⟨m₁, removes, sim₁⟩ := removeKey_simulates sim key
  obtain ⟨m₂, evicts, sim₂⟩ := evict_simulates sim₁ env
  have lifetime := (evict_limits env (s.cache.remove key) s.dir).2
  obtain ⟨granted, m₃, appends, sim₃⟩ := appendEntry_simulates sim₂ alloc env jsonData lifetime
    (evict_fresh (remove_fresh s.cache key))
  refine ⟨granted, ?_⟩
  rw [CacheMemory.clientCacheSet, removes, Exec.returns_bind, evicts, Exec.returns_bind, appends,
    Exec.returns_bind, Cache.clientCacheSet]
  cases stores : storesEntry (env.withNode granted) with
  | false =>
      rw [stores] at sim₃
      exact ⟨m₃, rfl, sim₃⟩
  | true =>
      rw [stores] at sim₃
      refine ⟨_, rfl, sim₃.entries, sim₃.maxEntries, sim₃.defaultTtl, ?_⟩
      exact congrArg (fun dir => (saveToFile J env key jsonData dir).2) sim₃.dir

/-- A lookup. -/
theorem clientCacheGet_simulates (sim : Simulates m s) (J : Jansson) (env : Surroundings)
    (alloc : Allocator CacheEntry) (key : Bytes) : ∃ granted m',
      m.clientCacheGet J env alloc key =
        .returns ((clientCacheGet J (env.withNode granted) key s).1, m') ∧
      Simulates m' (clientCacheGet J (env.withNode granted) key s).2 := by
  rcases sim.entries.search (keyed key) with ⟨searched, absent⟩ | ⟨x, h', searched, found, removes, after⟩
  · have loads : ∀ granted, loadFromFile J (env.withNode granted) key s.cache.defaultTtl s.dir =
        loadFromFile J env key m.defaultTtl m.dir := by
      intro granted
      rw [sim.defaultTtl, sim.dir]
      rfl
    simp only [CacheMemory.clientCacheGet, searched, Exec.returns_bind,
      clientCacheGet_absent absent, reload, loads]
    rcases loadFromFile J env key m.defaultTtl m.dir with ⟨_ | jsonData, dir⟩
    · exact ⟨false, _, rfl, sim.entries, sim.maxEntries, sim.defaultTtl, rfl⟩
    · have moved : Simulates { m with dir := dir } ⟨s.cache, dir⟩ :=
        ⟨sim.entries, sim.maxEntries, sim.defaultTtl, rfl⟩
      obtain ⟨granted, m', appends, sim'⟩ := appendEntry_simulates moved alloc env jsonData rfl
        (lookup_none absent)
      simp only [appends, Exec.returns_bind]
      refine ⟨granted, m', ?_⟩
      cases stores : storesEntry (env.withNode granted) with
      | false =>
          rw [stores] at sim'
          exact ⟨rfl, sim'⟩
      | true =>
          rw [stores] at sim'
          exact ⟨rfl, sim'⟩
  · have unchanged : ∀ granted, clientCacheGet J (env.withNode granted) key s =
        clientCacheGet J env key s := by
      intro granted
      rw [clientCacheGet_found found, clientCacheGet_found found]
      rfl
    refine ⟨true, ?_⟩
    rw [unchanged, clientCacheGet_found found]
    simp only [CacheMemory.clientCacheGet, searched, Exec.returns_bind, removeNode, removes, sim.dir]
    split
    · exact ⟨_, rfl, after, sim.maxEntries, sim.defaultTtl, rfl⟩
    · split
      · exact ⟨_, rfl, after, sim.maxEntries, sim.defaultTtl, rfl⟩
      · exact ⟨m, rfl, sim⟩

/-- A clearing. -/
theorem clientCacheClear_simulates (sim : Simulates m s) (env : Surroundings) :
    ∃ m', m.clientCacheClear env = .returns m' ∧ Simulates m' (clientCacheClear env s) := by
  obtain ⟨h', clears, after⟩ := sim.entries.clear
  have loop := sim.entries.each (fun dir entry => deleteFile env entry.key dir) m.dir
  have performs : m.clientCacheClear env = .returns { m with
      heap := h'
      dir := sweep env (s.cache.entries.foldl (fun dir e => deleteFile env e.key dir) m.dir) } := by
    simp only [CacheMemory.clientCacheClear, loop, Exec.returns_bind, clears]
    rfl
  refine ⟨_, performs, after, sim.maxEntries, sim.defaultTtl, ?_⟩
  rw [sim.dir]
  rfl

/-- After `client_cache_destroy` no list and no node is in use. -/
theorem clientCacheDestroy_frees (sim : Simulates m s) : ∃ h, m.clientCacheDestroy = .returns h ∧
    (∀ q, h.lists q = none) ∧ (∀ a, h.nodes a = none) ∧
      h.disposed = m.heap.disposed ++ s.cache.entries := by
  obtain ⟨h₁, h₂, clears, disposes, freed⟩ := sim.entries.destroy
  refine ⟨h₂, ?_, freed⟩
  rw [clientCacheDestroy, clears]
  exact disposes

/-! ## Runs -/

/-- A call, with the allocator of the list and the address of the list of a new process. -/
structure MemoryCall where
  call : CacheCall
  alloc : Allocator CacheEntry
  list : Address

/-- What a call returns. -/
inductive CacheReply where
  | code (ret : Int)
  | text (jsonData : Option Bytes)
  | nothing

def reply (J : Jansson) (s : CacheState) (call : CacheCall) : CacheReply :=
  match call.op with
  | .set key jsonData => .code (clientCacheSet J call.env key jsonData s).1
  | .get key => .text (clientCacheGet J call.env key s).1
  | .clear | .restart => .nothing

/-- The call on the nodes. -/
def CacheMemory.perform (J : Jansson) (m : CacheMemory) (c : MemoryCall) :
    Exec (CacheReply × CacheMemory) :=
  match c.call.op with
  | .set key jsonData => do
      let (ret, m) ← m.clientCacheSet J c.call.env c.alloc key jsonData
      pure (.code ret, m)
  | .get key => do
      let (jsonData, m) ← m.clientCacheGet J c.call.env c.alloc key
      pure (.text jsonData, m)
  | .clear => do
      let m ← m.clientCacheClear c.call.env
      pure (.nothing, m)
  | .restart =>
      pure (.nothing, CacheMemory.clientCacheCreate c.list m.maxEntries m.defaultTtl m.dir)

/-- The call where the allocation of a node goes this way. -/
def CacheCall.withNode (call : CacheCall) (granted : Bool) : CacheCall :=
  { call with env := call.env.withNode granted }

theorem clientCacheCreate_simulates (list : Address) (maxEntries : Nat) (defaultTtl : Int)
    (dir : CacheDir) : Simulates (CacheMemory.clientCacheCreate list maxEntries defaultTtl dir)
      ⟨clientCacheCreate maxEntries defaultTtl, dir⟩ :=
  ⟨.create list, rfl, rfl, rfl⟩

/-- A call on the nodes is the call on the entries. -/
theorem perform_simulates (sim : Simulates m s) (J : Jansson) (c : MemoryCall) : ∃ granted m',
    m.perform J c = .returns (reply J s (c.call.withNode granted), m') ∧
      Simulates m' (perform J s (c.call.withNode granted)) := by
  obtain ⟨⟨op, env⟩, alloc, list⟩ := c
  cases op with
  | set key jsonData =>
      obtain ⟨granted, m', stores, sim'⟩ := clientCacheSet_simulates sim J env alloc key jsonData
      exact ⟨granted, m', by simp only [CacheMemory.perform, stores]; rfl, sim'⟩
  | get key =>
      obtain ⟨granted, m', looks, sim'⟩ := clientCacheGet_simulates sim J env alloc key
      exact ⟨granted, m', by simp only [CacheMemory.perform, looks]; rfl, sim'⟩
  | clear =>
      obtain ⟨m', clears, sim'⟩ := clientCacheClear_simulates sim env
      exact ⟨true, m', by simp only [CacheMemory.perform, clears]; rfl, sim'⟩
  | restart =>
      refine ⟨true, _, rfl, ?_⟩
      rw [sim.maxEntries, sim.defaultTtl, sim.dir]
      exact clientCacheCreate_simulates list _ _ _

/-- The calls on the nodes, one after another. -/
def CacheMemory.performAll (J : Jansson) (m : CacheMemory) :
    List MemoryCall → Exec (List CacheReply × CacheMemory)
  | [] => pure ([], m)
  | c :: calls => do
      let (reply, m) ← m.perform J c
      let (replies, m) ← m.performAll J calls
      pure (reply :: replies, m)

def replies (J : Jansson) (s : CacheState) : List CacheCall → List CacheReply
  | [] => []
  | call :: calls => reply J s call :: replies J (perform J s call) calls

/-- The same calls, where the allocations of nodes go some way. -/
def SameCalls : List MemoryCall → List CacheCall → Prop :=
  List.Forall₂ fun c call => ∃ granted, call = c.call.withNode granted

theorem performAll_simulates (sim : Simulates m s) (J : Jansson) (calls : List MemoryCall) :
    ∃ calls' m', SameCalls calls calls' ∧ m.performAll J calls = .returns (replies J s calls', m') ∧
      Simulates m' (run (perform J) s calls') := by
  induction calls generalizing m s with
  | nil => exact ⟨[], m, .nil, rfl, sim⟩
  | cons c calls ih =>
      obtain ⟨granted, m₁, performs, sim₁⟩ := perform_simulates sim J c
      obtain ⟨calls', m₂, same, rest, sim₂⟩ := ih sim₁
      refine ⟨c.call.withNode granted :: calls', m₂, .cons ⟨granted, rfl⟩ same, ?_, sim₂⟩
      simp only [CacheMemory.performAll, performs, Exec.returns_bind, rest]
      rfl

/-- On the nodes no call of any run leaves the memory it was given or loops for ever, the replies are
those of a run on the entries, and `client_cache_destroy` leaves nothing behind. -/
theorem cacheMemory_refines (J : Jansson) (list : Address) (maxEntries : Nat) (defaultTtl : Int)
    (dir : CacheDir) (calls : List MemoryCall) : ∃ calls' m', SameCalls calls calls' ∧
      (CacheMemory.clientCacheCreate list maxEntries defaultTtl dir).performAll J calls =
        .returns (replies J ⟨clientCacheCreate maxEntries defaultTtl, dir⟩ calls', m') ∧
      Simulates m' (run (perform J) ⟨clientCacheCreate maxEntries defaultTtl, dir⟩ calls') ∧
      ∃ h, m'.clientCacheDestroy = .returns h ∧ (∀ q, h.lists q = none) ∧ ∀ a, h.nodes a = none := by
  obtain ⟨calls', m', same, performs, sim⟩ :=
    performAll_simulates (clientCacheCreate_simulates list maxEntries defaultTtl dir) J calls
  obtain ⟨h, destroys, lists, nodes, -⟩ := clientCacheDestroy_frees sim
  exact ⟨calls', m', same, performs, sim, h, destroys, lists, nodes⟩

end JustWeather.Cache
