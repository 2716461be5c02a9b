import JustWeather.Cache.Coherence

/-! # Eviction

While the clock does not go back the list is in the order of creation, whether an
entry was stored or taken from a file. The entry that eviction picks is then the
first one.
-/

namespace JustWeather.Cache

open CLib ClientCache Machine

/-- The list is in the order of creation, up to now. -/
structure Ordered (now : Int) (s : CacheState) : Prop where
  sorted : s.cache.entries.Pairwise fun a b => a.createdAt ≤ b.createdAt
  past : ∀ entry ∈ s.cache.entries, entry.createdAt ≤ now

/-- The time of a call. -/
def CacheCall.now (call : CacheCall) : Int := call.env.now

/-- The entries for other keys. -/
def others (k : Bytes) (s : CacheState) : List CacheEntry :=
  s.cache.entries.filter fun entry => entry.key ≠ k

/-- The first of them, if they fill the list. -/
def evicts (k : Bytes) (s : CacheState) : Option CacheEntry :=
  if s.cache.maxEntries ≤ (others k s).length then (others k s).head? else none

/-- A store that drops the first of the other entries when they fill the list, and the file of that
entry, and adds one entry and writes one file. -/
structure EvictsFirst (J : Jansson) (env : Surroundings) (k jsonData : Bytes) (s s' : CacheState) :
    Prop where
  entries : s'.cache.entries =
    (if s.cache.maxEntries ≤ (others k s).length then (others k s).tail else others k s) ++
      [⟨k, jsonData, env.now, s.cache.defaultTtl⟩]
  oldest : ∀ first ∈ (others k s).head?, ∀ entry ∈ others k s, first.createdAt ≤ entry.createdAt
  distinct : (s'.cache.entries.map CacheEntry.key).Nodup
  elsewhere : ∀ p ≠ cachePath k, s'.dir.stat p =
    if (evicts k s).any (fun entry => cachePath entry.key == p) && (s.dir.stat p).any Inode.isFile &&
      env.unlink p then none else s.dir.stat p
  file : s'.dir.stat (cachePath k) = (saveToFile J env k jsonData s.dir).2.stat (cachePath k)
  overwrites : k ∈ s.cache.entries.map CacheEntry.key →
    s.cache.entries.length ≤ s.cache.maxEntries →
    s'.cache.entries = others k s ++ [⟨k, jsonData, env.now, s.cache.defaultTtl⟩] ∧
      ∀ p ≠ cachePath k, s'.dir.stat p = s.dir.stat p

variable {J : Jansson} {env : Surroundings} {k jsonData : Bytes} {s : CacheState} {now : Int}

/-! ## The order of creation -/

theorem Ordered.sublist {s' : CacheState} {now' : Int} (h : Ordered now s) (later : now ≤ now')
    (part : s'.cache.entries.Sublist s.cache.entries) : Ordered now' s' :=
  ⟨h.sorted.sublist part, fun entry mem => (h.past entry (part.subset mem)).trans later⟩

/-- An entry made now goes to the end. -/
theorem Ordered.append {cache : ClientCache} {dir dir' : CacheDir} {entry : CacheEntry}
    (h : Ordered now ⟨cache, dir⟩) (fresh : entry.key ∉ cache.entries.map CacheEntry.key)
    (made : entry.createdAt = now) : Ordered now ⟨cache.append entry fresh, dir'⟩ := by
  constructor
  · apply List.pairwise_append.mpr
    refine ⟨h.sorted, List.pairwise_singleton _ _, ?_⟩
    intro old mem new mem'
    rw [List.mem_singleton.mp mem', made]
    exact h.past old mem
  · intro e mem
    rcases List.mem_append.mp mem with old | new
    · exact h.past e old
    · rw [List.mem_singleton.mp new, made]

theorem Ordered.step {call : CacheCall} (later : now ≤ call.env.now) (h : Ordered now s) :
    Ordered call.env.now (perform J s call) := by
  obtain ⟨op, env⟩ := call
  cases op with
  | set key jsonData =>
      have part : (evict env (s.cache.remove key) s.dir).1.entries.Sublist s.cache.entries :=
        (evict_sublist env (s.cache.remove key) s.dir).trans List.eraseP_sublist
      unfold perform clientCacheSet
      simp only
      split
      · have room : Ordered env.now
            ⟨(evict env (s.cache.remove key) s.dir).1, (evict env (s.cache.remove key) s.dir).2⟩ :=
          h.sublist later part
        exact room.append _ rfl
      · exact h.sublist later part
  | get key =>
      obtain ⟨found, s', eq, looked⟩ := @clientCacheGet_looked J env key s
      have same : Ordered env.now s := h.sublist later (List.Sublist.refl _)
      change Ordered env.now (clientCacheGet J env key s).2
      rw [eq]
      cases looked with
      | hit | unkept => exact same
      | dropped => exact h.sublist later List.eraseP_sublist
      | missed => exact h.sublist later (List.Sublist.refl _)
      | reloaded absent => exact same.append (lookup_none absent) rfl
  | clear | restart => exact h.sublist later (List.nil_sublist _)

/-- A run from an empty list, by a clock that does not go back. -/
theorem Ordered.run (empty : s.cache.entries = []) {calls : List CacheCall}
    (clock : (calls.map CacheCall.now).Pairwise (· ≤ ·))
    (past : ∀ call ∈ calls, call.env.now ≤ now) : Ordered now (Machine.run (perform J) s calls) := by
  induction calls using List.reverseRecOn generalizing now with
  | nil =>
      rw [run_nil]
      constructor <;> simp [empty]
  | append_singleton calls call ih =>
      rw [List.map_append, List.pairwise_append] at clock
      have before : Ordered call.env.now (Machine.run (perform J) s calls) :=
        ih clock.1 fun c mem => clock.2.2 _ (List.mem_map_of_mem mem) _ List.mem_cons_self
      rw [run_append]
      have after : Ordered call.env.now (perform J (Machine.run (perform J) s calls) call) :=
        before.step le_rfl
      exact after.sublist (past call (by simp)) (List.Sublist.refl _)

/-! ## The entry that eviction picks -/

theorem remove_entries : (s.cache.remove k).entries = others k s := by
  have apart := s.cache.distinct
  unfold others remove
  simp only [thin]
  generalize s.cache.entries = entries at apart
  induction entries with
  | nil => rfl
  | cons e entries ih =>
      rw [List.map_cons, List.nodup_cons] at apart
      by_cases here : e.key = k
      · subst here
        have rest : entries.filter (fun entry => entry.key ≠ e.key) = entries := by
          apply List.filter_eq_self.mpr
          intro entry mem
          have other : entry.key ≠ e.key := fun same => apart.1 (same ▸ List.mem_map_of_mem mem)
          simpa using other
        rw [List.eraseP_cons_of_pos (by simp [keyed]), List.filter_cons_of_neg (by simp), rest]
      · rw [List.eraseP_cons_of_neg (by simpa [keyed] using here),
          List.filter_cons_of_pos (by simpa using here), ih apart.2]

theorem Ordered.others_sorted (h : Ordered now s) (k : Bytes) :
    (others k s).Pairwise fun a b => a.createdAt ≤ b.createdAt :=
  h.sorted.sublist List.filter_sublist

/-- The first of entries in the order of creation is an oldest one. -/
theorem first_le {first : CacheEntry} {entries : List CacheEntry}
    (sorted : (first :: entries).Pairwise fun a b => a.createdAt ≤ b.createdAt) :
    ∀ entry ∈ first :: entries, first.createdAt ≤ entry.createdAt := by
  intro entry mem
  rcases List.mem_cons.mp mem with rfl | later
  · exact le_rfl
  · exact (List.pairwise_cons.mp sorted).1 entry later

theorem foldl_oldest_first {entries : List CacheEntry} {first : CacheEntry}
    (least : ∀ entry ∈ entries, first.createdAt ≤ entry.createdAt) :
    entries.foldl (fun oldest entry => if entry.createdAt < oldest.createdAt then entry else oldest)
      first = first := by
  induction entries with
  | nil => rfl
  | cons e entries ih =>
      have here := least e List.mem_cons_self
      rw [List.foldl_cons, if_neg (by omega)]
      exact ih fun entry mem => least entry (List.mem_cons_of_mem _ mem)

theorem oldest_sorted {entries : List CacheEntry}
    (sorted : entries.Pairwise fun a b => a.createdAt ≤ b.createdAt) :
    oldest entries = entries.head? := by
  cases entries with
  | nil => rfl
  | cons first entries =>
      rw [oldest, List.head?_cons, Option.map_some, foldl_oldest_first (first_le sorted)]

theorem Ordered.victim (h : Ordered now s) : (s.cache.remove k).victim = evicts k s := by
  unfold ClientCache.victim evicts
  rw [remove_entries, oldest_sorted (h.others_sorted k)]
  rfl

/-- The room that is made for a new entry. -/
theorem Ordered.room (h : Ordered now s) : (evict env (s.cache.remove k) s.dir).1.entries =
    if s.cache.maxEntries ≤ (others k s).length then (others k s).tail else others k s := by
  unfold evict
  rw [h.victim]
  by_cases full : s.cache.maxEntries ≤ (others k s).length
  · have first : evicts k s = (others k s).head? := if_pos full
    rw [if_pos full, first]
    cases rest : others k s with
    | nil => exact remove_entries.trans rest
    | cons first tail =>
        simp only [List.head?_cons, thin, remove_entries, rest, List.erase_cons_head, List.tail_cons]
  · have none : evicts k s = none := if_neg full
    rw [if_neg full, none]
    exact remove_entries

/-! ## The directory -/

theorem Ordered.stat_evict (granted : ∀ site, env.granted site = true) (h : Ordered now s) (p : Bytes) :
    (evict env (s.cache.remove k) s.dir).2.stat p =
      if (evicts k s).any (fun entry => cachePath entry.key == p) && (s.dir.stat p).any Inode.isFile &&
        env.unlink p then none else s.dir.stat p := by
  rw [Cache.stat_evict, evictsAt, h.victim]
  simp only [granted, Bool.and_true]

/-- What a store leaves at its path depends on nothing else in the directory. -/
theorem stat_saveToFile_self {dir dir' : CacheDir} (same : dir.stat (cachePath k) = dir'.stat (cachePath k))
    (opens : (dir.ensure env).opens (cachePath k) = (dir'.ensure env).opens (cachePath k)) :
    (saveToFile J env k jsonData dir).2.stat (cachePath k) =
      (saveToFile J env k jsonData dir').2.stat (cachePath k) := by
  cases json : J.load jsonData with
  | error text => rw [saveToFile_error json, saveToFile_error json, CacheDir.stat_ensure,
      CacheDir.stat_ensure, same]
  | ok v =>
      rw [saveToFile_ok json, saveToFile_ok json]
      split
      · rw [CacheDir.stat_dumpFile_self, CacheDir.stat_dumpFile_self, opens, CacheDir.stat_ensure,
          CacheDir.stat_ensure, same]
      · rw [CacheDir.stat_ensure, CacheDir.stat_ensure, same]

theorem opens_unlink {dir : CacheDir} {path p : Bytes} (other : p ≠ path) :
    ((dir.unlink env path).ensure env).opens p = (dir.ensure env).opens p := by
  unfold CacheDir.unlink
  split
  · cases dir with
    | missing | blocked => rfl
    | present inodes => simp [CacheDir.put, CacheDir.ensure, CacheDir.opens, other]
  · rfl

/-- The file of an evicted entry is not the one that is written. -/
theorem victim_path_ne {entry : CacheEntry} (apart : ∀ entry ∈ s.cache.entries,
    hashMd5String entry.key = hashMd5String k → entry.key = k)
    (pick : (s.cache.remove k).victim = some entry) : cachePath entry.key ≠ cachePath k := by
  obtain ⟨listed, other⟩ := mem_remove.mp (victim_mem pick)
  exact fun same => other (apart entry listed (cachePath_inj same))

theorem opens_evicted (apart : ∀ entry ∈ s.cache.entries,
    hashMd5String entry.key = hashMd5String k → entry.key = k) :
    ((evict env (s.cache.remove k) s.dir).2.ensure env).opens (cachePath k) =
      (s.dir.ensure env).opens (cachePath k) := by
  unfold evict
  cases pick : (s.cache.remove k).victim with
  | none => rfl
  | some entry =>
      simp only [deleteFile, getCacheFilepath]
      cases env.granted (.filepath entry.key) with
      | false => rfl
      | true => exact opens_unlink (victim_path_ne apart pick).symm

/-! ## The store -/

/-- The entries for other keys do not fill a list that holds the key within its limit. -/
theorem evicts_nothing (listed : k ∈ s.cache.entries.map CacheEntry.key)
    (bounded : s.cache.entries.length ≤ s.cache.maxEntries) :
    ¬ s.cache.maxEntries ≤ (others k s).length := by
  obtain ⟨entry, mem, here⟩ := List.mem_map.mp listed
  have fewer : (others k s).length < s.cache.entries.length := by
    apply List.length_filter_lt_length_iff_exists.mpr
    exact ⟨entry, mem, by simpa using here⟩
  omega

theorem Ordered.set (granted : ∀ site, env.granted site = true)
    (apart : ∀ entry ∈ s.cache.entries, hashMd5String entry.key = hashMd5String k → entry.key = k)
    (h : Ordered now s) :
    EvictsFirst J env k jsonData s (clientCacheSet J env k jsonData s).2 := by
  have stores := storesEntry_granted granted
  have list : (clientCacheSet J env k jsonData s).2.cache.entries =
      (evict env (s.cache.remove k) s.dir).1.entries ++ [⟨k, jsonData, env.now, s.cache.defaultTtl⟩] := by
    unfold clientCacheSet
    simp only [stores, if_true]
    rfl
  have elsewhere : ∀ p ≠ cachePath k, (clientCacheSet J env k jsonData s).2.dir.stat p =
      if (evicts k s).any (fun entry => cachePath entry.key == p) && (s.dir.stat p).any Inode.isFile &&
        env.unlink p then none else s.dir.stat p := by
    intro p other
    rw [clientCacheSet_dir stores, stat_saveToFile_ne other, h.stat_evict granted]
  constructor
  · rw [list, h.room]
  · intro first head entry mem
    obtain ⟨tail, rest⟩ := List.head?_eq_some_iff.mp head
    have sorted := h.others_sorted k
    rw [rest] at sorted mem
    exact first_le sorted entry mem
  · exact (clientCacheSet J env k jsonData s).2.cache.distinct
  · exact elsewhere
  · rw [clientCacheSet_dir stores]
    refine stat_saveToFile_self ?_ (opens_evicted apart)
    rw [h.stat_evict granted]
    apply if_neg
    cases pick : evicts k s with
    | none => simp
    | some entry =>
        rw [← h.victim] at pick
        simp [victim_path_ne apart pick]
  · intro listed bounded
    have room := evicts_nothing listed bounded
    have none : evicts k s = none := if_neg room
    refine ⟨by rw [list, h.room, if_neg room], fun p other => ?_⟩
    rw [elsewhere p other, none]
    rfl

/-- In every run by a clock that does not go back, a store evicts the first entry if any, and that
is the oldest one. -/
theorem cache_evicts_oldest {J : Jansson} {maxEntries : Nat} {defaultTtl : Int} {dir : CacheDir}
    {calls : List CacheCall} {k jsonData : Bytes} {env : Surroundings}
    (clock : ((calls ++ [(⟨.set k jsonData, env⟩ : CacheCall)]).map CacheCall.now).Pairwise (· ≤ ·))
    (granted : ∀ site, env.granted site = true)
    (apart : ∀ entry ∈ (run (perform J) ⟨clientCacheCreate maxEntries defaultTtl, dir⟩
      calls).cache.entries, hashMd5String entry.key = hashMd5String k → entry.key = k) :
    let s := run (perform J) ⟨clientCacheCreate maxEntries defaultTtl, dir⟩ calls
    (clientCacheSet J env k jsonData s).1 = 0 ∧
      EvictsFirst J env k jsonData s (clientCacheSet J env k jsonData s).2 := by
  intro s
  rw [List.map_append, List.pairwise_append] at clock
  have ordered : Ordered env.now s := Ordered.run rfl clock.1 fun call mem =>
    clock.2.2 _ (List.mem_map_of_mem mem) _ List.mem_cons_self
  refine ⟨?_, ordered.set granted apart⟩
  have stores := storesEntry_granted granted
  unfold clientCacheSet
  simp only [stores, if_true]

/-- Room for two entries, made in the same second. -/
theorem cache_evicts_oldest_tie :
    let s := run (perform .emptyTexts) ⟨clientCacheCreate 2 300, .missing true⟩
      [⟨.set (ascii "a") (ascii "[]"), .calm 0⟩, ⟨.set (ascii "b") (ascii "[]"), .calm 0⟩]
    (clientCacheSet .emptyTexts (.calm 1) (ascii "c") (ascii "[]") s).1 = 0 ∧
      EvictsFirst .emptyTexts (.calm 1) (ascii "c") (ascii "[]") s
        (clientCacheSet .emptyTexts (.calm 1) (ascii "c") (ascii "[]") s).2 :=
  @cache_evicts_oldest .emptyTexts 2 300 (.missing true)
    [⟨.set (ascii "a") (ascii "[]"), .calm 0⟩, ⟨.set (ascii "b") (ascii "[]"), .calm 0⟩]
    (ascii "c") (ascii "[]") (.calm 1) (by decide +kernel) (fun _ => rfl) (by decide +kernel)

end JustWeather.Cache
