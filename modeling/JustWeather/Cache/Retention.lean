import JustWeather.Cache.Eviction
import JustWeather.Cache.Freshness
import JustWeather.Cache.Lookups
import JustWeather.Cache.Residence
import JustWeather.Cache.Stored
import JustWeather.Machine.Recency

/-! # What a cache still has

For a single process whose files are those of its entries: a stored text is there until the life of
its entry ends or as many other keys as the list is for have been stored behind it.
-/

namespace JustWeather.Cache

open CLib ClientCache Machine

/-- The keys that the calls store. -/
def storedKeys (calls : List CacheCall) : Finset Bytes :=
  (calls.filterMap fun call => match call.op with
    | .set key _ => some key
    | _ => none).toFinset

/-- A call until this time in which nothing fails: it stores JSON under another key than this, or
looks up any. -/
structure Lively (J : Jansson) (keys : Set Bytes) (k : Bytes) (until_ : Int) (call : CacheCall) :
    Prop where
  calm : call.env.Calm
  early : call.env.now ≤ until_
  op : (∃ key jsonData v, call.op = .set key jsonData ∧ key ∈ keys ∧ key ≠ k ∧
    J.load jsonData = .ok v) ∨ ∃ key ∈ keys, call.op = .get key

/-- The entry is in the list with the entries for these keys behind it, all with their files, or has
been evicted by that many. -/
structure Retained (keys : Set Bytes) (entry : CacheEntry) (stored : Finset Bytes) (now : Int)
    (s : CacheState) : Prop where
  resident : Resident keys s
  ordered : Ordered now s
  ttl : entry.ttl = s.cache.defaultTtl
  made : entry.createdAt ≤ now
  listed : stored.card < s.cache.maxEntries →
    Recency.Behind CacheEntry.key entry stored s.cache.entries ∧
      ∀ e ∈ s.cache.entries, e = entry ∨ e.key ∈ stored →
        entry.createdAt + entry.ttl ≤ e.createdAt + e.ttl ∧
        (s.dir.stat (cachePath e.key)).isSome = true
  gone : s.cache.maxEntries ≤ stored.card → s.cache.lookup entry.key = none

variable {J : Jansson} {keys : Set Bytes} {entry : CacheEntry} {stored : Finset Bytes} {now : Int}
  {s : CacheState} {env : Surroundings} {key jsonData : Bytes}

/-! ## A store -/

/-- A store leaves the file of an entry that it keeps. -/
theorem clientCacheSet_stat_kept (apart : Set.InjOn hashMd5String keys) (resident : Resident keys s)
    (stores : storesEntry env = true) (mem : key ∈ keys) {e : CacheEntry}
    (listed : e ∈ s.cache.entries) (other : e.key ≠ key) (kept : evictedKey s key ≠ some e.key) :
    (clientCacheSet J env key jsonData s).2.dir.stat (cachePath e.key) =
      s.dir.stat (cachePath e.key) := by
  have path : ∀ k ∈ keys, cachePath e.key = cachePath k → e.key = k := fun k mem' same =>
    apart (resident.keyed e listed) mem' (cachePath_inj same)
  rw [clientCacheSet_dir stores, stat_saveToFile_ne fun same => other (path key mem same), stat_evict]
  apply if_neg
  unfold evictsAt
  cases pick : (s.cache.remove key).victim with
  | none => simp
  | some victim =>
      have ours := resident.keyed victim (mem_remove.mp (victim_mem pick)).1
      have apart' : cachePath victim.key ≠ cachePath e.key := by
        intro same
        apply kept
        rw [evictedKey, pick, path _ ours same.symm]
        rfl
      simp [apart']

/-- In a directory with a file, a calm store writes its own. -/
theorem clientCacheSet_writes (calm : env.Calm) {v : J.Value} (json : J.load jsonData = .ok v)
    {p : Bytes} (there : (s.dir.stat p).isSome = true) :
    ((clientCacheSet J env key jsonData s).2.dir.stat (cachePath key)).isSome = true := by
  rw [clientCacheSet_dir (storesEntry_granted calm.granted), saveToFile_stat_isSome json]
  right
  refine ⟨calm.granted _, calm.granted _, by simp [calm.write], ?_⟩
  rw [evict_ready]
  cases dir : s.dir with
  | present inodes => rfl
  | missing | blocked =>
      rw [dir] at there
      cases there

theorem lookup_eq_none {cache : ClientCache} {k : Bytes}
    (absent : k ∉ cache.entries.map CacheEntry.key) : cache.lookup k = none := by
  apply List.find?_eq_none.mpr
  intro e mem same
  have key : e.key = k := by simpa [keyed] using same
  exact absent (key ▸ List.mem_map_of_mem mem)

/-- The new list, when the keys do not collide. -/
theorem Retained.push (apart : Set.InjOn hashMd5String keys) (calm : env.Calm) (mem : key ∈ keys)
    (h : Retained keys entry stored now s) :
    (clientCacheSet J env key jsonData s).2.cache.entries = Recency.push CacheEntry.key
      s.cache.maxEntries ⟨key, jsonData, env.now, s.cache.defaultTtl⟩ s.cache.entries :=
  (h.ordered.set calm.granted fun e listed same => apart (h.resident.keyed e listed) mem same).entries

theorem Retained.set (apart : Set.InjOn hashMd5String keys) (calm : env.Calm) (mem : key ∈ keys)
    (other : key ≠ entry.key) {v : J.Value} (json : J.load jsonData = .ok v) (later : now ≤ env.now)
    (h : Retained keys entry stored now s) :
    Retained keys entry (insert key stored) env.now (perform J s ⟨.set key jsonData, env⟩) := by
  have stores := storesEntry_granted calm.granted
  obtain ⟨most, ttl⟩ := perform_limits J s ⟨.set key jsonData, env⟩
  have steady : Steady keys ⟨.set key jsonData, env⟩ :=
    ⟨calm.unlink, calm.granted, nofun, fun _ _ op => by cases op; exact mem, nofun⟩
  have pushed := @Retained.push J keys entry stored now s env key jsonData apart calm mem h
  have fewer := Finset.card_le_card (Finset.subset_insert key stored)
  have made := h.made
  have life := h.ttl
  have ordered : Ordered env.now (perform J s ⟨.set key jsonData, env⟩) :=
    @Ordered.step J s now ⟨.set key jsonData, env⟩ later h.ordered
  refine ⟨h.resident.step apart steady, ordered, life.trans ttl.symm, by omega, ?_, ?_⟩
  · intro few
    rw [most] at few
    obtain ⟨behind, alive⟩ := h.listed (by omega)
    refine ⟨?_, ?_⟩
    · rw [perform, pushed]
      exact behind.push s.cache.distinct other few
    · intro e listed ours
      rcases clientCacheSet_entries listed with ⟨old, differs, kept⟩ | ⟨-, rfl⟩
      · have ours : e = entry ∨ e.key ∈ stored :=
          ours.imp_right fun inserted => (Finset.mem_insert.mp inserted).resolve_left differs
        obtain ⟨long, file⟩ := alive e old ours
        refine ⟨long, ?_⟩
        rw [perform, clientCacheSet_stat_kept apart h.resident stores mem old differs kept]
        exact file
      · obtain ⟨front, back, split, -⟩ := behind
        have listed : entry ∈ s.cache.entries := by
          rw [split]
          exact List.mem_append_right _ List.mem_cons_self
        refine ⟨by simp only; omega, clientCacheSet_writes calm json (alive entry listed (.inl rfl)).2⟩
  · intro full
    rw [most] at full
    by_cases few : stored.card < s.cache.maxEntries
    · apply lookup_eq_none
      rw [perform, pushed]
      exact (h.listed few).1.push_full s.cache.distinct h.resident.bounded other few full
    · have absent := h.gone (by omega)
      apply lookup_eq_none
      intro listed
      obtain ⟨e, listed, key_⟩ := List.mem_map.mp listed
      rcases clientCacheSet_entries listed with ⟨old, -⟩ | ⟨-, rfl⟩
      · exact lookup_none absent (key_ ▸ List.mem_map_of_mem old)
      · exact other key_

/-! ## A lookup -/

/-- A search finds the one entry with the key. -/
theorem lookup_listed {cache : ClientCache} {e : CacheEntry} {k : Bytes} (listed : e ∈ cache.entries)
    (same : e.key = k) : cache.lookup k = some e := by
  cases found : cache.lookup k with
  | none => exact absurd (same ▸ List.mem_map_of_mem listed) (lookup_none found)
  | some e' =>
      obtain ⟨listed', same'⟩ := lookup_some found
      rw [List.inj_on_of_nodup_map cache.distinct listed' listed (same'.trans same.symm)]

/-- A live entry with its file stays. -/
theorem clientCacheGet_hits {e : CacheEntry} (found : s.cache.lookup key = some e)
    (young : env.now - e.createdAt ≤ e.ttl) (file : (s.dir.stat (cachePath key)).isSome = true) :
    (clientCacheGet J env key s).2 = s := by
  have there : ¬ (getCacheFilepath env key).any (fun filepath => (s.dir.stat filepath).isNone) = true := by
    intro gone
    rw [(noFile_iff.mp gone).2] at file
    cases file
  rw [clientCacheGet_found found, if_neg (by omega), if_neg there]

theorem Retained.get (apart : Set.InjOn hashMd5String keys) (calm : env.Calm) (mem : key ∈ keys)
    (later : now ≤ env.now) (early : env.now ≤ entry.createdAt + entry.ttl)
    (h : Retained keys entry stored now s) :
    Retained keys entry stored env.now (perform J s ⟨.get key, env⟩) := by
  obtain ⟨most, ttl⟩ := perform_limits J s ⟨.get key, env⟩
  have performs : perform J s ⟨.get key, env⟩ = (clientCacheGet J env key s).2 := rfl
  have steady : Steady keys ⟨.get key, env⟩ :=
    ⟨calm.unlink, calm.granted, nofun, nofun, fun _ op => by cases op; exact mem⟩
  have made := h.made
  have life := h.ttl
  have part : ∀ e ∈ (clientCacheGet J env key s).2.cache.entries, e ∈ s.cache.entries := by
    intro e listed
    rcases clientCacheGet_entries listed with old | ⟨v, absent, -, loadable, -⟩
    · exact old
    · exact absurd loadable (h.resident.not_loadable apart mem absent _ v)
  have ordered : Ordered env.now (perform J s ⟨.get key, env⟩) :=
    @Ordered.step J s now ⟨.get key, env⟩ later h.ordered
  refine ⟨h.resident.step apart steady, ordered, life.trans ttl.symm, by omega, ?_, ?_⟩
  · intro few
    rw [most] at few
    obtain ⟨behind, alive⟩ := h.listed few
    by_cases ours : key = entry.key ∨ key ∈ stored
    · -- the entry is alive and has its file
      obtain ⟨e, listed, key_, same⟩ :
          ∃ e ∈ s.cache.entries, e.key = key ∧ (e = entry ∨ e.key ∈ stored) := by
        obtain ⟨front, back, split, rfl⟩ := behind
        rw [split]
        rcases ours with rfl | mem
        · exact ⟨entry, by simp, rfl, .inl rfl⟩
        · obtain ⟨e, inBack, rfl⟩ := List.mem_map.mp (List.mem_toFinset.mp mem)
          exact ⟨e, by simp [inBack], rfl, .inr mem⟩
      obtain ⟨long, file⟩ := alive e listed same
      have hit : perform J s ⟨.get key, env⟩ = s := by
        have found : s.cache.lookup key = some e := lookup_listed listed key_
        have young : env.now - e.createdAt ≤ e.ttl := by omega
        rw [key_] at file
        exact clientCacheGet_hits found young file
      rw [hit]
      exact ⟨behind, alive⟩
    · obtain ⟨differs, none⟩ := not_or.mp ours
      constructor
      · obtain ⟨result, s', eq, looked⟩ := @clientCacheGet_looked J env key s
        rw [performs, eq]
        cases looked with
        | hit | missed => exact behind
        | dropped =>
            rw [remove_entries]
            exact behind.others differs none
        | reloaded absent loadable => exact absurd loadable (h.resident.not_loadable apart mem absent _ _)
        | unkept => exact behind
      · intro e listed same
        obtain ⟨long, file⟩ := alive e (part e listed) same
        refine ⟨long, ?_⟩
        have path : cachePath e.key ≠ cachePath key := by
          intro path
          have key_ := apart (h.resident.keyed e (part e listed)) mem (cachePath_inj path)
          rcases same with rfl | inside
          · exact differs key_.symm
          · exact none (key_ ▸ inside)
        rw [performs, clientCacheGet_stat_ne path]
        exact file
  · intro full
    rw [most] at full
    apply lookup_eq_none
    intro listed
    obtain ⟨e, listed, key_⟩ := List.mem_map.mp listed
    exact lookup_none (h.gone full) (key_ ▸ List.mem_map_of_mem (part e listed))

/-! ## Runs -/

theorem Retained.later {now' : Int} (later : now ≤ now') (h : Retained keys entry stored now s) :
    Retained keys entry stored now' s :=
  ⟨h.resident, h.ordered.sublist later (List.Sublist.refl _), h.ttl, h.made.trans later, h.listed,
    h.gone⟩

/-- Behind a store that wrote its file there is nothing. -/
theorem Retained.start (apart : Set.InjOn hashMd5String keys) (calm : env.Calm) (mem : key ∈ keys)
    (later : now ≤ env.now) (resident : Resident keys s) (ordered : Ordered now s)
    (written : ((clientCacheSet J env key jsonData s).2.dir.stat (cachePath key)).isSome = true) :
    Retained keys ⟨key, jsonData, env.now, s.cache.defaultTtl⟩ ∅ env.now
      (perform J s ⟨.set key jsonData, env⟩) := by
  obtain ⟨most, ttl⟩ := perform_limits J s ⟨.set key jsonData, env⟩
  have steady : Steady keys ⟨.set key jsonData, env⟩ :=
    ⟨calm.unlink, calm.granted, nofun, fun _ _ op => by cases op; exact mem, nofun⟩
  have ordered' : Ordered env.now (perform J s ⟨.set key jsonData, env⟩) :=
    @Ordered.step J s now ⟨.set key jsonData, env⟩ later ordered
  refine ⟨resident.step apart steady, ordered', ttl.symm, le_rfl, fun _ => ⟨?_, ?_⟩, fun full => ?_⟩
  · have evicts : EvictsFirst J env key jsonData s (clientCacheSet J env key jsonData s).2 :=
      ordered.set calm.granted fun e listed same => apart (resident.keyed e listed) mem same
    exact ⟨_, [], evicts.entries, rfl⟩
  · rintro e - (rfl | none)
    · exact ⟨le_rfl, written⟩
    · cases none
  · have room := s.cache.capacity
    rw [most, Finset.card_empty] at full
    omega

theorem storedKeys_snoc (calls : List CacheCall) (call : CacheCall) : storedKeys (calls ++ [call]) =
    match call.op with
    | .set key _ => insert key (storedKeys calls)
    | _ => storedKeys calls := by
  obtain ⟨op, env⟩ := call
  unfold storedKeys
  rw [List.filterMap_append, List.toFinset_append]
  cases op with
  | set key jsonData =>
      rw [Finset.union_comm]
      rfl
  | get | clear | restart => exact Finset.union_empty _

theorem Retained.run {calls : List CacheCall} (apart : Set.InjOn hashMd5String keys)
    (lively : ∀ call ∈ calls, Lively J keys entry.key (entry.createdAt + entry.ttl) call)
    (clock : (calls.map CacheCall.now).Pairwise (· ≤ ·)) {later : Int}
    (bounds : now ≤ later ∧ ∀ call ∈ calls, now ≤ call.env.now ∧ call.env.now ≤ later)
    (h : Retained keys entry ∅ now s) :
    Retained keys entry (storedKeys calls) later (run (perform J) s calls) := by
  induction calls using List.reverseRecOn generalizing later with
  | nil => exact h.later bounds.1
  | append_singleton calls call ih =>
      obtain ⟨last, upTo⟩ := bounds.2 call (by simp)
      rw [List.map_append, List.pairwise_append] at clock
      have before := ih (fun c mem => lively c (List.mem_append_left _ mem)) clock.1
        ⟨last, fun c mem => ⟨(bounds.2 c (List.mem_append_left _ mem)).1,
          clock.2.2 _ (List.mem_map_of_mem mem) _ List.mem_cons_self⟩⟩
      obtain ⟨calm, early, op⟩ := lively call (by simp)
      obtain ⟨op_, env⟩ := call
      rw [run_append, storedKeys_snoc]
      apply Retained.later upTo
      rcases op with ⟨key, jsonData, v, rfl, mem, other, json⟩ | ⟨key, mem, rfl⟩
      · exact before.set apart calm mem other json le_rfl
      · exact before.get apart calm mem le_rfl early

/-- What is found of a retained entry. -/
theorem Retained.found (apart : Set.InjOn hashMd5String keys) (calm : env.Calm) (mem : entry.key ∈ keys)
    (early : env.now ≤ entry.createdAt + entry.ttl) (h : Retained keys entry stored now s) :
    (clientCacheGet J env entry.key s).1 =
      if stored.card < s.cache.maxEntries then some entry.jsonData else none := by
  split
  · next few =>
      obtain ⟨⟨front, back, split, -⟩, alive⟩ := h.listed few
      have listed : entry ∈ s.cache.entries := by
        rw [split]
        exact List.mem_append_right _ List.mem_cons_self
      have young : env.now - entry.createdAt ≤ entry.ttl := by omega
      apply (clientCacheGet_alive (lookup_listed listed rfl) young _).mpr
      exact ⟨rfl, calm.granted _, fun _ => (alive entry listed (.inl rfl)).2⟩
  · next full =>
      have absent := h.gone (by omega)
      cases result : (clientCacheGet J env entry.key s).1 with
      | none => rfl
      | some x =>
          rcases clientCacheGet_some result with ⟨e, here, -⟩ | ⟨v, -, loadable, -⟩
          · cases absent.symm.trans here
          · exact absurd loadable (h.resident.not_loadable apart mem absent _ v)

theorem run_most (J : Jansson) (s : CacheState) (calls : List CacheCall) :
    (run (perform J) s calls).cache.maxEntries = s.cache.maxEntries := by
  have preserves : ∀ t call, True → t.cache.maxEntries = s.cache.maxEntries →
      (perform J t call).cache.maxEntries = s.cache.maxEntries :=
    fun t call _ same => (perform_limits J t call).1.trans same
  exact run_invariant preserves rfl (along_of_forall fun _ _ => trivial)

theorem Resident.run {maxEntries : Nat} {defaultTtl : Int} {dir : CacheDir} {calls : List CacheCall}
    (apart : Set.InjOn hashMd5String keys) (empty : ∀ p, dir.stat p = none)
    (steady : ∀ call ∈ calls, Steady keys call) :
    Resident keys (run (perform J) ⟨clientCacheCreate maxEntries defaultTtl, dir⟩ calls) := by
  have start : Resident keys ⟨clientCacheCreate maxEntries defaultTtl, dir⟩ := by
    refine ⟨nofun, fun p inode here => ?_, Nat.zero_le _⟩
    exact absurd (here.symm.trans (empty p)) (Option.some_ne_none inode)
  exact run_invariant (P := fun _ call => Steady keys call) (fun _ _ => Resident.step apart) start
    (along_of_forall steady)

/-- For a single process that starts with an empty directory and uses keys with files of their own: a
text that is stored with its file is found, until the life of its entry ends, exactly when fewer other
keys than the list is for have been stored since. Before that store files may fail to be made or
written; from then on nothing fails, and there are only lookups and stores of JSON under other keys. -/
theorem cache_retains {J : Jansson} {maxEntries : Nat} {defaultTtl : Int} {dir : CacheDir}
    {keys : Set Bytes} {before after : List CacheCall} {k d : Bytes} {env env' : Surroundings}
    (apart : Set.InjOn hashMd5String keys) (empty : ∀ p, dir.stat p = none)
    (steady : ∀ call ∈ before, Steady keys call) (mem : k ∈ keys) (calm : env.Calm)
    (clock : ((before ++ ⟨.set k d, env⟩ :: after).map CacheCall.now).Pairwise (· ≤ ·))
    (written : ((clientCacheSet J env k d (run (perform J)
      ⟨clientCacheCreate maxEntries defaultTtl, dir⟩ before)).2.dir.stat (cachePath k)).isSome = true)
    (lively : ∀ call ∈ after, Lively J keys k
      (env.now + (clientCacheCreate maxEntries defaultTtl).defaultTtl) call)
    (calm' : env'.Calm)
    (early : env'.now ≤ env.now + (clientCacheCreate maxEntries defaultTtl).defaultTtl) :
    (clientCacheGet J env' k (run (perform J) ⟨clientCacheCreate maxEntries defaultTtl, dir⟩
      (before ++ ⟨.set k d, env⟩ :: after))).1 =
        if (storedKeys after).card < (clientCacheCreate maxEntries defaultTtl).maxEntries then some d
        else none := by
  obtain ⟨s, state⟩ : ∃ s, s = run (perform J) ⟨clientCacheCreate maxEntries defaultTtl, dir⟩ before :=
    ⟨_, rfl⟩
  have ttl : s.cache.defaultTtl = (clientCacheCreate maxEntries defaultTtl).defaultTtl :=
    state ▸ run_limits J _ before
  rw [List.map_append, List.pairwise_append, List.map_cons, List.pairwise_cons] at clock
  have past : ∀ call ∈ before, call.env.now ≤ env.now :=
    fun call mem => clock.2.2 _ (List.mem_map_of_mem mem) _ List.mem_cons_self
  have next : ∀ call ∈ after, env.now ≤ call.env.now :=
    fun call mem => clock.2.1.1 _ (List.mem_map_of_mem mem)
  have resident : Resident keys s := state ▸ Resident.run apart empty steady
  have ordered : Ordered env.now s := state ▸ Ordered.run rfl clock.1 past
  have alive := (clientCacheCreate maxEntries defaultTtl).lifetime
  rw [← state] at written
  have started := Retained.start apart calm mem le_rfl resident ordered written
  have ended := started.run apart (fun call mem => ttl ▸ lively call mem) clock.2.1.2
    ⟨by omega, fun call mem => ⟨next call mem, (lively call mem).early⟩⟩
  have found := ended.found (J := J) apart calm' mem (ttl ▸ early)
  rw [run_append, ← state, run_cons, found, run_most, (perform_limits J s _).1, state, run_most]

/-- Room for two: another key stored twice leaves the first one, a third key does not. -/
theorem cache_retains_two :
    let twice : List CacheCall := [⟨.set (ascii "b") (ascii "[]"), .calm 1⟩, ⟨.get (ascii "a"), .calm 2⟩,
      ⟨.set (ascii "b") (ascii "\x7b\x7d"), .calm 3⟩]
    let reached := fun after => run (perform .emptyTexts)
      ⟨clientCacheCreate 2 300, .present fun _ => none⟩
      ([] ++ ⟨.set (ascii "a") (ascii "[]"), .calm 0⟩ :: after)
    (clientCacheGet .emptyTexts (.calm 300) (ascii "a") (reached twice)).1 = some (ascii "[]") ∧
    (clientCacheGet .emptyTexts (.calm 300) (ascii "a")
      (reached (twice ++ [⟨.set (ascii "c") (ascii "[]"), .calm 4⟩]))).1 = none := by
  intro twice reached
  have apart : Set.InjOn hashMd5String ({ascii "a", ascii "b", ascii "c"} : Set Bytes) := by
    rintro x (rfl | rfl | rfl) y (rfl | rfl | rfl) same
    all_goals first
      | rfl
      | exact absurd same (by decide +kernel)
  have stores : ∀ key ∈ ({ascii "b", ascii "c"} : Set Bytes), ∀ now ≤ 300, ∀ d v,
      Jansson.emptyTexts.load d = .ok v → Lively .emptyTexts {ascii "a", ascii "b", ascii "c"} (ascii "a")
        (0 + 300) ⟨.set key d, .calm now⟩ := by
    rintro key mem now early d v loads
    refine ⟨Surroundings.calm_calm now, early, .inl ⟨key, d, v, rfl, .inr mem, ?_, loads⟩⟩
    rcases mem with rfl | rfl <;> decide
  have lively : ∀ call ∈ twice ++ [⟨.set (ascii "c") (ascii "[]"), .calm 4⟩],
      Lively .emptyTexts {ascii "a", ascii "b", ascii "c"} (ascii "a") (0 + 300) call := by
    intro call mem
    simp only [twice, List.cons_append, List.nil_append, List.mem_cons, List.not_mem_nil, or_false] at mem
    rcases mem with rfl | rfl | rfl | rfl
    · exact stores _ (.inl rfl) 1 (by decide) _ false rfl
    · exact ⟨Surroundings.calm_calm 2, by decide, .inr ⟨_, .inl rfl, rfl⟩⟩
    · exact stores _ (.inl rfl) 3 (by decide) _ true rfl
    · exact stores _ (.inr rfl) 4 (by decide) _ false rfl
  have found : ∀ after, (∀ call ∈ after, Lively .emptyTexts {ascii "a", ascii "b", ascii "c"} (ascii "a")
      (0 + 300) call) → (0 :: after.map CacheCall.now).Pairwise (· ≤ ·) →
      (clientCacheGet .emptyTexts (.calm 300) (ascii "a") (reached after)).1 =
        if (storedKeys after).card < 2 then some (ascii "[]") else none := by
    intro after lively clock
    exact cache_retains apart (fun _ => rfl) (fun _ none => absurd none List.not_mem_nil) (.inl rfl)
      (Surroundings.calm_calm 0) clock (by decide +kernel) lively (Surroundings.calm_calm 300) (by decide)
  constructor
  · rw [found twice (fun call mem => lively call (List.mem_append_left _ mem)) (by decide), if_pos]
    decide
  · rw [found _ lively (by decide), if_neg]
    decide

end JustWeather.Cache
