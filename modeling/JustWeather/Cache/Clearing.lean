import JustWeather.Cache.Coherence

/-! # Clearing

After a clear the list is empty, and the sweep has taken the file of every key. What the sweep
spares, no later call touches either.
-/

namespace JustWeather.Cache

open CLib ClientCache Machine

/-- Neither the list nor a file holds anything under the key. -/
structure Absent (k : Bytes) (s : CacheState) : Prop where
  memory : ∀ entry ∈ s.cache.entries, entry.key ≠ k
  disk : ∀ inode, s.dir.stat (cachePath k) = some inode → inode.isFile = false

/-- The call stores nothing under a key with this hash. -/
def StoresElsewhere (k : Bytes) (call : CacheCall) : Prop :=
  ∀ key jsonData, call.op = .set key jsonData → hashMd5String key ≠ hashMd5String k

/-- What stays: `README.md`, a subdirectory, and what is in one. -/
def Stays (p : Bytes) (inode : Inode) : Prop :=
  p = CACHE_DIR ++ ascii "/README.md" ∨ isEntryPath p = false ∨ inode.isFile = false

variable {J : Jansson} {env : Surroundings} {k : Bytes} {s : CacheState}

/-! ## The key -/

theorem Absent.clear (opendir : env.opendir = true) (unlink : env.unlink (cachePath k) = true)
    (s : CacheState) : Absent k (clientCacheClear env s) := by
  constructor
  · intro entry mem
    cases mem
  · intro inode here
    unfold clientCacheClear at here
    rw [stat_sweep, opendir, isSwept_cachePath, Bool.and_self, if_pos rfl,
      CacheDir.stat_unlink_self, unlink, Bool.and_true] at here
    split at here
    · cases here
    · next kept =>
        rw [here] at kept
        simpa using kept

theorem Absent.not_loadable (absent : Absent k s) (ttl : Int) (v : J.Value) :
    ¬ Loadable J env k ttl s.dir v := by
  intro loadable
  obtain ⟨content, mtime, here, -⟩ := loadable.file
  cases absent.disk _ here

theorem Absent.step {call : CacheCall} (elsewhere : StoresElsewhere k call) (absent : Absent k s) :
    Absent k (perform J s call) := by
  constructor
  · intro entry mem
    rcases perform_entries mem with old | ⟨key, jsonData, set, rfl⟩ | ⟨key, v, reloads, rfl⟩
    · exact absent.memory entry old
    · rintro rfl
      exact elsewhere _ jsonData set rfl
    · rintro rfl
      exact absent.not_loadable _ v reloads.2.2.2
  · intro inode here
    rcases perform_stat here with old | ⟨key, jsonData, set, path, -⟩
    · exact absent.disk inode old
    · exact absurd (cachePath_inj path).symm (elsewhere key jsonData set)

theorem Absent.get (absent : Absent k s) : (clientCacheGet J env k s).1 = none := by
  cases found : (clientCacheGet J env k s).1 with
  | none => rfl
  | some x =>
      exfalso
      rcases clientCacheGet_some found with ⟨entry, here, -⟩ | ⟨v, -, loadable, -⟩
      · obtain ⟨listed, key⟩ := lookup_some here
        exact absent.memory entry listed key
      · exact absent.not_loadable _ v loadable

/-! ## The rest of the directory -/

section Rest

variable {p : Bytes} {inode : Inode} {dir : CacheDir}

theorem Stays.directory {key : Bytes} (stays : Stays p inode) (path : p = cachePath key) :
    inode.isFile = false := by
  have swept := isSwept_cachePath key
  unfold isSwept at swept
  rw [Bool.and_eq_true_iff, bne_iff_ne] at swept
  rcases stays with readme | inside | directory
  · exact absurd (path.symm.trans readme) swept.2
  · rw [path, swept.1] at inside
    cases inside
  · exact directory

theorem unlink_stays {path : Bytes} (here : dir.stat p = some inode)
    (spared : p = path → inode.isFile = false) : (dir.unlink env path).stat p = some inode := by
  by_cases same : p = path
  · rw [← same, CacheDir.stat_unlink_self, here, Option.any_some, spared same]
    rfl
  · rw [CacheDir.stat_unlink_ne same]
    exact here

theorem deleteFile_stays {key : Bytes} (stays : Stays p inode) (here : dir.stat p = some inode) :
    (deleteFile env key dir).stat p = some inode := by
  rw [stat_deleteFile]
  by_cases path : cachePath key = p
  · simp [here, stays.directory path.symm]
  · simp [path, here]

theorem saveToFile_stays {key jsonData : Bytes} (stays : Stays p inode)
    (here : dir.stat p = some inode) :
    (saveToFile J env key jsonData dir).2.stat p = some inode := by
  by_cases path : p = cachePath key
  · have directory := stays.directory path
    subst path
    cases json : J.load jsonData with
    | error text => rw [saveToFile_error json, CacheDir.stat_ensure, here]
    | ok v =>
        have closed : (dir.ensure env).opens (cachePath key) = false := by
          rw [← CacheDir.stat_ensure env] at here
          cases made : dir.ensure env with
          | missing | blocked => rfl
          | present inodes =>
              rw [made] at here
              simp only [CacheDir.stat] at here
              simp only [CacheDir.opens, here, Option.all_some, directory]
        rw [saveToFile_ok json]
        split
        · rw [CacheDir.stat_dumpFile_self, closed, Bool.false_and, if_neg Bool.false_ne_true,
            CacheDir.stat_ensure, here]
        · rw [CacheDir.stat_ensure, here]
  · rw [stat_saveToFile_ne path]
    exact here

theorem sweep_stays (stays : Stays p inode) (here : dir.stat p = some inode) :
    (sweep env dir).stat p = some inode := by
  rw [stat_sweep]
  split
  · next swept =>
      unfold isSwept at swept
      rw [Bool.and_eq_true_iff, Bool.and_eq_true_iff, bne_iff_ne] at swept
      apply unlink_stays here
      intro _
      rcases stays with readme | inside | directory
      · exact absurd readme swept.2.2
      · rw [swept.2.1] at inside
        cases inside
      · exact directory
  · exact here

theorem clientCacheSet_stays {key jsonData : Bytes} (stays : Stays p inode)
    (here : s.dir.stat p = some inode) :
    (clientCacheSet J env key jsonData s).2.dir.stat p = some inode := by
  have room : (evict env (s.cache.remove key) s.dir).2.stat p = some inode := by
    unfold evict
    split
    · exact here
    · exact deleteFile_stays stays here
  unfold clientCacheSet
  simp only
  split
  · exact saveToFile_stays stays room
  · exact room

theorem clientCacheGet_stays {key : Bytes} (stays : Stays p inode) (here : s.dir.stat p = some inode) :
    (clientCacheGet J env key s).2.dir.stat p = some inode := by
  have loaded : (loadFromFile J env key s.cache.defaultTtl s.dir).2.stat p = some inode := by
    rw [loadFromFile_snd]
    split
    · exact unlink_stays here stays.directory
    · exact here
  unfold clientCacheGet
  split
  · split
    · exact deleteFile_stays stays here
    · split <;> exact here
  · unfold reload
    split
    · next eq => rwa [eq] at loaded
    · next eq =>
        rw [eq] at loaded
        split <;> exact loaded

theorem clientCacheClear_stays (stays : Stays p inode) (here : s.dir.stat p = some inode) :
    (clientCacheClear env s).dir.stat p = some inode := by
  apply sweep_stays stays
  apply List.foldlRecOn (motive := fun dir => CacheDir.stat dir p = some inode) _ _ here
  intro dir here entry _
  exact deleteFile_stays stays here

theorem perform_stays {call : CacheCall} (stays : Stays p inode) (here : s.dir.stat p = some inode) :
    (perform J s call).dir.stat p = some inode := by
  obtain ⟨op, env⟩ := call
  cases op with
  | set key jsonData => exact clientCacheSet_stays stays here
  | get key => exact clientCacheGet_stays stays here
  | clear => exact clientCacheClear_stays stays here
  | restart => exact here

end Rest

/-- After a clear the list is empty, no key is found until it is stored again, and what is no file
of the cache stays for good. -/
theorem cache_cleared {J : Jansson} {env : Surroundings} (opendir : env.opendir = true)
    (unlink : ∀ path, env.unlink path = true) (s : CacheState) :
    (clientCacheClear env s).cache.entries = [] ∧
    (∀ k calls env', (∀ call ∈ calls, StoresElsewhere k call) →
      (clientCacheGet J env' k (run (perform J) (clientCacheClear env s) calls)).1 = none) ∧
    ∀ p inode, Stays p inode → s.dir.stat p = some inode → ∀ calls,
      (run (perform J) (clientCacheClear env s) calls).dir.stat p = some inode := by
  refine ⟨rfl, ?_, ?_⟩
  · intro k calls env' elsewhere
    have absent : Absent k (run (perform J) (clientCacheClear env s) calls) :=
      run_invariant (P := fun _ call => StoresElsewhere k call) (fun _ _ => Absent.step)
        (Absent.clear opendir (unlink _) s) (along_of_forall elsewhere)
    exact absent.get
  · intro p inode stays here calls
    have preserves : ∀ (s : CacheState) (call : CacheCall), True → s.dir.stat p = some inode →
        (perform J s call).dir.stat p = some inode := fun _ _ _ => perform_stays stays
    exact run_invariant preserves (clientCacheClear_stays stays here)
      (along_of_forall fun _ _ => trivial)

/-- A directory with the files of two keys, `README.md` and a subdirectory. -/
theorem cache_cleared_readme :
    let s : CacheState := ⟨clientCacheCreate 50 300, .present fun p =>
      if p = CACHE_DIR ++ ascii "/README.md" then some (.file (ascii "Cache") 0)
      else if p = CACHE_DIR ++ ascii "/old" then some (.directory 0)
      else if p = CACHE_DIR ++ ascii "/old/a" ∨ p = cachePath (ascii "a") ∨ p = cachePath (ascii "b") then
        some (.file (ascii "[]") 0)
      else none⟩
    (clientCacheGet .emptyTexts (.calm 2) (ascii "a") (run (perform .emptyTexts)
      (clientCacheClear (.calm 1) s) [⟨.restart, .calm 1⟩, ⟨.get (ascii "b"), .calm 2⟩])).1 = none ∧
    (run (perform .emptyTexts) (clientCacheClear (.calm 1) s) []).dir.stat
      (CACHE_DIR ++ ascii "/old/a") = some (.file (ascii "[]") 0) := by
  intro s
  obtain ⟨-, gone, rest⟩ := @cache_cleared .emptyTexts (.calm 1) rfl (fun _ => rfl) s
  constructor
  · apply gone
    intro call mem key jsonData set
    simp only [List.mem_cons, List.not_mem_nil, or_false] at mem
    rcases mem with rfl | rfl <;> cases set
  · apply rest
    · exact .inr (.inl (by decide))
    · decide +kernel

end JustWeather.Cache
