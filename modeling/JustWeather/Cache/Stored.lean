import JustWeather.Cache.Run

/-! # A store and the lookup after it

A store reports success when its entry is in the list. A lookup wants the file
as well, and drops the entry where there is none.
-/

namespace JustWeather.Cache

open CLib ClientCache

/-- The directory is there, or is made. -/
def CacheDir.ready (env : Surroundings) : CacheDir → Bool
  | present _ => true
  | missing parent => parent && env.mkdir
  | blocked => false

/-- The store gets as far as opening the file. -/
structure WritesFile (env : Surroundings) (k : Bytes) (s : CacheState) : Prop where
  path : env.granted (.filepath k) = true
  json : env.granted .json = true
  opened : env.write ≠ .refused
  ready : s.dir.ready env = true

/-- The evicted key has the path of this one, and its file is removed. -/
def EvictsFile (env : Surroundings) (k : Bytes) (s : CacheState) : Prop :=
  ∃ key, evictedKey s k = some key ∧ cachePath key = cachePath k ∧
    env.granted (.filepath key) = true ∧ env.unlink (cachePath k) = true

/-- After the store something stands at the path of the key: it was there before and stays, or the
store makes it. -/
def FileStands (env : Surroundings) (k : Bytes) (s : CacheState) : Prop :=
  (∃ inode, s.dir.stat (cachePath k) = some inode ∧ (inode.isFile = true → ¬ EvictsFile env k s)) ∨
    WritesFile env k s

variable {J : Jansson} {env : Surroundings} {k jsonData : Bytes} {s : CacheState}

/-- Making room leaves what stands at the path, unless it is the evicted file. -/
theorem evict_stat_isSome : ((evict env (s.cache.remove k) s.dir).2.stat (cachePath k)).isSome = true ↔
    ∃ inode, s.dir.stat (cachePath k) = some inode ∧
      (inode.isFile = true → ¬ EvictsFile env k s) := by
  have gone : evictsAt env (s.cache.remove k) s.dir (cachePath k) = true ↔
      EvictsFile env k s ∧ (s.dir.stat (cachePath k)).any Inode.isFile = true := by
    simp only [evictsAt, EvictsFile, evictedKey]
    cases (s.cache.remove k).victim with
    | none => simp
    | some entry =>
        simp only [Option.any_some, Option.map_some, Option.some.injEq, Bool.and_eq_true, beq_iff_eq]
        constructor
        · rintro ⟨⟨⟨path, granted⟩, file⟩, unlink⟩
          exact ⟨⟨_, rfl, path, granted, unlink⟩, file⟩
        · rintro ⟨⟨_, rfl, path, granted, unlink⟩, file⟩
          exact ⟨⟨⟨path, granted⟩, file⟩, unlink⟩
  rw [stat_evict]
  split
  · next goes =>
      obtain ⟨evicts, file⟩ := gone.mp goes
      refine iff_of_false (by simp) ?_
      rintro ⟨inode, here, kept⟩
      rw [here] at file
      exact kept file evicts
  · next stays =>
      rw [Option.isSome_iff_exists]
      refine exists_congr fun inode => ⟨fun here => ⟨here, fun file evicts => ?_⟩, And.left⟩
      exact stays (gone.mpr ⟨evicts, by rw [here]; exact file⟩)

theorem ensure_opens {dir : CacheDir} {path : Bytes} (none : dir.stat path = none) :
    (dir.ensure env).opens path = dir.ready env := by
  cases dir with
  | present inodes =>
      simp only [CacheDir.stat] at none
      simp [CacheDir.ensure, CacheDir.opens, CacheDir.ready, none]
  | blocked => rfl
  | missing parent => cases parent <;> cases made : env.mkdir <;>
      simp [CacheDir.ensure, CacheDir.opens, CacheDir.ready, made]

theorem saveToFile_stat_isSome {dir : CacheDir} {v : J.Value} (json : J.load jsonData = .ok v) :
    ((saveToFile J env k jsonData dir).2.stat (cachePath k)).isSome = true ↔
      (dir.stat (cachePath k)).isSome = true ∨ env.granted (.filepath k) = true ∧
        env.granted .json = true ∧ env.write ≠ .refused ∧ dir.ready env = true := by
  have opened : (CacheDir.written env (J.dump v)).isSome = true ↔ env.write ≠ .refused := by
    unfold CacheDir.written
    cases env.write <;> simp
  rw [saveToFile_ok json]
  cases before : dir.stat (cachePath k) with
  | some inode =>
      refine iff_of_true ?_ (.inl rfl)
      split
      · rw [CacheDir.stat_dumpFile_self]
        split
        · next wrote => exact (Bool.and_eq_true_iff.mp wrote).2
        · rw [CacheDir.stat_ensure, before]
          rfl
      · rw [CacheDir.stat_ensure, before]
        rfl
  | none =>
      rw [← opened, ← ensure_opens before]
      split
      · next granted =>
          rw [Bool.and_eq_true_iff] at granted
          rw [CacheDir.stat_dumpFile_self]
          split
          · next wrote =>
              rw [Bool.and_eq_true_iff] at wrote
              simp [granted, wrote]
          · next refused =>
              refine iff_of_false (by simp [before]) ?_
              rintro (found | ⟨-, -, wrote, opens⟩)
              · cases found
              · exact refused (by rw [opens, wrote]; rfl)
      · next refused =>
          refine iff_of_false (by simp [before]) ?_
          rintro (found | ⟨path, loaded, -⟩)
          · cases found
          · exact refused (by rw [path, loaded]; rfl)

theorem evict_ready (cache : ClientCache) (dir : CacheDir) :
    (evict env cache dir).2.ready env = dir.ready env := by
  have put : ∀ (dir : CacheDir) path, (dir.unlink env path).ready env = dir.ready env := by
    intro dir path
    unfold CacheDir.unlink
    split
    · cases dir <;> rfl
    · rfl
  unfold evict
  split
  · rfl
  · unfold deleteFile
    split
    · rfl
    · exact put _ _

theorem clientCacheSet_stored (stored : (clientCacheSet J env k jsonData s).1 = 0) :
    storesEntry env = true := by
  unfold clientCacheSet at stored
  simp only at stored
  split at stored
  · assumption
  · cases stored

/-- What a successful store leaves: the entry in the list, and a file on a condition. -/
theorem clientCacheSet_leaves {v : J.Value} (json : J.load jsonData = .ok v)
    (stored : (clientCacheSet J env k jsonData s).1 = 0) :
    (clientCacheSet J env k jsonData s).2.cache.lookup k =
        some ⟨k, jsonData, env.now, s.cache.defaultTtl⟩ ∧
      (((clientCacheSet J env k jsonData s).2.dir.stat (cachePath k)).isSome = true ↔
        FileStands env k s) := by
  have stores := clientCacheSet_stored stored
  unfold clientCacheSet
  simp only [stores, if_true]
  constructor
  · have fresh : k ∉ (evict env (s.cache.remove k) s.dir).1.entries.map CacheEntry.key :=
      evict_fresh (remove_fresh s.cache k)
    exact lookup_append ⟨k, jsonData, env.now, s.cache.defaultTtl⟩ fresh
  · rw [saveToFile_stat_isSome json, evict_stat_isSome, evict_ready]
    apply or_congr Iff.rfl
    constructor
    · rintro ⟨path, loaded, opened, ready⟩
      exact ⟨path, loaded, opened, ready⟩
    · intro h
      exact ⟨h.path, h.json, h.opened, h.ready⟩

/-- A lookup of a live entry. -/
theorem clientCacheGet_alive {entry : CacheEntry} (here : s.cache.lookup k = some entry)
    (alive : env.now - entry.createdAt ≤ entry.ttl) (x : Bytes) :
    (clientCacheGet J env k s).1 = some x ↔ x = entry.jsonData ∧ env.granted .result = true ∧
      (env.granted (.filepath k) = true → (s.dir.stat (cachePath k)).isSome = true) := by
  obtain ⟨result, s', eq, looked⟩ := @clientCacheGet_looked J env k s
  rw [eq]
  cases looked with
  | hit same _ file result =>
      cases here.symm.trans same
      rw [result]
      cases env.granted .result with
      | false => simp
      | true =>
          exact ⟨fun found => ⟨(Option.some.inj found).symm, rfl, file⟩, fun found => by rw [found.1]; rfl⟩
  | dropped same _ reason =>
      cases here.symm.trans same
      refine iff_of_false (by simp) ?_
      rintro ⟨-, -, file⟩
      rcases reason with old | ⟨path, gone⟩
      · omega
      · rw [gone] at file
        cases file path
  | missed absent => cases here.symm.trans absent
  | reloaded absent => cases here.symm.trans absent
  | unkept absent => cases here.symm.trans absent

/-- After a successful store the key is found, as long as the entry lives, exactly when the lookup
can copy the text and sees a file, if it looks for one. -/
theorem set_then_get_iff {J : Jansson} {env env' : Surroundings} {k jsonData : Bytes}
    {s : CacheState} {v : J.Value} (json : J.load jsonData = .ok v)
    (stored : (clientCacheSet J env k jsonData s).1 = 0)
    (alive : env'.now ≤ env.now + s.cache.defaultTtl) :
    (∃ x, (clientCacheGet J env' k (clientCacheSet J env k jsonData s).2).1 = some x ∧
      J.load x = J.load jsonData) ↔
    env'.granted .result = true ∧ (env'.granted (.filepath k) = true → FileStands env k s) := by
  obtain ⟨here, file⟩ := clientCacheSet_leaves json stored
  have young : env'.now - env.now ≤ s.cache.defaultTtl := by omega
  rw [← file]
  constructor
  · rintro ⟨x, found, -⟩
    exact ((clientCacheGet_alive here young x).mp found).2
  · intro can
    exact ⟨jsonData, (clientCacheGet_alive here young jsonData).mpr ⟨rfl, can⟩, rfl⟩

/-- A new process with an empty directory finds what it stores. -/
theorem set_then_get_empty :
    ∃ x, (clientCacheGet .emptyTexts (.calm 300) (ascii "a") (clientCacheSet .emptyTexts (.calm 0)
        (ascii "a") (ascii "[]") ⟨clientCacheCreate 50 300, .present fun _ => none⟩).2).1 = some x ∧
      Jansson.emptyTexts.load x = Jansson.emptyTexts.load (ascii "[]") :=
  (set_then_get_iff (v := false) rfl rfl (by decide)).mpr ⟨rfl, fun _ => .inr ⟨rfl, rfl, by decide, rfl⟩⟩

/-- The cache directory cannot be made because its parent is missing: the store reports success,
and the next lookup finds nothing. -/
theorem set_then_get_nothing :
    ¬ ((clientCacheSet .emptyTexts (.calm 0) (ascii "a") (ascii "[]")
          ⟨clientCacheCreate 50 300, .missing false⟩).1 = 0 →
      ∃ x, (clientCacheGet .emptyTexts (.calm 0) (ascii "a") (clientCacheSet .emptyTexts (.calm 0)
          (ascii "a") (ascii "[]") ⟨clientCacheCreate 50 300, .missing false⟩).2).1 = some x ∧
        Jansson.emptyTexts.load x = Jansson.emptyTexts.load (ascii "[]")) := by
  intro claim
  obtain ⟨x, found, -⟩ := claim (by decide +kernel)
  have nothing : (clientCacheGet .emptyTexts (.calm 0) (ascii "a") (clientCacheSet .emptyTexts
      (.calm 0) (ascii "a") (ascii "[]") ⟨clientCacheCreate 50 300, .missing false⟩).2).1 = none := by
    decide +kernel
  rw [nothing] at found
  cases found

end JustWeather.Cache
