import JustWeather.Cache.ClientCache
import JustWeather.Machine.Runs

/-! # Runs of the cache

One process after another works on the same directory. A restart loses the
memory and keeps the directory.
-/

namespace JustWeather.Cache

open CLib ClientCache Machine

inductive CacheOp where
  | set (key jsonData : Bytes)
  | get (key : Bytes)
  | clear
  | restart

structure CacheCall where
  op : CacheOp
  env : Surroundings

/-- The state after a call. -/
def perform (J : Jansson) (s : CacheState) (call : CacheCall) : CacheState :=
  match call.op with
  | .set key jsonData => (clientCacheSet J call.env key jsonData s).2
  | .get key => (clientCacheGet J call.env key s).2
  | .clear => clientCacheClear call.env s
  | .restart => ⟨clientCacheCreate s.cache.maxEntries s.cache.defaultTtl, s.dir⟩

/-- The call takes a file into the list. -/
def Reloads (J : Jansson) (s : CacheState) (call : CacheCall) (key : Bytes) (v : J.Value) : Prop :=
  call.op = .get key ∧ s.cache.lookup key = none ∧ storesEntry call.env = true ∧
    Loadable J call.env key s.cache.defaultTtl s.dir v

theorem stat_sweep (env : Surroundings) (dir : CacheDir) (p : Bytes) :
    (sweep env dir).stat p =
      if env.opendir && isSwept p then (dir.unlink env p).stat p else dir.stat p := by
  have none : ∀ dir : CacheDir, dir.stat p = none → (dir.unlink env p).stat p = none := by
    intro dir h
    rw [CacheDir.stat_unlink_self, h]
    simp
  cases dir with
  | missing parent => simp [sweep, none (.missing parent) rfl]
  | blocked => simp [sweep, none .blocked rfl]
  | present inodes =>
      unfold sweep
      cases env.opendir with
      | false => simp
      | true => simp [CacheDir.stat]

theorem sweep_within (env : Surroundings) (dir : CacheDir) : (sweep env dir).Within dir := by
  intro p inode h
  rw [stat_sweep] at h
  split at h
  · exact CacheDir.unlink_within env dir p p inode h
  · exact h

theorem clientCacheClear_within (env : Surroundings) (s : CacheState) :
    (clientCacheClear env s).dir.Within s.dir := by
  apply (sweep_within env _).trans
  apply List.foldlRecOn (motive := (CacheDir.Within · s.dir)) _ _ (CacheDir.Within.refl s.dir)
  intro dir within entry _
  exact (deleteFile_within env entry.key dir).trans within

theorem perform_limits (J : Jansson) (s : CacheState) (call : CacheCall) :
    (perform J s call).cache.maxEntries = s.cache.maxEntries ∧
      (perform J s call).cache.defaultTtl = s.cache.defaultTtl := by
  obtain ⟨op, env⟩ := call
  cases op with
  | set key jsonData => exact clientCacheSet_limits
  | get key => exact clientCacheGet_limits
  | clear => exact ⟨rfl, rfl⟩
  | restart => exact ⟨if_pos s.cache.capacity, if_pos s.cache.lifetime⟩

/-- An entry after a call is an old one, or was made by the call, of its argument or of a file. -/
theorem perform_entries {J : Jansson} {s : CacheState} {call : CacheCall} {entry : CacheEntry}
    (mem : entry ∈ (perform J s call).cache.entries) :
    entry ∈ s.cache.entries ∨
    (∃ key jsonData, call.op = .set key jsonData ∧
      entry = ⟨key, jsonData, call.env.now, s.cache.defaultTtl⟩) ∨
    ∃ key v, Reloads J s call key v ∧ entry = ⟨key, J.dump v, call.env.now, s.cache.defaultTtl⟩ := by
  obtain ⟨op, env⟩ := call
  cases op with
  | set key jsonData =>
      rcases clientCacheSet_entries mem with old | ⟨-, new⟩
      · exact .inl old.1
      · exact .inr (.inl ⟨key, jsonData, rfl, new⟩)
  | get key =>
      rcases clientCacheGet_entries mem with old | ⟨v, absent, stores, loadable, new⟩
      · exact .inl old
      · exact .inr (.inr ⟨key, v, ⟨rfl, absent, stores, loadable⟩, new⟩)
  | clear | restart => cases mem

/-- An inode after a call is an old one, or the file of a store. -/
theorem perform_stat {J : Jansson} {s : CacheState} {call : CacheCall} {p : Bytes} {inode : Inode}
    (h : (perform J s call).dir.stat p = some inode) :
    s.dir.stat p = some inode ∨ ∃ key jsonData, call.op = .set key jsonData ∧
      p = cachePath key ∧ Saved J call.env jsonData inode := by
  obtain ⟨op, env⟩ := call
  cases op with
  | set key jsonData =>
      rcases clientCacheSet_stat h with old | ⟨-, here, saved⟩
      · exact .inl old
      · exact .inr ⟨key, jsonData, rfl, here, saved⟩
  | get key => exact .inl (clientCacheGet_within p inode h)
  | clear => exact .inl (clientCacheClear_within env s p inode h)
  | restart => exact .inl h

end JustWeather.Cache
