import JustWeather.Cache.Run

/-! # Coherence

When nothing fails, a text returned for a key is the one last stored under it,
wherever it was kept in the meantime.
-/

namespace JustWeather.Cache

open CLib ClientCache Machine

/-- What a call does to the text stored under a key. -/
def effect (k : Bytes) (s : CacheState) (call : CacheCall) : Effect Bytes :=
  match call.op with
  | .set key jsonData =>
      if key = k then .write jsonData
      else if evictedKey s key = some k then .forget
      else .keep
  | .clear => .forget
  | _ => .keep

/-- Neither another store, nor a clear, nor an eviction of the key. -/
def Spares (k : Bytes) (s : CacheState) (call : CacheCall) : Prop :=
  match call.op with
  | .set key _ => key ≠ k ∧ evictedKey s key ≠ some k
  | .clear => False
  | _ => True

theorem spares_of_keep {k : Bytes} {s : CacheState} {call : CacheCall}
    (keep : effect k s call = .keep) : Spares k s call := by
  obtain ⟨op, env⟩ := call
  unfold effect at keep
  cases op with
  | set key jsonData =>
      simp only at keep
      split at keep
      · cases keep
      · next other =>
          split at keep
          · cases keep
          · next spared => exact ⟨other, spared⟩
  | clear => cases keep
  | get | restart => trivial

theorem set_of_write {k jsonData : Bytes} {s : CacheState} {call : CacheCall}
    (write : effect k s call = .write jsonData) : call.op = .set k jsonData := by
  obtain ⟨op, env⟩ := call
  unfold effect at write
  cases op with
  | set key text =>
      simp only at write
      split at write
      · next here =>
          cases write
          rw [here]
      · split at write <;> cases write
  | get | clear | restart => cases write

/-- Memory and directory hold nothing under the key but the text last stored. -/
structure Coherent (J : Jansson) (k : Bytes) (stored : Option Bytes) (s : CacheState) : Prop where
  memory : ∀ entry ∈ s.cache.entries, entry.key = k →
    ∃ d, stored = some d ∧ J.load entry.jsonData = J.load d
  disk : ∀ inode, s.dir.stat (cachePath k) = some inode →
    ∃ content mtime d, inode = .file content mtime ∧ stored = some d ∧ J.load content = J.load d

/-- A call of the runs considered: nothing fails, what is stored is a JSON text, and no other key
has the hash of this one. -/
structure Orderly (J : Jansson) (k : Bytes) (call : CacheCall) : Prop where
  calm : call.env.Calm
  json : ∀ key jsonData, call.op = .set key jsonData → ∃ v, J.load jsonData = .ok v
  apart : ∀ key jsonData, call.op = .set key jsonData →
    hashMd5String key = hashMd5String k → key = k

theorem cachePath_inj {k k' : Bytes} (same : cachePath k = cachePath k') :
    hashMd5String k = hashMd5String k' := by
  unfold cachePath at same
  exact List.append_cancel_left (List.append_cancel_right same)

theorem cachePath_ne_readme (k : Bytes) : cachePath k ≠ CACHE_DIR ++ ascii "/README.md" := by
  intro same
  have ends := congrArg List.getLast? same
  unfold cachePath at ends
  rw [List.getLast?_append_of_ne_nil _ (by decide), List.getLast?_append_of_ne_nil _ (by decide)] at ends
  exact absurd ends (by decide)

theorem lowerHexDigit_ne_slash {n : Nat} (small : n < 16) : lowerHexDigit n ≠ 47 := by
  interval_cases n <;> decide

/-- The file of a key is an entry of the directory. -/
theorem isSwept_cachePath (k : Bytes) : isSwept (cachePath k) = true := by
  have digits : ∀ c ∈ hashMd5String k, c ≠ 47 := by
    intro c mem
    obtain ⟨b, -, here⟩ := List.mem_flatMap.mp mem
    have small := b.toNat_lt
    rcases List.mem_cons.mp here with rfl | here
    · exact lowerHexDigit_ne_slash (by omega)
    · rw [List.mem_singleton.mp here]
      exact lowerHexDigit_ne_slash (by omega)
  have split : cachePath k = (CACHE_DIR ++ ascii "/") ++ (hashMd5String k ++ ascii ".json") := by
    simp [cachePath]
  have entry : isEntryPath (cachePath k) = true := by
    unfold isEntryPath
    rw [split, List.drop_left, Bool.and_eq_true_iff, List.isPrefixOf_iff_prefix]
    refine ⟨List.prefix_append _ _, ?_⟩
    rw [Bool.not_eq_true', ← Bool.not_eq_true, List.contains_iff_mem]
    intro mem
    rcases List.mem_append.mp mem with digit | ending
    · exact digits 47 digit rfl
    · exact absurd ending (by decide)
  unfold isSwept
  rw [entry, Bool.true_and, bne_iff_ne]
  exact cachePath_ne_readme k

variable {J : Jansson} {k : Bytes}

theorem Coherent.shrink {stored : Option Bytes} {s s' : CacheState} (h : Coherent J k stored s)
    (entries : ∀ entry ∈ s'.cache.entries, entry ∈ s.cache.entries) (dir : s'.dir.Within s.dir) :
    Coherent J k stored s' :=
  ⟨fun entry mem => h.memory entry (entries entry mem), fun inode at_ => h.disk inode (dir _ inode at_)⟩

/-- Deleting the file of the key leaves no file there. -/
theorem stat_deleteFile_none {env : Surroundings} {dir : CacheDir}
    (path : env.granted (.filepath k) = true) (unlink : env.unlink (cachePath k) = true)
    (file : ∀ inode, dir.stat (cachePath k) = some inode → inode.isFile = true) :
    (deleteFile env k dir).stat (cachePath k) = none := by
  rw [stat_deleteFile, path, unlink]
  cases inode : dir.stat (cachePath k) with
  | none => rw [ite_self]
  | some i => simp [file i inode]

theorem clientCacheSet_dir {env : Surroundings} {key jsonData : Bytes} {s : CacheState}
    (stores : storesEntry env = true) : (clientCacheSet J env key jsonData s).2.dir =
      (saveToFile J env key jsonData (evict env (s.cache.remove key) s.dir).2).2 := by
  unfold clientCacheSet
  simp only [stores, if_true]

/-- A store that evicts the key removes its file. -/
theorem clientCacheSet_evicts {env : Surroundings} {key jsonData : Bytes} {s : CacheState}
    (stores : storesEntry env = true) (path : env.granted (.filepath k) = true)
    (unlink : env.unlink (cachePath k) = true) (evicted : evictedKey s key = some k)
    (other : cachePath k ≠ cachePath key)
    (file : ∀ inode, s.dir.stat (cachePath k) = some inode → inode.isFile = true) :
    (clientCacheSet J env key jsonData s).2.dir.stat (cachePath k) = none := by
  obtain ⟨entry, pick, rfl⟩ := Option.map_eq_some_iff.mp evicted
  rw [clientCacheSet_dir stores, stat_saveToFile_ne other]
  unfold evict
  simp only [pick]
  exact stat_deleteFile_none path unlink file

/-- Where there was no directory in the way, a calm store leaves the dumped text. -/
theorem stat_saveToFile_calm {env : Surroundings} {dir : CacheDir} {jsonData : Bytes} {v : J.Value}
    (calm : env.Calm) (json : J.load jsonData = .ok v)
    (file : ∀ inode, dir.stat (cachePath k) = some inode → inode.isFile = true) {inode : Inode}
    (h : (saveToFile J env k jsonData dir).2.stat (cachePath k) = some inode) :
    inode = .file (J.dump v) env.now := by
  rw [saveToFile_ok json, calm.granted, calm.granted, Bool.and_self, if_pos rfl,
    CacheDir.stat_dumpFile_self] at h
  have whole : CacheDir.written env (J.dump v) = some (.file (J.dump v) env.now) := by
    simp only [CacheDir.written, calm.write]
  rw [whole] at h
  split at h
  · exact (Option.some.inj h).symm
  · next closed =>
      exfalso
      rw [← CacheDir.stat_ensure env dir] at file
      cases made : dir.ensure env with
      | missing | blocked =>
          rw [made] at h
          cases h
      | present inodes =>
          rw [made] at h closed file
          refine closed ?_
          simp only [CacheDir.stat] at h
          simp only [CacheDir.opens, h, Option.all_some, Option.isSome_some, Bool.and_true]
          exact file inode h

theorem Coherent.isFile {stored : Option Bytes} {s : CacheState} (h : Coherent J k stored s)
    {dir : CacheDir} (within : dir.Within s.dir) (inode : Inode)
    (at_ : dir.stat (cachePath k) = some inode) : inode.isFile = true := by
  obtain ⟨content, mtime, d, rfl, -⟩ := h.disk inode (within _ inode at_)
  rfl

/-- A store under the key. -/
theorem Coherent.set_self {stored : Option Bytes} {s : CacheState} {env : Surroundings}
    {jsonData : Bytes} {v : J.Value} (undo : J.LoadUndoesDump) (calm : env.Calm)
    (json : J.load jsonData = .ok v) (h : Coherent J k stored s) :
    Coherent J k (some jsonData) (clientCacheSet J env k jsonData s).2 := by
  constructor
  · intro entry mem here
    rcases clientCacheSet_entries mem with ⟨-, other, -⟩ | ⟨-, rfl⟩
    · exact absurd here other
    · exact ⟨jsonData, rfl, rfl⟩
  · intro inode at_
    rw [clientCacheSet_dir (storesEntry_granted calm.granted)] at at_
    have file := h.isFile (evict_within env (s.cache.remove k) s.dir)
    rw [stat_saveToFile_calm calm json file at_]
    exact ⟨_, _, jsonData, rfl, rfl, (undo jsonData v json).trans json.symm⟩

/-- A store under another key, which may evict this one. -/
theorem Coherent.set_other {stored : Option Bytes} {s : CacheState} {env : Surroundings}
    {key jsonData : Bytes} (calm : env.Calm) (other : key ≠ k) (path : cachePath k ≠ cachePath key)
    (h : Coherent J k stored s) :
    Coherent J k (if evictedKey s key = some k then none else stored)
      (clientCacheSet J env key jsonData s).2 := by
  have within := evict_within env (s.cache.remove key) s.dir
  split
  · next evicted =>
      constructor
      · intro entry mem here
        exfalso
        rcases clientCacheSet_entries mem with ⟨-, -, spared⟩ | ⟨-, rfl⟩
        · exact spared (here ▸ evicted)
        · exact other here
      · intro inode at_
        rw [clientCacheSet_evicts (storesEntry_granted calm.granted) (calm.granted _) (calm.unlink _) evicted path
          (h.isFile (CacheDir.Within.refl s.dir))] at at_
        cases at_
  · constructor
    · intro entry mem here
      rcases clientCacheSet_entries mem with ⟨old, -⟩ | ⟨-, rfl⟩
      · exact h.memory entry old here
      · exact absurd here other
    · intro inode at_
      rw [clientCacheSet_dir (storesEntry_granted calm.granted), stat_saveToFile_ne path] at at_
      exact h.disk inode (within _ inode at_)

theorem Coherent.get {stored : Option Bytes} {s : CacheState} {env : Surroundings} {key : Bytes}
    (undo : J.LoadUndoesDump) (h : Coherent J k stored s) :
    Coherent J k stored (clientCacheGet J env key s).2 := by
  constructor
  · intro entry mem here
    rcases clientCacheGet_entries mem with old | ⟨v, -, -, loadable, rfl⟩
    · exact h.memory entry old here
    · obtain ⟨content, mtime, at_, -, load⟩ := loadable.file
      subst here
      obtain ⟨_, _, d, eq, stored, same⟩ := h.disk _ at_
      cases eq
      exact ⟨d, stored, (undo content v load).trans (load.symm.trans same)⟩
  · exact fun inode at_ => h.disk inode (clientCacheGet_within _ inode at_)

theorem Coherent.clear {stored : Option Bytes} {s : CacheState} {env : Surroundings}
    (calm : env.Calm) (h : Coherent J k stored s) : Coherent J k none (clientCacheClear env s) := by
  constructor
  · intro entry mem
    cases mem
  · intro inode at_
    exfalso
    have file := h.isFile (clientCacheClear_within env s) inode at_
    unfold clientCacheClear at at_
    rw [stat_sweep, calm.opendir, isSwept_cachePath, Bool.and_self, if_pos rfl,
      CacheDir.stat_unlink_self] at at_
    split at at_
    · cases at_
    · next kept =>
        rw [at_, calm.unlink] at kept
        exact kept (by simpa using file)

theorem Coherent.step {stored : Option Bytes} {s : CacheState} {call : CacheCall}
    (undo : J.LoadUndoesDump) (orderly : Orderly J k call) (h : Coherent J k stored s) :
    Coherent J k ((effect k s call).apply stored) (perform J s call) := by
  obtain ⟨op, env⟩ := call
  cases op with
  | set key jsonData =>
      by_cases here : key = k
      · subst here
        obtain ⟨v, json⟩ := orderly.json key jsonData rfl
        simp only [effect, if_true, Effect.apply]
        exact h.set_self undo orderly.calm json
      · have path : cachePath k ≠ cachePath key := fun same =>
          here (orderly.apart key jsonData rfl (cachePath_inj same).symm)
        have after : Coherent J k (if evictedKey s key = some k then none else stored)
            (clientCacheSet J env key jsonData s).2 := h.set_other orderly.calm here path
        unfold effect
        simp only [if_neg here]
        split
        · next evicted => rwa [if_pos evicted] at after
        · next spared => rwa [if_neg spared] at after
  | get key => exact h.get undo
  | clear => exact h.clear orderly.calm
  | restart => exact h.shrink (fun entry mem => by cases mem) (CacheDir.Within.refl _)

/-- What a lookup returns has the value of the text stored. -/
theorem Coherent.found {stored : Option Bytes} {s : CacheState} {env : Surroundings} {x : Bytes}
    (undo : J.LoadUndoesDump) (h : Coherent J k stored s)
    (found : (clientCacheGet J env k s).1 = some x) : ∃ d, stored = some d ∧ J.load x = J.load d := by
  rcases clientCacheGet_some found with ⟨entry, here, -, rfl⟩ | ⟨v, -, loadable, rfl⟩
  · obtain ⟨listed, key⟩ := lookup_some here
    exact h.memory entry listed key
  · obtain ⟨content, mtime, at_, -, load⟩ := loadable.file
    obtain ⟨_, _, d, eq, stored, same⟩ := h.disk _ at_
    cases eq
    exact ⟨d, stored, (undo content v load).trans (load.symm.trans same)⟩

/-- The memory of a new process, and an empty directory. -/
def emptyCache (maxEntries : Nat) (defaultTtl : Int) : CacheState :=
  ⟨clientCacheCreate maxEntries defaultTtl, .present fun _ => none⟩

/-- A text returned for a key has the value of the text last stored under it, and since then the
key was neither cleared nor evicted. -/
theorem cache_coherent {J : Jansson} {maxEntries : Nat} {defaultTtl : Int} {calls : List CacheCall}
    {k x : Bytes} {env : Surroundings} (undo : J.LoadUndoesDump)
    (orderly : ∀ call ∈ calls, Orderly J k call)
    (found : (clientCacheGet J env k
      (run (perform J) (emptyCache maxEntries defaultTtl) calls)).1 = some x) :
    ∃ before jsonData env' after, calls = before ++ ⟨.set k jsonData, env'⟩ :: after ∧
      J.load x = J.load jsonData ∧
      Along (perform J) (Spares k) (run (perform J) (emptyCache maxEntries defaultTtl)
        (before ++ [⟨.set k jsonData, env'⟩])) after := by
  have start : Coherent J k none (emptyCache maxEntries defaultTtl) := by
    constructor
    · intro entry mem
      cases mem
    · intro inode at_
      cases at_
  have coherent : Coherent J k
      (remember (perform J) (effect k) none (emptyCache maxEntries defaultTtl) calls) _ :=
    remember_invariant (fun _ _ _ orderly => Coherent.step undo orderly) start
      (along_of_forall (P := Orderly J k) orderly)
  obtain ⟨d, stored, same⟩ := coherent.found undo found
  rcases remember_eq_some stored with ⟨none, -⟩ | ⟨before, ⟨op, env'⟩, after, rfl, wrote, kept⟩
  · cases none
  · have set := set_of_write wrote
    simp only at set
    subst set
    refine ⟨before, d, env', after, rfl, same, ?_⟩
    rw [run_append]
    exact kept.mono fun _ _ => spares_of_keep

/-- A store, a restart and a lookup. -/
theorem cache_coherent_restart :
    ∃ before jsonData env' after,
      [⟨.set (ascii "a") (ascii "[]"), .calm 0⟩, ⟨.restart, .calm 1⟩] =
        before ++ (⟨.set (ascii "a") jsonData, env'⟩ : CacheCall) :: after ∧
      Jansson.emptyTexts.load (ascii "[]") = Jansson.emptyTexts.load jsonData ∧
      Along (perform .emptyTexts) (Spares (ascii "a")) (run (perform .emptyTexts) (emptyCache 50 300)
        (before ++ [⟨.set (ascii "a") jsonData, env'⟩])) after := by
  refine @cache_coherent .emptyTexts 50 300 _ (ascii "a") (ascii "[]") (.calm 2)
    Jansson.emptyTexts_loadUndoesDump ?_ (by decide +kernel)
  intro call mem
  rcases List.mem_cons.mp mem with rfl | mem
  · exact ⟨Surroundings.calm_calm 0, fun _ _ eq => by cases eq; exact ⟨false, rfl⟩,
      fun _ _ eq _ => by cases eq; rfl⟩
  · rw [List.mem_singleton.mp mem]
    exact ⟨Surroundings.calm_calm 1, fun _ _ => CacheOp.noConfusion, fun _ _ => CacheOp.noConfusion⟩

end JustWeather.Cache
