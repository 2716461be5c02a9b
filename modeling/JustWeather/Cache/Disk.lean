import JustWeather.CLib.Jansson
import JustWeather.Cache.HashMd5

/-! # The cache directory

The directory of the cache and what a call may meet there: each operation of
the file system and each allocation may fail.
-/

namespace JustWeather.Cache

open CLib

inductive Inode where
  | file (content : Bytes) (mtime : Int)
  | directory (mtime : Int)
  deriving DecidableEq

namespace Inode

def mtime : Inode → Int
  | file _ mtime => mtime
  | directory mtime => mtime

def isFile : Inode → Bool
  | file _ _ => true
  | directory _ => false

end Inode

/-- What stands at `CACHE_DIR`. -/
inductive CacheDir where
  | missing (parent : Bool)
  /-- Something through which no file is reached. -/
  | blocked
  | present (inodes : Bytes → Option Inode)

/-- The allocations of one call, told apart by what they are for. -/
inductive AllocSite where
  | entry
  | key
  | data
  | node
  | filepath (key : Bytes)
  | json
  | dump
  | result
  deriving DecidableEq

/-- How writing a file goes. -/
inductive WriteOutcome where
  /-- The file is not opened. -/
  | refused
  /-- It is emptied, and only so much is written. -/
  | cut (count : Nat)
  | complete
  deriving DecidableEq

/-- What one call of the cache meets: the clock, the file system and the allocator. -/
structure Surroundings where
  now : Int
  mkdir : Bool
  write : WriteOutcome
  readable : Bool
  unlink : Bytes → Bool
  opendir : Bool
  granted : AllocSite → Bool

/-- Nothing fails. -/
structure Surroundings.Calm (env : Surroundings) : Prop where
  mkdir : env.mkdir = true
  write : env.write = .complete
  readable : env.readable = true
  unlink : ∀ path, env.unlink path = true
  opendir : env.opendir = true
  granted : ∀ site, env.granted site = true

/-- Calm surroundings at a time. -/
def Surroundings.calm (now : Int) : Surroundings :=
  ⟨now, true, .complete, true, fun _ => true, true, fun _ => true⟩

theorem Surroundings.calm_calm (now : Int) : (calm now).Calm :=
  ⟨rfl, rfl, rfl, fun _ => rfl, rfl, fun _ => rfl⟩

namespace CacheDir

/-- `stat`; `none` when it fails. -/
def stat : CacheDir → Bytes → Option Inode
  | present inodes, path => inodes path
  | _, _ => none

/-- The directory with another inode, or none, at a path. -/
def put (path : Bytes) (inode : Option Inode) : CacheDir → CacheDir
  | present inodes => present fun p => if p = path then inode else inodes p
  | dir => dir

/-- `ensure_cache_dir`. -/
def ensure (env : Surroundings) : CacheDir → CacheDir
  | missing true => if env.mkdir then present fun _ => none else missing true
  | dir => dir

/-- `unlink`, which leaves directories alone. -/
def unlink (env : Surroundings) (path : Bytes) (dir : CacheDir) : CacheDir :=
  if (dir.stat path).any Inode.isFile && env.unlink path then dir.put path none else dir

/-- `json_dump_file` of this text: its result and the directory. -/
def dumpFile (env : Surroundings) (path text : Bytes) (dir : CacheDir) : Int × CacheDir :=
  match dir, dir.stat path, env.write with
  | missing _, _, _ => (-1, dir)
  | blocked, _, _ => (-1, dir)
  | present _, some (.directory _), _ => (-1, dir)
  | present _, _, .refused => (-1, dir)
  | present _, _, .cut count => (-1, dir.put path (some (.file (text.take count) env.now)))
  | present _, _, .complete => (0, dir.put path (some (.file text env.now)))

end CacheDir

/-- `get_cache_filepath`. -/
def getCacheFilepath (env : Surroundings) (key : Bytes) : Option Bytes :=
  if env.granted (.filepath key) then some (cachePath key) else none

/-- `is_cache_file_valid`. -/
def isCacheFileValid (env : Surroundings) (dir : CacheDir) (filepath : Bytes) (ttl : Int) : Bool :=
  match dir.stat filepath with
  | none => false
  | some inode => !(ttl < env.now - inode.mtime)

/-- `save_to_file`. -/
def saveToFile (J : Jansson) (env : Surroundings) (key jsonData : Bytes) (dir : CacheDir) :
    Int × CacheDir :=
  let dir := dir.ensure env
  match getCacheFilepath env key with
  | none => (-1, dir)
  | some filepath =>
      match J.load jsonData with
      | .error _ => (-1, dir)
      | .ok json =>
          if env.granted .json then dir.dumpFile env filepath (J.dump json) else (-1, dir)

/-- `json_load_file`. -/
def loadFile (J : Jansson) (env : Surroundings) (filepath : Bytes) (dir : CacheDir) : Option J.Value :=
  match dir.stat filepath with
  | some (.file content _) =>
      if env.readable && env.granted .json then (J.load content).toOption else none
  | _ => none

/-- `load_from_file`: a file that is too old is removed. -/
def loadFromFile (J : Jansson) (env : Surroundings) (key : Bytes) (ttl : Int) (dir : CacheDir) :
    Option Bytes × CacheDir :=
  match getCacheFilepath env key with
  | none => (none, dir)
  | some filepath =>
      if isCacheFileValid env dir filepath ttl then
        match loadFile J env filepath dir with
        | none => (none, dir)
        | some json => (if env.granted .dump then some (J.dump json) else none, dir)
      else (none, dir.unlink env filepath)

/-- `delete_file`. -/
def deleteFile (env : Surroundings) (key : Bytes) (dir : CacheDir) : CacheDir :=
  match getCacheFilepath env key with
  | none => dir
  | some filepath => dir.unlink env filepath

/-! ## What an operation leaves at a path -/

namespace CacheDir

@[simp] theorem stat_missing (parent : Bool) (p : Bytes) : (missing parent).stat p = none := rfl

@[simp] theorem stat_blocked (p : Bytes) : blocked.stat p = none := rfl

theorem stat_put_ne {dir : CacheDir} {path p : Bytes} (inode : Option Inode) (other : p ≠ path) :
    (dir.put path inode).stat p = dir.stat p := by
  cases dir with
  | present inodes => exact if_neg other
  | missing | blocked => rfl

theorem stat_put_none (dir : CacheDir) (path : Bytes) : (dir.put path none).stat path = none := by
  cases dir with
  | present inodes => exact if_pos rfl
  | missing | blocked => rfl

@[simp] theorem stat_ensure (env : Surroundings) (dir : CacheDir) (p : Bytes) :
    (dir.ensure env).stat p = dir.stat p := by
  cases dir with
  | missing parent =>
      cases parent with
      | true =>
          simp only [ensure]
          split <;> rfl
      | false => rfl
  | blocked | present => rfl

theorem stat_unlink_ne {env : Surroundings} {dir : CacheDir} {path p : Bytes} (other : p ≠ path) :
    (dir.unlink env path).stat p = dir.stat p := by
  unfold unlink
  split
  · exact stat_put_ne none other
  · rfl

theorem stat_unlink_self (env : Surroundings) (dir : CacheDir) (path : Bytes) :
    (dir.unlink env path).stat path =
      if (dir.stat path).any Inode.isFile && env.unlink path then none else dir.stat path := by
  unfold unlink
  split
  · exact stat_put_none dir path
  · rfl

/-- The file that opening and writing leaves, if the file is opened. -/
def written (env : Surroundings) (text : Bytes) : Option Inode :=
  match env.write with
  | .refused => none
  | .cut count => some (.file (text.take count) env.now)
  | .complete => some (.file text env.now)

/-- A file can be opened at this path, or made. -/
def opens (dir : CacheDir) (path : Bytes) : Bool :=
  match dir with
  | present inodes => (inodes path).all Inode.isFile
  | _ => false

theorem dumpFile_dir (env : Surroundings) (path text : Bytes) (dir : CacheDir) :
    (dir.dumpFile env path text).2 =
      if dir.opens path && (written env text).isSome then dir.put path (written env text) else dir := by
  cases dir with
  | missing | blocked => rfl
  | present inodes =>
      cases inode : inodes path with
      | none => cases write : env.write <;> simp [dumpFile, opens, written, stat, inode, write]
      | some i => cases i <;> cases write : env.write <;>
          simp [dumpFile, opens, written, stat, inode, write, Inode.isFile]

theorem stat_dumpFile_ne {env : Surroundings} {path text p : Bytes} {dir : CacheDir}
    (other : p ≠ path) : (dir.dumpFile env path text).2.stat p = dir.stat p := by
  rw [dumpFile_dir]
  split
  · exact stat_put_ne _ other
  · rfl

theorem stat_dumpFile_self (env : Surroundings) (path text : Bytes) (dir : CacheDir) :
    (dir.dumpFile env path text).2.stat path =
      if dir.opens path && (written env text).isSome then written env text else dir.stat path := by
  rw [dumpFile_dir]
  split
  · next can =>
      cases dir with
      | missing | blocked => simp [opens] at can
      | present inodes => exact if_pos rfl
  · rfl

/-- Nothing in the directory is new. -/
def Within (dir dir' : CacheDir) : Prop := ∀ p inode, dir.stat p = some inode → dir'.stat p = some inode

theorem Within.refl (dir : CacheDir) : Within dir dir := fun _ _ h => h

theorem Within.trans {a b c : CacheDir} (hab : Within a b) (hbc : Within b c) : Within a c :=
  fun p inode h => hbc p inode (hab p inode h)

theorem unlink_within (env : Surroundings) (dir : CacheDir) (path : Bytes) :
    Within (dir.unlink env path) dir := by
  intro p inode h
  by_cases here : p = path
  · subst here
    rw [stat_unlink_self] at h
    split at h
    · cases h
    · exact h
  · rwa [stat_unlink_ne here] at h

end CacheDir

theorem deleteFile_within (env : Surroundings) (key : Bytes) (dir : CacheDir) :
    CacheDir.Within (deleteFile env key dir) dir := by
  unfold deleteFile
  split
  · exact CacheDir.Within.refl dir
  · exact CacheDir.unlink_within env dir _

theorem stat_deleteFile (env : Surroundings) (key : Bytes) (dir : CacheDir) (p : Bytes) :
    (deleteFile env key dir).stat p =
      if (cachePath key == p && env.granted (.filepath key)) && (dir.stat p).any Inode.isFile &&
        env.unlink p then none else dir.stat p := by
  unfold deleteFile getCacheFilepath
  cases env.granted (.filepath key) with
  | false => simp
  | true =>
      simp only [if_true]
      by_cases here : cachePath key = p
      · subst here
        rw [CacheDir.stat_unlink_self]
        simp
      · rw [CacheDir.stat_unlink_ne (Ne.symm here)]
        simp [here]

theorem stat_deleteFile_ne {env : Surroundings} {key p : Bytes} {dir : CacheDir}
    (other : p ≠ cachePath key) : (deleteFile env key dir).stat p = dir.stat p := by
  rw [stat_deleteFile]
  simp [Ne.symm other]

/-- A file as `save_to_file` may leave it. -/
def Saved (J : Jansson) (env : Surroundings) (jsonData : Bytes) (inode : Inode) : Prop :=
  ∃ v, J.load jsonData = .ok v ∧ CacheDir.written env (J.dump v) = some inode

theorem Saved.isFile {J : Jansson} {env : Surroundings} {jsonData : Bytes} {inode : Inode}
    (saved : Saved J env jsonData inode) : inode.isFile = true := by
  obtain ⟨v, -, written⟩ := saved
  unfold CacheDir.written at written
  split at written <;> cases written <;> rfl

theorem saveToFile_error {J : Jansson} {env : Surroundings} {key jsonData text : Bytes}
    {dir : CacheDir} (json : J.load jsonData = .error text) :
    (saveToFile J env key jsonData dir).2 = dir.ensure env := by
  unfold saveToFile getCacheFilepath
  split
  · rfl
  · rw [json]

theorem saveToFile_ok {J : Jansson} {env : Surroundings} {key jsonData : Bytes} {dir : CacheDir}
    {v : J.Value} (json : J.load jsonData = .ok v) :
    (saveToFile J env key jsonData dir).2 =
      if env.granted (.filepath key) && env.granted .json then
        ((dir.ensure env).dumpFile env (cachePath key) (J.dump v)).2
      else dir.ensure env := by
  unfold saveToFile getCacheFilepath
  cases env.granted (.filepath key) <;> cases env.granted .json <;> simp [json]

theorem stat_saveToFile_ne {J : Jansson} {env : Surroundings} {key jsonData p : Bytes}
    {dir : CacheDir} (other : p ≠ cachePath key) :
    (saveToFile J env key jsonData dir).2.stat p = dir.stat p := by
  cases json : J.load jsonData with
  | error text => rw [saveToFile_error json, CacheDir.stat_ensure]
  | ok v =>
      rw [saveToFile_ok json]
      split
      · rw [CacheDir.stat_dumpFile_ne other, CacheDir.stat_ensure]
      · rw [CacheDir.stat_ensure]

/-- The path of the key holds what was there, or what was written. -/
theorem stat_saveToFile {J : Jansson} {env : Surroundings} {key jsonData p : Bytes} {dir : CacheDir}
    {inode : Inode} (h : (saveToFile J env key jsonData dir).2.stat p = some inode) :
    dir.stat p = some inode ∨ p = cachePath key ∧ Saved J env jsonData inode := by
  by_cases other : p = cachePath key
  · subst other
    cases json : J.load jsonData with
    | error text =>
        rw [saveToFile_error json, CacheDir.stat_ensure] at h
        exact .inl h
    | ok v =>
        rw [saveToFile_ok json] at h
        split at h
        · rw [CacheDir.stat_dumpFile_self] at h
          split at h
          · exact .inr ⟨rfl, v, json, h⟩
          · rw [CacheDir.stat_ensure] at h
            exact .inl h
        · rw [CacheDir.stat_ensure] at h
          exact .inl h
  · rw [stat_saveToFile_ne other] at h
    exact .inl h

/-! ## Loading -/

/-- A file that `load_from_file` takes: not too old, and a JSON text. -/
structure Loadable (J : Jansson) (env : Surroundings) (key : Bytes) (ttl : Int) (dir : CacheDir)
    (v : J.Value) : Prop where
  path : env.granted (.filepath key) = true
  file : ∃ content mtime, dir.stat (cachePath key) = some (.file content mtime) ∧
    env.now - mtime ≤ ttl ∧ J.load content = .ok v
  readable : env.readable = true
  json : env.granted .json = true
  dump : env.granted .dump = true

private theorem isCacheFileValid_iff {env : Surroundings} {dir : CacheDir} {path : Bytes} {ttl : Int} :
    isCacheFileValid env dir path ttl = true ↔
      ∃ inode, dir.stat path = some inode ∧ env.now - inode.mtime ≤ ttl := by
  unfold isCacheFileValid
  cases dir.stat path <;> simp

private theorem loadFile_eq_some {J : Jansson} {env : Surroundings} {path : Bytes} {dir : CacheDir}
    {v : J.Value} : loadFile J env path dir = some v ↔ env.readable = true ∧
      env.granted .json = true ∧ ∃ content mtime, dir.stat path = some (.file content mtime) ∧
        J.load content = .ok v := by
  unfold loadFile
  rcases dir.stat path with _ | ⟨content, mtime⟩ | _
  · simp
  · cases json : J.load content <;> simp [json, Except.toOption, and_assoc]
  · simp

/-- Either the file is taken and the directory left alone, or nothing is returned. -/
theorem loadFromFile_cases (J : Jansson) (env : Surroundings) (key : Bytes) (ttl : Int)
    (dir : CacheDir) :
    (∃ v, Loadable J env key ttl dir v ∧ loadFromFile J env key ttl dir = (some (J.dump v), dir)) ∨
    (∀ v, ¬ Loadable J env key ttl dir v) ∧ ∃ dir', CacheDir.Within dir' dir ∧
      loadFromFile J env key ttl dir = (none, dir') := by
  unfold loadFromFile getCacheFilepath
  cases path : env.granted (.filepath key) with
  | false =>
      right
      exact ⟨fun v h => by simpa [path] using h.path, dir, CacheDir.Within.refl dir, rfl⟩
  | true =>
      simp only [if_true]
      by_cases valid : isCacheFileValid env dir (cachePath key) ttl = true
      · rw [if_pos valid]
        cases file : loadFile J env (cachePath key) dir with
        | none =>
            right
            refine ⟨fun v h => ?_, dir, CacheDir.Within.refl dir, rfl⟩
            obtain ⟨content, mtime, stat, -, load⟩ := h.file
            have := loadFile_eq_some.mpr ⟨h.readable, h.json, content, mtime, stat, load⟩
            rw [file] at this
            cases this
        | some v =>
            obtain ⟨readable, json, content, mtime, stat, load⟩ := loadFile_eq_some.mp file
            cases dump : env.granted .dump with
            | false =>
                right
                exact ⟨fun v h => by simpa [dump] using h.dump, dir, CacheDir.Within.refl dir, rfl⟩
            | true =>
                left
                obtain ⟨inode, stat', young⟩ := isCacheFileValid_iff.mp valid
                cases stat.symm.trans stat'
                exact ⟨v, ⟨path, ⟨content, mtime, stat, young, load⟩, readable, json, dump⟩, rfl⟩
      · right
        rw [if_neg valid]
        refine ⟨fun v h => valid ?_, _, CacheDir.unlink_within env dir _, rfl⟩
        obtain ⟨content, mtime, stat, young, -⟩ := h.file
        exact isCacheFileValid_iff.mpr ⟨_, stat, young⟩

/-- A file that is too old is removed. -/
theorem loadFromFile_snd (J : Jansson) (env : Surroundings) (key : Bytes) (ttl : Int) (dir : CacheDir) :
    (loadFromFile J env key ttl dir).2 =
      if env.granted (.filepath key) && !isCacheFileValid env dir (cachePath key) ttl then
        dir.unlink env (cachePath key) else dir := by
  unfold loadFromFile getCacheFilepath
  cases env.granted (.filepath key) with
  | false => rfl
  | true =>
      simp only [if_true, Bool.true_and]
      cases isCacheFileValid env dir (cachePath key) ttl with
      | false => rfl
      | true =>
          simp only [if_true]
          cases loadFile J env (cachePath key) dir <;> rfl

end JustWeather.Cache
