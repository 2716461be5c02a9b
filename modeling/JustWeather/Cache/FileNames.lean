import JustWeather.CLib.Buffers
import JustWeather.Cache.Lookups

/-! # The names of cache files

`get_cache_filepath` in its buffers, for any digest of 16 bytes. Every file that
the cache touches is one name behind its directory, whatever the key.
-/

namespace JustWeather.Cache

open CLib ClientCache Machine

abbrev Digest := Vector UInt8 16

def HASH_MD5_STRING_LENGTH : Nat := 33

/-- `%02x`. -/
def hexByte (c : UInt8) : Bytes := [lowerHexDigit (c.toNat / 16), lowerHexDigit (c.toNat % 16)]

/-- The loop of `hash_md5_binary_to_string` from `i` on, which formats two digits and a NUL byte. -/
def writeHex {size : Nat} (output : Buffer size) (i : Nat) : Bytes → Exec (Buffer size)
  | [] => pure output
  | c :: binary => do
      let output ← output.snprintf (i * 2) 3 (hexByte c)
      writeHex output (i + 1) binary

/-- `hash_md5_binary_to_string` on an array of `output_size` bytes. -/
def hashMd5BinaryToStringBuffers {size : Nat} (binary : Digest) (output : Buffer size) :
    Exec (Int × Buffer size) :=
  if size < HASH_MD5_STRING_LENGTH then pure (-1, output)
  else do
    let output ← writeHex output 0 binary.toList
    let output ← output.store (HASH_MD5_STRING_LENGTH - 1) 0
    pure (0, output)

/-- `get_cache_filepath` with its arrays, the second of which `malloc` grants or does not. -/
def getCacheFilepathBuffers (digest : Bytes → Digest) (granted : Bool) (key : Bytes) (hash : Buffer 33)
    (filepath : Buffer 512) : Exec (Option (Buffer 512)) := do
  let (ret, hash) ← hashMd5BinaryToStringBuffers (digest (cStr key)) hash
  if ret ≠ 0 then pure none
  else if granted then do
    let name ← hash.text
    let filepath ← filepath.snprintf 0 512 (CACHE_DIR ++ ascii "/" ++ name ++ ascii ".json")
    pure (some filepath)
  else pure none

/-- The path for a digest. -/
def digestPath (digest : Digest) : Bytes :=
  CACHE_DIR ++ ascii "/" ++ hashMd5BinaryToString digest.toList ++ ascii ".json"

def isLowerHexDigit (c : UInt8) : Bool := isDigit c || (97 ≤ c && c ≤ 102)

/-! ## The digits -/

theorem hexByte_inj {c d : UInt8} (same : hexByte c = hexByte d) : c = d := by
  have digits : ∀ m < 16, ∀ n < 16, lowerHexDigit m = lowerHexDigit n → m = n := by decide
  have lowC := c.toNat_lt
  have lowD := d.toNat_lt
  simp only [hexByte, List.cons.injEq, and_true] at same
  have high := digits _ (by omega) _ (by omega) same.1
  have low := digits _ (Nat.mod_lt _ (by decide)) _ (Nat.mod_lt _ (by decide)) same.2
  apply UInt8.toNat_inj.mp
  omega

theorem hashMd5BinaryToString_inj {s t : Bytes}
    (same : hashMd5BinaryToString s = hashMd5BinaryToString t) : s = t := by
  induction s generalizing t with
  | nil =>
      cases t with
      | nil => rfl
      | cons d t => cases same
  | cons c s ih =>
      cases t with
      | nil => cases same
      | cons d t =>
          have split : ∀ (c : UInt8) (s : Bytes),
              hashMd5BinaryToString (c :: s) = hexByte c ++ hashMd5BinaryToString s := fun _ _ => rfl
          rw [split, split] at same
          obtain ⟨first, rest⟩ := List.append_inj same rfl
          rw [hexByte_inj first, ih rest]

theorem hashMd5BinaryToString_length (s : Bytes) :
    (hashMd5BinaryToString s).length = 2 * s.length := by
  simp [hashMd5BinaryToString, List.length_flatMap, mul_comm]

theorem hashMd5BinaryToString_digits (s : Bytes) :
    ∀ c ∈ hashMd5BinaryToString s, isLowerHexDigit c = true := by
  have digits : ∀ n < 16, isLowerHexDigit (lowerHexDigit n) = true := by decide
  intro c mem
  obtain ⟨b, -, here⟩ := List.mem_flatMap.mp mem
  have small := b.toNat_lt
  rcases List.mem_cons.mp here with rfl | here
  · exact digits _ (by omega)
  · rw [List.mem_singleton.mp here]
    exact digits _ (by omega)

/-! ## The buffers -/

/-- Each turn writes over the NUL byte of the turn before. -/
theorem writeHex_eq {size : Nat} {output : Buffer size} {front rest : Bytes} {i : Nat}
    (binary : Bytes) (split : output.toList = front ++ rest) (start : front.length = i * 2)
    (room : 2 * binary.length < rest.length) :
    ∃ b back, writeHex output i binary = .returns b ∧
      b.toList = front ++ (hashMd5BinaryToString binary ++ back) ∧
      2 * binary.length + back.length = rest.length := by
  induction binary generalizing output front rest i with
  | nil => exact ⟨output, rest, rfl, split, by simp⟩
  | cons c binary ih =>
      rw [List.length_cons] at room
      obtain ⟨old, behind, rfl, three⟩ : ∃ old behind, rest = old ++ behind ∧ old.length = 3 :=
        ⟨rest.take 3, rest.drop 3, (List.take_append_drop 3 rest).symm,
          List.length_take_of_le (by omega)⟩
      have two : (hexByte c).length < 3 := Nat.lt_succ_self 2
      have exact_ : old.length = (hexByte c).length + 1 := three
      obtain ⟨b, written, eq⟩ := Buffer.snprintf_fits split exact_ two
      have next : b.toList = (front ++ hexByte c) ++ (0 :: behind) := by simp [eq]
      have start' : (front ++ hexByte c).length = (i + 1) * 2 := by
        rw [List.length_append, start, Nat.add_mul]
        rfl
      rw [List.length_append, three] at room
      obtain ⟨b', back, looped, eq', left⟩ := ih next start' (by rw [List.length_cons]; omega)
      refine ⟨b', back, ?_, ?_, ?_⟩
      · rw [writeHex, ← start, written, Exec.returns_bind, looped]
      · rw [eq', List.append_assoc, ← List.append_assoc (hexByte c)]
        rfl
      · rw [List.length_cons] at left
        rw [List.length_cons, List.length_append, three]
        omega

/-- The array gets the digits of the digest, and no byte outside it is written. -/
theorem hashMd5BinaryToStringBuffers_holds (digest : Digest) (output : Buffer 33) :
    ∃ b, hashMd5BinaryToStringBuffers digest output = .returns (0, b) ∧
      b.Holds (hashMd5BinaryToString digest.toList) := by
  have size : digest.toList.length = 16 := digest.length_toList
  have digits := hashMd5BinaryToString_length digest.toList
  have whole : output.toList.length = 33 := output.length_toList
  have room : 2 * digest.toList.length < output.toList.length := by omega
  obtain ⟨b, back, looped, eq, left⟩ := @writeHex_eq 33 output [] output.toList 0 digest.toList rfl rfl
    room
  obtain ⟨o, back, rfl⟩ : ∃ o back', back = o :: back' := by
    apply List.exists_cons_of_ne_nil
    rintro rfl
    rw [List.length_nil] at left
    omega
  have clean : 0 ∉ hashMd5BinaryToString digest.toList := by
    intro nul
    exact absurd (hashMd5BinaryToString_digits _ 0 nul) (by decide)
  obtain ⟨b', stored, holds⟩ := Buffer.store_holds eq clean
  refine ⟨b', ?_, holds⟩
  rw [digits, size] at stored
  rw [hashMd5BinaryToStringBuffers, if_neg (by decide), looped, Exec.returns_bind]
  have last : (HASH_MD5_STRING_LENGTH - 1 : Int) = ((2 * 16 : Nat) : Int) := by decide
  rw [last, stored]
  rfl

theorem digestPath_clean (digest : Digest) : 0 ∉ digestPath digest := by
  have digits : 0 ∉ hashMd5BinaryToString digest.toList := by
    intro nul
    exact absurd (hashMd5BinaryToString_digits _ 0 nul) (by decide)
  have fixed : 0 ∉ CACHE_DIR ++ ascii "/" ∧ 0 ∉ ascii ".json" := by decide
  simp only [digestPath, List.mem_append, not_or] at fixed ⊢
  exact ⟨⟨fixed.1, digits⟩, fixed.2⟩

theorem digestPath_length (digest : Digest) : (digestPath digest).length = 54 := by
  have size : digest.toList.length = 16 := digest.length_toList
  simp only [digestPath, List.length_append, hashMd5BinaryToString_length, size]
  rfl

/-- The path is written as a whole. -/
theorem getCacheFilepathBuffers_holds (digest : Bytes → Digest) (key : Bytes) (hash : Buffer 33)
    (filepath : Buffer 512) :
    ∃ b, getCacheFilepathBuffers digest true key hash filepath = .returns (some b) ∧
      b.Holds (digestPath (digest (cStr key))) := by
  obtain ⟨b, written, name⟩ := hashMd5BinaryToStringBuffers_holds (digest (cStr key)) hash
  have fits : (digestPath (digest (cStr key))).length < 512 := by
    rw [digestPath_length]
    decide
  obtain ⟨b', formatted, path⟩ := filepath.snprintf_holds (digestPath_clean _) fits le_rfl
  refine ⟨b', ?_, path⟩
  rw [getCacheFilepathBuffers, written, Exec.returns_bind]
  simp only [ne_eq, not_true, if_false, if_true]
  rw [name.text, Exec.returns_bind]
  exact congrArg (· >>= fun b => pure (some b)) formatted

theorem digestPath_inj {d d' : Digest} : digestPath d = digestPath d' ↔ d = d' := by
  constructor
  · intro same
    have names := List.append_cancel_left (List.append_cancel_right same)
    exact Vector.toList_inj.mp (hashMd5BinaryToString_inj names)
  · exact congrArg digestPath

/-! ## Within the directory -/

/-- The directory without anything but its entries. -/
def CacheDir.onlyEntries : CacheDir → CacheDir
  | .present inodes => .present fun p => if isEntryPath p then inodes p else none
  | dir => dir

def CacheState.onlyEntries (s : CacheState) : CacheState := ⟨s.cache, s.dir.onlyEntries⟩

theorem isEntryPath_cachePath (key : Bytes) : isEntryPath (cachePath key) = true := by
  have swept := isSwept_cachePath key
  unfold isSwept at swept
  exact (Bool.and_eq_true_iff.mp swept).1

section Entries

variable {J : Jansson} {env : Surroundings} {dir : CacheDir} {path : Bytes}

theorem stat_onlyEntries (inside : isEntryPath path = true) :
    dir.onlyEntries.stat path = dir.stat path := by
  cases dir with
  | missing | blocked => rfl
  | present inodes => exact if_pos inside

theorem put_onlyEntries (inode : Option Inode) (inside : isEntryPath path = true) :
    dir.onlyEntries.put path inode = (dir.put path inode).onlyEntries := by
  cases dir with
  | missing | blocked => rfl
  | present inodes =>
      simp only [CacheDir.onlyEntries, CacheDir.put, CacheDir.present.injEq]
      funext p
      by_cases here : p = path
      · simp [here, inside]
      · simp [here]

theorem unlink_onlyEntries (inside : isEntryPath path = true) :
    dir.onlyEntries.unlink env path = (dir.unlink env path).onlyEntries := by
  unfold CacheDir.unlink
  rw [stat_onlyEntries inside]
  split
  · exact put_onlyEntries none inside
  · rfl

theorem ensure_onlyEntries : dir.onlyEntries.ensure env = (dir.ensure env).onlyEntries := by
  cases dir with
  | missing parent =>
      cases parent with
      | true =>
          simp only [CacheDir.onlyEntries, CacheDir.ensure]
          split
          · simp
          · rfl
      | false => rfl
  | blocked | present => rfl

theorem dumpFile_onlyEntries {text : Bytes} (inside : isEntryPath path = true) :
    (dir.onlyEntries.dumpFile env path text).2 = (dir.dumpFile env path text).2.onlyEntries := by
  have opens : dir.onlyEntries.opens path = dir.opens path := by
    cases dir with
    | missing | blocked => rfl
    | present inodes => simp [CacheDir.onlyEntries, CacheDir.opens, inside]
  rw [CacheDir.dumpFile_dir, CacheDir.dumpFile_dir, opens]
  split
  · exact put_onlyEntries _ inside
  · rfl

theorem deleteFile_onlyEntries (key : Bytes) :
    deleteFile env key dir.onlyEntries = (deleteFile env key dir).onlyEntries := by
  unfold deleteFile getCacheFilepath
  cases env.granted (.filepath key) with
  | false => rfl
  | true => exact unlink_onlyEntries (isEntryPath_cachePath key)

theorem saveToFile_onlyEntries (key jsonData : Bytes) :
    (saveToFile J env key jsonData dir.onlyEntries).2 =
      (saveToFile J env key jsonData dir).2.onlyEntries := by
  cases json : J.load jsonData with
  | error text => rw [saveToFile_error json, saveToFile_error json, ensure_onlyEntries]
  | ok v =>
      rw [saveToFile_ok json, saveToFile_ok json, ensure_onlyEntries]
      split
      · exact dumpFile_onlyEntries (isEntryPath_cachePath key)
      · rfl

theorem loadFromFile_onlyEntries (key : Bytes) (ttl : Int) :
    loadFromFile J env key ttl dir.onlyEntries =
      ((loadFromFile J env key ttl dir).1, (loadFromFile J env key ttl dir).2.onlyEntries) := by
  have here : dir.onlyEntries.stat (cachePath key) = dir.stat (cachePath key) :=
    stat_onlyEntries (isEntryPath_cachePath key)
  have valid : isCacheFileValid env dir.onlyEntries (cachePath key) ttl =
      isCacheFileValid env dir (cachePath key) ttl := by
    unfold isCacheFileValid
    rw [here]
  have loaded : loadFile J env (cachePath key) dir.onlyEntries = loadFile J env (cachePath key) dir := by
    unfold loadFile
    rw [here]
  unfold loadFromFile getCacheFilepath
  cases env.granted (.filepath key) with
  | false => rfl
  | true =>
      simp only [if_true, valid, loaded, unlink_onlyEntries (isEntryPath_cachePath key)]
      split
      · split <;> rfl
      · rfl

end Entries

variable {J : Jansson} {env : Surroundings} {s : CacheState}

theorem clientCacheSet_onlyEntries (key jsonData : Bytes) :
    clientCacheSet J env key jsonData s.onlyEntries =
      ((clientCacheSet J env key jsonData s).1, (clientCacheSet J env key jsonData s).2.onlyEntries) := by
  have room : evict env (s.cache.remove key) s.dir.onlyEntries =
      ((evict env (s.cache.remove key) s.dir).1, (evict env (s.cache.remove key) s.dir).2.onlyEntries) := by
    unfold evict
    split
    · rfl
    · rw [deleteFile_onlyEntries]
  unfold clientCacheSet
  simp only [CacheState.onlyEntries, room]
  split
  · rw [saveToFile_onlyEntries]
  · rfl

theorem clientCacheGet_onlyEntries (key : Bytes) :
    clientCacheGet J env key s.onlyEntries =
      ((clientCacheGet J env key s).1, (clientCacheGet J env key s).2.onlyEntries) := by
  have here : s.onlyEntries.dir.stat (cachePath key) = s.dir.stat (cachePath key) :=
    stat_onlyEntries (isEntryPath_cachePath key)
  cases found : s.cache.lookup key with
  | some entry =>
      have found' : s.onlyEntries.cache.lookup key = some entry := found
      rw [clientCacheGet_found found, clientCacheGet_found found']
      simp only [noFile_iff, here]
      split
      · exact congrArg _ (congrArg _ (deleteFile_onlyEntries key))
      · split <;> rfl
  | none =>
      have found' : s.onlyEntries.cache.lookup key = none := found
      have loaded : loadFromFile J env key s.cache.defaultTtl s.dir.onlyEntries = _ :=
        loadFromFile_onlyEntries key s.cache.defaultTtl
      rw [clientCacheGet_absent found, clientCacheGet_absent found']
      unfold reload
      simp only [CacheState.onlyEntries, loaded]
      rcases loadFromFile J env key s.cache.defaultTtl s.dir with ⟨_ | jsonData, dir⟩
      · rfl
      · simp only
        split <;> rfl

theorem sweep_onlyEntries {dir : CacheDir} : sweep env dir.onlyEntries = (sweep env dir).onlyEntries := by
  cases dir with
  | missing | blocked => rfl
  | present inodes =>
      unfold sweep
      cases env.opendir with
      | false => rfl
      | true =>
          simp only [CacheDir.onlyEntries, if_true, CacheDir.present.injEq]
          funext p
          by_cases inside : isEntryPath p = true
          · have unlinked := @unlink_onlyEntries env (.present inodes) p inside
            simp only [CacheDir.onlyEntries] at unlinked
            rw [unlinked, if_pos inside, if_pos inside]
            split
            · exact stat_onlyEntries inside
            · rfl
          · have outside : isSwept p = false := by simp [isSwept, inside]
            simp [outside, inside]

theorem clientCacheClear_onlyEntries :
    clientCacheClear env s.onlyEntries = (clientCacheClear env s).onlyEntries := by
  have deleted : s.cache.entries.foldl (fun dir entry => deleteFile env entry.key dir)
        s.dir.onlyEntries =
      (s.cache.entries.foldl (fun dir entry => deleteFile env entry.key dir) s.dir).onlyEntries := by
    apply List.foldl_hom CacheDir.onlyEntries
    intro dir entry
    exact deleteFile_onlyEntries entry.key
  unfold clientCacheClear
  simp only [CacheState.onlyEntries, deleted, sweep_onlyEntries]

/-! ## Outside the directory -/

section Outside

variable {p : Bytes}

theorem ne_cachePath (outside : isEntryPath p = false) (key : Bytes) : p ≠ cachePath key := by
  rintro rfl
  rw [isEntryPath_cachePath] at outside
  cases outside

theorem clientCacheSet_outside (outside : isEntryPath p = false) (key jsonData : Bytes) :
    (clientCacheSet J env key jsonData s).2.dir.stat p = s.dir.stat p := by
  have room : (evict env (s.cache.remove key) s.dir).2.stat p = s.dir.stat p := by
    unfold evict
    split
    · rfl
    · exact stat_deleteFile_ne (ne_cachePath outside _)
  unfold clientCacheSet
  simp only
  split
  · rw [stat_saveToFile_ne (ne_cachePath outside key), room]
  · exact room

theorem clientCacheClear_outside (outside : isEntryPath p = false) :
    (clientCacheClear env s).dir.stat p = s.dir.stat p := by
  have unswept : isSwept p = false := by simp [isSwept, outside]
  unfold clientCacheClear
  rw [stat_sweep, unswept, Bool.and_false, if_neg Bool.false_ne_true]
  apply List.foldlRecOn (motive := fun dir => CacheDir.stat dir p = s.dir.stat p) _ _ rfl
  intro dir here entry _
  rw [stat_deleteFile_ne (ne_cachePath outside entry.key), here]

end Outside

/-- A call touches nothing but entries of the directory. -/
structure TouchesEntries (J : Jansson) (s : CacheState) (call : CacheCall) : Prop where
  leaves : ∀ p, isEntryPath p = false → (perform J s call).dir.stat p = s.dir.stat p
  ignores : perform J s.onlyEntries call = (perform J s call).onlyEntries
  get : ∀ key, call.op = .get key →
    (clientCacheGet J call.env key s.onlyEntries).1 = (clientCacheGet J call.env key s).1
  set : ∀ key jsonData, call.op = .set key jsonData →
    (clientCacheSet J call.env key jsonData s.onlyEntries).1 =
      (clientCacheSet J call.env key jsonData s).1

theorem touchesEntries (J : Jansson) (s : CacheState) (call : CacheCall) : TouchesEntries J s call := by
  obtain ⟨op, env⟩ := call
  constructor
  · intro p outside
    cases op with
    | set key jsonData => exact clientCacheSet_outside outside key jsonData
    | get key => exact clientCacheGet_stat_ne (ne_cachePath outside key)
    | clear => exact clientCacheClear_outside outside
    | restart => rfl
  · cases op with
    | set key jsonData => exact congrArg Prod.snd (clientCacheSet_onlyEntries key jsonData)
    | get key => exact congrArg Prod.snd (clientCacheGet_onlyEntries key)
    | clear => exact clientCacheClear_onlyEntries
    | restart => rfl
  · intro key _
    rw [clientCacheGet_onlyEntries]
  · intro key jsonData _
    rw [clientCacheSet_onlyEntries]

/-! ## Every key -/

/-- The digest of the cache. -/
def md5Digest (key : Bytes) : Digest where
  toArray := (hashMd5Binary key).toArray
  size_toArray := by simp [hashMd5Binary, md5Final, littleEndian]

theorem cachePath_eq (key : Bytes) : cachePath key = digestPath (md5Digest key) := rfl

/-- With the digest of the cache its arrays hold what `get_cache_filepath` returns. -/
theorem getCacheFilepathBuffers_refines (env : Surroundings) {key : Bytes} (clean : 0 ∉ key)
    (hash : Buffer 33) (filepath : Buffer 512) :
    ∃ written, getCacheFilepathBuffers md5Digest (env.granted (.filepath key)) key hash filepath =
        .returns written ∧
      ∀ path, getCacheFilepath env key = some path ↔ ∃ b, written = some b ∧ b.Holds path := by
  unfold getCacheFilepath
  cases env.granted (.filepath key) with
  | true =>
      obtain ⟨b, written, holds⟩ := getCacheFilepathBuffers_holds md5Digest key hash filepath
      rw [cStr_of_clean clean, ← cachePath_eq] at holds
      refine ⟨some b, written, fun path => ?_⟩
      rw [if_pos rfl]
      constructor
      · intro same
        rw [← Option.some.inj same]
        exact ⟨b, rfl, holds⟩
      · rintro ⟨b', same, holds'⟩
        cases same
        exact congrArg some (Exec.returns.inj (holds.text.symm.trans holds'.text))
  | false =>
      obtain ⟨b, written, -⟩ := hashMd5BinaryToStringBuffers_holds (md5Digest (cStr key)) hash
      refine ⟨none, ?_, by simp⟩
      rw [getCacheFilepathBuffers, written]
      rfl

/-- For every digest: the path for a key is the directory, a slash, 32 digits and the suffix, and
two keys have one path exactly when they have one digest. A call of the cache, whatever its keys,
does not depend on what stands outside the directory, and leaves it alone. -/
theorem cache_file_names :
    (∀ (digest : Bytes → Digest) (key : Bytes) (hash : Buffer 33) (filepath : Buffer 512), 0 ∉ key →
      ∃ name b, getCacheFilepathBuffers digest true key hash filepath = .returns (some b) ∧
        b.Holds (CACHE_DIR ++ ascii "/" ++ name ++ ascii ".json") ∧ name.length = 32 ∧
        ∀ c ∈ name, isLowerHexDigit c = true) ∧
    (∀ (digest : Bytes → Digest) (key key' : Bytes) (hash hash' : Buffer 33)
        (filepath filepath' b b' : Buffer 512), 0 ∉ key → 0 ∉ key' →
      getCacheFilepathBuffers digest true key hash filepath = .returns (some b) →
      getCacheFilepathBuffers digest true key' hash' filepath' = .returns (some b') →
      (b.text = b'.text ↔ digest key = digest key')) ∧
    ∀ (J : Jansson) (s : CacheState) (call : CacheCall), TouchesEntries J s call := by
  refine ⟨?_, ?_, touchesEntries⟩
  · intro digest key hash filepath clean
    obtain ⟨b, written, holds⟩ := getCacheFilepathBuffers_holds digest key hash filepath
    rw [cStr_of_clean clean] at holds
    have size : (digest key).toList.length = 16 := (digest key).length_toList
    refine ⟨hashMd5BinaryToString (digest key).toList, b, written, holds, ?_, ?_⟩
    · rw [hashMd5BinaryToString_length, size]
    · exact hashMd5BinaryToString_digits _
  · intro digest key key' hash hash' filepath filepath' b b' clean clean' written written'
    obtain ⟨c, here, holds⟩ := getCacheFilepathBuffers_holds digest key hash filepath
    obtain ⟨c', here', holds'⟩ := getCacheFilepathBuffers_holds digest key' hash' filepath'
    cases written.symm.trans here
    cases written'.symm.trans here'
    rw [cStr_of_clean clean] at holds
    rw [cStr_of_clean clean'] at holds'
    rw [holds.text, holds'.text, ← digestPath_inj]
    exact ⟨Exec.returns.inj, congrArg Exec.returns⟩

end JustWeather.Cache
