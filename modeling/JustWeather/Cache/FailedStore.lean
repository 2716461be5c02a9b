import JustWeather.Cache.Lookups

/-! # Failed stores

A store gives up the old entry for its key, and one entry more with its file when
the list is full, before it asks for the memory of the new entry. When there is
none, only what the directory still holds can make up for that.
-/

namespace JustWeather.Cache

open CLib ClientCache Machine

/-- Nothing, one text, or two texts of one JSON value. -/
def SameJson (J : Jansson) (a b : Option Bytes) : Prop :=
  a = b ∨ ∃ x y v, a = some x ∧ b = some y ∧ J.load x = .ok v ∧ J.load y = .ok v

/-- Every lookup from a time on, when nothing fails, finds the same value in both states. -/
def SameLookups (J : Jansson) (since : Int) (s s' : CacheState) : Prop :=
  ∀ env : Surroundings, env.Calm → since ≤ env.now → ∀ k,
    SameJson J (clientCacheGet J env k s').1 (clientCacheGet J env k s).1

/-- The entry is too old or has no file. -/
def Hidden (now : Int) (entry : CacheEntry) (inode : Option Inode) : Prop :=
  entry.ttl < now - entry.createdAt ∨ inode = none

/-- No entry is made of what stands at the path: no file, too old or no JSON. -/
def Unloadable (J : Jansson) (now ttl : Int) (inode : Option Inode) : Prop :=
  ∀ content mtime, inode = some (.file content mtime) →
    ttl < now - mtime ∨ ∀ v, J.load content ≠ .ok v

/-- The file has the value and the age of the entry. -/
def Copied (J : Jansson) (entry : CacheEntry) (inode : Option Inode) : Prop :=
  ∃ content v, inode = some (.file content entry.createdAt) ∧ J.load content = .ok v ∧
    J.load entry.jsonData = .ok v

/-- What is lost by a store under `k` that gets no memory is copied in the directory, or is not
shown any more. -/
structure Harmless (J : Jansson) (env : Surroundings) (k : Bytes) (s : CacheState) : Prop where
  /-- The entry for the key, and an evicted one that keeps its file. -/
  entry : ∀ key entry, key = k ∨ evictedKey s k = some key →
    evictsAt env (s.cache.remove k) s.dir (cachePath key) = false → s.cache.lookup key = some entry →
    Copied J entry (s.dir.stat (cachePath key)) ∨
      Hidden env.now entry (s.dir.stat (cachePath key)) ∧
        Unloadable J env.now s.cache.defaultTtl (s.dir.stat (cachePath key))
  /-- The file of an evicted entry. -/
  file : ∀ key, evictsAt env (s.cache.remove k) s.dir (cachePath key) = true →
    match s.cache.lookup key with
    | some entry => entry.ttl < env.now - entry.createdAt
    | none => Unloadable J env.now s.cache.defaultTtl (s.dir.stat (cachePath key))

/-- The call is no store that gets no memory, or a harmless one. -/
def HarmlessCall (J : Jansson) (s : CacheState) (call : CacheCall) : Prop :=
  match call.op with
  | .set key _ => storesEntry call.env = false → Harmless J call.env key s
  | _ => True

variable {J : Jansson} {env : Surroundings} {k jsonData : Bytes} {s : CacheState} {now ttl : Int}
  {entry : CacheEntry} {inode : Option Inode}

/-! ## Calm lookups -/

theorem fromEntry_calm (calm : env.Calm) {x : Bytes} :
    fromEntry env k entry inode = some x ↔ ¬ Hidden env.now entry inode ∧ x = entry.jsonData := by
  unfold fromEntry Hidden
  rw [calm.granted, calm.granted, if_pos rfl, Bool.true_and]
  cases inode with
  | none => simp
  | some inode =>
      by_cases old : entry.ttl < env.now - entry.createdAt
      · simp [old]
      · simp [old, eq_comm]

theorem fromFile_calm (calm : env.Calm) {x : Bytes} :
    fromFile J env k ttl inode = some x ↔ ∃ content mtime v, inode = some (.file content mtime) ∧
      env.now - mtime ≤ ttl ∧ J.load content = .ok v ∧ x = J.dump v := by
  rcases inode with _ | ⟨content, mtime⟩ | mtime
  · simp [fromFile]
  · simp only [fromFile, calm.granted, calm.readable, and_true, Option.some.injEq, Inode.file.injEq]
    constructor
    · intro some
      split at some
      · next young =>
          cases load : J.load content with
          | error text =>
              rw [load] at some
              cases some
          | ok v =>
              rw [load] at some
              cases some
              exact ⟨content, mtime, v, ⟨rfl, rfl⟩, young, load, rfl⟩
      · cases some
    · rintro ⟨_, _, v, ⟨rfl, rfl⟩, young, load, rfl⟩
      rw [if_pos young, load]
      rfl
  · simp [fromFile]

theorem fromEntry_hidden (calm : env.Calm) :
    fromEntry env k entry inode = none ↔ Hidden env.now entry inode := by
  rw [Option.eq_none_iff_forall_ne_some]
  constructor
  · intro nothing
    by_contra alive
    exact nothing _ ((fromEntry_calm calm).mpr ⟨alive, rfl⟩)
  · intro hidden x some
    exact ((fromEntry_calm calm).mp some).1 hidden

theorem fromFile_unloadable (calm : env.Calm) :
    fromFile J env k ttl inode = none ↔ Unloadable J env.now ttl inode := by
  rw [Option.eq_none_iff_forall_ne_some]
  constructor
  · intro nothing content mtime here
    by_contra loads
    simp only [not_or, not_forall, not_not] at loads
    obtain ⟨young, v, load⟩ := loads
    exact nothing _ ((fromFile_calm calm).mpr ⟨content, mtime, v, here, by omega, load, rfl⟩)
  · intro unloadable x some
    obtain ⟨content, mtime, v, here, young, load, -⟩ := (fromFile_calm calm).mp some
    rcases unloadable content mtime here with old | fails
    · omega
    · exact fails v load

theorem Hidden.later {now' : Int} (h : Hidden now entry inode) (later : now ≤ now') :
    Hidden now' entry inode := by
  rcases h with old | none
  · exact .inl (by omega)
  · exact .inr none

theorem Unloadable.later {now' : Int} (h : Unloadable J now ttl inode) (later : now ≤ now') :
    Unloadable J now' ttl inode := by
  intro content mtime here
  rcases h content mtime here with old | fails
  · exact .inl (by omega)
  · exact .inr fails

/-! ## Results -/

theorem sameJson_none_left {b : Option Bytes} : SameJson J none b ↔ b = none := by
  constructor
  · rintro (same | ⟨x, y, v, none, -⟩)
    · exact same.symm
    · cases none
  · rintro rfl
    exact .inl rfl

theorem SameJson.some_iff {a b : Option Bytes} (same : SameJson J a b) :
    (∃ x, a = some x) ↔ ∃ x, b = some x := by
  rcases same with rfl | ⟨x, y, v, rfl, rfl, -⟩
  · exact Iff.rfl
  · exact iff_of_true ⟨x, rfl⟩ ⟨y, rfl⟩

theorem sameJson_none_right {a : Option Bytes} : SameJson J a none ↔ a = none := by
  constructor
  · rintro (same | ⟨x, y, v, -, none, -⟩)
    · exact same
    · cases none
  · rintro rfl
    exact .inl rfl

/-- A text has the value of a dumped one. -/
theorem sameJson_dump {x : Bytes} {v : J.Value} (dumped : J.load (J.dump v) = .ok v) :
    SameJson J (some (J.dump v)) (some x) ↔ J.load x = .ok v := by
  constructor
  · rintro (same | ⟨y, z, w, here, there, load, load'⟩)
    · rwa [← Option.some.inj same]
    · cases here
      cases there
      rw [dumped] at load
      cases load
      exact load'
  · exact fun load => .inr ⟨_, _, v, rfl, rfl, dumped, load⟩

/-! ## The entry and its file -/

/-- At a time both are shown, or neither is. -/
theorem shown_alike {content : Bytes} {mtime : Int} {v : J.Value} (calm : env.Calm)
    (load : J.load content = .ok v)
    (same : SameJson J (fromFile J env k ttl (some (.file content mtime)))
      (fromEntry env k entry (some (.file content mtime)))) :
    env.now - mtime ≤ ttl ↔ env.now - entry.createdAt ≤ entry.ttl := by
  have file : (∃ x, fromFile J env k ttl (some (.file content mtime)) = some x) ↔ env.now - mtime ≤ ttl := by
    constructor
    · rintro ⟨x, some⟩
      obtain ⟨_, _, _, here, young, -⟩ := (fromFile_calm calm).mp some
      cases here
      exact young
    · exact fun young => ⟨_, (fromFile_calm calm).mpr ⟨_, _, v, rfl, young, load, rfl⟩⟩
  have memory : (∃ x, fromEntry env k entry (some (.file content mtime)) = some x) ↔
      env.now - entry.createdAt ≤ entry.ttl := by
    constructor
    · rintro ⟨x, some⟩
      have alive := ((fromEntry_calm calm).mp some).1
      by_contra old
      exact alive (.inl (by omega))
    · intro young
      refine ⟨_, (fromEntry_calm calm).mpr ⟨?_, rfl⟩⟩
      rintro (old | none)
      · omega
      · cases none
  rw [← file, ← memory]
  exact same.some_iff

/-- The file makes up for the entry exactly when it is a copy, or when neither is shown. -/
theorem copied_iff (undo : J.LoadUndoesDump) (lives : entry.ttl = ttl) :
    (∀ env : Surroundings, env.Calm → now ≤ env.now →
      SameJson J (fromFile J env k ttl inode) (fromEntry env k entry inode)) ↔
    Copied J entry inode ∨ Hidden now entry inode ∧ Unloadable J now ttl inode := by
  constructor
  · intro same
    have here := same (.calm now) (Surroundings.calm_calm now) le_rfl
    by_cases hidden : Hidden now entry inode
    · right
      rw [(fromEntry_hidden (Surroundings.calm_calm now)).mpr hidden, sameJson_none_right,
        fromFile_unloadable (Surroundings.calm_calm now)] at here
      exact ⟨hidden, here⟩
    · left
      have alive : fromEntry (.calm now) k entry inode = some entry.jsonData :=
        (fromEntry_calm (Surroundings.calm_calm now)).mpr ⟨hidden, rfl⟩
      obtain ⟨x, taken⟩ := here.some_iff.mpr ⟨_, alive⟩
      obtain ⟨content, mtime, v, rfl, young, load, rfl⟩ :=
        (fromFile_calm (Surroundings.calm_calm now)).mp taken
      rw [alive, taken, sameJson_dump (undo content v load)] at here
      have alike : ∀ t, now ≤ t → (t - mtime ≤ ttl ↔ t - entry.createdAt ≤ entry.ttl) := fun t later =>
        shown_alike (Surroundings.calm_calm t) load (same (.calm t) (Surroundings.calm_calm t) later)
      have young' : now - mtime ≤ ttl := young
      -- each of the two is shown up to its own end
      have first := (alike (mtime + ttl) (by omega)).mp (by omega)
      have last := (alike (entry.createdAt + ttl) (by omega)).mpr (by omega)
      obtain rfl : mtime = entry.createdAt := by omega
      exact ⟨content, v, rfl, load, here⟩
  · rintro (⟨content, v, rfl, load, load'⟩ | ⟨hidden, unloadable⟩) env calm later
    · by_cases young : env.now - entry.createdAt ≤ ttl
      · rw [(fromFile_calm calm).mpr ⟨content, _, v, rfl, young, load, rfl⟩,
          (fromEntry_calm calm).mpr ⟨?_, rfl⟩]
        · exact (sameJson_dump (undo content v load)).mpr load'
        · rintro (old | none)
          · omega
          · cases none
      · rw [(fromEntry_hidden calm).mpr (.inl (by omega)), sameJson_none_right, fromFile_unloadable calm]
        intro _ _ here
        cases here
        exact .inl (by omega)
    · rw [(fromEntry_hidden calm).mpr (hidden.later later), sameJson_none_right, fromFile_unloadable calm]
      exact unloadable.later later

/-! ## One store -/

/-- What a store that gets no memory leaves of a key. -/
theorem clientCacheGet_failed {later : Surroundings} {key : Bytes} (refused : storesEntry env = false) :
    (clientCacheGet J later key (clientCacheSet J env k jsonData s).2).1 =
      shown J later key s.cache.defaultTtl
        (if key = k ∨ evictedKey s k = some key then none else s.cache.lookup key)
        (if evictsAt env (s.cache.remove k) s.dir (cachePath key) then none
          else s.dir.stat (cachePath key)) := by
  have after : (clientCacheSet J env k jsonData s).2 =
      ⟨(evict env (s.cache.remove k) s.dir).1, (evict env (s.cache.remove k) s.dir).2⟩ := by
    unfold clientCacheSet
    simp only [refused, Bool.false_eq_true, if_false]
  have entry : (if (s.cache.remove k).victim.map CacheEntry.key = some key then none
      else (s.cache.remove k).lookup key) =
      if key = k ∨ evictedKey s k = some key then none else s.cache.lookup key := by
    by_cases here : key = k
    · subst here
      rw [lookup_remove_self, ite_self, if_pos (Or.inl rfl)]
    · rw [lookup_remove_ne here]
      simp only [here, false_or]
      rfl
  rw [clientCacheGet_shown, after, lookup_evict, stat_evict, entry,
    (evict_limits env (s.cache.remove k) s.dir).2]
  rfl

theorem shown_no_file (calm : env.Calm) (entry : Option CacheEntry) :
    shown J env k ttl entry none = none := by
  cases entry with
  | none => rfl
  | some entry => exact (fromEntry_hidden calm).mpr (.inr rfl)

/-- A store that gets no memory is not noticed exactly when it is harmless. -/
theorem sameLookups_iff (undo : J.LoadUndoesDump)
    (lives : ∀ entry ∈ s.cache.entries, entry.ttl = s.cache.defaultTtl)
    (refused : storesEntry env = false) :
    SameLookups J env.now s (clientCacheSet J env k jsonData s).2 ↔ Harmless J env k s := by
  constructor
  · intro same
    constructor
    · intro key entry lost kept found
      apply (copied_iff undo (lives entry (lookup_some found).1)).mp
      intro later calm clock
      have here := same later calm clock key
      rw [clientCacheGet_failed refused, clientCacheGet_shown, if_pos lost, kept, found] at here
      exact here
    · intro key goes
      have calm := Surroundings.calm_calm env.now
      have here := same (.calm env.now) calm le_rfl key
      rw [clientCacheGet_failed refused, clientCacheGet_shown, if_pos goes, shown_no_file calm,
        sameJson_none_left] at here
      cases found : s.cache.lookup key with
      | none =>
          rw [found] at here
          exact (fromFile_unloadable calm).mp here
      | some entry =>
          rw [found] at here
          obtain old | none := (fromEntry_hidden calm).mp here
          · exact old
          · simp [evictsAt, none] at goes
  · intro harmless later calm clock key
    rw [clientCacheGet_failed refused, clientCacheGet_shown]
    cases goes : evictsAt env (s.cache.remove k) s.dir (cachePath key) with
    | true =>
        have gone := harmless.file key goes
        rw [if_pos rfl, shown_no_file calm, sameJson_none_left]
        cases found : s.cache.lookup key with
        | none =>
            rw [found] at gone
            exact (fromFile_unloadable calm).mpr (Unloadable.later gone clock)
        | some entry =>
            rw [found] at gone
            exact (fromEntry_hidden calm).mpr (Hidden.later (.inl gone) clock)
    | false =>
        rw [if_neg Bool.false_ne_true]
        by_cases lost : key = k ∨ evictedKey s k = some key
        · rw [if_pos lost]
          cases found : s.cache.lookup key with
          | none => exact .inl rfl
          | some entry =>
              have made_up := harmless.entry key entry lost goes found
              exact (copied_iff undo (lives entry (lookup_some found).1)).mpr made_up later calm clock
        · rw [if_neg lost]
          exact .inl rfl

/-! ## Runs -/

/-- Every entry of a run has the lifetime of the cache. -/
theorem run_lives (J : Jansson) {start : CacheState} (empty : start.cache.entries = [])
    (calls : List CacheCall) : ∀ entry ∈ (run (perform J) start calls).cache.entries,
      entry.ttl = (run (perform J) start calls).cache.defaultTtl := by
  have preserves : ∀ s call, True → (∀ entry ∈ s.cache.entries, entry.ttl = s.cache.defaultTtl) →
      ∀ entry ∈ (perform J s call).cache.entries, entry.ttl = (perform J s call).cache.defaultTtl := by
    intro s call _ lives entry mem
    rw [(perform_limits J s call).2]
    rcases perform_entries mem with old | ⟨_, _, -, rfl⟩ | ⟨_, _, -, rfl⟩
    · exact lives entry old
    · rfl
    · rfl
  exact run_invariant preserves (by simp [empty]) (along_of_forall fun _ _ => trivial)

theorem clientCacheSet_failed : (clientCacheSet J env k jsonData s).1 = -1 ↔ storesEntry env = false := by
  unfold clientCacheSet
  cases storesEntry env <;> simp

/-- The failed stores of a run change nothing exactly when all of them are harmless. -/
theorem failedStores_unnoticed_iff {J : Jansson} {maxEntries : Nat} {defaultTtl : Int} {dir : CacheDir}
    {calls : List CacheCall} (undo : J.LoadUndoesDump) :
    let start : CacheState := ⟨clientCacheCreate maxEntries defaultTtl, dir⟩
    (∀ before k jsonData env after, calls = before ++ ⟨.set k jsonData, env⟩ :: after →
      (clientCacheSet J env k jsonData (run (perform J) start before)).1 = -1 →
      SameLookups J env.now (run (perform J) start before)
        (clientCacheSet J env k jsonData (run (perform J) start before)).2) ↔
    Along (perform J) (HarmlessCall J) start calls := by
  intro start
  rw [along_iff]
  constructor
  · rintro all before ⟨op, env⟩ after split
    cases op with
    | set k jsonData =>
        intro refused
        have same := all before k jsonData env after split (clientCacheSet_failed.mpr refused)
        exact (sameLookups_iff undo (run_lives J rfl before) refused).mp same
    | get | clear | restart => trivial
  · intro all before k jsonData env after split failed
    have refused := clientCacheSet_failed.mp failed
    have harmless : Harmless J env k (run (perform J) start before) := all before _ after split refused
    exact (sameLookups_iff undo (run_lives J rfl before) refused).mpr harmless

theorem evictsAt_none {cache : ClientCache} {dir : CacheDir} {p : Bytes} (room : cache.victim = none) :
    evictsAt env cache dir p = false := by
  simp [evictsAt, room]

/-- Surroundings in which a new entry gets no memory. -/
def Surroundings.noEntry (now : Int) : Surroundings :=
  { Surroundings.calm now with granted := fun site => site ≠ .entry }

/-- The second store of a text fails, and its file is still there. -/
theorem failedStores_unnoticed_twice :
    let start : CacheState := ⟨clientCacheCreate 50 300, .present fun _ => none⟩
    let calls : List CacheCall := [⟨.set (ascii "a") (ascii "[]"), .calm 0⟩,
      ⟨.set (ascii "a") (ascii "[]"), .noEntry 1⟩]
    ∀ before k jsonData env after, calls = before ++ ⟨.set k jsonData, env⟩ :: after →
      (clientCacheSet .emptyTexts env k jsonData (run (perform .emptyTexts) start before)).1 = -1 →
      SameLookups .emptyTexts env.now (run (perform .emptyTexts) start before)
        (clientCacheSet .emptyTexts env k jsonData (run (perform .emptyTexts) start before)).2 := by
  intro start calls
  refine (@failedStores_unnoticed_iff .emptyTexts 50 300 (.present fun _ => none) calls
    Jansson.emptyTexts_loadUndoesDump).mpr ⟨?_, fun _ => ?_, trivial⟩
  · intro refused
    cases refused
  · have room : ((perform .emptyTexts start ⟨.set (ascii "a") (ascii "[]"), .calm 0⟩).cache.remove
        (ascii "a")).victim = none := by decide +kernel
    have file : (perform .emptyTexts start ⟨.set (ascii "a") (ascii "[]"), .calm 0⟩).dir.stat
        (cachePath (ascii "a")) = some (.file (ascii "[]") 0) := by decide +kernel
    have listed : (perform .emptyTexts start ⟨.set (ascii "a") (ascii "[]"), .calm 0⟩).cache.lookup
        (ascii "a") = some ⟨ascii "a", ascii "[]", 0, 300⟩ := by decide +kernel
    constructor
    · rintro key entry (rfl | evicted) - found
      · cases listed.symm.trans found
        exact .inl ⟨ascii "[]", false, file, rfl, rfl⟩
      · rw [evictedKey, room] at evicted
        cases evicted
    · intro key goes
      exact absurd (goes.symm.trans (evictsAt_none room)) Bool.noConfusion

/-- The list has room for one entry. The store of another gets no memory, and the first one is gone
from the list and from the directory. -/
theorem failedStore_evicts :
    let s := run (perform .emptyTexts) ⟨clientCacheCreate 1 300, .present fun _ => none⟩
      [⟨.set (ascii "a") (ascii "[]"), .calm 0⟩]
    let failed := clientCacheSet .emptyTexts (.noEntry 1) (ascii "b") (ascii "[]") s
    failed.1 = -1 ∧ (clientCacheGet .emptyTexts (.calm 1) (ascii "a") s).1 = some (ascii "[]") ∧
      (clientCacheGet .emptyTexts (.calm 1) (ascii "a") failed.2).1 = none ∧
      ¬ SameLookups .emptyTexts 1 s failed.2 := by
  intro s failed
  have before : (clientCacheGet .emptyTexts (.calm 1) (ascii "a") s).1 = some (ascii "[]") := by
    decide +kernel
  have after : (clientCacheGet .emptyTexts (.calm 1) (ascii "a") failed.2).1 = none := by
    decide +kernel
  refine ⟨by decide +kernel, before, after, fun same => ?_⟩
  have here := same (.calm 1) (Surroundings.calm_calm 1) le_rfl (ascii "a")
  rw [before, after, sameJson_none_left] at here
  cases here

end JustWeather.Cache
