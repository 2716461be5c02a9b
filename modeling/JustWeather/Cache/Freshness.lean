import JustWeather.Cache.Run

/-! # Freshness

The age of an entry is counted from its creation, the age of a file from its
last writing. A lookup that makes an entry of a file starts a new age.
-/

namespace JustWeather.Cache

open CLib ClientCache Machine

/-- A text as it is returned for stored data: the data itself, or as `jansson` writes it. -/
def SameData (J : Jansson) (jsonData x : Bytes) : Prop :=
  x = jsonData ∨ ∃ v, J.load jsonData = .ok v ∧ x = J.dump v

/-- A store at time `t` of this data, under a key with this path: one of these calls, or one of an
earlier process, which left its file. -/
def StoredAt (J : Jansson) (start : CacheState) (calls : List CacheCall) (path : Bytes) (t : Int)
    (x : Bytes) : Prop :=
  (∃ call ∈ calls, ∃ key jsonData, call.op = .set key jsonData ∧ cachePath key = path ∧
    call.env.now = t ∧ SameData J jsonData x) ∨
  ∃ content v, start.dir.stat path = some (.file content t) ∧ J.load content = .ok v ∧ x = J.dump v

/-- What a lookup returns was stored no longer ago than an entry lives. -/
def Fresh (J : Jansson) (start : CacheState) (calls : List CacheCall) : Prop :=
  ∀ before call after k x, calls = before ++ call :: after → call.op = .get k →
    (clientCacheGet J call.env k (run (perform J) start before)).1 = some x →
    ∃ t, StoredAt J start before (cachePath k) t x ∧ call.env.now - start.cache.defaultTtl ≤ t

/-- The last of these calls makes an entry of a file written at time `t`, and this is an entry like
it: a store of the same text in the same second makes an equal one, which counts too. -/
def MadeOfFile (J : Jansson) (start : CacheState) (calls : List CacheCall) (t : Int)
    (entry : CacheEntry) : Prop :=
  ∃ before call v content, calls = before ++ [call] ∧
    Reloads J (run (perform J) start before) call entry.key v ∧
    (run (perform J) start before).dir.stat (cachePath entry.key) = some (.file content t) ∧
    entry.jsonData = J.dump v ∧ entry.createdAt = call.env.now

/-- An entry made of a file, or equal to one that was, is looked up only while the file's age allows
it. -/
def ReloadsInTime (J : Jansson) (start : CacheState) (calls : List CacheCall) : Prop :=
  ∀ before call after k entry, calls = before ++ call :: after → call.op = .get k →
    (run (perform J) start before).cache.lookup k = some entry →
    ∀ earlier, earlier <+: before → ∀ t, MadeOfFile J start earlier t entry →
      call.env.now - t ≤ start.cache.defaultTtl

/-- Where the entries and files of a run come from. -/
structure Sourced (J : Jansson) (start : CacheState) (calls : List CacheCall) (s : CacheState) :
    Prop where
  memory : ∀ entry ∈ s.cache.entries, entry.ttl = start.cache.defaultTtl ∧
    (StoredAt J start calls (cachePath entry.key) entry.createdAt entry.jsonData ∨
      ∃ earlier, earlier <+: calls ∧ ∃ t, MadeOfFile J start earlier t entry ∧
        StoredAt J start calls (cachePath entry.key) t entry.jsonData)
  disk : ∀ key content t v, s.dir.stat (cachePath key) = some (.file content t) →
    J.load content = .ok v → StoredAt J start calls (cachePath key) t (J.dump v)

theorem StoredAt.snoc {J : Jansson} {start : CacheState} {calls : List CacheCall} {path x : Bytes}
    {t : Int} (h : StoredAt J start calls path t x) (call : CacheCall) :
    StoredAt J start (calls ++ [call]) path t x := by
  rcases h with ⟨c, mem, rest⟩ | file
  · exact .inl ⟨c, List.mem_append_left _ mem, rest⟩
  · exact .inr file

theorem run_limits (J : Jansson) (s : CacheState) (calls : List CacheCall) :
    (run (perform J) s calls).cache.defaultTtl = s.cache.defaultTtl := by
  have preserves : ∀ t call, True → t.cache.defaultTtl = s.cache.defaultTtl →
      (perform J t call).cache.defaultTtl = s.cache.defaultTtl := by
    intro t call _ same
    exact (perform_limits J t call).2.trans same
  exact run_invariant preserves rfl (along_of_forall fun _ _ => trivial)

/-- The file of a store, as far as it loads, holds the data stored. -/
theorem Saved.loads {J : Jansson} {env : Surroundings} {jsonData content : Bytes} {t : Int}
    {v : J.Value} (undo : J.LoadUndoesDump) (cut : J.CutTextFails)
    (saved : Saved J env jsonData (.file content t)) (load : J.load content = .ok v) :
    t = env.now ∧ SameData J jsonData (J.dump v) := by
  obtain ⟨w, json, written⟩ := saved
  have whole : content = J.dump w → SameData J jsonData (J.dump v) := by
    rintro rfl
    rw [undo jsonData w json] at load
    cases load
    exact .inr ⟨_, json, rfl⟩
  unfold CacheDir.written at written
  split at written
  · cases written
  · next count _ =>
      cases written
      refine ⟨rfl, whole ?_⟩
      rcases Nat.lt_or_ge count (J.dump w).length with short | long
      · exact absurd load (cut w count v short)
      · exact List.take_of_length_le long
  · cases written
    exact ⟨rfl, whole rfl⟩

theorem Sourced.step {J : Jansson} {start : CacheState} {calls : List CacheCall} {call : CacheCall}
    (undo : J.LoadUndoesDump) (cut : J.CutTextFails)
    (h : Sourced J start calls (run (perform J) start calls)) :
    Sourced J start (calls ++ [call]) (perform J (run (perform J) start calls) call) := by
  have ttl := run_limits J start calls
  constructor
  · intro entry mem
    rcases perform_entries mem with old | ⟨key, jsonData, set, rfl⟩ | ⟨key, v, reloads, rfl⟩
    · obtain ⟨same, source⟩ := h.memory entry old
      refine ⟨same, source.imp (fun stored => stored.snoc call) ?_⟩
      rintro ⟨earlier, part, t, made, stored⟩
      exact ⟨earlier, part.trans (List.prefix_append _ _), t, made, stored.snoc call⟩
    · exact ⟨ttl, .inl (.inl ⟨call, by simp, key, jsonData, set, rfl, rfl, .inl rfl⟩)⟩
    · obtain ⟨content, t, at_, -, load⟩ := reloads.2.2.2.file
      refine ⟨ttl, .inr ⟨_, List.prefix_refl _, t, ⟨calls, call, v, content, rfl, reloads, at_, rfl, rfl⟩,
        (h.disk key content t v at_ load).snoc call⟩⟩
  · intro key content t v at_ load
    rcases perform_stat at_ with old | ⟨key', jsonData, set, path, saved⟩
    · exact (h.disk key content t v old load).snoc call
    · obtain ⟨now, same⟩ := saved.loads undo cut load
      exact .inl ⟨call, by simp, key', jsonData, set, path.symm, now.symm, same⟩

theorem Sourced.run {J : Jansson} {start : CacheState} (undo : J.LoadUndoesDump)
    (cut : J.CutTextFails) (noEntry : start.cache.entries = []) (calls : List CacheCall) :
    Sourced J start calls (run (perform J) start calls) := by
  induction calls using List.reverseRecOn with
  | nil =>
      constructor
      · intro entry mem
        rw [run_nil, noEntry] at mem
        cases mem
      · intro key content t v at_ load
        exact .inr ⟨content, v, at_, load, rfl⟩
  | append_singleton calls call ih =>
      rw [run_append]
      exact ih.step undo cut

/-- A run that looks up no entry past the age of the file it was made of returns fresh data only. -/
theorem cache_fresh {J : Jansson} {maxEntries : Nat} {defaultTtl : Int} {dir : CacheDir}
    {calls : List CacheCall} (undo : J.LoadUndoesDump) (cut : J.CutTextFails)
    (inTime : ReloadsInTime J ⟨clientCacheCreate maxEntries defaultTtl, dir⟩ calls) :
    Fresh J ⟨clientCacheCreate maxEntries defaultTtl, dir⟩ calls := by
  intro before call after k x split get found
  have sourced : Sourced J ⟨clientCacheCreate maxEntries defaultTtl, dir⟩ before _ :=
    Sourced.run undo cut rfl before
  have ttl := run_limits J ⟨clientCacheCreate maxEntries defaultTtl, dir⟩ before
  rcases clientCacheGet_some found with ⟨entry, here, young, rfl⟩ | ⟨v, -, loadable, rfl⟩
  · obtain ⟨listed, rfl⟩ := lookup_some here
    obtain ⟨same, stored | ⟨earlier, part, t, made, stored⟩⟩ := sourced.memory entry listed
    · exact ⟨entry.createdAt, stored, by omega⟩
    · have inTime := inTime before call after _ entry split get here earlier part t made
      exact ⟨t, stored, by omega⟩
  · obtain ⟨content, t, at_, young, load⟩ := loadable.file
    exact ⟨t, sourced.disk k content t v at_ load, by omega⟩

/-- A store, a restart, a lookup that takes the file into the list and one that finds its entry. -/
theorem cache_fresh_reload :
    Fresh .emptyTexts ⟨clientCacheCreate 50 300, .present fun _ => none⟩
      [⟨.set (ascii "a") (ascii "[]"), .calm 0⟩, ⟨.restart, .calm 0⟩, ⟨.get (ascii "a"), .calm 100⟩,
        ⟨.get (ascii "a"), .calm 300⟩] := by
  refine cache_fresh Jansson.emptyTexts_loadUndoesDump Jansson.emptyTexts_cutTextFails ?_
  rintro before call after k entry split get here earlier ⟨rest, rfl⟩ t
    ⟨before', call', v, content, rfl, ⟨get', -⟩, at_, -⟩
  obtain ⟨-, rfl⟩ := lookup_some here
  match before', rest with
  | [], _ =>
      simp only [List.cons_append, List.nil_append, List.cons.injEq] at split
      rw [← split.1] at get'
      cases get'
  | [_], _ =>
      simp only [List.cons_append, List.nil_append, List.cons.injEq] at split
      rw [← split.2.1] at get'
      cases get'
  | [_, _], [] =>
      simp only [List.cons_append, List.nil_append, List.cons.injEq] at split
      obtain ⟨rfl, rfl, rfl, rfl, -⟩ := split
      have key : entry.key = ascii "a" := (CacheOp.get.inj get).symm
      have file : (run (perform .emptyTexts) ⟨clientCacheCreate 50 300, .present fun _ => none⟩
          [⟨.set (ascii "a") (ascii "[]"), .calm 0⟩, ⟨.restart, .calm 0⟩]).dir.stat
            (cachePath (ascii "a")) = some (.file (ascii "[]") 0) := by decide +kernel
      rw [key, file] at at_
      cases at_
      decide
  | [_, _], _ :: _ =>
      have := congrArg List.length split
      simp at this
  | _ :: _ :: _ :: _, _ =>
      have := congrArg List.length split
      simp at this
      omega

/-- A file taken into the list at the end of its age is served for as long again. -/
theorem cache_stale_entry :
    ¬ Fresh .emptyTexts ⟨clientCacheCreate 50 300, .present fun _ => none⟩
      [⟨.set (ascii "a") (ascii "[]"), .calm 0⟩, ⟨.restart, .calm 0⟩, ⟨.get (ascii "a"), .calm 300⟩,
        ⟨.get (ascii "a"), .calm 600⟩] := by
  intro fresh
  obtain ⟨t, ⟨call, mem, key, jsonData, set, -, now, -⟩ | ⟨_, _, file, -⟩, recent⟩ :=
    fresh [_, _, _] _ [] (ascii "a") (ascii "[]") rfl rfl (by decide +kernel)
  · have bound : (300 : Int) ≤ t := recent
    simp only [List.mem_cons, List.not_mem_nil, or_false] at mem
    rcases mem with rfl | rfl | rfl
    · rw [← now] at bound
      exact absurd bound (by decide)
    · cases set
    · cases set
  · cases file

end JustWeather.Cache
