import JustWeather.Cache.Clearing
import JustWeather.Cache.Freshness
import JustWeather.Cache.Stored

/-! # Sharing

Several processes, each with a list of its own, work on one directory. A lookup notices that
another process has cleared the directory by the missing file, and only by it.
-/

namespace JustWeather.Cache

open CLib ClientCache Machine

variable {Process : Type*}

/-- The lists of the processes, and their directory. -/
structure Shared (Process : Type*) where
  caches : Process → ClientCache
  dir : CacheDir

/-- What one process works on. -/
def Shared.view (s : Shared Process) (p : Process) : CacheState := ⟨s.caches p, s.dir⟩

structure SharedCall (Process : Type*) where
  process : Process
  call : CacheCall

/-- One of these calls stores this data under the key. -/
def StoredIn (J : Jansson) (calls : List (SharedCall Process)) (k x : Bytes) : Prop :=
  ∃ c ∈ calls, ∃ jsonData, c.call.op = .set k jsonData ∧ SameData J jsonData x

theorem StoredIn.snoc {J : Jansson} {calls : List (SharedCall Process)} {k x : Bytes}
    (h : StoredIn J calls k x) (c : SharedCall Process) : StoredIn J (calls ++ [c]) k x := by
  obtain ⟨c', mem, stored⟩ := h
  exact ⟨c', List.mem_append_left _ mem, stored⟩

variable [DecidableEq Process]

/-- The state after a call of one of the processes. -/
def performShared (J : Jansson) (s : Shared Process) (c : SharedCall Process) : Shared Process :=
  let after := perform J (s.view c.process) c.call
  ⟨Function.update s.caches c.process after.cache, after.dir⟩

/-- Behind every clear a lookup, by whichever process, returns only what was stored since. It is the
key and the text that tell: an older text passes if the same was stored under the key again. -/
def ClearsHonoured (J : Jansson) (start : Shared Process) (calls : List (SharedCall Process)) : Prop :=
  ∀ before clear after get rest k x, calls = before ++ clear :: (after ++ get :: rest) →
    clear.call.op = .clear → get.call.op = .get k →
    (clientCacheGet J get.call.env k
      ((run (performShared J) start (before ++ clear :: after)).view get.process)).1 = some x →
    StoredIn J after k x

/-- The process has the entry in its list, and does not replace it. -/
def Keeps (p : Process) (entry : CacheEntry) (s : Shared Process) (c : SharedCall Process) : Prop :=
  entry ∈ (s.caches p).entries ∧
    ∀ jsonData, c.process = p → c.call.op ≠ .set entry.key jsonData

/-- When a process stores a key, an entry for it that another process has kept in its list since a
clear is too old to be returned. -/
def StoresInTurn (J : Jansson) (start : Shared Process) (calls : List (SharedCall Process)) : Prop :=
  ∀ before clear between store rest k jsonData,
    calls = before ++ clear :: (between ++ store :: rest) → clear.call.op = .clear →
    store.call.op = .set k jsonData → ∀ p, p ≠ store.process → ∀ entry, entry.key = k →
    Along (performShared J) (Keeps p entry) (run (performShared J) start (before ++ [clear])) between →
    entry ∈ ((run (performShared J) start (before ++ clear :: between)).caches p).entries →
    entry.ttl < store.call.env.now - entry.createdAt

/-- A call under a key out of `keys`; nothing fails. -/
structure Undisturbed (keys : Set Bytes) (c : SharedCall Process) : Prop where
  calm : c.call.env.Calm
  set : ∀ key jsonData, c.call.op = .set key jsonData → key ∈ keys
  get : ∀ key, c.call.op = .get key → key ∈ keys

variable {J : Jansson} {keys : Set Bytes} {s : Shared Process} {c : SharedCall Process}

/-! ## What a call does to the others -/

/-- Another process keeps its list. -/
theorem performShared_caches_ne {p : Process} (other : p ≠ c.process) :
    (performShared J s c).caches p = s.caches p :=
  Function.update_of_ne other _ _

theorem performShared_caches_self :
    (performShared J s c).caches c.process = (perform J (s.view c.process) c.call).cache :=
  Function.update_self _ _ _

/-- An entry after a call is an old one that was not replaced, the one stored, or made of a file. -/
theorem performShared_entries {p : Process} {entry : CacheEntry}
    (mem : entry ∈ ((performShared J s c).caches p).entries) :
    Keeps p entry s c ∨
    (∃ key jsonData, c.process = p ∧ c.call.op = .set key jsonData ∧ entry.key = key ∧
      entry.jsonData = jsonData) ∨
    ∃ v, Reloads J (s.view p) c.call entry.key v ∧ entry.jsonData = J.dump v := by
  by_cases mine : p = c.process
  · subst mine
    rw [performShared_caches_self] at mem
    by_cases replaces : ∃ jsonData, c.call.op = .set entry.key jsonData
    · obtain ⟨jsonData, set⟩ := replaces
      obtain ⟨process, op, env⟩ := c
      subst set
      rcases clientCacheSet_entries mem with ⟨-, other, -⟩ | ⟨-, new⟩
      · exact absurd rfl other
      · exact .inr (.inl ⟨_, jsonData, rfl, rfl, rfl, by rw [new]⟩)
    · rcases perform_entries mem with old | ⟨key, jsonData, set, rfl⟩ | ⟨key, v, reloads, rfl⟩
      · exact .inl ⟨old, fun jsonData _ set => replaces ⟨jsonData, set⟩⟩
      · exact absurd ⟨jsonData, set⟩ replaces
      · exact .inr (.inr ⟨v, reloads, rfl⟩)
  · rw [performShared_caches_ne mine] at mem
    exact .inl ⟨mem, fun _ same => absurd same.symm mine⟩

/-- The keys in the lists are out of `keys`, and no directory stands at the path of one. -/
structure Tidy (keys : Set Bytes) (s : Shared Process) : Prop where
  keyed : ∀ p, ∀ entry ∈ (s.caches p).entries, entry.key ∈ keys
  regular : ∀ key ∈ keys, ∀ inode, s.dir.stat (cachePath key) = some inode → inode.isFile = true

theorem Tidy.step (undisturbed : Undisturbed keys c) (h : Tidy keys s) :
    Tidy keys (performShared J s c) := by
  constructor
  · intro p entry mem
    rcases performShared_entries mem with ⟨old, -⟩ | ⟨key, jsonData, -, set, rfl, -⟩ | ⟨v, reloads, -⟩
    · exact h.keyed p entry old
    · exact undisturbed.set _ jsonData set
    · exact undisturbed.get _ reloads.1
  · intro key mem inode here
    rcases perform_stat here with old | ⟨key', jsonData, -, -, saved⟩
    · exact h.regular key mem inode old
    · exact saved.isFile

/-! ## Since a clear -/

/-- `calls` lead from a clear to this state: what is in a list or a file was stored by one of them,
or is an entry kept since the clear, without a file or too old. -/
structure SinceClear (J : Jansson) (keys : Set Bytes) (start : Shared Process)
    (calls : List (SharedCall Process)) (s : Shared Process) : Prop where
  memory : ∀ p, ∀ entry ∈ (s.caches p).entries, StoredIn J calls entry.key entry.jsonData ∨
    Along (performShared J) (Keeps p entry) start calls ∧
      (s.dir.stat (cachePath entry.key) = none ∨
        ∃ c ∈ calls, entry.ttl < c.call.env.now - entry.createdAt)
  disk : ∀ key ∈ keys, ∀ content mtime v, s.dir.stat (cachePath key) = some (.file content mtime) →
    J.load content = .ok v → StoredIn J calls key (J.dump v)

theorem Saved.loads_whole {env : Surroundings} {jsonData content : Bytes} {t : Int} {v : J.Value}
    (undo : J.LoadUndoesDump) (complete : env.write = .complete)
    (saved : Saved J env jsonData (.file content t)) (load : J.load content = .ok v) :
    SameData J jsonData (J.dump v) := by
  obtain ⟨w, json, written⟩ := saved
  simp only [CacheDir.written, complete, Option.some.injEq, Inode.file.injEq] at written
  rw [← written.1, undo jsonData w json] at load
  cases load
  exact .inr ⟨_, json, rfl⟩

/-- After a clear there is no file under any of the keys. -/
theorem Tidy.stat_clear (h : Tidy keys s) (calm : c.call.env.Calm) (clear : c.call.op = .clear)
    {key : Bytes} (mem : key ∈ keys) : (performShared J s c).dir.stat (cachePath key) = none := by
  obtain ⟨process, op, env⟩ := c
  subst clear
  cases here : (performShared J s ⟨process, .clear, env⟩).dir.stat (cachePath key) with
  | none => rfl
  | some inode =>
      have cleared : Absent key (clientCacheClear env (s.view process)) :=
        Absent.clear calm.opendir (calm.unlink _) (s.view process)
      have old := clientCacheClear_within env (s.view process) _ inode here
      exact absurd ((cleared.disk inode here).symm.trans (h.regular key mem inode old)) Bool.false_ne_true

theorem SinceClear.start (h : Tidy keys s) (calm : c.call.env.Calm) (clear : c.call.op = .clear) :
    SinceClear J keys (performShared J s c) [] (performShared J s c) := by
  constructor
  · intro p entry mem
    refine .inr ⟨trivial, .inl ?_⟩
    have key : entry.key ∈ keys := by
      rcases performShared_entries mem with ⟨old, -⟩ | ⟨key, jsonData, -, set, -⟩ | ⟨v, ⟨get, -⟩, -⟩
      · exact h.keyed p entry old
      · rw [clear] at set
        cases set
      · rw [clear] at get
        cases get
    exact h.stat_clear calm clear key
  · intro key mem content mtime v here
    rw [h.stat_clear calm clear mem] at here
    cases here

theorem SinceClear.step {start : Shared Process} {calls : List (SharedCall Process)}
    (undo : J.LoadUndoesDump) (apart : Set.InjOn hashMd5String keys) (undisturbed : Undisturbed keys c)
    (tidy : Tidy keys (run (performShared J) start calls))
    (inTurn : ∀ k jsonData, c.call.op = .set k jsonData → ∀ p, p ≠ c.process → ∀ entry,
      entry.key = k → Along (performShared J) (Keeps p entry) start calls →
      entry ∈ ((run (performShared J) start calls).caches p).entries →
      entry.ttl < c.call.env.now - entry.createdAt)
    (h : SinceClear J keys start calls (run (performShared J) start calls)) :
    SinceClear J keys start (calls ++ [c])
      (performShared J (run (performShared J) start calls) c) := by
  constructor
  · intro p entry mem
    rcases performShared_entries mem with keeps | ⟨key, jsonData, -, set, rfl, data⟩ | ⟨v, reloads, data⟩
    · rcases h.memory p entry keeps.1 with stored | ⟨kept, harmless⟩
      · exact .inl (stored.snoc c)
      · refine .inr ⟨along_append.mpr ⟨kept, keeps, trivial⟩, ?_⟩
        rcases harmless with gone | ⟨c', mem', old⟩
        · cases here : (performShared J (run (performShared J) start calls) c).dir.stat
              (cachePath entry.key) with
          | none => exact .inl rfl
          | some inode =>
              -- a file appears by a store of this key, and not by the process itself
              right
              rcases perform_stat here with before | ⟨key, jsonData, set, path, -⟩
              · exact absurd (before.symm.trans gone) (Option.some_ne_none inode)
              · have same : entry.key = key := by
                  apply apart (tidy.keyed p entry keeps.1) (undisturbed.set key jsonData set)
                  exact cachePath_inj path
                subst same
                have other : p ≠ c.process := fun mine => keeps.2 jsonData mine.symm set
                exact ⟨c, by simp, inTurn _ jsonData set p other entry rfl kept keeps.1⟩
        · exact .inr ⟨c', List.mem_append_left _ mem', old⟩
    · exact .inl ⟨c, by simp, jsonData, set, .inl data⟩
    · left
      obtain ⟨content, mtime, here, -, load⟩ := reloads.2.2.2.file
      rw [data]
      exact (h.disk entry.key (undisturbed.get _ reloads.1) content mtime v here load).snoc c
  · intro key mem content mtime v here load
    rcases perform_stat here with old | ⟨key', jsonData, set, path, saved⟩
    · exact (h.disk key mem content mtime v old load).snoc c
    · have same : key = key' := apart mem (undisturbed.set key' jsonData set) (cachePath_inj path)
      subst same
      exact ⟨c, by simp, jsonData, set, saved.loads_whole undo undisturbed.calm.write load⟩

/-- What is found was stored since the clear. -/
theorem SinceClear.found {start : Shared Process} {calls : List (SharedCall Process)}
    {env : Surroundings} {p : Process} {k x : Bytes} (mem : k ∈ keys) (calm : env.Calm)
    (clock : ∀ c ∈ calls, c.call.env.now ≤ env.now) (h : SinceClear J keys start calls s)
    (found : (clientCacheGet J env k (s.view p)).1 = some x) : StoredIn J calls k x := by
  rcases clientCacheGet_some found with ⟨entry, here, young, rfl⟩ | ⟨v, -, loadable, rfl⟩
  · obtain ⟨listed, rfl⟩ := lookup_some here
    rcases h.memory p entry listed with stored | ⟨-, gone | ⟨c, mem, old⟩⟩
    · exact stored
    · have file := ((clientCacheGet_alive here young _).mp found).2.2 (calm.granted _)
      have none : (s.view p).dir.stat (cachePath entry.key) = none := gone
      rw [none] at file
      cases file
    · have := clock c mem
      omega
  · obtain ⟨content, mtime, here, -, load⟩ := loadable.file
    exact h.disk k mem content mtime v here load

/-- When the processes store in turn, every clear is honoured by all of them. -/
theorem clears_honoured {J : Jansson} {start : Shared Process} {keys : Set Bytes}
    {calls : List (SharedCall Process)} (undo : J.LoadUndoesDump)
    (apart : Set.InjOn hashMd5String keys) (noEntry : ∀ p, (start.caches p).entries = [])
    (regular : ∀ key ∈ keys, ∀ inode, start.dir.stat (cachePath key) = some inode →
      inode.isFile = true)
    (undisturbed : ∀ c ∈ calls, Undisturbed keys c)
    (clock : calls.Pairwise fun c c' => c.call.env.now ≤ c'.call.env.now)
    (inTurn : StoresInTurn J start calls) : ClearsHonoured J start calls := by
  intro before clear after get rest k x split clears gets found
  have tidy : ∀ part, part <+: calls → Tidy keys (run (performShared J) start part) := by
    intro part within
    have first : Tidy keys start := by
      refine ⟨fun p entry mem => ?_, regular⟩
      rw [noEntry p] at mem
      cases mem
    exact run_invariant (P := fun _ c => Undisturbed keys c) (fun _ _ => Tidy.step) first
      (along_of_forall fun c mem => undisturbed c (within.subset mem))
  have along : ∀ part, part <+: after → SinceClear J keys
      (run (performShared J) start (before ++ [clear])) part
      (run (performShared J) (run (performShared J) start (before ++ [clear])) part) := by
    intro part
    induction part using List.reverseRecOn with
    | nil =>
        intro _
        have := tidy before ⟨_, split.symm⟩
        rw [run_append]
        exact SinceClear.start this (undisturbed clear (by simp [split])).calm clears
    | append_singleton part c ih =>
        rintro ⟨others, rfl⟩
        have here : before ++ [clear] ++ part <+: calls := ⟨c :: others ++ get :: rest, by simp [split]⟩
        rw [run_append (performShared J) _ part [c]]
        refine SinceClear.step undo apart (undisturbed c (by simp [split])) ?_ ?_ (ih ⟨c :: others, by simp⟩)
        · rw [← run_append]
          exact tidy _ here
        · intro k jsonData set p other entry key kept mem
          rw [← run_append, List.append_assoc] at mem
          exact inTurn before clear part c (others ++ get :: rest) k jsonData (by simp [split]) clears
            set p other entry key kept mem
  have since := along after (List.prefix_refl _)
  rw [← run_append, List.append_assoc] at since
  have now : ∀ c ∈ after, c.call.env.now ≤ get.call.env.now := by
    rw [split, List.pairwise_append, List.pairwise_cons, List.pairwise_append] at clock
    exact fun c mem => clock.2.1.2.2.2 c mem get (by simp)
  have getting := undisturbed get (by simp [split])
  exact since.found (getting.get k gets) getting.calm now found

/-- Two processes with nothing in memory, and an empty directory. -/
def twoProcesses : Shared Bool := ⟨fun _ => clientCacheCreate 50 300, .present fun _ => none⟩

/-- After a clear by the other process, the one that stored the key stores it again. -/
theorem clears_honoured_again :
    ClearsHonoured .emptyTexts twoProcesses
      [⟨true, .set (ascii "a") (ascii "[]"), .calm 0⟩, ⟨false, .clear, .calm 1⟩,
        ⟨true, .set (ascii "a") (ascii "\x7b\x7d"), .calm 2⟩, ⟨false, .get (ascii "a"), .calm 3⟩] := by
  refine @clears_honoured Bool _ .emptyTexts twoProcesses {ascii "a"} _
    Jansson.emptyTexts_loadUndoesDump ?_ (fun _ => rfl) ?_ ?_ ?_ ?_
  · exact Set.injOn_singleton _ _
  · intro key mem inode here
    cases here
  · intro c mem
    simp only [List.mem_cons, List.not_mem_nil, or_false] at mem
    rcases mem with rfl | rfl | rfl | rfl <;>
      exact ⟨Surroundings.calm_calm _, fun _ _ op => by cases op <;> rfl, fun _ op => by cases op <;> rfl⟩
  · decide
  · intro before clear between store rest k jsonData split clears set p other entry key kept mem
    match before, between with
    | [], _ =>
        simp only [List.nil_append, List.cons.injEq] at split
        rw [← split.1] at clears
        cases clears
    | [_], [] =>
        simp only [List.cons_append, List.nil_append, List.cons.injEq] at split
        obtain ⟨rfl, rfl, rfl, -⟩ := split
        cases p with
        | true => exact absurd rfl other
        | false =>
            have none : ((run (performShared .emptyTexts) twoProcesses
                ([⟨true, .set (ascii "a") (ascii "[]"), .calm 0⟩] ++ [⟨false, .clear, .calm 1⟩])).caches
                  false).entries = [] := by decide +kernel
            rw [none] at mem
            cases mem
    | [_], [_] =>
        simp only [List.cons_append, List.nil_append, List.cons.injEq] at split
        rw [← split.2.2.2.1] at set
        cases set
    | [_], _ :: _ :: _ | [_, _, _], _ =>
        have := congrArg List.length split
        simp at this
    | [_, _], _ =>
        simp only [List.cons_append, List.nil_append, List.cons.injEq] at split
        rw [← split.2.2.1] at clears
        cases clears
    | _ :: _ :: _ :: _ :: _, _ =>
        have := congrArg List.length split
        simp at this

/-- The process that clears stores the key again: the other one sees a file and returns the text it
stored before the clear. -/
theorem clears_not_honoured :
    ¬ ClearsHonoured .emptyTexts twoProcesses
      [⟨true, .set (ascii "a") (ascii "[]"), .calm 0⟩, ⟨false, .clear, .calm 1⟩,
        ⟨false, .set (ascii "a") (ascii "\x7b\x7d"), .calm 2⟩, ⟨true, .get (ascii "a"), .calm 3⟩] := by
  intro honoured
  obtain ⟨c, mem, jsonData, set, same⟩ :=
    honoured [_] _ [_] _ [] (ascii "a") (ascii "[]") rfl rfl rfl (by decide +kernel)
  rw [List.mem_singleton.mp mem] at set
  cases set
  rcases same with text | ⟨v, load, text⟩
  · exact absurd text (by decide)
  · cases load
    exact absurd text (by decide)

end JustWeather.Cache
