import JustWeather.Api.CacheCalls
import JustWeather.Cache.Keeping

/-! # Repeated requests

A client that has an answer does not ask for it again while its entry lives and the list has room
for all the keys it uses.
-/

namespace JustWeather.Api

open CLib Http Cache Machine

variable {J : Jansson} {keys : Finset Bytes} {t₀ now : Int} {texts : Bytes → Option Bytes}
  {env : RequestEnv} {w : WeatherClient} {dir : CacheDir} {request : Prepared}

/-- A request under one of the keys, between two times, in which the cache does not fail. -/
structure Smooth (keys : Finset Bytes) (t₀ until_ : Int) (key : Bytes) (env : RequestEnv) : Prop where
  key : key ∈ keys
  lookup : env.lookup.Calm
  store : env.store.Calm
  parses : env.parsesCached = true
  since : t₀ ≤ env.lookup.now
  clock : env.lookup.now ≤ env.store.now
  early : env.store.now ≤ until_

/-! ## One request -/

/-- What is kept under the key is the answer, without an HTTP request. -/
theorem kept_answers (apart : Set.InjOn hashMd5String (keys : Set Bytes))
    (smooth : Smooth keys t₀ (t₀ + w.cache.defaultTtl) (cStr request.cacheKey) env)
    (h : Kept J keys t₀ now texts ⟨w.cache, dir⟩) {d : Bytes} {json : J.Value}
    (text : texts (cStr request.cacheKey) = some d) (load : J.load d = .ok json) :
    (makeRequest J env w dir request).result = .returns (.ok json) ∧
      (makeRequest J env w dir request).get = none := by
  have early := smooth.clock.trans smooth.early
  have found := h.found apart smooth.lookup smooth.key early
  have value : cachedValue J env
      (clientCacheGet J env.lookup (cStr request.cacheKey) ⟨w.cache, dir⟩).1 = some json := by
    rw [found, text, cachedValue, Option.bind_some, smooth.parses, if_pos rfl, load]
    rfl
  unfold makeRequest
  simp only [value, and_self]

/-- A request keeps what there is, and its answer. -/
theorem kept_request (apart : Set.InjOn hashMd5String (keys : Set Bytes))
    (smooth : Smooth keys t₀ (t₀ + w.cache.defaultTtl) (cStr request.cacheKey) env)
    (later : now ≤ env.lookup.now) (h : Kept J keys t₀ now texts ⟨w.cache, dir⟩) :
    ∃ texts', Kept J keys t₀ env.store.now texts' (makeRequest J env w dir request).state ∧
      (∀ k d, texts k = some d → texts' k = some d) ∧
      ∀ json, (makeRequest J env w dir request).result = .returns (.ok json) →
        ∃ d, texts' (cStr request.cacheKey) = some d ∧ J.load d = .ok json := by
  have early := smooth.clock.trans smooth.early
  have returned := h.found apart smooth.lookup smooth.key early
  have looked := h.get apart smooth.lookup smooth.key later early
  have ttl := (@clientCacheGet_limits J env.lookup (cStr request.cacheKey) ⟨w.cache, dir⟩).2
  obtain ⟨state, results⟩ := @makeRequest_calls J env w dir request
  cases text : texts (cStr request.cacheKey) with
  | some d =>
      obtain ⟨-, ⟨v, load⟩, -⟩ := h.retained _ d text
      have value : found J env w dir request = some v := by
        rw [found, returned, text, cachedValue, Option.bind_some, smooth.parses, if_pos rfl, load]
        rfl
      refine ⟨texts, ?_, fun _ _ there => there, fun json answer => ⟨d, text, ?_⟩⟩
      · rw [state, requestCalls, value]
        exact looked.later smooth.clock
      · rcases (results json).mp answer with here | ⟨none, -⟩
        · cases value.symm.trans here
          exact load
        · cases value.symm.trans none
  | none =>
      have value : found J env w dir request = none := by
        rw [found, returned, text]
        rfl
      cases taken : (received env w request).filter fun body => (accepted J env body).isSome with
      | some body =>
          obtain ⟨here, some⟩ := Option.filter_eq_some_iff.mp taken
          obtain ⟨json, accept⟩ := Option.isSome_iff_exists.mp some
          obtain ⟨-, load, -⟩ := accepted_eq_some.mp accept
          refine ⟨Function.update texts (cStr request.cacheKey) (cStr body), ?_, ?_, ?_⟩
          · rw [state, requestCalls, value]
            simp only [taken]
            exact looked.set apart smooth.store smooth.key smooth.clock
              (smooth.since.trans smooth.clock) load text
          · intro k d there
            by_cases same : k = cStr request.cacheKey
            · rw [same, text] at there
              cases there
            · rwa [Function.update_of_ne same]
          · intro json' answer
            rcases (results json').mp answer with cached | ⟨-, bound⟩
            · cases value.symm.trans cached
            · rw [here, Option.bind_some, accept] at bound
              cases bound
              exact ⟨cStr body, Function.update_self _ _ _, load⟩
      | none =>
          refine ⟨texts, ?_, fun _ _ there => there, fun json answer => ?_⟩
          · rw [state, requestCalls, value]
            simp only [taken]
            exact looked.later smooth.clock
          · rcases (results json).mp answer with cached | ⟨-, bound⟩
            · cases value.symm.trans cached
            · obtain ⟨body, here, accept⟩ := Option.bind_eq_some_iff.mp bound
              rw [here, Option.filter_some, accept] at taken
              cases taken

/-! ## Sessions of one client -/

/-- The list and the directory of a single client. -/
def Session.alone (s : Session Unit) : CacheState := ⟨(s.clients ()).cache, s.dir⟩

/-- The times of a call's lookup and its store. -/
def ClientCall.times (c : ClientCall Unit) : List Int :=
  match c.op with
  | .request _ env => [env.lookup.now, env.store.now]
  | _ => []

/-- A call that neither clears the cache nor makes a new client; if it is a request, it is smooth. -/
structure Routine (keys : Finset Bytes) (t₀ : Int) (c : ClientCall Unit) : Prop where
  keeps : ∀ env, c.op ≠ .clearCache env
  stays : ∀ config, c.op ≠ .create config
  smooth : ∀ call env, c.op = .request call env →
    Smooth keys t₀ (t₀ + CACHE_DEFAULT_TTL) (cStr (keyOf call)) env

variable {s : Session Unit} {c : ClientCall Unit}

/-- A call of the client keeps what there is. -/
theorem kept_act (apart : Set.InjOn hashMd5String (keys : Set Bytes)) (routine : Routine keys t₀ c)
    (limits : ClientLimits (s.clients ()).cache) {later : Int}
    (bounds : now ≤ later ∧ ∀ t ∈ c.times, now ≤ t ∧ t ≤ later)
    (h : Kept J keys t₀ now texts s.alone) :
    ∃ texts', Kept J keys t₀ later texts' (act J s c).alone ∧
      ∀ k d, texts k = some d → texts' k = some d := by
  obtain ⟨⟨⟩, op⟩ := c
  cases op with
  | request call env =>
      have smooth := routine.smooth call env rfl
      have first := (bounds.2 env.lookup.now (by simp [ClientCall.times])).1
      have last := (bounds.2 env.store.now (by simp [ClientCall.times])).2
      have state : (act J s ⟨(), .request call env⟩).alone =
          (call.perform J env (s.clients ()) s.dir).state := rfl
      rw [state, Call.perform]
      cases prepared : call.prepare (s.clients ()).config env.encode with
      | error message => exact ⟨texts, h.later bounds.1, fun _ _ there => there⟩
      | ok request =>
          obtain ⟨-, rfl⟩ := prepare_eq_ok_iff.mp prepared
          rw [← limits.2] at smooth
          obtain ⟨texts', kept, more, -⟩ :=
            @kept_request J keys t₀ now texts env _ _ ⟨_, keyOf call⟩ apart smooth first h
          exact ⟨texts', kept.later last, more⟩
  | echo net copiesError =>
      have state : (act J s ⟨(), .echo net copiesError⟩).alone = s.alone :=
        congrArg (CacheState.mk · s.dir) (echo_cache net copiesError _)
      rw [state]
      exact ⟨texts, h.later bounds.1, fun _ _ there => there⟩
  | setTimeout timeoutMs => exact ⟨texts, h.later bounds.1, fun _ _ there => there⟩
  | clearCache env => exact absurd rfl (routine.keeps env)
  | create config => exact absurd rfl (routine.stays config)

theorem ClientCall.times_cases (c : ClientCall Unit) : c.times = [] ∨ ∃ a b, c.times = [a, b] := by
  obtain ⟨-, op⟩ := c
  cases op with
  | request call env => exact .inr ⟨_, _, rfl⟩
  | echo | clearCache | setTimeout | create => exact .inl rfl

theorem kept_run {calls : List (ClientCall Unit)} (apart : Set.InjOn hashMd5String (keys : Set Bytes))
    (routine : ∀ c ∈ calls, Routine keys t₀ c)
    (limits : ∀ owner, ClientLimits (s.clients owner).cache)
    (clock : (calls.flatMap ClientCall.times).Pairwise (· ≤ ·)) {later : Int} (now_ : now ≤ later)
    (bounds : ∀ t ∈ calls.flatMap ClientCall.times, now ≤ t ∧ t ≤ later)
    (h : Kept J keys t₀ now texts s.alone) :
    ∃ texts', Kept J keys t₀ later texts' (run (act J) s calls).alone ∧
      ∀ k d, texts k = some d → texts' k = some d := by
  induction calls generalizing s now texts with
  | nil => exact ⟨texts, h.later now_, fun _ _ there => there⟩
  | cons c calls ih =>
      rw [List.flatMap_cons, List.pairwise_append] at clock
      have mine : ∀ t ∈ c.times, now ≤ t ∧ t ≤ later :=
        fun t mem => bounds t (by rw [List.flatMap_cons]; exact List.mem_append_left _ mem)
      have theirs : ∀ t ∈ calls.flatMap ClientCall.times, now ≤ t ∧ t ≤ later :=
        fun t mem => bounds t (by rw [List.flatMap_cons]; exact List.mem_append_right _ mem)
      -- the time after the call, up to which the calls behind it do not go back
      obtain ⟨mid, start, stop, inside, behind⟩ : ∃ mid, now ≤ mid ∧ mid ≤ later ∧
          (∀ t ∈ c.times, now ≤ t ∧ t ≤ mid) ∧ ∀ t ∈ calls.flatMap ClientCall.times, mid ≤ t := by
        rcases c.times_cases with none | ⟨a, b, both⟩
        · rw [none]
          exact ⟨now, le_rfl, now_, nofun, fun t mem => (theirs t mem).1⟩
        · rw [both] at clock mine ⊢
          have ab := List.rel_of_pairwise_cons clock.1 (List.mem_singleton_self b)
          refine ⟨b, (mine b (by simp)).1, (mine b (by simp)).2, ?_, ?_⟩
          · intro t mem
            rcases List.mem_cons.mp mem with rfl | last
            · exact ⟨(mine _ mem).1, ab⟩
            · exact ⟨(mine t mem).1, (List.mem_singleton.mp last).le⟩
          · exact fun t mem => clock.2.2 b (by simp) t mem
      obtain ⟨texts', kept, more⟩ := kept_act apart (routine c List.mem_cons_self) (limits ())
        ⟨start, inside⟩ h
      obtain ⟨texts'', kept', more'⟩ := ih (fun c mem => routine c (List.mem_cons_of_mem _ mem))
        (act_limits limits c) clock.2.1 stop (fun t mem => ⟨behind t mem, (theirs t mem).2⟩) kept
      exact ⟨texts'', kept', fun k d there => more' k d (more k d there)⟩

theorem Routine.since (routine : Routine keys t₀ c) : ∀ t ∈ c.times, t₀ ≤ t := by
  obtain ⟨⟨⟩, op⟩ := c
  cases op with
  | request call env =>
      have smooth := routine.smooth call env rfl
      intro t mem
      simp only [ClientCall.times, List.mem_cons, List.not_mem_nil, or_false] at mem
      rcases mem with rfl | rfl
      · exact smooth.since
      · exact smooth.since.trans smooth.clock
  | echo | clearCache | setTimeout | create => exact nofun

/-- A session by a single client. -/
def Session.single (config : ClientConfig) (dir : CacheDir) : Session Unit :=
  .start (fun _ => config) dir

def asking (call : Call) (env : RequestEnv) : ClientCall Unit := ⟨(), .request call env⟩

/-- What a call answers is kept under its key. -/
theorem kept_answer {call : Call} {env : RequestEnv} {json : J.Value}
    (apart : Set.InjOn hashMd5String (keys : Set Bytes)) (limits : ClientLimits (s.clients ()).cache)
    (smooth : Smooth keys t₀ (t₀ + CACHE_DEFAULT_TTL) (cStr (keyOf call)) env)
    (later : now ≤ env.lookup.now) (h : Kept J keys t₀ now texts s.alone)
    (answer : (call.perform J env (s.clients ()) s.dir).result = .returns (.ok json)) :
    ∃ texts' d, Kept J keys t₀ env.store.now texts' (act J s (asking call env)).alone ∧
      texts' (cStr (keyOf call)) = some d ∧ J.load d = .ok json := by
  have state : (act J s (asking call env)).alone = (call.perform J env (s.clients ()) s.dir).state := rfl
  rw [← limits.2] at smooth
  rw [state]
  unfold Call.perform at answer ⊢
  cases prepared : call.prepare (s.clients ()).config env.encode with
  | error message =>
      rw [prepared] at answer
      cases answer
  | ok request =>
      rw [prepared] at answer
      obtain ⟨-, rfl⟩ := prepare_eq_ok_iff.mp prepared
      obtain ⟨texts', kept, -, answered⟩ :=
        @kept_request J keys t₀ now texts env _ _ ⟨_, keyOf call⟩ apart smooth later h
      obtain ⟨d, text, load⟩ := answered json answer
      exact ⟨texts', d, kept, text, load⟩

/-- A call with a key under which an answer is kept gets it, and sends nothing. -/
theorem kept_again {call : Call} {env : RequestEnv} {json : J.Value} {d : Bytes}
    (apart : Set.InjOn hashMd5String (keys : Set Bytes)) (limits : ClientLimits (s.clients ()).cache)
    (smooth : Smooth keys t₀ (t₀ + CACHE_DEFAULT_TTL) (cStr (keyOf call)) env)
    (taken : Accepted env.encode call) (h : Kept J keys t₀ now texts s.alone)
    (text : texts (cStr (keyOf call)) = some d) (load : J.load d = .ok json) :
    (call.perform J env (s.clients ()) s.dir).result = .returns (.ok json) ∧
      (call.perform J env (s.clients ()) s.dir).get = none := by
  have prepared : call.prepare (s.clients ()).config env.encode =
      .ok ⟨baseUrl (s.clients ()).config ++ pathOf env.encode call, keyOf call⟩ :=
    prepare_eq_ok_iff.mpr ⟨taken, rfl⟩
  rw [← limits.2] at smooth
  simp only [Call.perform, prepared]
  exact @kept_answers J keys t₀ now texts env _ _ ⟨_, keyOf call⟩ apart smooth h d json text load

/-- In a session of one client that starts with an empty directory, uses no more keys than its list has
room for, each with a file of its own, and neither clears its cache nor is made anew, within the life
of an entry and while the cache does not fail: once a call has an answer, every later call with the
same key has the same answer, and asks nobody for it. -/
theorem answered_once {config : ClientConfig} {dir : CacheDir} {before middle : List (ClientCall Unit)}
    {call call' : Call} {env env' : RequestEnv} {json : J.Value}
    (apart : Set.InjOn hashMd5String (keys : Set Bytes)) (room : keys.card ≤ CACHE_MAX_ENTRIES)
    (empty : ∀ p, dir.stat p = none) (reachable : dir.reachable = true)
    (routine : ∀ c ∈ before ++ asking call env :: (middle ++ [asking call' env']), Routine keys t₀ c)
    (clock : ((before ++ asking call env :: (middle ++ [asking call' env'])).flatMap
      ClientCall.times).Pairwise (· ≤ ·))
    (same : keyOf call' = keyOf call) (taken : Accepted env'.encode call')
    (answer : (call.perform J env ((run (act J) (.single config dir) before).clients ())
      (run (act J) (.single config dir) before).dir).result = .returns (.ok json)) :
    let s := run (act J) (.single config dir) (before ++ asking call env :: middle)
    (call'.perform J env' (s.clients ()) s.dir).result = .returns (.ok json) ∧
      (call'.perform J env' (s.clients ()) s.dir).get = none := by
  have limits : ∀ owner, ClientLimits ((Session.single config dir).clients owner).cache :=
    fun _ => ⟨rfl, rfl⟩
  have started : Kept J keys t₀ t₀ (fun _ => none) (Session.single config dir).alone :=
    Kept.start empty reachable room
  have smooth := (routine (asking call env) (by simp)).smooth call env rfl
  have smooth' := (routine (asking call' env') (by simp)).smooth call' env' rfl
  have since : ∀ part : List (ClientCall Unit), (∀ c ∈ part, Routine keys t₀ c) →
      ∀ t ∈ part.flatMap ClientCall.times, t₀ ≤ t := by
    intro part routine t mem
    obtain ⟨c, listed, here⟩ := List.mem_flatMap.mp mem
    exact (routine c listed).since t here
  simp only [List.flatMap_append, List.flatMap_cons, List.flatMap_nil, List.append_nil] at clock
  obtain ⟨clockBefore, clockBehind, order⟩ := List.pairwise_append.mp clock
  obtain ⟨-, clockMiddle, order'⟩ := List.pairwise_append.mp clockBehind
  obtain ⟨clockMiddle, -, order''⟩ := List.pairwise_append.mp clockMiddle
  -- up to the first call
  have routineBefore : ∀ c ∈ before, Routine keys t₀ c :=
    fun c mem => routine c (List.mem_append_left _ mem)
  obtain ⟨texts, kept, -⟩ := @kept_run J keys t₀ _ _ _ before apart routineBefore limits clockBefore
    env.lookup.now smooth.since (fun t mem => ⟨since before routineBefore t mem,
      order t mem _ (by simp [asking, ClientCall.times])⟩) started
  have limits' : ∀ owner, ClientLimits ((run (act J) (.single config dir) before).clients owner).cache :=
    runClient_limits limits before
  obtain ⟨texts', d, kept', text, load⟩ := kept_answer apart (limits' ()) smooth le_rfl kept answer
  -- up to the second call
  have routineMiddle : ∀ c ∈ middle, Routine keys t₀ c := fun c mem => routine c (by simp [mem])
  obtain ⟨texts'', kept'', more⟩ := @kept_run J keys t₀ _ _ _ middle apart routineMiddle
    (act_limits limits' _) clockMiddle env'.lookup.now
    (order' _ (by simp [asking, ClientCall.times]) _ (by simp [asking, ClientCall.times]))
    (fun t mem => ⟨order' _ (by simp [asking, ClientCall.times]) t (List.mem_append_left _ mem),
      order'' t mem _ (by simp [asking, ClientCall.times])⟩) kept'
  have limits'' : ClientLimits ((run (act J) (act J (run (act J) (.single config dir) before)
      (asking call env)) middle).clients ()).cache :=
    runClient_limits (act_limits limits' (asking call env)) middle ()
  intro s
  have ends : s =
      run (act J) (act J (run (act J) (.single config dir) before) (asking call env)) middle :=
    run_append ..
  rw [ends]
  rw [← same] at text
  exact kept_again apart limits'' smooth' taken kept'' (more _ d text) load

/-- The homepage, once from the server and once where nothing listens. -/
theorem answered_once_homepage :
    let s := run (act .emptyTexts) (.single .default noFiles)
      ([] ++ asking .getHomepage (answering (ascii "HTTP/1.1 200 OK\r\n\r\n\x7b\x7d")) :: [])
    (Call.getHomepage.perform .emptyTexts (answering []) (s.clients ()) s.dir).result =
        .returns (.ok true) ∧
      (Call.getHomepage.perform .emptyTexts (answering []) (s.clients ()) s.dir).get = none := by
  have smooth : ∀ full, Smooth {cStr (keyOf .getHomepage)} 0 (0 + CACHE_DEFAULT_TTL)
      (cStr (keyOf .getHomepage)) (answering full) :=
    fun full => ⟨by simp, Surroundings.calm_calm 0, Surroundings.calm_calm 0, rfl, le_rfl, le_rfl,
      (by decide : (0 : Int) ≤ 0 + CACHE_DEFAULT_TTL)⟩
  have apart : Set.InjOn hashMd5String (({cStr (keyOf .getHomepage)} : Finset Bytes) : Set Bytes) := by
    rw [Finset.coe_singleton]
    exact Set.injOn_singleton _ _
  have routine : ∀ c ∈ [] ++ asking .getHomepage (answering (ascii "HTTP/1.1 200 OK\r\n\r\n\x7b\x7d")) ::
      ([] ++ [asking .getHomepage (answering [])]), Routine {cStr (keyOf .getHomepage)} 0 c := by
    intro c mem
    simp only [List.nil_append, List.mem_cons, List.not_mem_nil, or_false] at mem
    rcases mem with rfl | rfl
    · exact ⟨nofun, nofun, fun _ _ op => by cases op; exact smooth _⟩
    · exact ⟨nofun, nofun, fun _ _ op => by cases op; exact smooth _⟩
  exact answered_once apart (by decide) (fun _ => rfl) rfl routine (by decide) rfl trivial
    (by decide +kernel)

end JustWeather.Api
