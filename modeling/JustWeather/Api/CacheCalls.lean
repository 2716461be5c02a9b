import JustWeather.Api.FailedRequest
import JustWeather.Cache.Staleness

/-! # Sessions as runs of the caches

To the list and the directory a request is a lookup, with a store behind it when a response is taken.
So a session of several clients is a run of several caches over one directory.
-/

namespace JustWeather.Api

open CLib Http Cache Machine

variable {Owner : Type*} {J : Jansson}

/-! ## Requests -/

/-- The value of a body that is taken: it parses, and reports no error. -/
def accepted (J : Jansson) (env : RequestEnv) (body : Bytes) : Option J.Value :=
  match (env.parseRefused.elim (J.load (cStr body)) .error : Except Bytes J.Value) with
  | .error _ => none
  | .ok json => if (apiError J json).isNone then some json else none

/-- The body that the HTTP request gets. -/
def received (env : RequestEnv) (w : WeatherClient) (request : Prepared) : Option Bytes :=
  let get := httpClientGet env.net w.http (cStr request.url)
  match get.result with
  | .returns (.ok ()) => get.client.responseBody
  | _ => none

/-- The text that the cache returns, parsed. -/
def found (J : Jansson) (env : RequestEnv) (w : WeatherClient) (dir : CacheDir) (request : Prepared) :
    Option J.Value :=
  cachedValue J env (clientCacheGet J env.lookup (cStr request.cacheKey) ⟨w.cache, dir⟩).1

/-- The calls of the cache that `makeRequest` makes. -/
def requestCalls (J : Jansson) (env : RequestEnv) (w : WeatherClient) (dir : CacheDir)
    (request : Prepared) : List CacheCall :=
  ⟨.get (cStr request.cacheKey), env.lookup⟩ ::
    match found J env w dir request with
    | some _ => []
    | none =>
        match (received env w request).filter fun body => (accepted J env body).isSome with
        | some body => [⟨.set (cStr request.cacheKey) (cStr body), env.store⟩]
        | none => []

variable {env : RequestEnv} {w : WeatherClient} {dir : CacheDir} {request : Prepared}

/-- A body is taken when its value is, and has no error in it. -/
theorem accepted_eq_some {body : Bytes} {json : J.Value} : accepted J env body = some json ↔
    env.parseRefused = none ∧ J.load (cStr body) = .ok json ∧ apiError J json = none := by
  unfold accepted
  cases env.parseRefused with
  | some text => simp
  | none =>
      cases J.load (cStr body) with
      | error text => simp
      | ok value =>
          have same : apiError J value = none ↔ (apiError J value).isNone = true :=
            Option.isNone_iff_eq_none.symm
          simp only [Option.elim_none, Option.ite_none_right_eq_some, Except.ok.injEq, Option.some.injEq,
            true_and]
          constructor
          · rintro ⟨none, rfl⟩
            exact ⟨rfl, same.mpr none⟩
          · rintro ⟨rfl, none⟩
            exact ⟨same.mp none, rfl⟩

theorem readBody_takes {key body : Bytes} {get : GetRun} {json : J.Value}
    (here : get.client.responseBody = some body) (takes : accepted J env body = some json) :
    (readBody J env w dir key get).result = .returns (.ok json) ∧
      (readBody J env w dir key get).state =
        (clientCacheSet J env.store (cStr key) (cStr body) ⟨w.cache, dir⟩).2 := by
  obtain ⟨parses, load, none⟩ := accepted_eq_some.mp takes
  simp only [readBody, here, parses, Option.elim_none, load, none, RequestRun.state, and_self]

theorem readBody_refuses {key : Bytes} {get : GetRun}
    (none : get.client.responseBody.bind (accepted J env) = none) :
    (∀ json, (readBody J env w dir key get).result ≠ .returns (.ok json)) ∧
      (readBody J env w dir key get).state = ⟨w.cache, dir⟩ := by
  have failed : ∃ message, (readBody J env w dir key get).result = .returns (.error message) := by
    unfold readBody
    cases here : get.client.responseBody with
    | none => exact ⟨_, rfl⟩
    | some body =>
        rw [here, Option.bind_some] at none
        simp only
        split
        · exact ⟨_, rfl⟩
        · next json load =>
            cases fails : apiError J json with
            | some message => exact ⟨message, rfl⟩
            | none =>
                simp only [accepted, load, fails] at none
                cases none
  obtain ⟨message, failed⟩ := failed
  refine ⟨fun json ok => ?_, readBody_error failed⟩
  rw [failed] at ok
  cases ok

theorem fetch_takes {body : Bytes} {json : J.Value} (here : received env w request = some body)
    (takes : accepted J env body = some json) :
    (fetch J env w dir request).result = .returns (.ok json) ∧
      (fetch J env w dir request).state =
        (clientCacheSet J env.store (cStr request.cacheKey) (cStr body) ⟨w.cache, dir⟩).2 := by
  unfold received at here
  unfold fetch
  simp only at here ⊢
  split at here
  · next ok =>
      rw [ok]
      exact readBody_takes here takes
  · cases here

theorem fetch_refuses (none : (received env w request).bind (accepted J env) = none) :
    (∀ json, (fetch J env w dir request).result ≠ .returns (.ok json)) ∧
      (fetch J env w dir request).state = ⟨w.cache, dir⟩ := by
  unfold received at none
  unfold fetch
  simp only at none ⊢
  split at none
  · next ok =>
      rw [ok]
      exact readBody_refuses none
  · next failed =>
      split
      · exact ⟨nofun, rfl⟩
      · exact ⟨nofun, rfl⟩
      · exact ⟨nofun, rfl⟩
      · next ok => exact absurd ok failed

/-- A request is its calls of the cache, and its result is what it finds there or what it takes. -/
theorem makeRequest_calls : (makeRequest J env w dir request).state =
      run (perform J) ⟨w.cache, dir⟩ (requestCalls J env w dir request) ∧
    ∀ json, (makeRequest J env w dir request).result = .returns (.ok json) ↔
      found J env w dir request = some json ∨ found J env w dir request = none ∧
        (received env w request).bind (accepted J env) = some json := by
  unfold makeRequest requestCalls found
  simp only
  cases there : cachedValue J env
      (clientCacheGet J env.lookup (cStr request.cacheKey) ⟨w.cache, dir⟩).1 with
  | some json =>
      refine ⟨rfl, fun json' => ?_⟩
      simp
  | none =>
      have same : received env { w with cache :=
          (clientCacheGet J env.lookup (cStr request.cacheKey) ⟨w.cache, dir⟩).2.cache } request =
            received env w request := rfl
      simp only [reduceCtorEq, true_and, false_or]
      cases takes : (received env w request).bind (accepted J env) with
      | some json =>
          obtain ⟨body, here, takes⟩ := Option.bind_eq_some_iff.mp takes
          obtain ⟨result, state⟩ := fetch_takes (same.trans here) takes
          rw [result, state, here, Option.filter_some, takes]
          refine ⟨rfl, fun json' => ?_⟩
          simp
      | none =>
          have refused : (received env w request).filter (fun body => (accepted J env body).isSome) =
              none := by
            cases here : received env w request with
            | none => rfl
            | some body =>
                rw [here, Option.bind_some] at takes
                simp [takes]
          rw [← same] at takes
          obtain ⟨result, state⟩ := fetch_refuses takes
          rw [state, refused]
          refine ⟨rfl, fun json => iff_of_false (result json) ?_⟩
          simp

/-! ## Sessions -/

/-- The calls of the cache that a call of a client makes. -/
def ClientOp.cacheCalls (J : Jansson) (w : WeatherClient) (dir : CacheDir) : ClientOp → List CacheCall
  | .request call env =>
      match call.prepare w.config env.encode with
      | .error _ => []
      | .ok request => requestCalls J env w dir request
  | .echo _ _ => []
  | .clearCache env => [⟨.clear, env⟩]
  | .setTimeout _ => []
  | .create _ => [⟨.restart, .calm 0⟩]

/-- Every cache has the limits that the constructor gives it. -/
def ClientLimits (cache : ClientCache) : Prop :=
  cache.maxEntries = CACHE_MAX_ENTRIES ∧ cache.defaultTtl = CACHE_DEFAULT_TTL

/-- The caches of a session. -/
def Session.shared (s : Session Owner) : Shared Owner := ⟨fun owner => (s.clients owner).cache, s.dir⟩

theorem clientCacheCreate_limits {cache : ClientCache} (limits : ClientLimits cache) :
    clientCacheCreate cache.maxEntries cache.defaultTtl =
      clientCacheCreate CACHE_MAX_ENTRIES CACHE_DEFAULT_TTL := by
  rw [limits.1, limits.2]

/-- What a call of a client leaves in its list and the directory is what its calls of the cache leave. -/
theorem ClientOp.act_calls (limits : ClientLimits w.cache) (op : ClientOp) :
    (⟨(op.act J w dir).1.cache, (op.act J w dir).2⟩ : CacheState) =
      run (perform J) ⟨w.cache, dir⟩ (op.cacheCalls J w dir) := by
  cases op with
  | request call env =>
      have state : (call.perform J env w dir).state = run (perform J) ⟨w.cache, dir⟩
          (cacheCalls J w dir (.request call env)) := by
        simp only [Call.perform, cacheCalls]
        cases call.prepare w.config env.encode with
        | error message => rfl
        | ok request => exact makeRequest_calls.1
      exact state
  | echo net copiesError => exact congrArg (CacheState.mk · dir) (echo_cache net copiesError w)
  | clearCache env => rfl
  | setTimeout timeoutMs => rfl
  | create config => exact congrArg (CacheState.mk · dir) (clientCacheCreate_limits limits).symm

variable [DecidableEq Owner]

/-- Calls of the cache by one owner, one after another. -/
theorem runShared_owner (s : Shared Owner) (owner : Owner) (calls : List CacheCall) :
    run (performShared J) s (calls.map (SharedCall.mk owner)) =
      ⟨Function.update s.caches owner (run (perform J) (s.view owner) calls).cache,
        (run (perform J) (s.view owner) calls).dir⟩ := by
  induction calls generalizing s with
  | nil =>
      rw [List.map_nil, run_nil, run_nil]
      exact congrArg (Shared.mk · s.dir) (Function.update_eq_self owner s.caches).symm
  | cons call calls ih =>
      have view : (performShared J s ⟨owner, call⟩).view owner = perform J (s.view owner) call :=
        performShared_view s ⟨owner, call⟩
      rw [List.map_cons, run_cons, ih, run_cons, view]
      simp only [performShared, Function.update_idem]

/-- The calls of the cache that a session makes. -/
def cacheRun (J : Jansson) : Session Owner → List (ClientCall Owner) → List (SharedCall Owner)
  | _, [] => []
  | s, c :: calls =>
      (c.op.cacheCalls J (s.clients c.owner) s.dir).map (SharedCall.mk c.owner) ++
        cacheRun J (act J s c) calls

variable {s : Session Owner} {c : ClientCall Owner}

theorem act_shared (limits : ClientLimits (s.clients c.owner).cache) : (act J s c).shared =
    run (performShared J) s.shared
      ((c.op.cacheCalls J (s.clients c.owner) s.dir).map (SharedCall.mk c.owner)) := by
  have state := @ClientOp.act_calls J (s.clients c.owner) s.dir limits c.op
  have view : s.shared.view c.owner = ⟨(s.clients c.owner).cache, s.dir⟩ := rfl
  have caches : (fun owner => ((act J s c).clients owner).cache) = Function.update
      (fun owner => (s.clients owner).cache) c.owner (c.op.act J (s.clients c.owner) s.dir).1.cache := by
    funext owner
    by_cases mine : owner = c.owner
    · subst mine
      rw [act_clients_self, Function.update_self]
    · rw [act_clients_ne mine, Function.update_of_ne mine]
  rw [runShared_owner, view, ← state]
  exact congrArg (Shared.mk · _) caches

theorem act_limits (limits : ∀ owner, ClientLimits (s.clients owner).cache) (c : ClientCall Owner)
    (owner : Owner) : ClientLimits ((act J s c).clients owner).cache := by
  by_cases mine : owner = c.owner
  · subst mine
    have state := congrArg CacheState.cache (@ClientOp.act_calls J _ s.dir (limits c.owner) c.op)
    have preserves : ∀ t call, True → ClientLimits t.cache → ClientLimits (perform J t call).cache := by
      intro t call _ same
      obtain ⟨most, ttl⟩ := perform_limits J t call
      exact ⟨most.trans same.1, ttl.trans same.2⟩
    rw [act_clients_self]
    simp only at state
    rw [state]
    exact run_invariant preserves (limits c.owner) (along_of_forall fun _ _ => trivial)
  · rw [act_clients_ne mine]
    exact limits owner

theorem runClient_limits (limits : ∀ owner, ClientLimits (s.clients owner).cache)
    (calls : List (ClientCall Owner)) (owner : Owner) :
    ClientLimits ((run (act J) s calls).clients owner).cache := by
  have preserves : ∀ (t : Session Owner) c, True → (∀ owner, ClientLimits (t.clients owner).cache) →
      ∀ owner, ClientLimits ((act J t c).clients owner).cache :=
    fun t c _ limits => act_limits limits c
  exact run_invariant preserves limits (along_of_forall fun _ _ => trivial) owner

theorem runClient_shared (limits : ∀ owner, ClientLimits (s.clients owner).cache)
    (calls : List (ClientCall Owner)) : (run (act J) s calls).shared =
      run (performShared J) s.shared (cacheRun J s calls) := by
  induction calls generalizing s with
  | nil => rfl
  | cons c calls ih =>
      rw [run_cons, ih (act_limits limits c), cacheRun, run_append, act_shared (limits c.owner)]

theorem start_limits {Owner : Type*} (configs : Owner → ClientConfig) (dir : CacheDir)
    (owner : Owner) : ClientLimits ((Session.start configs dir).clients owner).cache := ⟨rfl, rfl⟩

/-- A session of clients is a run of their caches, which keep their limits. -/
theorem session_shared (configs : Owner → ClientConfig) (dir : CacheDir)
    (calls : List (ClientCall Owner)) :
    (run (act J) (.start configs dir) calls).shared =
        run (performShared J) (Session.start configs dir).shared
          (cacheRun J (.start configs dir) calls) ∧
      ∀ owner, ClientLimits ((run (act J) (.start configs dir) calls).clients owner).cache := by
  constructor
  · exact runClient_shared (start_limits configs dir) calls
  · exact runClient_limits (start_limits configs dir) calls

end JustWeather.Api
