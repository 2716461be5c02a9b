import JustWeather.Api.Session
import JustWeather.Cache.Lookups

/-! # Failed requests

A request that throws has looked into the cache and stored nothing. Its lookup may
have dropped an entry or removed a file, but none that would have been shown again.
-/

namespace JustWeather.Api

open CLib Http Cache

variable {J : Jansson} {env : RequestEnv} {w : WeatherClient} {dir : CacheDir} {request : Prepared}
  {message : Bytes}

theorem readBody_error {key : Bytes} {get : GetRun}
    (failed : (readBody J env w dir key get).result = .returns (.error message)) :
    (readBody J env w dir key get).state = ⟨w.cache, dir⟩ := by
  unfold readBody at failed ⊢
  cases shows : get.client.responseBody with
  | none => rfl
  | some body =>
      simp only [shows] at failed ⊢
      cases load : (env.parseRefused.elim (J.load (cStr body)) .error : Except Bytes J.Value) with
      | error text => rfl
      | ok json =>
          simp only [load] at failed ⊢
          cases fails : apiError J json with
          | some text => rfl
          | none =>
              simp only [fails] at failed
              cases failed

/-- Whatever goes wrong from the HTTP request on, nothing is stored. -/
theorem fetch_error (failed : (fetch J env w dir request).result = .returns (.error message)) :
    (fetch J env w dir request).state = ⟨w.cache, dir⟩ := by
  unfold fetch at failed ⊢
  simp only at failed ⊢
  split at failed
  · cases failed
  · cases failed
  · rfl
  · exact readBody_error failed

theorem makeRequest_error
    (failed : (makeRequest J env w dir request).result = .returns (.error message)) :
    cachedValue J env (clientCacheGet J env.lookup (cStr request.cacheKey) ⟨w.cache, dir⟩).1 = none ∧
      (makeRequest J env w dir request).state =
        (clientCacheGet J env.lookup (cStr request.cacheKey) ⟨w.cache, dir⟩).2 := by
  unfold makeRequest at failed ⊢
  simp only at failed ⊢
  split at failed
  · cases failed
  · next absent =>
      simp only [absent, true_and]
      exact fetch_error failed

/-- After a request that throws, every lookup shows what it would have shown before. -/
theorem makeRequest_error_get {J : Jansson} {env : RequestEnv} {w : WeatherClient} {dir : CacheDir}
    {request : Prepared} {message : Bytes} {later : Surroundings} {k : Bytes} (undo : J.LoadUndoesDump)
    (granted : ∀ site, env.lookup.granted site = true) (parses : env.parsesCached = true)
    (unlink : ∀ path, env.lookup.unlink path = true)
    (failed : (makeRequest J env w dir request).result = .returns (.error message))
    (granted' : ∀ site, later.granted site = true) (clock : env.lookup.now ≤ later.now)
    (apart : hashMd5String k = hashMd5String (cStr request.cacheKey) → k = cStr request.cacheKey) :
    (clientCacheGet J later k (makeRequest J env w dir request).state).1 =
      (clientCacheGet J later k ⟨w.cache, dir⟩).1 := by
  obtain ⟨uncached, state⟩ := makeRequest_error failed
  rw [state]
  refine clientCacheGet_after (granted _) (unlink _) (granted' _) clock (fun absent => ?_) apart
  cases got : (clientCacheGet J env.lookup (cStr request.cacheKey) ⟨w.cache, dir⟩).1 with
  | none => rfl
  | some text =>
      exfalso
      -- what is made of a file parses, so the request would not have gone on
      rcases clientCacheGet_some got with ⟨entry, here, -⟩ | ⟨v, -, loadable, rfl⟩
      · rw [absent] at here
        cases here
      · obtain ⟨content, mtime, -, -, load⟩ := loadable.file
        rw [got, cachedValue, Option.bind_some, if_pos parses, undo content v load] at uncached
        cases uncached

/-- The lookup removes an expired file, and the URL is empty. -/
theorem makeRequest_error_get_url :
    let env : RequestEnv := ⟨fun _ => true, .calm 400, true, ⟨none, [], [], fun _ => true⟩, true, none,
      .calm 400⟩
    let dir : CacheDir := .present fun p =>
      if p = cachePath (ascii "a") then some (.file (ascii "[]") 0) else none
    (clientCacheGet .emptyTexts (.calm 500) (ascii "a")
        (makeRequest .emptyTexts env (.create .default) dir ⟨[], ascii "a"⟩).state).1 =
      (clientCacheGet .emptyTexts (.calm 500) (ascii "a") ⟨(WeatherClient.create .default).cache, dir⟩).1 := by
  intro env dir
  have failed : (makeRequest .emptyTexts env (.create .default) dir ⟨[], ascii "a"⟩).result =
      .returns (.error (ascii "Failed to parse URL")) := by
    have missed : (clientCacheGet .emptyTexts (.calm 400) (ascii "a")
        ⟨(WeatherClient.create .default).cache, dir⟩).1 = none := by decide +kernel
    have key : cStr (ascii "a") = ascii "a" := by decide
    simp only [makeRequest, key, env, missed]
    rfl
  exact makeRequest_error_get Jansson.emptyTexts_loadUndoesDump (fun _ => rfl) rfl (fun _ => rfl) failed
    (fun _ => rfl) (by decide) fun _ => rfl

end JustWeather.Api
