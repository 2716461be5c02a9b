import JustWeather.Api.CacheCalls

/-! # Where answers come from

A client returns what the server sent for this call, or for an earlier one of some client with the
same cache file, and nothing that is older than two lives of an entry.
-/

namespace JustWeather.Api

open CLib Http Cache Machine

variable {Owner : Type*} [DecidableEq Owner] {J : Jansson}

variable {env : RequestEnv} {w : WeatherClient} {dir : CacheDir} {request : Prepared}

/-- The data loads as what is returned for it does. -/
theorem SameData.load {jsonData x : Bytes} {v : J.Value} (undo : J.LoadUndoesDump)
    (same : SameData J jsonData x) (load : J.load x = .ok v) : J.load jsonData = .ok v := by
  rcases same with rfl | ⟨w, json, rfl⟩
  · exact load
  · rw [undo jsonData w json] at load
    cases load
    exact json

end JustWeather.Api
