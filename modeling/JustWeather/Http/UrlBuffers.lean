import JustWeather.CLib.Buffers
import JustWeather.Http.Client
import JustWeather.Http.UrlText

/-! # `parse_url` in its buffers

The same function with the arrays that it writes: `hostname` and `path` of its
caller, and `port_str` of its own. Every length is tested from above only.
-/

namespace JustWeather.Http

open CLib

/-- What `parse_url` leaves: the arrays of the caller, the port, and `port_str` when it is used. -/
structure UrlBuffers where
  hostname : Buffer 256
  port : Int
  path : Buffer 512
  portStr : Option (Buffer 16)

/-- An `int` passed for a `size_t`. -/
def sizeOfInt (v : Int) : Nat := (v % 2 ^ 64).toNat

/-- The port with the buffer it is read from, and the cursor behind it. -/
def readPort (portStr : Buffer 16) (port : Int) : Bytes → Exec (Int × Option (Buffer 16) × Bytes)
  | [] => pure (port, none, [])
  | c :: s =>
      if c = COLON then
        let portLen := narrow32 (s.takeWhile (· ≠ SLASH)).length
        if 0 < portLen ∧ portLen < 16 then do
          let portStr ← portStr.strncpy s (sizeOfInt portLen)
          let portStr ← portStr.store portLen 0
          let text ← portStr.text
          pure (atoi text, some portStr, s.dropWhile (· ≠ SLASH))
        else pure (port, none, s.dropWhile (· ≠ SLASH))
      else pure (port, none, c :: s)

/-- The path, from the cursor behind host and port. -/
def readPath (path : Buffer 512) : Bytes → Exec (Buffer 512)
  | [] => pure path
  | c :: s =>
      if c = SLASH then do
        let path ← path.strncpy (c :: s) 511
        path.store 511 0
      else pure path

/-- `parse_url` on arrays with any contents. -/
def parseUrlBuffers (url : Bytes) (hostname : Buffer 256) (path : Buffer 512) (portStr : Buffer 16) :
    Exec (Int × UrlBuffers) := do
  let path ← path.strcpy (ascii "/")
  let (start, port) := splitScheme url
  let hostnameLen := narrow32 (start.takeWhile inHost).length
  if hostnameLen = 0 ∨ 255 < hostnameLen then pure (-1, ⟨hostname, port, path, none⟩)
  else do
    let hostname ← hostname.strncpy start (sizeOfInt hostnameLen)
    let hostname ← hostname.store hostnameLen 0
    let (port, portStr, behind) ← readPort portStr port (start.dropWhile inHost)
    let path ← readPath path behind
    pure (0, ⟨hostname, port, path, portStr⟩)

/-- The text that `send_request` formats from the arrays, unless it does not fit. -/
def formatBuffers (b : UrlBuffers) : Exec (Option Bytes) := do
  let path ← b.path.text
  let host ← b.hostname.text
  pure (formatRequest host path)

theorem sizeOfInt_of_nonneg {v : Int} (low : 0 ≤ v) (high : v < 2 ^ 64) : sizeOfInt v = v.toNat := by
  rw [sizeOfInt, Int.emod_eq_of_lt low high]

theorem sizeOfInt_of_neg {v : Int} (low : -2 ^ 31 ≤ v) (neg : v < 0) :
    2 ^ 63 ≤ sizeOfInt v := by
  unfold sizeOfInt
  omega

theorem narrow32_low (v : Int) : -2 ^ 31 ≤ narrow32 v := by
  have := BitVec.le_toInt (x := BitVec.ofInt 32 v)
  simpa [narrow32] using this

theorem narrow32_le (n : Nat) : narrow32 n ≤ n := by
  rw [narrow32, BitVec.toInt_ofInt, Int.bmod_def]
  split <;> omega

/-- A copy that stops inside a run of bytes copies a part of the run. -/
theorem take_takeWhile {p : UInt8 → Bool} {s : Bytes} {n : Int} (low : 0 ≤ n)
    (part : n ≤ (s.takeWhile p).length) : s.take n.toNat = (s.takeWhile p).take n.toNat := by
  conv_lhs => rw [← List.takeWhile_append_dropWhile (p := p) (l := s)]
  exact List.take_append_of_le_length (by omega)

theorem clean_dropWhile {s : Bytes} (p : UInt8 → Bool) (clean : 0 ∉ s) : 0 ∉ s.dropWhile p :=
  fun mem => clean ((List.dropWhile_suffix p).subset mem)

/-- The port is what `parsePort` reads, and `port_str` is a string when it is used. -/
theorem readPort_eq (portStr : Buffer 16) (port : Int) {s : Bytes} (clean : 0 ∉ s) :
    ∃ used, readPort portStr port s =
        .returns ((parsePort port s).1, used, (parsePort port s).2) ∧
      ∀ b ∈ used, b.Terminated := by
  cases s with
  | nil => exact ⟨none, rfl, by simp⟩
  | cons c s =>
      simp only [readPort, parsePort]
      by_cases colon : c = COLON
      · rw [if_pos colon, if_pos colon]
        have part := narrow32_le (s.takeWhile (· ≠ SLASH)).length
        generalize narrow32 (s.takeWhile (· ≠ SLASH)).length = portLen at part
        by_cases copied : 0 < portLen ∧ portLen < 16
        · obtain ⟨b, b', copy, stored, holds⟩ := portStr.strncpy_holds (s := s)
            (n := portLen.toNat) (fun mem => clean (List.mem_cons_of_mem _ mem)) (by omega)
          rw [Int.toNat_of_nonneg (by omega)] at stored
          rw [take_takeWhile (by omega) part] at holds
          refine ⟨some b', ?_, by rintro b ⟨⟩; exact holds.terminated⟩
          rw [if_pos copied, sizeOfInt_of_nonneg (by omega) (by omega), copy, Exec.returns_bind, stored,
            Exec.returns_bind, holds.text]
          simp [copied]
        · refine ⟨none, ?_, by simp⟩
          rw [if_neg copied, if_neg (by simpa using copied)]
          rfl
      · rw [if_neg colon, if_neg colon]
        exact ⟨none, rfl, by simp⟩

theorem readPath_eq {path : Buffer 512} {s : Bytes} (root : path.Holds (ascii "/")) (clean : 0 ∉ s) :
    ∃ b, readPath path s = .returns b ∧ b.Holds (parsePath s) := by
  cases s with
  | nil => exact ⟨path, rfl, root⟩
  | cons c s =>
      simp only [readPath, parsePath]
      split
      · obtain ⟨b, b', copy, stored, holds⟩ :=
          path.strncpy_holds (n := 511) clean (by decide)
        exact ⟨b', by rw [copy, Exec.returns_bind]; exact stored, holds⟩
      · exact ⟨path, rfl, root⟩

theorem clean_splitScheme {url : Bytes} (clean : 0 ∉ url) : 0 ∉ (splitScheme url).1 := by
  unfold splitScheme
  split
  · exact fun mem => clean (List.mem_of_mem_drop mem)
  · split
    · exact fun mem => clean (List.mem_of_mem_drop mem)
    · exact clean

/-- The arrays hold the parts of a URL as strings. -/
structure UrlBuffers.Hold (b : UrlBuffers) (u : Url) : Prop where
  hostname : b.hostname.Holds u.hostname
  port : b.port = u.port
  path : b.path.Holds u.path
  portStr : ∀ used ∈ b.portStr, used.Terminated

section Calls

variable {url : Bytes} (hostname : Buffer 256) (path : Buffer 512) (portStr : Buffer 16)

/-- A host that is refused is not copied. -/
theorem parseUrlBuffers_rejected (rejected : RejectsHost url) :
    ∃ b, parseUrlBuffers url hostname path portStr = .returns (-1, b) ∧ b.hostname = hostname ∧
      b.path.Holds (ascii "/") ∧ b.portStr = none := by
  obtain ⟨root, copied, holds⟩ := path.strcpy_holds (s := ascii "/") (by decide) (by decide)
  unfold RejectsHost hostPart at rejected
  refine ⟨⟨hostname, (splitScheme url).2, root, none⟩, ?_, rfl, holds, rfl⟩
  simp only [parseUrlBuffers, copied, Exec.returns_bind]
  rw [if_pos rejected]
  rfl

/-- A negative length passes the test, and `strncpy` takes it for a huge one. -/
theorem parseUrlBuffers_wild (neg : narrow32 (hostPart url).length < 0) :
    parseUrlBuffers url hostname path portStr = .undefined := by
  obtain ⟨root, copied, -⟩ := path.strcpy_holds (s := ascii "/") (by decide) (by decide)
  unfold hostPart at neg
  have wide : 256 < sizeOfInt (narrow32 ((splitScheme url).1.takeWhile inHost).length) :=
    lt_of_lt_of_le (by decide) (sizeOfInt_of_neg (narrow32_low _) neg)
  simp only [parseUrlBuffers, copied, Exec.returns_bind]
  rw [if_neg (by omega), Buffer.strncpy_overflow wide]
  rfl

/-- A host that is copied: the arrays hold what `parseUrl` returns. -/
theorem parseUrlBuffers_accepted (clean : 0 ∉ url) (accepted : ¬ RejectsHost url)
    (nonneg : 0 ≤ narrow32 (hostPart url).length) :
    ∃ b u, parseUrlBuffers url hostname path portStr = .returns (0, b) ∧
      parseUrl url = .returns (some u) ∧ b.Hold u := by
  obtain ⟨root, copied, holdsRoot⟩ := path.strcpy_holds (s := ascii "/") (by decide) (by decide)
  have start : 0 ∉ (splitScheme url).1 := clean_splitScheme clean
  have part := narrow32_le (hostPart url).length
  unfold RejectsHost hostPart at accepted
  unfold hostPart at nonneg part
  simp only [parseUrlBuffers, parseUrl, copied, Exec.returns_bind]
  rw [if_neg accepted, if_neg accepted, if_neg (not_lt.mpr nonneg)]
  generalize narrow32 ((splitScheme url).1.takeWhile inHost).length = len at nonneg part accepted
  obtain ⟨h, h', copy, stored, holdsHost⟩ := hostname.strncpy_holds (n := len.toNat) start (by omega)
  rw [Int.toNat_of_nonneg nonneg] at stored
  rw [take_takeWhile nonneg part] at holdsHost
  obtain ⟨used, port, terminated⟩ := readPort_eq portStr (splitScheme url).2
    (clean_dropWhile inHost start)
  have behind : 0 ∉ (parsePort (splitScheme url).2 ((splitScheme url).1.dropWhile inHost)).2 := by
    cases rest : (splitScheme url).1.dropWhile inHost with
    | nil => simp [parsePort]
    | cons c s =>
        have inner : 0 ∉ c :: s := rest ▸ clean_dropWhile inHost start
        rw [parsePort]
        split
        · exact clean_dropWhile _ fun mem => inner (List.mem_cons_of_mem _ mem)
        · exact inner
  obtain ⟨p, read, holdsPath⟩ := readPath_eq holdsRoot behind
  rw [sizeOfInt_of_nonneg nonneg (by omega), copy, Exec.returns_bind, stored, Exec.returns_bind, port,
    Exec.returns_bind, read, Exec.returns_bind]
  exact ⟨_, _, rfl, rfl, holdsHost, rfl, holdsPath, terminated⟩

end Calls

/-- The arrays of a call read as the URL that it returns. -/
def readUrl (r : Int × UrlBuffers) : Exec (Option Url) :=
  if r.1 ≠ 0 then pure none
  else do
    let hostname ← r.2.hostname.text
    let path ← r.2.path.text
    pure (some ⟨hostname, r.2.port, path⟩)

/-- In its arrays `parse_url` does what `parseUrl` does, leaving them included. -/
theorem parseUrlBuffers_refines {url : Bytes} (hostname : Buffer 256) (path : Buffer 512)
    (portStr : Buffer 16) (clean : 0 ∉ url) :
    (parseUrlBuffers url hostname path portStr >>= readUrl) = parseUrl url := by
  by_cases rejected : RejectsHost url
  · obtain ⟨b, call, -⟩ := parseUrlBuffers_rejected hostname path portStr rejected
    rw [call, parseUrl_rejected rejected]
    rfl
  · by_cases nonneg : 0 ≤ narrow32 (hostPart url).length
    · obtain ⟨b, u, call, parsed, hold⟩ := parseUrlBuffers_accepted hostname path portStr clean
        rejected nonneg
      rw [call, parsed, Exec.returns_bind, readUrl, if_neg (by simp), hold.hostname.text,
        Exec.returns_bind, hold.path.text, hold.port]
      rfl
    · rw [parseUrlBuffers_wild _ _ _ (not_le.mp nonneg), parseUrl_wild rejected (not_le.mp nonneg)]
      rfl

/-- A call that stores inside its arrays only, leaves a string in each that it uses, and gives
`send_request` a text that fits. -/
def StaysInside (url : Bytes) : Prop :=
  ∀ (hostname : Buffer 256) (path : Buffer 512) (portStr : Buffer 16), ∃ ret b,
    parseUrlBuffers url hostname path portStr = .returns (ret, b) ∧ b.path.Terminated ∧
    (∀ used ∈ b.portStr, used.Terminated) ∧
    (ret = -1 ∧ b.hostname = hostname ∨
      ret = 0 ∧ b.hostname.Terminated ∧
        ∃ request, formatBuffers b = .returns (some request) ∧ request.length < 2048)

theorem formatBuffers_fits {b : UrlBuffers} {u : Url} (hold : b.Hold u) :
    ∃ request, formatBuffers b = .returns (some request) ∧ request.length < 2048 := by
  have fits : formatRequest u.hostname u.path = some (requestText u.hostname u.path) :=
    formatRequest_some (by have := hold.hostname.length_lt; omega)
      (by have := hold.path.length_lt; omega)
  refine ⟨requestText u.hostname u.path, ?_, ?_⟩
  · rw [formatBuffers, hold.path.text, Exec.returns_bind, hold.hostname.text, Exec.returns_bind, fits]
    rfl
  · unfold formatRequest at fits
    split at fits
    · cases fits
    · next short => omega

/-- The request path stays inside its arrays exactly when the length of the host, as an `int`, is
not negative. -/
theorem staysInside_iff {url : Bytes} (clean : 0 ∉ url) :
    StaysInside url ↔ 0 ≤ narrow32 (hostPart url).length := by
  constructor
  · intro inside
    by_contra neg
    obtain ⟨ret, b, call, -⟩ := inside (Vector.replicate _ 0) (Vector.replicate _ 0)
      (Vector.replicate _ 0)
    rw [parseUrlBuffers_wild _ _ _ (not_le.mp neg)] at call
    cases call
  · intro nonneg hostname path portStr
    by_cases rejected : RejectsHost url
    · obtain ⟨b, call, kept, root, unused⟩ := parseUrlBuffers_rejected hostname path portStr
        rejected
      exact ⟨-1, b, call, root.terminated, by simp [unused], .inl ⟨rfl, kept⟩⟩
    · obtain ⟨b, u, call, -, hold⟩ := parseUrlBuffers_accepted hostname path portStr clean
        rejected nonneg
      exact ⟨0, b, call, hold.path.terminated, hold.portStr,
        .inr ⟨rfl, hold.hostname.terminated, formatBuffers_fits hold⟩⟩

theorem staysInside_iff_plain :
    0 ∉ ascii "http://h:8080/v1" ∧ StaysInside (ascii "http://h:8080/v1") :=
  ⟨by decide, (staysInside_iff (by decide)).mpr (by decide)⟩

theorem hostPart_letters {n : Nat} : hostPart (List.replicate n 104) = List.replicate n 104 := by
  have inside : ∀ c ∈ List.replicate n (104 : UInt8), inHost c = true := by
    intro c mem
    rw [List.eq_of_mem_replicate mem]
    decide
  rw [hostPart, splitScheme_bare, List.takeWhile_eq_self_iff.mpr inside]
  rw [List.dropWhile_eq_nil_iff.mpr inside]
  exact fun h => absurd (List.prefix_nil.mp h) (by simp)

/-- A host of 2^31 letters. -/
theorem staysInside_two_gib :
    ¬ StaysInside (List.replicate (2 ^ 31) 104) ∧
    parseUrlBuffers (List.replicate (2 ^ 31) 104) (Vector.replicate 256 0) (Vector.replicate 512 0)
      (Vector.replicate 16 0) = .undefined := by
  have neg : narrow32 (hostPart (List.replicate (2 ^ 31) 104)).length < 0 := by
    rw [hostPart_letters, List.length_replicate]
    decide
  refine ⟨fun inside => ?_, parseUrlBuffers_wild _ _ _ neg⟩
  obtain ⟨ret, b, call, -⟩ := inside (Vector.replicate _ 0) (Vector.replicate _ 0)
    (Vector.replicate _ 0)
  rw [parseUrlBuffers_wild _ _ _ neg] at call
  cases call

end JustWeather.Http
