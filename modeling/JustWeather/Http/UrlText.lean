import JustWeather.Http.Url

/-! # URLs as text

Within its limits `parse_url` reads back the host, the port and the path that a
URL was written from. Beyond them it does not refuse: a port text that `atoi`
makes something else of, or that is too long to be copied, gives some port.
-/

namespace JustWeather.Http

open CLib

/-! ## Writing -/

inductive Scheme where
  | http
  | https
  | bare
  deriving DecidableEq

def Scheme.text : Scheme → Bytes
  | http => ascii "http://"
  | https => ascii "https://"
  | bare => []

def Scheme.port : Scheme → Nat
  | https => 443
  | http | bare => 80

/-- `:` and the port in decimal, when there is one. -/
def portText (port : Option Nat) : Bytes := port.elim [] fun n => COLON :: decimal n

def writeUrl (scheme : Scheme) (host : Bytes) (port : Option Nat) (path : Bytes) : Bytes :=
  scheme.text ++ (host ++ (portText port ++ path))

/-- Empty, or a path from the root. -/
def RootedPath (path : Bytes) : Prop := ∀ c ∈ path.head?, c = SLASH

theorem inHost_iff {c : UInt8} : inHost c = true ↔ c ≠ COLON ∧ c ≠ SLASH := by
  simp [inHost]

/-- A URL that does not go on with `://` behind its host has no scheme. -/
theorem splitScheme_bare {s : Bytes} (plain : ¬ [COLON, SLASH] <+: s.dropWhile inHost) :
    splitScheme s = (s, 80) := by
  have noScheme : ∀ name t, (∀ c ∈ name, inHost c = true) → s ≠ name ++ COLON :: SLASH :: t := by
    rintro name t inside rfl
    rw [dropWhile_append_stop inside (by simp [inHost])] at plain
    exact plain (List.prefix_append [COLON, SLASH] t)
  have http : startsWith (ascii "http://") s = false := by
    rw [startsWith, Bool.eq_false_iff, ne_eq, List.isPrefixOf_iff_prefix]
    rintro ⟨t, rfl⟩
    exact noScheme (ascii "http") (SLASH :: t) (by decide) rfl
  have https : startsWith (ascii "https://") s = false := by
    rw [startsWith, Bool.eq_false_iff, ne_eq, List.isPrefixOf_iff_prefix]
    rintro ⟨t, rfl⟩
    exact noScheme (ascii "https") (SLASH :: t) (by decide) rfl
  simp [splitScheme, http, https]

theorem splitScheme_text {scheme : Scheme} {s : Bytes}
    (plain : ¬ [COLON, SLASH] <+: s.dropWhile inHost) :
    splitScheme (scheme.text ++ s) = (s, (scheme.port : Int)) := by
  cases scheme with
  | bare => exact splitScheme_bare plain
  | http =>
      have starts : startsWith (ascii "http://") (ascii "http://" ++ s) = true :=
        List.isPrefixOf_iff_prefix.mpr (List.prefix_append _ s)
      rw [Scheme.text, splitScheme, if_pos starts]
      rfl
  | https =>
      have other : startsWith (ascii "http://") (ascii "https://" ++ s) = false := rfl
      have starts : startsWith (ascii "https://") (ascii "https://" ++ s) = true :=
        List.isPrefixOf_iff_prefix.mpr (List.prefix_append _ s)
      rw [Scheme.text, splitScheme, other, if_pos starts]
      rfl

/-! ## Reading the parts -/

/-- Behind a host stands a port, a path or nothing. -/
theorem portText_stops (port : Option Nat) {path : Bytes} (rooted : RootedPath path) :
    ∀ c ∈ (portText port ++ path).head?, inHost c = false := by
  cases port with
  | none =>
      intro c mem
      rw [rooted c mem]
      decide
  | some n =>
      rintro c ⟨⟩
      decide

theorem portText_noScheme (port : Option Nat) {path : Bytes} (rooted : RootedPath path) :
    ¬ [COLON, SLASH] <+: portText port ++ path := by
  rintro ⟨t, eq⟩
  cases port with
  | none =>
      have : COLON = SLASH := rooted COLON (by rw [← show _ = path from eq]; rfl)
      exact absurd this (by decide)
  | some n =>
      obtain ⟨d, ds, digits⟩ := List.exists_cons_of_ne_nil (decimal_nonempty n)
      have digit := decimal_digits n d (by simp [digits])
      simp only [portText, Option.elim_some, digits, List.cons_append, List.nil_append,
        List.cons.injEq] at eq
      rw [← eq.2.1] at digit
      exact absurd digit (by decide)

theorem parsePort_portText {port : Option Nat} {path : Bytes} (fallback : Int)
    (rooted : RootedPath path) (inRange : ∀ n ∈ port, n ≤ 65535) :
    parsePort fallback (portText port ++ path) = (port.elim fallback fun n => (n : Int), path) := by
  cases port with
  | none =>
      cases path with
      | nil => rfl
      | cons c path =>
          rw [rooted c rfl]
          rfl
  | some n =>
      have small : n ≤ 65535 := inRange n rfl
      have inside : ∀ c ∈ decimal n, decide (c ≠ SLASH) = true := by
        intro c mem
        have digit := decimal_digits n c mem
        rw [decide_eq_true_eq]
        rintro rfl
        exact absurd digit (by decide)
      have stop : ∀ c ∈ path.head?, decide (c ≠ SLASH) = false := by
        intro c mem
        simpa using rooted c mem
      have long : (decimal n).length ≤ 5 := decimal_length_le (by decide) (by omega)
      have short : 0 < (decimal n).length := List.length_pos_iff.mpr (decimal_nonempty n)
      have len : narrow32 (decimal n).length = (decimal n).length :=
        narrow32_of_small (by omega) (by omega)
      have read : atoi (decimal n) = n := by
        have := atoi_digits (decimal_nonempty n) (decimal_digits n) (by rw [value_decimal]; omega)
        rwa [value_decimal] at this
      simp only [portText, Option.elim_some, List.cons_append, parsePort, if_true,
        takeWhile_append_stop inside stop, dropWhile_append_stop inside stop, len]
      rw [if_pos (by simp; omega), Int.toNat_natCast, List.take_length, read]

theorem parsePath_rooted {path : Bytes} (rooted : RootedPath path) (fits : path.length ≤ 511) :
    parsePath path = if path = [] then ascii "/" else path := by
  cases path with
  | nil => rfl
  | cons c path => rw [parsePath, if_pos (rooted c rfl), if_neg (by simp), List.take_of_length_le fits]

/-- A URL written from a host, a port and a path is read back as these. -/
theorem parseUrl_writeUrl (scheme : Scheme) {host path : Bytes} {port : Option Nat}
    (hostBytes : ∀ c ∈ host, c ≠ COLON ∧ c ≠ SLASH) (named : host ≠ []) (hostFits : host.length ≤ 255)
    (inRange : ∀ n ∈ port, n ≤ 65535) (rooted : RootedPath path) (pathFits : path.length ≤ 511) :
    parseUrl (writeUrl scheme host port path) = .returns (some
      ⟨host, port.elim (scheme.port : Int) fun n => (n : Int),
        if path = [] then ascii "/" else path⟩) := by
  have inside : ∀ c ∈ host, inHost c = true := fun c mem => inHost_iff.mpr (hostBytes c mem)
  have taken := takeWhile_append_stop inside (portText_stops port rooted)
  have behind := dropWhile_append_stop inside (portText_stops port rooted)
  have start : splitScheme (writeUrl scheme host port path) =
      (host ++ (portText port ++ path), (scheme.port : Int)) :=
    splitScheme_text (by rw [behind]; exact portText_noScheme port rooted)
  have len : narrow32 host.length = host.length := narrow32_of_small (by omega) (by omega)
  have short : 0 < host.length := List.length_pos_iff.mpr named
  rw [parseUrl, start]
  simp only [taken, behind, len, parsePort_portText _ rooted inRange,
    parsePath_rooted rooted pathFits, Int.toNat_natCast, List.take_length]
  rw [if_neg (by omega), if_neg (by omega)]

theorem parseUrl_writeUrl_https :
    (∀ c ∈ ascii "h", c ≠ COLON ∧ c ≠ SLASH) ∧
    parseUrl (writeUrl .https (ascii "h") (some 65535) (ascii "/a:b/c")) =
      .returns (some ⟨ascii "h", 65535, ascii "/a:b/c"⟩) :=
  ⟨by decide, parseUrl_writeUrl .https (by decide) (by decide) (by decide)
    (by rintro n ⟨⟩; decide) (by rintro c ⟨⟩; rfl) (by decide)⟩

/-! ## Guessing -/

/-- The text between the scheme and the next `/`. -/
def authority (url : Bytes) : Bytes := (splitScheme url).1.takeWhile (· ≠ SLASH)

/-- The authority up to the first `:`. -/
def hostPart (url : Bytes) : Bytes := (splitScheme url).1.takeWhile inHost

/-- The authority behind the first `:`, when there is one. -/
def portPart (url : Bytes) : Option Bytes :=
  match (splitScheme url).1.dropWhile inHost with
  | [] => none
  | c :: s => if c = COLON then some (s.takeWhile (· ≠ SLASH)) else none

/-- The authority is the hostname alone, or the hostname, `:` and a port in digits. -/
def NamesServer (url : Bytes) (u : Url) : Prop :=
  (authority url = u.hostname ∧ u.port = (splitScheme url).2) ∨
  ∃ ds, ds ≠ [] ∧ (∀ c ∈ ds, isDigit c = true) ∧ authority url = u.hostname ++ COLON :: ds ∧
    u.port = value 10 ds ∧ value 10 ds ≤ 65535

/-- What `parse_url` does not take for a host: none, or one longer than 255 bytes as far as an
`int` can tell. -/
def RejectsHost (url : Bytes) : Prop :=
  narrow32 (hostPart url).length = 0 ∨ 255 < narrow32 (hostPart url).length

/-- The length, as an `int`, of a port text that is copied. -/
def CopiesPort (ds : Bytes) : Prop := 0 < narrow32 ds.length ∧ narrow32 ds.length < 16

instance (ds : Bytes) : Decidable (CopiesPort ds) := by
  unfold CopiesPort
  infer_instance

/-- A port text whose value is taken: digits, at most 65535, and fewer than 16 of them. Of more,
only zeros that the copy cuts off, or the port that is taken when nothing is copied. -/
def PlainPort (fallback : Int) (ds : Bytes) : Prop :=
  ds ≠ [] ∧ (∀ c ∈ ds, isDigit c = true) ∧ value 10 ds ≤ 65535 ∧
  (ds.length < 16 ∨ if CopiesPort ds then value 10 ds = 0 else (value 10 ds : Int) = fallback)

theorem authority_eq (url : Bytes) :
    authority url = hostPart url ++ (portPart url).elim [] (COLON :: ·) := by
  have inside : ∀ c ∈ hostPart url, decide (c ≠ SLASH) = true := by
    intro c mem
    simpa using (inHost_iff.mp (List.mem_takeWhile_imp mem)).2
  have split : (splitScheme url).1 = hostPart url ++ (splitScheme url).1.dropWhile inHost :=
    List.takeWhile_append_dropWhile.symm
  rw [authority, split, List.takeWhile_append_of_pos inside, portPart]
  cases behind : (splitScheme url).1.dropWhile inHost with
  | nil => rfl
  | cons c s =>
      have stop : ¬ inHost c = true := by
        have := List.head_dropWhile_not inHost (l := (splitScheme url).1) (by simp [behind])
        simpa [behind] using this
      by_cases colon : c = COLON
      · subst colon
        rw [List.takeWhile_cons_of_pos (by decide)]
        simp
      · have slash : c = SLASH := by
          rw [inHost_iff] at stop
          simpa [colon] using stop
        rw [List.takeWhile_cons_of_neg (by simp [slash])]
        simp [colon]

/-- The port that is read. -/
theorem parsePort_fst (url : Bytes) (fallback : Int) :
    (parsePort fallback ((splitScheme url).1.dropWhile inHost)).1 =
      (portPart url).elim fallback fun ds =>
        if CopiesPort ds then atoi (ds.take (narrow32 ds.length).toNat) else fallback := by
  rw [portPart]
  cases (splitScheme url).1.dropWhile inHost with
  | nil => rfl
  | cons c s =>
      simp only [parsePort, CopiesPort]
      split <;> simp

/-- What is read of a port text in digits is its value exactly when it is short enough, or was
going to come out the same. -/
theorem port_reads {fallback : Int} {ds : Bytes} (nonempty : ds ≠ [])
    (digits : ∀ c ∈ ds, isDigit c = true) (small : value 10 ds ≤ 65535) :
    (if CopiesPort ds then atoi (ds.take (narrow32 ds.length).toNat) else fallback) = value 10 ds ↔
      ds.length < 16 ∨
        if CopiesPort ds then value 10 ds = 0 else (value 10 ds : Int) = fallback := by
  by_cases short : ds.length < 16
  · have len : narrow32 ds.length = ds.length := narrow32_of_small (by omega) (by omega)
    have copied : CopiesPort ds := by
      have := List.length_pos_iff.mpr nonempty
      simp only [CopiesPort, len]
      omega
    rw [if_pos copied, len, Int.toNat_natCast, List.take_length,
      atoi_digits nonempty digits (by omega)]
    exact ⟨fun _ => .inl short, fun _ => rfl⟩
  · simp only [short, false_or]
    by_cases copied : CopiesPort ds
    · rw [if_pos copied, if_pos copied]
      unfold CopiesPort at copied
      generalize (narrow32 ds.length) = n at copied
      have cut : 10 * value 10 (ds.take n.toNat) ≤ value 10 ds := value_take_le (by decide) (by omega)
      have read : atoi (ds.take n.toNat) = value 10 (ds.take n.toNat) := by
        refine atoi_digits (fun none => ?_) (fun c mem => digits c (List.mem_of_mem_take mem))
          (by omega)
        have := congrArg List.length none
        simp only [List.length_take, List.length_nil] at this
        omega
      rw [read]
      omega
    · rw [if_neg copied, if_neg copied, eq_comm]

theorem hostPart_noColon (url : Bytes) : COLON ∉ hostPart url :=
  fun mem => (inHost_iff.mp (List.mem_takeWhile_imp mem)).1 rfl

/-- A part of the host and a port that make up the authority are the host and the port. -/
theorem authority_split {url ds : Bytes} {n : Nat}
    (h : authority url = (hostPart url).take n ++ COLON :: ds) :
    (hostPart url).length ≤ n ∧ portPart url = some ds := by
  rw [authority_eq] at h
  have rest : (hostPart url).drop n ++ (portPart url).elim [] (COLON :: ·) = COLON :: ds := by
    rw [← List.take_append_drop n (hostPart url), List.append_assoc, List.take_append_drop] at h
    exact List.append_cancel_left h
  cases left : (hostPart url).drop n with
  | cons c s =>
      rw [left, List.cons_append, List.cons.injEq] at rest
      have inside : c ∈ hostPart url := List.mem_of_mem_drop (left ▸ List.mem_cons_self)
      rw [rest.1] at inside
      exact absurd inside (hostPart_noColon url)
  | nil =>
      refine ⟨List.drop_eq_nil_iff.mp left, ?_⟩
      rw [left, List.nil_append] at rest
      cases port : portPart url with
      | none => simp [port] at rest
      | some s =>
          rw [port, Option.elim_some, List.cons.injEq] at rest
          rw [rest.2]

theorem parseUrl_rejected {url : Bytes} (rejected : RejectsHost url) :
    parseUrl url = .returns none := by
  unfold RejectsHost hostPart at rejected
  simp only [parseUrl]
  exact if_pos rejected

theorem parseUrl_wild {url : Bytes} (accepted : ¬ RejectsHost url)
    (neg : narrow32 (hostPart url).length < 0) : parseUrl url = .undefined := by
  unfold RejectsHost hostPart at accepted
  unfold hostPart at neg
  simp only [parseUrl]
  rw [if_neg accepted, if_pos neg]

/-- The URL that is returned for a host that is copied, the port from its own text. -/
theorem parseUrl_eq {url : Bytes} (accepted : ¬ RejectsHost url)
    (nonneg : 0 ≤ narrow32 (hostPart url).length) :
    ∃ path, parseUrl url = .returns (some
      ⟨(hostPart url).take (narrow32 (hostPart url).length).toNat,
        (portPart url).elim (splitScheme url).2 fun ds =>
          if CopiesPort ds then atoi (ds.take (narrow32 ds.length).toNat) else (splitScheme url).2,
        path⟩) := by
  refine ⟨parsePath (parsePort (splitScheme url).2 ((splitScheme url).1.dropWhile inHost)).2, ?_⟩
  rw [← parsePort_fst]
  unfold RejectsHost hostPart at accepted
  unfold hostPart at nonneg ⊢
  simp only [parseUrl]
  rw [if_neg accepted, if_neg (not_lt.mpr nonneg)]

/-- A URL that is read names the server that it is read as, exactly when its host is copied whole
and its port is plain. -/
theorem namesServer_iff {url path : Bytes} (accepted : ¬ RejectsHost url)
    (nonneg : 0 ≤ narrow32 (hostPart url).length) :
    NamesServer url ⟨(hostPart url).take (narrow32 (hostPart url).length).toNat,
        (portPart url).elim (splitScheme url).2 fun ds =>
          if CopiesPort ds then atoi (ds.take (narrow32 ds.length).toNat) else (splitScheme url).2,
        path⟩ ↔
      (hostPart url).length ≤ 255 ∧ ∀ ds ∈ portPart url, PlainPort (splitScheme url).2 ds := by
  have fits : narrow32 (hostPart url).length ≤ 255 := not_lt.mp fun long => accepted (.inr long)
  constructor
  · rintro (⟨whole, -⟩ | ⟨ds, nonempty, digits, whole, port, small⟩)
    · rw [authority_eq] at whole
      have len := congrArg List.length whole
      simp only [List.length_append, List.length_take] at len
      refine ⟨by omega, fun ds mem => ?_⟩
      rw [Option.mem_def.mp mem] at len
      simp only [Option.elim_some, List.length_cons] at len
      omega
    · obtain ⟨copied, behind⟩ := authority_split whole
      refine ⟨by omega, fun ds' mem => ?_⟩
      rw [Option.mem_def, behind, Option.some.injEq] at mem
      subst mem
      rw [behind] at port
      exact ⟨nonempty, digits, small, (port_reads nonempty digits small).mp port⟩
  · rintro ⟨short, plain⟩
    have len : narrow32 (hostPart url).length = (hostPart url).length :=
      narrow32_of_small (by omega) (by omega)
    have whole : (hostPart url).take (narrow32 (hostPart url).length).toNat = hostPart url := by
      rw [len, Int.toNat_natCast, List.take_length]
    rw [NamesServer, whole, authority_eq]
    cases port : portPart url with
    | none => exact .inl ⟨by simp, rfl⟩
    | some ds =>
        obtain ⟨nonempty, digits, small, read⟩ := plain ds port
        exact .inr ⟨ds, nonempty, digits, rfl, (port_reads nonempty digits small).mpr read, small⟩

/-- `parse_url` refuses a URL or names its server exactly when it refuses the host, or copies it
whole and has no port to read or a plain one. -/
theorem parseUrl_names_iff (url : Bytes) :
    (parseUrl url = .returns none ∨ ∃ u, parseUrl url = .returns (some u) ∧ NamesServer url u) ↔
      RejectsHost url ∨
        (hostPart url).length ≤ 255 ∧ ∀ ds ∈ portPart url, PlainPort (splitScheme url).2 ds := by
  by_cases rejected : RejectsHost url
  · exact ⟨fun _ => .inl rejected, fun _ => .inl (parseUrl_rejected rejected)⟩
  · simp only [rejected, false_or]
    by_cases nonneg : 0 ≤ narrow32 (hostPart url).length
    · obtain ⟨path, parsed⟩ := parseUrl_eq rejected nonneg
      simp only [parsed, Exec.returns.injEq, reduceCtorEq, false_or, Option.some.injEq,
        exists_eq_left']
      exact namesServer_iff rejected nonneg
    · have wild := parseUrl_wild rejected (not_le.mp nonneg)
      have long : ¬ (hostPart url).length ≤ 255 := by
        intro short
        rw [narrow32_of_small (by omega) (by omega)] at nonneg
        exact nonneg (by omega)
      simp [wild, long]

/-- Port 80 for `80x`. -/
theorem parseUrl_guesses :
    parseUrl (ascii "http://h:80x/") = .returns (some ⟨ascii "h", 80, ascii "/"⟩) ∧
    ¬ NamesServer (ascii "http://h:80x/") ⟨ascii "h", 80, ascii "/"⟩ := by
  refine ⟨by decide, ?_⟩
  rintro (⟨whole, -⟩ | ⟨ds, -, digits, whole, -⟩)
  · exact absurd whole (by decide)
  · have port : ds = ascii "80x" := by
      have : authority (ascii "http://h:80x/") = ascii "h" ++ COLON :: ascii "80x" := by decide
      rw [this] at whole
      simpa using (List.append_cancel_left whole).symm
    subst port
    exact absurd (digits 120 (by decide)) (by decide)

end JustWeather.Http
