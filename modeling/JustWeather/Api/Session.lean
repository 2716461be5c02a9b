import JustWeather.Api.RequestFidelity
import JustWeather.Cache.Freshness
import JustWeather.Http.OneResponse

/-! # Sessions

Clients, each with a list of its own, work on one directory. Between the server
and the cache stand the range of `http_client_get`, the parser and the `success`
field.
-/

namespace JustWeather.Api

open CLib Http Cache Machine

variable {Owner : Type*} {J : Jansson}

/-! ## What a request stores -/

/-- The text is JSON, and its `success` field, if it is a boolean, is true. -/
def Succeeds (J : Jansson) (text : Bytes) : Prop :=
  ∃ json, J.load text = .ok json ∧
    ∀ field, J.objectGet json (ascii "success") = some field → J.boolean field ≠ some false

theorem apiError_eq_none {json : J.Value} : apiError J json = none ↔
    ∀ field, J.objectGet json (ascii "success") = some field → J.boolean field ≠ some false := by
  unfold apiError
  cases J.objectGet json (ascii "success") with
  | none => simp
  | some field =>
      cases truth : J.boolean field with
      | none => simp [truth]
      | some b => cases b <;> simp [truth]

/-- The cache has nothing for the request, and a whole response with this status arrives, with this
text as its body; a store would be under this key. -/
inductive Answered (J : Jansson) (w : WeatherClient) (dir : CacheDir) (call : Call) (env : RequestEnv) :
    Bytes → Int → Bytes → Prop where
  | mk {request : Prepared} {full body : Bytes} {code : Int} :
      call.prepare w.config env.encode = .ok request →
      cachedValue J env
        (clientCacheGet J env.lookup (cStr request.cacheKey) ⟨w.cache, dir⟩).1 = none →
      Arrives env.net w.http (cStr request.url) full →
      reading env.net.granted full = .returns (.whole code body) →
      Answered J w dir call env (cStr request.cacheKey) code (cStr body)

/-- The text of a response gets into the list, and to the file. -/
structure Caches (J : Jansson) (w : WeatherClient) (dir : CacheDir) (call : Call) (env : RequestEnv)
    (key : Bytes) (code : Int) (text : Bytes) : Prop where
  answered : Answered J w dir call env key code text
  range : 200 ≤ code ∧ code < 600
  parses : env.parseRefused = none
  succeeds : Succeeds J text
  stores : storesEntry env.store = true

/-- The list and the directory after a request: as they were, as the lookup leaves them, or as the
store of a text leaves them. -/
inductive Requested (J : Jansson) (w : WeatherClient) (dir : CacheDir) (call : Call)
    (env : RequestEnv) : CacheState → Prop where
  | untouched : Requested J w dir call env ⟨w.cache, dir⟩
  | looked (key : Bytes) :
      Requested J w dir call env (clientCacheGet J env.lookup key ⟨w.cache, dir⟩).2
  | stored {key : Bytes} {code : Int} {text : Bytes} :
      (storesEntry env.store = true → Caches J w dir call env key code text) →
      Requested J w dir call env (clientCacheSet J env.store key text
        (clientCacheGet J env.lookup key ⟨w.cache, dir⟩).2).2

/-- The list and the directory that a request leaves. -/
def RequestRun.state (r : RequestRun J) : CacheState := ⟨r.client.cache, r.dir⟩

/-- From the body on. -/
theorem readBody_state (env : RequestEnv) (w : WeatherClient) (dir : CacheDir) (key : Bytes)
    (get : GetRun) : (readBody J env w dir key get).state = ⟨w.cache, dir⟩ ∨
    ∃ body, get.client.responseBody = some body ∧ env.parseRefused = none ∧ Succeeds J (cStr body) ∧
      (readBody J env w dir key get).state =
        (clientCacheSet J env.store (cStr key) (cStr body) ⟨w.cache, dir⟩).2 := by
  unfold readBody
  cases get.client.responseBody with
  | none => exact .inl rfl
  | some body =>
      simp only
      cases env.parseRefused with
      | some text => exact .inl rfl
      | none =>
          simp only [Option.elim_none]
          cases load : J.load (cStr body) with
          | error text => exact .inl rfl
          | ok json =>
              simp only
              cases fails : apiError J json with
              | some message => exact .inl rfl
              | none => exact .inr ⟨body, rfl, trivial, ⟨json, load, apiError_eq_none.mp fails⟩, rfl⟩

/-- From the HTTP request on. -/
theorem fetch_state (env : RequestEnv) (w : WeatherClient) (dir : CacheDir) (request : Prepared) :
    (fetch J env w dir request).state = ⟨w.cache, dir⟩ ∨
    ∃ full code body, Arrives env.net w.http (cStr request.url) full ∧
      reading env.net.granted full = .returns (.whole code body) ∧ 200 ≤ code ∧ code < 600 ∧
      env.parseRefused = none ∧ Succeeds J (cStr body) ∧
      (fetch J env w dir request).state =
        (clientCacheSet J env.store (cStr request.cacheKey) (cStr body) ⟨w.cache, dir⟩).2 := by
  unfold fetch
  simp only
  split
  · exact .inl rfl
  · exact .inl rfl
  · exact .inl rfl
  · next ok =>
      obtain ⟨full, code, body, arrives, read, least, most, shows⟩ := httpClientGet_ok ok
      refine (readBody_state env _ _ _ _).imp id ?_
      rintro ⟨body', here, parses, succeeds, eq⟩
      have shown : (httpClientGet env.net w.http (cStr request.url)).client.responseBody = some body :=
        congrArg (fun fields => fields.2.1) shows
      cases here.symm.trans shown
      exact ⟨full, code, body, arrives, read, least, most, parses, succeeds, eq⟩

theorem perform_requested (env : RequestEnv) (w : WeatherClient) (dir : CacheDir) (call : Call) :
    Requested J w dir call env (call.perform J env w dir).state := by
  unfold Call.perform
  cases prepared : call.prepare w.config env.encode with
  | error message => exact .untouched
  | ok request =>
      simp only [makeRequest]
      cases absent : cachedValue J env
          (clientCacheGet J env.lookup (cStr request.cacheKey) ⟨w.cache, dir⟩).1 with
      | some json => exact .looked (cStr request.cacheKey)
      | none =>
          rcases fetch_state env { w with cache :=
              (clientCacheGet J env.lookup (cStr request.cacheKey) ⟨w.cache, dir⟩).2.cache }
              (clientCacheGet J env.lookup (cStr request.cacheKey) ⟨w.cache, dir⟩).2.dir request with
            same | ⟨full, code, body, arrives, read, least, most, parses, succeeds, eq⟩
          · exact same ▸ .looked (cStr request.cacheKey)
          · exact eq ▸ .stored fun stores =>
              ⟨.mk prepared absent arrives read, ⟨least, most⟩, parses, succeeds, stores⟩

/-- The entry is made of a file. -/
def OfFile (J : Jansson) (dir : CacheDir) (entry : CacheEntry) : Prop :=
  ∃ content t v, dir.stat (cachePath entry.key) = some (.file content t) ∧ J.load content = .ok v ∧
    entry.jsonData = J.dump v

variable {w : WeatherClient} {dir : CacheDir} {call : Call} {env : RequestEnv} {s : CacheState}

theorem Requested.entries {entry : CacheEntry} (h : Requested J w dir call env s)
    (mem : entry ∈ s.cache.entries) : entry ∈ w.cache.entries ∨ OfFile J dir entry ∨
      ∃ code, Caches J w dir call env entry.key code entry.jsonData := by
  have looked : ∀ key, entry ∈ (clientCacheGet J env.lookup key ⟨w.cache, dir⟩).2.cache.entries →
      entry ∈ w.cache.entries ∨ OfFile J dir entry := by
    intro key mem
    rcases clientCacheGet_entries mem with old | ⟨v, -, -, loadable, rfl⟩
    · exact .inl old
    · obtain ⟨content, t, at_, -, load⟩ := loadable.file
      exact .inr ⟨content, t, v, at_, load, rfl⟩
  cases h with
  | untouched => exact .inl mem
  | looked key => exact (looked key mem).imp id .inl
  | @stored key code text caches =>
      rcases clientCacheSet_entries mem with old | ⟨stores, rfl⟩
      · exact (looked key old.1).imp id .inl
      · exact .inr (.inr ⟨code, caches stores⟩)

theorem Requested.stat {p : Bytes} {inode : Inode} (h : Requested J w dir call env s)
    (here : s.dir.stat p = some inode) : dir.stat p = some inode ∨
      ∃ key code text, Caches J w dir call env key code text ∧ p = cachePath key ∧
        Saved J env.store text inode := by
  cases h with
  | untouched => exact .inl here
  | looked key => exact .inl (clientCacheGet_within p inode here)
  | @stored key code text caches =>
      rcases clientCacheSet_stat here with old | ⟨stores, path, saved⟩
      · exact .inl (clientCacheGet_within p inode old)
      · exact .inr ⟨key, code, text, caches stores, path, saved⟩

/-- Whatever its status, the text is in the list afterwards. -/
theorem Caches.listed {key text : Bytes} {code : Int} (h : Caches J w dir call env key code text) :
    ∃ entry ∈ (call.perform J env w dir).client.cache.entries,
      entry.key = key ∧ entry.jsonData = text := by
  obtain ⟨answered, range, parses, ⟨json, load, success⟩, stores⟩ := h
  cases answered with
  | @mk request full body code prepared absent arrives read =>
      have tells := httpClientGet_tells arrives
      rw [read] at tells
      obtain ⟨shown, ⟨ok, -⟩ | ⟨-, refused⟩⟩ := tells
      · have got : (httpClientGet env.net w.http (cStr request.url)).client.responseBody = some body :=
          congrArg (fun fields => fields.2.1) shown
        simp only [Call.perform, prepared, makeRequest, absent, fetch, ok, readBody, got, parses,
          Option.elim_none, load, apiError_eq_none.mpr success, clientCacheSet, stores, if_true]
        exact ⟨_, List.mem_append_right _ (List.mem_singleton_self _), rfl, rfl⟩
      · exact absurd range refused

/-! ## Runs -/

/-- The clients of all owners, and the directory. -/
structure Session (Owner : Type*) where
  clients : Owner → WeatherClient
  dir : CacheDir

/-- New clients over this directory. -/
def Session.start (configs : Owner → ClientConfig) (dir : CacheDir) : Session Owner :=
  ⟨fun owner => .create (configs owner), dir⟩

inductive ClientOp where
  | request (call : Call) (env : RequestEnv)
  | echo (net : Network) (copiesError : Bool)
  | clearCache (env : Surroundings)
  | setTimeout (timeoutMs : Int)
  /-- The client is destroyed and made anew. -/
  | create (config : ClientConfig)

structure ClientCall (Owner : Type*) where
  owner : Owner
  op : ClientOp

/-- What a call leaves of its client and the directory. -/
def ClientOp.act (J : Jansson) (w : WeatherClient) (dir : CacheDir) :
    ClientOp → WeatherClient × CacheDir
  | request call env => ((call.perform J env w dir).client, (call.perform J env w dir).dir)
  | echo net copiesError => ((Api.echo net copiesError w).2, dir)
  | clearCache env => Api.clearCache env w dir
  | setTimeout timeoutMs => (Api.setTimeout timeoutMs w, dir)
  | create config => (.create config, dir)

section Sessions

variable [DecidableEq Owner]

/-- The session after a call of one of the owners. -/
def act (J : Jansson) (s : Session Owner) (c : ClientCall Owner) : Session Owner :=
  let after := c.op.act J (s.clients c.owner) s.dir
  ⟨Function.update s.clients c.owner after.1, after.2⟩

/-- One of the calls stores this text under the key, from a response with a status of 200 to 299. -/
def Successful (J : Jansson) (start : Session Owner) (calls : List (ClientCall Owner))
    (env : RequestEnv) (key text : Bytes) : Prop :=
  ∃ before c after call code, calls = before ++ c :: after ∧ c.op = .request call env ∧
    Caches J ((run (act J) start before).clients c.owner) (run (act J) start before).dir call env
      key code text ∧ code < 300

/-- Every entry and every file is from a successful response. It is the key and the text that tell:
there was such a response for them, whether or not it is the one that stored them. -/
structure OnlySuccessful (J : Jansson) (start : Session Owner) (calls : List (ClientCall Owner))
    (s : Session Owner) : Prop where
  memory : ∀ owner, ∀ entry ∈ (s.clients owner).cache.entries, ∃ env key text,
    Successful J start calls env key text ∧ cachePath key = cachePath entry.key ∧
    SameData J text entry.jsonData
  disk : ∀ p inode, s.dir.stat p = some inode → ∃ env key text,
    Successful J start calls env key text ∧ p = cachePath key ∧ Saved J env.store text inode

/-- A response with a status of 300 to 599 that arrives, with the memory to keep it, is no JSON, or
has a false `success` field. -/
def FailureMarked (J : Jansson) (s : Session Owner) (c : ClientCall Owner) : Prop :=
  ∀ call env key code text, c.op = .request call env → env.parseRefused = none →
    storesEntry env.store = true →
    Answered J (s.clients c.owner) s.dir call env key code text → 300 ≤ code → code < 600 →
    ¬ Succeeds J text

variable {start s : Session Owner} {calls : List (ClientCall Owner)} {c : ClientCall Owner}

theorem echo_cache (net : Network) (copiesError : Bool) (w : WeatherClient) :
    (echo net copiesError w).2.cache = w.cache := by
  unfold echo
  simp only
  split
  · rfl
  · rfl
  · rfl
  · split <;> rfl

theorem act_clients_self :
    (act J s c).clients c.owner = (c.op.act J (s.clients c.owner) s.dir).1 :=
  Function.update_self _ _ _

/-- The other owners keep their clients. -/
theorem act_clients_ne {owner : Owner} (other : owner ≠ c.owner) :
    (act J s c).clients owner = s.clients owner :=
  Function.update_of_ne other _ _

/-- An entry after a call is an old one, made of a file, or stored by the call. -/
theorem act_entries {owner : Owner} {entry : CacheEntry}
    (mem : entry ∈ ((act J s c).clients owner).cache.entries) :
    entry ∈ (s.clients owner).cache.entries ∨ OfFile J s.dir entry ∨
      ∃ call env code, c.op = .request call env ∧
        Caches J (s.clients c.owner) s.dir call env entry.key code entry.jsonData := by
  by_cases mine : owner = c.owner
  · subst mine
    rw [act_clients_self] at mem
    cases op : c.op with
    | request call env =>
        rw [op] at mem
        rcases (perform_requested env _ s.dir call).entries mem with old | file | ⟨code, caches⟩
        · exact .inl old
        · exact .inr (.inl file)
        · exact .inr (.inr ⟨call, env, code, rfl, caches⟩)
    | echo net copiesError =>
        rw [op, ClientOp.act, echo_cache] at mem
        exact .inl mem
    | setTimeout timeoutMs =>
        rw [op] at mem
        exact .inl mem
    | clearCache | create =>
        rw [op] at mem
        cases mem
  · rw [act_clients_ne mine] at mem
    exact .inl mem

theorem Caches.act_listed (owner : Owner) {call : Call} {env : RequestEnv} {key text : Bytes}
    {code : Int} (h : Caches J (s.clients owner) s.dir call env key code text)
    (request : c = ⟨owner, .request call env⟩) :
    ∃ entry ∈ ((act J s c).clients owner).cache.entries, entry.key = key ∧ entry.jsonData = text := by
  subst request
  rw [act_clients_self]
  exact h.listed

/-- An inode after a call is an old one, or the file of a store. -/
theorem act_stat {p : Bytes} {inode : Inode} (here : (act J s c).dir.stat p = some inode) :
    s.dir.stat p = some inode ∨ ∃ call env key code text, c.op = .request call env ∧
      Caches J (s.clients c.owner) s.dir call env key code text ∧ p = cachePath key ∧
      Saved J env.store text inode := by
  obtain ⟨by_, op⟩ := c
  cases op with
  | request call env =>
      rcases (perform_requested env _ s.dir call).stat here with old | ⟨key, code, text, stored⟩
      · exact .inl old
      · exact .inr ⟨call, env, key, code, text, rfl, stored⟩
  | clearCache env => exact .inl (clientCacheClear_within env _ p inode here)
  | echo | setTimeout | create => exact .inl here

theorem Successful.snoc {env : RequestEnv} {key text : Bytes}
    (h : Successful J start calls env key text) (c : ClientCall Owner) :
    Successful J start (calls ++ [c]) env key text := by
  obtain ⟨before, c', after, call, code, rfl, rest⟩ := h
  exact ⟨before, c', after ++ [c], call, code, by simp, rest⟩

/-- What a marked call stores is successful. -/
theorem Successful.last {call : Call} {env : RequestEnv} {key text : Bytes} {code : Int}
    (marked : FailureMarked J (run (act J) start calls) c) (request : c.op = .request call env)
    (caches : Caches J ((run (act J) start calls).clients c.owner) (run (act J) start calls).dir
      call env key code text) : Successful J start (calls ++ [c]) env key text := by
  refine ⟨calls, c, [], call, code, rfl, request, caches, ?_⟩
  by_contra failure
  exact marked call env key code text request caches.parses caches.stores caches.answered
    (Int.not_lt.mp failure) caches.range.2 caches.succeeds

theorem OnlySuccessful.step (undo : J.LoadUndoesDump) (cut : J.CutTextFails)
    (marked : FailureMarked J (run (act J) start calls) c)
    (h : OnlySuccessful J start calls (run (act J) start calls)) :
    OnlySuccessful J start (calls ++ [c]) (act J (run (act J) start calls) c) := by
  constructor
  · intro owner entry mem
    rcases act_entries mem with
      old | ⟨content, t, v, at_, load, data⟩ | ⟨call, env, code, request, caches⟩
    · obtain ⟨env, key, text, successful, path, same⟩ := h.memory owner entry old
      exact ⟨env, key, text, successful.snoc c, path, same⟩
    · obtain ⟨env, key, text, successful, path, saved⟩ := h.disk _ _ at_
      exact ⟨env, key, text, successful.snoc c, path.symm, data ▸ (saved.loads undo cut load).2⟩
    · exact ⟨env, entry.key, entry.jsonData, .last marked request caches, rfl, .inl rfl⟩
  · intro p inode here
    rcases act_stat here with old | ⟨call, env, key, code, text, request, caches, stored⟩
    · obtain ⟨env, key, text, successful, stored⟩ := h.disk p inode old
      exact ⟨env, key, text, successful.snoc c, stored⟩
    · exact ⟨env, key, text, .last marked request caches, stored⟩

theorem OnlySuccessful.run {calls : List (ClientCall Owner)} (undo : J.LoadUndoesDump)
    (cut : J.CutTextFails) (noEntry : ∀ owner, (start.clients owner).cache.entries = [])
    (noFile : ∀ p, start.dir.stat p = none) (marked : Along (act J) (FailureMarked J) start calls) :
    OnlySuccessful J start calls (run (act J) start calls) := by
  induction calls using List.reverseRecOn with
  | nil =>
      constructor
      · intro owner entry mem
        rw [run_nil, noEntry owner] at mem
        cases mem
      · intro p inode here
        rw [run_nil, noFile p] at here
        cases here
  | append_singleton calls c ih =>
      obtain ⟨before, last, -⟩ := along_append.mp marked
      rw [run_append]
      exact (ih before).step undo cut last

/-- A run of new clients over an empty directory in which every failure that arrives is marked
caches successful responses only. -/
theorem only_successful_cached {configs : Owner → ClientConfig} {dir : CacheDir}
    {calls : List (ClientCall Owner)} (undo : J.LoadUndoesDump) (cut : J.CutTextFails)
    (noFile : ∀ p, dir.stat p = none)
    (marked : Along (act J) (FailureMarked J) (.start configs dir) calls) :
    OnlySuccessful J (.start configs dir) calls (run (act J) (.start configs dir) calls) :=
  .run undo cut (fun _ => rfl) noFile marked

/-- A server that answers with this text. -/
def answering (full : Bytes) : RequestEnv := { reaching fun _ => true with net := delivering full }

theorem arrives_delivering {client : HttpClient} {url full full' : Bytes} (some_ : full ≠ [])
    (arrives : Arrives (delivering full) client url full') : full' = full := by
  obtain ⟨c, rest, rfl⟩ := List.exists_cons_of_ne_nil some_
  obtain ⟨u, fd, request, -, -, -, -, received, -⟩ := arrives
  simpa [delivering, recvLoop, clientTcpRecv, eq_comm] using received

/-- The one response that an answering server gives. -/
theorem answered_answering {full body text key : Bytes} {code code' : Int} {w : WeatherClient}
    (some_ : full ≠ []) (read : reading (fun _ => true) full = .returns (.whole code body))
    (answered : Answered J w dir call (answering full) key code' text) :
    code' = code ∧ text = cStr body := by
  cases answered with
  | mk prepared absent arrives read' =>
      rw [arrives_delivering some_ arrives] at read'
      cases read.symm.trans read'
      exact ⟨rfl, rfl⟩

/-- A client asks for the homepage, and gets this text. -/
def homepageCall (full : Bytes) : ClientCall Unit := ⟨(), .request .getHomepage (answering full)⟩

/-- A failure without JSON, and behind it a success. -/
theorem only_successful_cached_homepage :
    OnlySuccessful .emptyTexts (.start (fun _ => .default) noFiles)
      [homepageCall (ascii "HTTP/1.1 404 Not Found\r\n\r\nno"),
        homepageCall (ascii "HTTP/1.1 200 OK\r\n\r\n\x7b\x7d")]
      (run (act .emptyTexts) (.start (fun _ => .default) noFiles)
        [homepageCall (ascii "HTTP/1.1 404 Not Found\r\n\r\nno"),
          homepageCall (ascii "HTTP/1.1 200 OK\r\n\r\n\x7b\x7d")]) := by
  apply only_successful_cached Jansson.emptyTexts_loadUndoesDump Jansson.emptyTexts_cutTextFails
  · exact fun _ => rfl
  · refine ⟨?_, ?_, trivial⟩
    · rintro call env key code text ⟨⟩ - - answered - - ⟨json, load, -⟩
      have read : reading (fun _ => true) (ascii "HTTP/1.1 404 Not Found\r\n\r\nno") =
          .returns (.whole 404 (ascii "no")) := by decide +kernel
      obtain ⟨-, rfl⟩ := answered_answering (by decide) read answered
      cases load
    · rintro call env key code text ⟨⟩ - - answered failure - -
      have read : reading (fun _ => true) (ascii "HTTP/1.1 200 OK\r\n\r\n\x7b\x7d") =
          .returns (.whole 200 (ascii "\x7b\x7d")) := by decide +kernel
      obtain ⟨rfl, -⟩ := answered_answering (by decide) read answered
      exact absurd failure (by decide)

/-- A failure with JSON and without a `success` field is cached. -/
theorem failure_cached :
    ¬ OnlySuccessful .emptyTexts (.start (fun _ => .default) noFiles)
      [homepageCall (ascii "HTTP/1.1 404 Not Found\r\n\r\n\x7b\x7d")]
      (run (act .emptyTexts) (.start (fun _ => .default) noFiles)
        [homepageCall (ascii "HTTP/1.1 404 Not Found\r\n\r\n\x7b\x7d")]) := by
  intro only
  rw [run_cons, run_nil] at only
  have read : reading (fun _ => true) (ascii "HTTP/1.1 404 Not Found\r\n\r\n\x7b\x7d") =
      .returns (.whole 404 (ascii "\x7b\x7d")) := by decide +kernel
  have prepared : Call.getHomepage.prepare .default (fun _ => true) =
      .ok (homepageRequest .default) := rfl
  have absent := missing_noFiles .emptyTexts
    (answering (ascii "HTTP/1.1 404 Not Found\r\n\r\n\x7b\x7d")) .default _ _ prepared
  have arrives : Arrives (delivering (ascii "HTTP/1.1 404 Not Found\r\n\r\n\x7b\x7d"))
      (httpClientCreate 5000) (cStr (homepageRequest .default).url)
      (ascii "HTTP/1.1 404 Not Found\r\n\r\n\x7b\x7d") :=
    ⟨⟨ascii "localhost", 10680, ascii "/"⟩, 3, requestText (ascii "localhost") (ascii "/"),
      by decide +kernel, by decide, by decide +kernel, by decide +kernel, by decide +kernel, by decide⟩
  have caches : Caches .emptyTexts (.create .default) noFiles .getHomepage
      (answering (ascii "HTTP/1.1 404 Not Found\r\n\r\n\x7b\x7d")) _ 404 (ascii "\x7b\x7d") :=
    ⟨.mk prepared (congrArg _ absent) arrives read, by decide, rfl,
      ⟨true, rfl, fun field found => by cases found⟩, rfl⟩
  obtain ⟨entry, listed, -⟩ := Caches.act_listed (s := .start (fun _ => .default) noFiles)
    (c := homepageCall (ascii "HTTP/1.1 404 Not Found\r\n\r\n\x7b\x7d")) () caches rfl
  obtain ⟨env, key, text, ⟨before, c, after, call, code, split, request, ⟨answered, -⟩, success⟩, -⟩ :=
    only.memory () entry listed
  cases before with
  | cons first rest =>
      have := congrArg List.length split
      simp at this
  | nil =>
      obtain ⟨rfl, rfl⟩ := List.cons.inj split
      cases request
      rw [(answered_answering (by decide) read answered).1] at success
      exact absurd success (by decide)

end Sessions

end JustWeather.Api
