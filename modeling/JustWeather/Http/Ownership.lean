import JustWeather.CLib.Ownership
import JustWeather.Http.OneResponse

/-! # The memory of a response

The receive path with its blocks: the response as it comes in, the buffer of the chunks, a copy of
each size line, and the body, which the client keeps.
-/

namespace JustWeather.Http

open CLib Owning

/-! ## `decode_chunked` -/

/-- `chunkData` on the buffer of the chunks. -/
def chunkDataOwned (granted : Allocator) (input : Bytes) (d : Decoder) (buf pos chunkSize : Nat) :
    Owning (Turn × Nat) :=
  if input.length < wrap64 (pos + chunkSize) then do
    free (some buf)
    return (.fail (-7), buf)
  else do
    match ← makeRoomOwned d buf with
    | none =>
        free (some buf)
        return (.fail (-8), buf)
    | some (alloc, buf) =>
        if pos + chunkSize ≤ input.length ∧ d.buf.length + chunkSize ≤ alloc then
          use buf
          if CRLF.isPrefixOf (input.drop (pos + chunkSize)) then
            return (.next ⟨pos + chunkSize + 2, alloc, d.buf ++ (input.drop pos).take chunkSize⟩, buf)
          else
            free (some buf)
            return (.fail (-9), buf)
        else lift .undefined
where
  makeRoomOwned (d : Decoder) (buf : Nat) : Owning (Option (Nat × Nat)) :=
    let need := wrap64 (d.buf.length + chunkSize + 1)
    if d.alloc < need then do
      let alloc ← lift (grow need d.alloc)
      let nbuf ← realloc (granted (.chunkGrow pos)) (some buf)
      return nbuf.map fun nbuf => (alloc, nbuf)
    else return some (d.alloc, buf)

/-- `decodeTurn`, with the copy of the size line. -/
def decodeTurnOwned (granted : Allocator) (input : Bytes) (d : Decoder) (buf : Nat) :
    Owning (Turn × Nat) :=
  let rest := input.drop d.pos
  let lineLen := crlfOffset rest
  if rest.length ≤ lineLen then do
    free (some buf)
    return (.fail (-3), buf)
  else if lineLen = 0 then do
    free (some buf)
    return (.fail (-4), buf)
  else do
    match ← malloc (granted (.sizeLine d.pos)) with
    | none =>
        free (some buf)
        return (.fail (-5), buf)
    | some hex =>
        use hex
        match strtoul16 (rest.take lineLen) with
        | none =>
            free (some hex)
            free (some buf)
            return (.fail (-6), buf)
        | some chunkSize =>
            free (some hex)
            if chunkSize = 0 then return (.finish, buf)
            else chunkDataOwned granted input d buf (d.pos + lineLen + 2) chunkSize

/-- Behind the loop: the text, and its block. -/
def finishOwned (granted : Allocator) (d : Decoder) (buf : Nat) : Owning (Except Int (Bytes × Nat)) :=
  if d.alloc < d.buf.length + 1 then do
    match ← realloc (granted .chunkEnd) (some buf) with
    | none =>
        free (some buf)
        return .error (-10)
    | some buf =>
        use buf
        return .ok (d.buf, buf)
  else do
    use buf
    return .ok (d.buf, buf)

/-- `decodeLoop`, for at most `fuel` turns. -/
def decodeLoopOwned (granted : Allocator) (input : Bytes) :
    Nat → Decoder → Nat → Owning (Except Int (Bytes × Nat))
  | 0, _, _ => lift .diverges
  | fuel + 1, d, buf =>
      if d.pos < input.length then do
        match ← decodeTurnOwned granted input d buf with
        | (.fail code, _) => return .error code
        | (.finish, buf) => finishOwned granted d buf
        | (.next d', buf) => decodeLoopOwned granted input fuel d' buf
      else finishOwned granted d buf

def decodeChunkedOwned (granted : Allocator) (input : Bytes) : Owning (Except Int (Bytes × Nat)) := do
  match ← malloc (granted .chunkBuffer) with
  | none => return .error (-2)
  | some buf => decodeLoopOwned granted input (input.length + 1) ⟨0, 1024, []⟩ buf

/-! ## `receive_response` -/

/-- `recvLoop` on `full_response`. -/
def recvLoopOwned (granted : Allocator) (fd : Option Nat) :
    Nat → Option Nat → Bytes → List RecvOutcome → Owning (Option (Option Nat × Bytes))
  | _, p, _, [] => do
      free p
      return none
  | nth, p, full, outcome :: script =>
      match clientTcpRecv fd outcome with
      | none => do
          free p
          return none
      | some [] => return some (p, full)
      | some (c :: data) => do
          match ← realloc (granted (.response nth)) p with
          | none =>
              free p
              return none
          | some q =>
              use q
              recvLoopOwned granted fd (nth + 1) (some q) (full ++ c :: data) script

/-- `readResponse`, with the block of the response and that of the body the client has. -/
def readResponseOwned (granted : Allocator) (full : Bytes) (p : Nat) (client : HttpClient)
    (body : Option Nat) : Owning (Int × HttpClient × Option Nat) := do
  use p
  let h := parseHeaders full
  let client := { client with statusCode := h.statusCode }
  if h.ret ≠ 0 then
    free (some p)
    return (-1, client, body)
  else
    match strstr blankLine full with
    | none =>
        free (some p)
        return (-1, client, body)
    | some lineEnd =>
        if h.chunked then
          match ← decodeChunkedOwned granted (lineEnd.drop 4) with
          | .ok (out, buf) =>
              free (some p)
              return (0, { client with responseBody := some out, responseSize := out.length }, some buf)
          | .error _ =>
              free (some p)
              return (-1, client, body)
        else
          match ← malloc (granted .body) with
          | none =>
              free (some p)
              return (-1, { client with responseBody := none }, none)
          | some b =>
              use p
              use b
              free (some p)
              return (0, { client with
                responseBody := some (lineEnd.drop 4), responseSize := (lineEnd.drop 4).length }, some b)

def receiveResponseOwned (granted : Allocator) (script : List RecvOutcome) (client : HttpClient)
    (body : Option Nat) : Owning (Int × HttpClient × Option Nat) := do
  match ← recvLoopOwned granted client.fd 0 none [] script with
  | none => return (-1, client, body)
  | some (none, _) => return (-1, client, body)
  | some (some p, full) =>
      if full = [] then
        free (some p)
        return (-1, client, body)
      else readResponseOwned granted full p client body

/-! ## `http_client_get`, and the life of a client -/

/-- What `http_client_get` leaves, with the blocks of the body and of the error text. -/
structure OwnedGet where
  result : Except HttpError Unit
  client : HttpClient
  body : Option Nat
  text : Option Nat

/-- A failure, with a copy of its text if there is memory. -/
def failOwned (copies : Bool) (e : HttpError) (client : HttpClient) (body : Option Nat) :
    Owning OwnedGet := do
  let text ← malloc copies
  return ⟨.error e, client, body, text⟩

/-- From the response on. -/
def finishGetOwned (copies : Bool) (net : Network) (client : HttpClient) (body : Option Nat) :
    Owning OwnedGet := do
  let (ret, client, body) ← receiveResponseOwned net.granted net.recvs client body
  let client := { client with fd := none }
  if ret ≠ 0 then failOwned copies .receive client body
  else if client.statusCode < 200 ∨ 600 ≤ client.statusCode then
    failOwned copies (.status client.statusCode) client body
  else return ⟨.ok (), client, body, none⟩

def httpClientGetOwned (copies : Bool) (net : Network) (client : HttpClient) (url : Bytes)
    (body : Option Nat) : Owning OwnedGet := do
  match ← lift (parseUrl url) with
  | none => failOwned copies .parseUrl client body
  | some u =>
      match (clientTcpConnect client.fd net.resolved).1 with
      | none => failOwned copies .connection client body
      | some fd =>
          match formatRequest u.hostname u.path with
          | none => failOwned copies .send { client with fd := none } body
          | some request =>
              let ret ← lift (clientTcpSend (some fd) net.sends request).1
              if ret ≠ 0 then failOwned copies .send { client with fd := none } body
              else finishGetOwned copies net { client with fd := some fd } body

/-- The client and its `tcp`, or none of both. -/
def httpClientCreateOwned (first second : Bool) : Owning (Option (Nat × Nat)) := do
  match ← malloc first with
  | none => return none
  | some client =>
      match ← malloc second with
      | none =>
          free (some client)
          return none
      | some tcp => return some (client, tcp)

def httpClientDestroyOwned (client tcp : Nat) (body : Option Nat) : Owning Unit := do
  free body
  free (some tcp)
  free (some client)

/-- A call, and whether there is memory for a copy of an error text. -/
structure OwnedCall extends GetCall where
  copies : Bool

/-- Calls one after another, by a caller that frees every error text. -/
def getsOwned : List OwnedCall → HttpClient → Option Nat → Owning (HttpClient × Option Nat)
  | [], client, body => return (client, body)
  | call :: calls, client, body => do
      let got ← httpClientGetOwned call.copies call.net client call.url body
      free got.text
      getsOwned calls got.client got.body

/-- From `http_client_create` to `http_client_destroy`. -/
def lifeOwned (first second : Bool) (timeoutMs : Int) (calls : List OwnedCall) : Owning Unit := do
  match ← httpClientCreateOwned first second with
  | none => return ()
  | some (client, tcp) =>
      let (_, body) ← getsOwned calls (httpClientCreate timeoutMs) none
      httpClientDestroyOwned client tcp body

/-! ## Decoding gives back what it takes -/

variable {granted : Allocator} {input : Bytes} {d : Decoder} {buf : Nat} {others : Finset Nat}
  {s : Blocks}

/-- Room in the buffer, which may have moved. -/
def RoomOwned (others : Finset Nat) (buf : Nat) (room : Option Nat) (owned : Option (Nat × Nat))
    (s : Blocks) : Prop :=
  room = owned.map Prod.fst ∧ Holding others (some (owned.elim buf Prod.snd)) s

/-- A turn that fails has freed the buffer. -/
def TurnOwned (others : Finset Nat) (turn : Turn) (owned : Turn × Nat) (s : Blocks) : Prop :=
  owned.1 = turn ∧ Holding others (match turn with | .fail _ => none | _ => some owned.2) s

/-- What is decoded has a block, and nothing else is left. -/
def TextOwned (others : Finset Nat) (result : Except Int Bytes) (owned : Except Int (Bytes × Nat))
    (s : Blocks) : Prop :=
  result = owned.map Prod.fst ∧ Holding others (owned.toOption.map Prod.snd) s

theorem makeRoom_behaves {pos size : Nat} (held : Holding others (some buf) s) :
    Behaves (makeRoom granted d pos size) (chunkDataOwned.makeRoomOwned granted pos size d buf) s
      (RoomOwned others buf) := by
  unfold makeRoom chunkDataOwned.makeRoomOwned
  simp only
  split
  · apply Behaves.lift
    intro alloc _
    cases granted (.chunkGrow pos) with
    | false => exact Behaves.step rfl (Behaves.pure ⟨rfl, held⟩)
    | true =>
        obtain ⟨nbuf, s', moved, held'⟩ := held.realloc
        exact Behaves.step moved (Behaves.pure ⟨rfl, held'⟩)
  · exact Behaves.pure ⟨rfl, held⟩

/-- An error is returned behind the `free` of the buffer. -/
theorem fail_behaves {code : Int} (held : Holding others (some buf) s) : Behaves (.returns (.fail code))
    (do
      free (some buf)
      return (.fail code, buf)) s (TurnOwned others) := by
  obtain ⟨s', freed, none⟩ := held.free
  exact Behaves.step freed (Behaves.pure ⟨rfl, none⟩)

theorem chunkData_behaves {pos size : Nat} (held : Holding others (some buf) s) :
    Behaves (chunkData granted input d pos size) (chunkDataOwned granted input d buf pos size) s
      (TurnOwned others) := by
  unfold chunkData chunkDataOwned
  split
  · exact fail_behaves held
  · apply Behaves.bind (makeRoom_behaves held)
    rintro room owned s' - ⟨rfl, held'⟩
    cases owned with
    | none => exact fail_behaves held'
    | some owned =>
        obtain ⟨alloc, nbuf⟩ := owned
        simp only [Option.map_some]
        split
        · apply Behaves.step held'.use
          split
          · exact Behaves.pure ⟨rfl, held'⟩
          · exact fail_behaves held'
        · rfl

theorem decodeTurn_behaves (held : Holding others (some buf) s) :
    Behaves (decodeTurn granted input d) (decodeTurnOwned granted input d buf) s (TurnOwned others) := by
  unfold decodeTurn decodeTurnOwned
  simp only
  split
  · exact fail_behaves held
  split
  · exact fail_behaves held
  cases granted (.sizeLine d.pos) with
  | false => exact Behaves.step rfl (fail_behaves held)
  | true =>
      -- the copy of the size line is gone before anything else happens
      obtain ⟨hex, s', made, copied⟩ := held.among.malloc
      obtain ⟨s'', freed, rest⟩ := copied.free
      have held' := Holding.of_among held.1 rest
      apply Behaves.step made
      apply Behaves.step copied.use
      cases strtoul16 ((input.drop d.pos).take (crlfOffset (input.drop d.pos))) with
      | none => exact Behaves.step freed (fail_behaves held')
      | some size =>
          apply Behaves.step freed
          cases size with
          | zero => exact Behaves.pure ⟨rfl, held'⟩
          | succ size => exact chunkData_behaves held'

theorem finish_behaves (held : Holding others (some buf) s) :
    Behaves (decodeLoop.finish granted d) (finishOwned granted d buf) s (TextOwned others) := by
  unfold decodeLoop.finish finishOwned
  by_cases short : d.alloc < d.buf.length + 1
  · rw [if_pos short]
    cases granted .chunkEnd with
    | false =>
        obtain ⟨s', freed, none⟩ := held.free
        rw [if_pos ⟨short, rfl⟩]
        exact Behaves.step rfl (Behaves.step freed (Behaves.pure ⟨rfl, none⟩))
    | true =>
        obtain ⟨nbuf, s', moved, held'⟩ := held.realloc
        rw [if_neg nofun]
        exact Behaves.step moved (Behaves.step held'.use (Behaves.pure ⟨rfl, held'⟩))
  · rw [if_neg short, if_neg fun both => short both.1]
    exact Behaves.step held.use (Behaves.pure ⟨rfl, held⟩)

theorem decodeLoop_turn (inside : d.pos < input.length) : decodeLoop granted input d =
    (decodeTurn granted input d).andThen fun
      | .fail code => .returns (.error code)
      | .finish => decodeLoop.finish granted d
      | .next d' => decodeLoop granted input d' := by
  cases turn : decodeTurn granted input d with
  | undefined => exact decodeLoop_undefined inside turn
  | diverges => exact decodeLoop_diverges inside turn
  | returns t =>
      cases t with
      | fail code => exact decodeLoop_fail inside turn
      | finish => exact decodeLoop_finish inside turn
      | next d' => exact decodeLoop_next turn

/-- Each turn comes further, so the turns do not run out. -/
theorem decodeLoop_behaves {fuel : Nat} (enough : input.length - d.pos < fuel)
    (held : Holding others (some buf) s) :
    Behaves (decodeLoop granted input d) (decodeLoopOwned granted input fuel d buf) s
      (TextOwned others) := by
  induction fuel generalizing d buf s with
  | zero => omega
  | succ fuel ih =>
      unfold decodeLoopOwned
      by_cases inside : d.pos < input.length
      · rw [if_pos inside, decodeLoop_turn inside]
        apply Behaves.bind (decodeTurn_behaves held)
        rintro turn ⟨t, nbuf⟩ s' here ⟨rfl, held'⟩
        cases t with
        | fail code => exact Behaves.pure ⟨rfl, held'⟩
        | finish => exact finish_behaves held'
        | next d' =>
            have further := (decodeTurn_next here).1
            exact ih (by omega) held'
      · rw [if_neg inside, decodeLoop, if_neg inside]
        exact finish_behaves held

theorem decodeChunked_behaves (held : Holding others none s) :
    Behaves (decodeChunked granted input) (decodeChunkedOwned granted input) s (TextOwned others) := by
  unfold decodeChunked decodeChunkedOwned
  cases granted .chunkBuffer with
  | false => exact Behaves.step rfl (Behaves.pure ⟨rfl, held⟩)
  | true =>
      obtain ⟨buf, s', made, held'⟩ := held.malloc
      exact Behaves.step made (decodeLoop_behaves (Nat.lt_succ_self _) held')

/-! ## What the client keeps -/

/-- The others, with the block that the client had. -/
def withBody (others : Finset Nat) (body : Option Nat) : Finset Nat :=
  body.elim others (insert · others)

/-- What there is beside the body of the client: the old body too, where a new one takes its place. -/
def beside (others : Finset Nat) (body : Option Nat) : Reading → Finset Nat
  | .status _ => others
  | .refused _ | .whole _ _ => withBody others body

theorem holding_withBody {body : Option Nat} (h : Holding others body s) :
    Holding (withBody others body) none s := by
  cases body with
  | none => exact h
  | some b => exact h.among

theorem holding_of_withBody {body : Option Nat} (apart : ∀ b ∈ body, b ∉ others)
    (h : Holding (withBody others body) none s) : Holding others body s := by
  cases body with
  | none => exact h
  | some b => exact h.of_among (apart b rfl)

variable {full : Bytes} {p : Nat} {client : HttpClient} {body : Option Nat}

/-- A reading does what it does to the client, and leaves no block but that of the body. -/
structure ResponseOwned (others : Finset Nat) (client : HttpClient) (body : Option Nat) (r : Reading)
    (owned : Int × HttpClient × Option Nat) (s : Blocks) : Prop where
  same : (owned.1, owned.2.1) = (r.ret, r.store client)
  held : Holding (beside others body r) owned.2.2 s
  shown : owned.2.2.isSome = (r.store client).responseBody.isSome

theorem readResponse_behaves (apart : ∀ b ∈ body, b ∉ others)
    (shown : body.isSome = client.responseBody.isSome)
    (held : Holding (withBody others body) (some p) s) :
    Behaves (reading granted full) (readResponseOwned granted full p client body) s
      (ResponseOwned others client body) := by
  have fails : ∀ s code, Holding (withBody others body) (some p) s →
      Behaves (.returns (.status code)) (do
        free (some p)
        return (-1, { client with statusCode := code }, body)) s (ResponseOwned others client body) := by
    intro s code held
    obtain ⟨s', freed, none⟩ := held.free
    exact Behaves.step freed (Behaves.pure ⟨rfl, holding_of_withBody apart none, shown⟩)
  unfold reading readResponseOwned
  apply Behaves.step held.use
  simp only
  split
  · exact fails s _ held
  cases strstr blankLine full with
  | none => exact fails s _ held
  | some lineEnd =>
      simp only
      split
      · apply Behaves.bind (decodeChunked_behaves held.among)
        rintro result owned s' - ⟨rfl, held'⟩
        cases owned with
        | error code => exact fails s' _ (held'.of_among held.1)
        | ok owned =>
            obtain ⟨s'', freed, rest⟩ := held'.free_among held.1
            exact Behaves.step freed (Behaves.pure ⟨rfl, rest, rfl⟩)
      · cases granted .body with
        | false =>
            obtain ⟨s', freed, none⟩ := held.free
            exact Behaves.step rfl (Behaves.step freed (Behaves.pure ⟨rfl, none, rfl⟩))
        | true =>
            obtain ⟨b, s', made, both⟩ := held.among.malloc
            obtain ⟨s'', freed, rest⟩ := both.free_among held.1
            apply Behaves.step made
            apply Behaves.step (both.use_among (Finset.mem_insert_self p _))
            apply Behaves.step both.use
            exact Behaves.step freed (Behaves.pure ⟨rfl, rest, rfl⟩)

/-! ## Calls -/

variable {nth : Nat} {q : Option Nat} {script : List RecvOutcome} {fd : Option Nat}

/-- What has come in has a block, if anything has. -/
def StreamOwned (others : Finset Nat) (r : Option Bytes) (owned : Option (Option Nat × Bytes))
    (s : Blocks) : Prop :=
  r = owned.map Prod.snd ∧ Holding others (owned.bind Prod.fst) s ∧
    ∀ q full, owned = some (q, full) → (q = none ↔ full = [])

theorem recvLoop_behaves (empty : q = none ↔ full = []) (held : Holding others q s) :
    Behaves (.returns (recvLoop granted fd nth full script))
      (recvLoopOwned granted fd nth q full script) s (StreamOwned others) := by
  have fails : ∀ q s, Holding others q s → Behaves (.returns none)
      (do
        free q
        return none) s (StreamOwned others) := by
    intro q s held
    obtain ⟨s', freed, none⟩ := held.free
    exact Behaves.step freed (Behaves.pure ⟨rfl, none, nofun⟩)
  induction script generalizing nth q full s with
  | nil => exact fails q s held
  | cons outcome script ih =>
      unfold recvLoop recvLoopOwned
      rcases clientTcpRecv fd outcome with _ | _ | ⟨c, data⟩
      · exact fails q s held
      · refine Behaves.pure ⟨rfl, held, ?_⟩
        rintro _ _ ⟨⟩
        exact empty
      · cases granted (.response nth) with
        | false => exact Behaves.step rfl (fails q s held)
        | true =>
            obtain ⟨b, s', moved, held'⟩ := held.realloc
            exact Behaves.step moved (Behaves.step held'.use (ih (by simp) held'))

/-- What is read of what comes in; nothing, where the stream fails or is empty. -/
def received (granted : Allocator) (fd : Option Nat) (script : List RecvOutcome) :
    Exec (Option Reading) :=
  match recvLoop granted fd 0 [] script with
  | none => .returns none
  | some [] => .returns none
  | some (c :: full) => (reading granted (c :: full)).andThen fun r => .returns (some r)

/-- The same for a response, or for none. -/
structure AnswerOwned (others : Finset Nat) (client : HttpClient) (body : Option Nat)
    (r : Option Reading) (owned : Int × HttpClient × Option Nat) (s : Blocks) : Prop where
  same : (owned.1, owned.2.1) = r.elim (-1, client) fun r => (r.ret, r.store client)
  held : Holding (r.elim others (beside others body)) owned.2.2 s
  shown : owned.2.2.isSome = owned.2.1.responseBody.isSome

theorem receiveResponse_behaves (apart : ∀ b ∈ body, b ∉ others)
    (shown : body.isSome = client.responseBody.isSome) (held : Holding others body s) :
    Behaves (received granted client.fd script) (receiveResponseOwned granted script client body) s
      (AnswerOwned others client body) := by
  have loop : Behaves (.returns (recvLoop granted client.fd 0 [] script))
      (recvLoopOwned granted client.fd 0 none [] script) s (StreamOwned (withBody others body)) :=
    recvLoop_behaves (by simp) (holding_withBody held)
  obtain ⟨owned, s', made, stream, held', empty⟩ := loop
  unfold received receiveResponseOwned
  rw [stream]
  apply Behaves.step made
  match owned with
  | none => exact Behaves.pure ⟨rfl, holding_of_withBody apart held', shown⟩
  | some (none, full) =>
      obtain rfl := (empty none full rfl).mp rfl
      exact Behaves.pure ⟨rfl, holding_of_withBody apart held', shown⟩
  | some (some p, []) => cases (empty _ _ rfl).mpr rfl
  | some (some p, c :: full) =>
      apply Behaves.map (readResponse_behaves apart shown held')
      rintro r ⟨ret, client', body'⟩ s'' ⟨same, held'', shown'⟩
      cases same
      exact ⟨rfl, held'', shown'⟩

theorem receiveResponse_eq : receiveResponse granted script client =
    (received granted client.fd script).andThen fun r =>
      .returns (r.elim (-1, client) fun r => (r.ret, r.store client)) := by
  unfold receiveResponse received
  rcases recvLoop granted client.fd 0 [] script with _ | _ | ⟨c, full⟩
  · rfl
  · rfl
  · simp only [readResponse_eq]
    cases reading granted (c :: full) <;> rfl

/-- The bodies in what is read. -/
def bodies : Option Reading → Nat
  | some (.whole _ _) => 1
  | _ => 0

/-- The blocks beside the body, and that of the body: those there were, and one for a new body. -/
def Counted (others : Finset Nat) (body : Option Nat) (r : Option Reading) (body' : Option Nat) : Prop :=
  (r.elim others (beside others body)).card + body'.isSome.toNat =
    others.card + body.isSome.toNat + bodies r

theorem withBody_card (apart : ∀ b ∈ body, b ∉ others) :
    (withBody others body).card = others.card + body.isSome.toNat := by
  cases body with
  | none => rfl
  | some b => exact Finset.card_insert_of_notMem (apart b rfl)

theorem counted {r : Option Reading} {body' : Option Nat} (apart : ∀ b ∈ body, b ∉ others)
    (shown : body.isSome = client.responseBody.isSome)
    (stored : body'.isSome = (r.elim client fun r => r.store client).responseBody.isSome) :
    Counted others body r body' := by
  have total := withBody_card apart
  unfold Counted
  rw [stored]
  match r with
  | none | some (.status code) => rw [shown]; rfl
  | some (.refused code) | some (.whole code text) =>
      simp only [Option.elim_some, beside, total]
      rfl

variable {net : Network} {url : Bytes} {copies : Bool}

/-- What is read during a call. -/
def answered (net : Network) (client : HttpClient) (url : Bytes) : Exec (Option Reading) :=
  (parseUrl url).andThen fun
    | none => .returns none
    | some u =>
        match (clientTcpConnect client.fd net.resolved).1 with
        | none => .returns none
        | some fd =>
            match formatRequest u.hostname u.path with
            | none => .returns none
            | some request =>
                (clientTcpSend (some fd) net.sends request).1.andThen fun ret =>
                  if ret ≠ 0 then .returns none else received net.granted (some fd) net.recvs

/-- A call ends as `http_client_get` does; the client has the block of its body, and the caller that of
the text. -/
structure GotOwned (others : Finset Nat) (body : Option Nat) (run : GetRun) (r : Option Reading)
    (got : OwnedGet) (s : Blocks) : Prop where
  result : run.result = .returns got.result
  client : run.client = got.client
  count : Counted others body r got.body
  apart : ∀ b ∈ got.body, b ∉ r.elim others (beside others body)
  held : Holding (withBody (r.elim others (beside others body)) got.body) got.text s
  shown : got.body.isSome = got.client.responseBody.isSome

theorem failOwned_behaves {run : GetRun} {r : Option Reading} {e : HttpError} {body' : Option Nat}
    (result : run.result = .returns (.error e)) (same : run.client = client)
    (count : Counted others body r body')
    (held : Holding (r.elim others (beside others body)) body' s)
    (shown : body'.isSome = client.responseBody.isSome) :
    Behaves (.returns r) (failOwned copies e client body') s (GotOwned others body run) := by
  have apart : ∀ b ∈ body', b ∉ r.elim others (beside others body) := by
    rintro b rfl
    exact held.1
  unfold failOwned
  cases copies with
  | false =>
      exact Behaves.step rfl
        (Behaves.pure ⟨result, same, count, apart, holding_withBody held, shown⟩)
  | true =>
      obtain ⟨text, s', made, held'⟩ := (holding_withBody held).malloc
      exact Behaves.step made (Behaves.pure ⟨result, same, count, apart, held', shown⟩)

theorem finishGet_behaves {request sent : Bytes} {log : List FdEvent} (apart : ∀ b ∈ body, b ∉ others)
    (shown : body.isSome = client.responseBody.isSome) (held : Holding others body s) :
    Behaves (received net.granted client.fd net.recvs) (finishGetOwned copies net client body) s
      (GotOwned others body (finishGet net client request sent log)) := by
  unfold finishGetOwned
  apply Behaves.after (receiveResponse_behaves apart shown held)
  rintro r ⟨ret, client', body'⟩ s' here ⟨same, held', shown'⟩
  have received : receiveResponse net.granted net.recvs client = .returns (ret, client') := by
    rw [receiveResponse_eq, here]
    exact congrArg Exec.returns same.symm
  have stored : client' = r.elim client fun r => r.store client := by
    cases r <;> cases same <;> rfl
  have count : Counted others body r body' := counted apart shown (stored ▸ shown')
  unfold finishGet
  simp only [received]
  split
  · exact failOwned_behaves rfl rfl count held' shown'
  split
  · exact failOwned_behaves rfl rfl count held' shown'
  · refine Behaves.pure ⟨rfl, rfl, count, ?_, holding_withBody held', shown'⟩
    rintro b rfl
    exact held'.1

theorem httpClientGet_behaves (apart : ∀ b ∈ body, b ∉ others)
    (shown : body.isSome = client.responseBody.isSome) (held : Holding others body s) :
    Behaves (answered net client url) (httpClientGetOwned copies net client url body) s
      (GotOwned others body (httpClientGet net client url)) := by
  obtain ⟨run, call⟩ : ∃ run, run = httpClientGet net client url := ⟨_, rfl⟩
  rw [← call]
  unfold httpClientGet at call
  unfold answered httpClientGetOwned
  apply Behaves.lift
  intro u parsed
  simp only [parsed] at call
  cases u with
  | none => exact failOwned_behaves (by rw [call]) (by rw [call]) rfl held shown
  | some u =>
      simp only at call ⊢
      cases connected : clientTcpConnect client.fd net.resolved with
      | mk fd log =>
          simp only [connected] at call
          cases fd with
          | none => exact failOwned_behaves (by rw [call]) (by rw [call]) rfl held shown
          | some fd =>
              simp only [sendGet] at call
              simp only
              cases formatted : formatRequest u.hostname u.path with
              | none =>
                  simp only [formatted] at call
                  exact failOwned_behaves (by rw [call]; rfl) (by rw [call]; rfl) rfl held shown
              | some request =>
                  simp only [formatted] at call
                  apply Behaves.lift
                  intro ret sends
                  obtain ⟨sent, sending⟩ : ∃ sent,
                      clientTcpSend (some fd) net.sends request = (.returns ret, sent) :=
                    ⟨_, Prod.ext sends rfl⟩
                  simp only [sending] at call
                  split
                  · next refused =>
                      rw [if_pos refused] at call
                      exact failOwned_behaves (by rw [call]; rfl) (by rw [call]; rfl) rfl held shown
                  · next accepted =>
                      rw [if_neg accepted] at call
                      have finish := @finishGet_behaves others s { client with fd := some fd } body
                        net copies request sent log apart shown held
                      rw [call]
                      exact finish

/-! ## A whole life -/

/-- The bodies that come in during the calls, and the client after them. -/
def lifeBodies : HttpClient → List OwnedCall → Exec (Nat × HttpClient)
  | client, [] => .returns (0, client)
  | client, call :: calls =>
      (answered call.net client call.url).andThen fun r =>
        (lifeBodies (performGet client call.toGetCall) calls).andThen fun (n, client) =>
          .returns (bodies r + n, client)

/-- After the calls: what was there, what was lost, and the body of the client. -/
structure GetsOwned (others : Finset Nat) (body : Option Nat) (ended : Nat × HttpClient)
    (owned : HttpClient × Option Nat) (s : Blocks) : Prop where
  client : owned.1 = ended.2
  shown : owned.2.isSome = owned.1.responseBody.isSome
  rest : ∃ all, others ⊆ all ∧ Holding all owned.2 s ∧
    all.card + owned.2.isSome.toNat = others.card + body.isSome.toNat + ended.1

theorem subset_beside (others : Finset Nat) (body : Option Nat) (r : Option Reading) :
    others ⊆ r.elim others (beside others body) := by
  have more : others ⊆ withBody others body := by
    cases body with
    | none => exact Finset.Subset.refl others
    | some b => exact Finset.subset_insert b others
  match r with
  | none | some (.status code) => exact Finset.Subset.refl others
  | some (.refused code) | some (.whole code text) => exact more

theorem gets_behaves {calls : List OwnedCall} (apart : ∀ b ∈ body, b ∉ others)
    (shown : body.isSome = client.responseBody.isSome) (held : Holding others body s) :
    Behaves (lifeBodies client calls) (getsOwned calls client body) s (GetsOwned others body) := by
  induction calls generalizing client body others s with
  | nil => exact Behaves.pure ⟨rfl, shown, others, Finset.Subset.refl others, held, rfl⟩
  | cons call calls ih =>
      unfold lifeBodies getsOwned
      apply Behaves.bind (httpClientGet_behaves apart shown held)
      intro r got s' _ ended
      obtain ⟨s'', freed, none⟩ := ended.held.free
      apply Behaves.step freed
      have after : performGet client call.toGetCall = got.client := ended.client
      rw [after]
      apply Behaves.map (ih ended.apart ended.shown (holding_of_withBody ended.apart none))
      rintro ⟨n, client'⟩ owned s''' ⟨same, shown', all, more, held', total⟩
      have count := ended.count
      refine ⟨same, shown', all, (subset_beside others body r).trans more, held', ?_⟩
      unfold Counted at count
      simp only at total ⊢
      omega

/-- A client and its `tcp`, or nothing. -/
def CreatedOwned (others : Finset Nat) (made : Bool) (created : Option (Nat × Nat)) (s : Blocks) :
    Prop :=
  made = created.isSome ∧
    match created with
    | none => Holding others none s
    | some (client, tcp) => client ∉ others ∧ Holding (insert client others) (some tcp) s

theorem create_behaves {first second : Bool} (held : Holding others none s) :
    Behaves (.returns (first && second)) (httpClientCreateOwned first second) s
      (CreatedOwned others) := by
  unfold httpClientCreateOwned
  cases first with
  | false => exact Behaves.step rfl (Behaves.pure ⟨rfl, held⟩)
  | true =>
      obtain ⟨client, s', made, heldClient⟩ := held.malloc
      apply Behaves.step made
      cases second with
      | false =>
          obtain ⟨s'', freed, rest⟩ := heldClient.free
          exact Behaves.step rfl (Behaves.step freed (Behaves.pure ⟨rfl, rest⟩))
      | true =>
          obtain ⟨tcp, s'', made', heldTcp⟩ := heldClient.among.malloc
          exact Behaves.step made' (Behaves.pure ⟨rfl, heldClient.1, heldTcp⟩)

/-- The client and its `tcp` are freed behind the body. -/
theorem destroy_behaves {client tcp : Nat} {all : Finset Nat} {ended : Nat × HttpClient}
    (apart : client ≠ tcp) (hasClient : client ∈ all) (hasTcp : tcp ∈ all) (held : Holding all body s) :
    Behaves (.returns ended) (httpClientDestroyOwned client tcp body) s
      fun ended' _ s' => ended' = ended ∧ s'.live = (all.erase tcp).erase client := by
  obtain ⟨s₁, bodyFreed, rest₁⟩ := held.free
  obtain ⟨s₂, tcpFreed, rest₂⟩ := (rest₁.of_mem hasTcp).free
  have other : client ∈ all.erase tcp := Finset.mem_erase.mpr ⟨apart, hasClient⟩
  obtain ⟨s₃, clientFreed, rest₃⟩ := (rest₂.of_mem other).free
  unfold httpClientDestroyOwned
  apply Behaves.step bodyFreed
  apply Behaves.step tcpFreed
  exact ⟨(), s₃, clientFreed, rfl, rest₃⟩

/-- From its creation to its destruction a client frees nothing twice and touches nothing that is
freed. It leaves one block behind for every body that came in, but for the one it still has at the
end; if there is no memory for it, it leaves none. A life in which `decode_chunked` leaves its memory,
or never ends, has no end, and of that `Behaves` says only that the instrumented life has none either. -/
theorem client_loses_bodies (first second : Bool) (timeoutMs : Int) (calls : List OwnedCall)
    (s : Blocks) :
    Behaves (if first && second then lifeBodies (httpClientCreate timeoutMs) calls
        else .returns (0, httpClientCreate timeoutMs))
      (lifeOwned first second timeoutMs calls) s fun ended _ s' =>
        s.live ⊆ s'.live ∧
          s'.live.card + ended.2.responseBody.isSome.toNat = s.live.card + ended.1 := by
  obtain ⟨created, s₁, made, here, start⟩ :=
    @create_behaves s.live s first second rfl
  unfold lifeOwned
  apply Behaves.step made
  rw [here]
  match created with
  | none =>
      apply Behaves.pure
      rw [show s₁.live = s.live from start]
      exact ⟨Finset.Subset.refl _, rfl⟩
  | some (client, tcp) =>
      obtain ⟨newClient, newTcp, live⟩ := start
      have calls_behave : Behaves (lifeBodies (httpClientCreate timeoutMs) calls)
          (getsOwned calls (httpClientCreate timeoutMs) none) s₁
          (GetsOwned (insert tcp (insert client s.live)) none) := gets_behaves (by simp) rfl live
      apply Behaves.after calls_behave
      rintro ended ⟨client', body⟩ s₂ - ⟨rfl, shown, all, more, held, total⟩
      have both := Finset.insert_subset_iff.mp more
      have behind := Finset.insert_subset_iff.mp both.2
      have apart : client ≠ tcp := fun same => newTcp (same ▸ Finset.mem_insert_self client _)
      obtain ⟨⟨⟩, s₃, destroyed, -, left⟩ :=
        @destroy_behaves _ _ _ _ _ ended apart behind.1 both.1 held
      have clientLast : client ∈ all.erase tcp := Finset.mem_erase.mpr ⟨apart, behind.1⟩
      refine ⟨(), s₃, destroyed, ?_, ?_⟩
      · intro b mem
        rw [left, Finset.mem_erase, Finset.mem_erase]
        refine ⟨?_, ?_, behind.2 mem⟩
        · rintro rfl
          exact newClient mem
        · rintro rfl
          exact newTcp (Finset.mem_insert_of_mem mem)
      · have two : (insert tcp (insert client s.live)).card = s.live.card + 2 := by
          rw [Finset.card_insert_of_notMem newTcp, Finset.card_insert_of_notMem newClient]
        have one := Finset.card_erase_add_one both.1
        have none := Finset.card_erase_add_one clientLast
        rw [left]
        simp only [two, shown, Option.isSome_none, Bool.toNat_false] at total
        omega

end JustWeather.Http
