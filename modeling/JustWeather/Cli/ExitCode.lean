import JustWeather.Cli.Endings
import JustWeather.Http.Memory

/-! # Exit codes

What the exit code ought to say depends on the arguments, the network and the
answer. `runCommandLine` knows `invalid_argument` and everything else.
-/

namespace JustWeather.Cli

open CLib Http Api Cache

section Codes

variable (J : Jansson) (env : CommandEnv) (w : WeatherClient) (dir : CacheDir)

/-- The command can do something with this text. -/
def Usable (text : Bytes) : Command → Prop
  | .echo => env.puts text = true
  | _ => Succeeds J text

/-- The answer is no error and has a usable body, however much memory there is. The body is the one
that the client reads, so a good body sent under `Transfer-Encoding: Chunked`, which the client takes
for unchunked, makes a bad answer. -/
def IsGood (command : Command) (full : Bytes) : Prop :=
  ∃ code body, reading plenty full = .returns (.whole code body) ∧ 200 ≤ code ∧ code < 400 ∧
    Usable J env (cStr body) command

/-- What the exit code ought to say of a command. -/
inductive Deserves (command : Command) : ExitCode → Prop where
  | completed {printed : Printed J} : (command.execute J env w dir).result = .returns (.ok printed) →
      printed.Whole → Deserves command .ok
  /-- The arguments fail the checks of the method. -/
  | rejected {call : Call} : command.call = some call → ¬ Accepted (fun _ => true) call →
      Deserves command .invalidArgs
  | unreachable {url : Bytes} : Asks J env w dir command url → IsLost env url →
      Deserves command .networkError
  | answered {url full : Bytes} : Asks J env w dir command url →
      Arrives env.request.net w.http url full → ¬ IsGood J env command full →
      Deserves command .serverError

/-- The commands whose exit code says something else, or nothing. -/
inductive Misleads (command : Command) : Prop where
  | rejected {call : Call} : command.call = some call → ¬ Accepted (fun _ => true) call →
      Misleads command
  /-- There is no memory for encoding an argument. -/
  | unencoded {call : Call} : command.call = some call → Accepted (fun _ => true) call →
      ¬ Accepted env.request.encode call → Misleads command
  | unreachable {url : Bytes} : Asks J env w dir command url → IsLost env url → Misleads command
  /-- An error that is not marked in the body, or an echo that is no string. -/
  | lenient {url full : Bytes} : Asks J env w dir command url →
      Arrives env.request.net w.http url full → Takes J env command full → ¬ IsGood J env command full →
      Misleads command
  /-- There is no memory for an answer. -/
  | starved {url full : Bytes} {r : Reading} : Asks J env w dir command url →
      Arrives env.request.net w.http url full → reading env.request.net.granted full = .returns r →
      ¬ Takes J env command full → IsGood J env command full → Misleads command
  /-- Chunks at which the decoder leaves its memory, or never ends. -/
  | wild {url full : Bytes} : Asks J env w dir command url → Arrives env.request.net w.http url full →
      (∀ r, reading env.request.net.granted full ≠ .returns r) → ¬ IsGood J env command full →
      Misleads command
  /-- There is no memory for printing what the cache had. -/
  | unprinted {call : Call} {request : Prepared} {json : J.Value} : command.call = some call →
      call.prepare w.config env.request.encode = .ok request →
      cachedFor J env w dir request = some json → env.dumps = false → Misleads command
  /-- There is no memory for printing the answer. -/
  | unprintedAnswer {url full : Bytes} : Asks J env w dir command url →
      Arrives env.request.net w.http url full → Takes J env command full → env.dumps = false →
      Misleads command

end Codes

variable {J : Jansson} {env : CommandEnv} {w : WeatherClient} {dir : CacheDir} {command : Command}
  {call : Call} {url : Bytes}

/-! ## Exit codes of commands -/

theorem code_injective {c c' : ExitCode} (same : c.code = c'.code) : c = c' := by
  cases c <;> cases c' <;> first | rfl | cases same

theorem returned_code {exit : Exec Int} {c c' : ExitCode} (first : exit = .returns c.code)
    (second : exit = .returns c'.code) : c = c' := by
  rw [first, Exec.returns.injEq] at second
  exact code_injective second

variable {result : Exec (Except StdException (Printed J))}

/-- A command that returns has printed something, a method that throws ends in the second handler. -/
theorem returned_eq_returns {n : Int} (returns : returned J result = .returns n) :
    (∃ printed, result = .returns (.ok printed) ∧ n = 0) ∨
      ∃ e, result = .returns (.error e) ∧ n = caught e := by
  unfold returned at returns
  obtain ⟨r, ends, value⟩ := Exec.andThen_eq_returns.mp returns
  cases r with
  | ok printed =>
      cases value
      exact .inl ⟨printed, ends, rfl⟩
  | error e =>
      cases value
      exact .inr ⟨e, ends, rfl⟩

theorem Misleads.not_tells (start : w.http.fd = none)
    (misleads : Misleads J env w dir command) :
    ¬ ∀ code : ExitCode, returned J (command.execute J env w dir).result = .returns code.code ↔
      Deserves J env w dir command code := by
  intro tells
  have server : ∀ {what}, (command.execute J env w dir).result = .returns (.error (.runtimeError what)) →
      returned J (command.execute J env w dir).result = .returns ExitCode.serverError.code := by
    intro what throws
    rw [throws]
    rfl
  have ok : ∀ {printed}, (command.execute J env w dir).result = .returns (.ok printed) →
      returned J (command.execute J env w dir).result = .returns ExitCode.ok.code := by
    intro printed prints
    rw [prints]
    rfl
  cases misleads with
  | rejected is refused =>
      obtain ⟨what, throws⟩ := @execute_refused J env w dir command _ is fun accepted =>
        refused (accepted_unrefused accepted)
      cases returned_code (server throws) ((tells .invalidArgs).mpr (.rejected is refused))
  | unencoded is fine refused =>
      obtain ⟨what, throws⟩ := @execute_refused J env w dir command _ is refused
      cases (tells .serverError).mp (server throws) with
      | answered asks arrives bad => exact refused (asks.accepted is)
  | unreachable asks lost =>
      obtain ⟨what, throws⟩ := asks.unreached start lost
      cases returned_code (server throws) ((tells .networkError).mpr (.unreachable asks lost))
  | lenient asks arrives takes bad =>
      obtain ⟨code, body, printed, read, prints, whole⟩ := asks.takes arrives takes
      cases returned_code (ok prints) ((tells .serverError).mpr (.answered asks arrives bad))
  | starved asks arrives read refuses good =>
      obtain ⟨what, throws⟩ := asks.objects arrives read refuses
      cases (tells .serverError).mp (server throws) with
      | answered asks' arrives' bad =>
          cases asks.unique asks'
          cases arrives.unique arrives'
          exact bad good
  | wild asks arrives wild bad =>
      obtain ⟨printed, prints, -⟩ | ⟨e, throws, -⟩ :=
        returned_eq_returns ((tells .serverError).mpr (.answered asks arrives bad))
      · exact asks.lost arrives wild _ prints
      · exact asks.lost arrives wild _ throws
  | unprinted is prepared cached silent =>
      have prints := execute_cached is prepared cached
      cases (tells .ok).mp (ok prints) with
      | completed prints' whole =>
          cases prints.symm.trans prints'
          rw [printJson_whole, silent] at whole
          cases whole.1
  | unprintedAnswer asks arrives takes silent =>
      obtain ⟨code, body, printed, read, prints, whole⟩ := asks.takes arrives takes
      cases (tells .ok).mp (ok prints) with
      | completed prints' whole' =>
          cases prints.symm.trans prints'
          rw [whole, silent] at whole'
          cases whole'.1

/-- What a command prints is whole, unless there is no memory or the answer was no good. -/
theorem execute_prints {printed : Printed J} (config : w.config = .default) (start : w.http.fd = none)
    (prints : (command.execute J env w dir).result = .returns (.ok printed))
    (sure : ¬ Misleads J env w dir command) : printed.Whole := by
  rcases @execute_course J env w dir command with
    rfl | ⟨call, is, refused⟩ | ⟨call, request, json, is, prepared, cached⟩ | ⟨url, asks⟩
  · cases prints
    trivial
  · obtain ⟨what, throws⟩ := @execute_refused J env w dir command _ is refused
    cases prints.symm.trans throws
  · cases prints.symm.trans (execute_cached is prepared cached)
    rw [printJson_whole]
    refine ⟨?_, trivial⟩
    by_contra silent
    exact sure (.unprinted is prepared cached (by simpa using silent))
  · cases asks.ends config start with
    | lost _ throws | objects _ _ _ throws => cases prints.symm.trans throws
    | hangs hangs => cases prints.symm.trans hangs
    | wild _ _ lost => exact absurd prints (lost _)
    | prints arrives takes read prints' whole =>
        cases prints.symm.trans prints'
        refine whole.mpr ⟨?_, ?_⟩
        · by_contra silent
          exact sure (.unprintedAnswer asks arrives takes (by simpa using silent))
        · rintro rfl
          by_contra useless
          refine sure (.lenient asks arrives takes ?_)
          rintro ⟨code', body', read', -, -, usable⟩
          cases (reading_plenty read).symm.trans read'
          exact useless usable

/-- A method that throws has been given an error for an answer, or no usable one. -/
theorem execute_throws {e : StdException} (config : w.config = .default) (start : w.http.fd = none)
    (throws : (command.execute J env w dir).result = .returns (.error e))
    (sure : ¬ Misleads J env w dir command) :
    caught e = ExitCode.serverError.code ∧ Deserves J env w dir command .serverError := by
  rcases @execute_course J env w dir command with
    rfl | ⟨call, is, refused⟩ | ⟨call, request, json, is, prepared, cached⟩ | ⟨url, asks⟩
  · cases throws
  · by_cases fine : Accepted (fun _ => true) call
    · exact absurd (.unencoded is fine refused) sure
    · exact absurd (.rejected is fine) sure
  · cases throws.symm.trans (execute_cached is prepared cached)
  · cases asks.ends config start with
    | lost lost _ => exact absurd (.unreachable asks lost) sure
    | hangs hangs => cases throws.symm.trans hangs
    | prints _ _ _ prints _ => cases throws.symm.trans prints
    | wild _ _ lost => exact absurd throws (lost _)
    | objects arrives read refuses throws' =>
        cases throws.symm.trans throws'
        refine ⟨rfl, .answered asks arrives fun good => ?_⟩
        exact sure (.starved asks arrives read refuses good)

/-- What is deserved is returned. -/
theorem Deserves.returned {code : ExitCode}
    (sure : ¬ Misleads J env w dir command) (deserves : Deserves J env w dir command code) :
    returned J (command.execute J env w dir).result = .returns code.code := by
  cases deserves with
  | completed prints whole =>
      rw [prints]
      rfl
  | rejected is refused => exact absurd (.rejected is refused) sure
  | unreachable asks lost => exact absurd (.unreachable asks lost) sure
  | @answered url full asks arrives bad =>
      by_cases takes : Takes J env command full
      · exact absurd (.lenient asks arrives takes bad) sure
      by_cases ends : ∃ r, reading env.request.net.granted full = .returns r
      · obtain ⟨r, read⟩ := ends
        obtain ⟨what, throws⟩ := asks.objects arrives read takes
        rw [throws]
        rfl
      · exact absurd (.wild asks arrives (fun r read => ends ⟨r, read⟩) bad) sure

/-- A command's exit code is what it ought to be exactly when the command does not mislead. -/
theorem tells_iff (config : w.config = .default) (start : w.http.fd = none) :
    (∀ code : ExitCode, returned J (command.execute J env w dir).result = .returns code.code ↔
      Deserves J env w dir command code) ↔ ¬ Misleads J env w dir command := by
  constructor
  · exact fun tells misleads => misleads.not_tells start tells
  · intro sure code
    constructor
    · intro returns
      obtain ⟨printed, prints, value⟩ | ⟨e, throws, value⟩ := returned_eq_returns returns
      · have ok : code = .ok := code_injective value
        rw [ok]
        exact .completed prints (execute_prints config start prints sure)
      · obtain ⟨server, deserves⟩ := execute_throws config start throws sure
        have same : code = .serverError := code_injective (value.trans server)
        rw [same]
        exact deserves
    · exact Deserves.returned sure

/-! ## Exit codes of the program -/

section Program

variable (J : Jansson) (env : ProgramEnv) (dir : CacheDir) (args : List Bytes)

/-- What the exit code of the program ought to be. -/
inductive Deserved : ExitCode → Prop where
  | usage : args = [] → Deserved .invalidArgs
  | refused {e : StdException} : env.constructs = true → parse env.command.erange args = .error e →
      Deserved .invalidArgs
  | command {command : Command} {code : ExitCode} : env.constructs = true →
      parse env.command.erange args = .ok command →
      Deserves J env.command (.create .default) dir command code → Deserved code

/-- The exit code says something else, or nothing. -/
inductive Misled : Prop where
  /-- There is no memory for the client. -/
  | unconstructed : args ≠ [] → env.constructs = false → Misled
  | outOfRange {what : Bytes} : env.constructs = true →
      parse env.command.erange args = .error (.outOfRange what) → Misled
  | command {command : Command} : env.constructs = true → parse env.command.erange args = .ok command →
      Misleads J env.command (.create .default) dir command → Misled

end Program

variable {env : ProgramEnv} {args : List Bytes}

theorem main_command (constructs : env.constructs = true) (some_ : args ≠ [])
    (plain : ∀ cmd ∈ args.head?, cmd ∉ INTERACTIVE) :
    main J env dir args = runCommandLine J env.command (.create .default) dir args := by
  obtain ⟨cmd, rest, rfl⟩ := List.exists_cons_of_ne_nil some_
  simp only [main, if_pos constructs, if_neg (plain cmd rfl)]

theorem main_unconstructed (constructs : env.constructs = false) (some_ : args ≠ []) :
    (main J env dir args).1 = .returns ExitCode.networkError.code := by
  obtain ⟨cmd, rest, rfl⟩ := List.exists_cons_of_ne_nil some_
  simp [main, constructs]

theorem deserved_parsed {code : ExitCode} (constructs : env.constructs = true)
    (parsed : parse env.command.erange args = .ok command) :
    Deserved J env dir args code ↔ Deserves J env.command (.create .default) dir command code := by
  constructor
  · intro deserved
    cases deserved with
    | usage none =>
        rw [none] at parsed
        cases parsed
    | refused _ failed => cases parsed.symm.trans failed
    | command _ parsed' deserves =>
        cases parsed.symm.trans parsed'
        exact deserves
  · exact .command constructs parsed

theorem misled_parsed (constructs : env.constructs = true)
    (parsed : parse env.command.erange args = .ok command) :
    Misled J env dir args ↔ Misleads J env.command (.create .default) dir command := by
  constructor
  · intro misled
    cases misled with
    | unconstructed _ failed => cases constructs.symm.trans failed
    | outOfRange _ failed => cases parsed.symm.trans failed
    | command _ parsed' misleads =>
        cases parsed.symm.trans parsed'
        exact misleads
  · exact .command constructs parsed

/-- Arguments that are refused deserve one exit code. -/
theorem deserved_refused {e : StdException} {code : ExitCode} (constructs : env.constructs = true)
    (failed : parse env.command.erange args = .error e) :
    Deserved J env dir args code ↔ code = .invalidArgs := by
  constructor
  · intro deserved
    cases deserved with
    | usage none => rfl
    | refused _ _ => rfl
    | command _ parsed _ => cases failed.symm.trans parsed
  · rintro rfl
    exact .refused constructs failed

theorem deserved_usage {code : ExitCode} : Deserved J env dir [] code ↔ code = .invalidArgs := by
  constructor
  · intro deserved
    cases deserved with
    | usage none => rfl
    | refused _ _ => rfl
    | command _ parsed _ => cases parsed
  · rintro rfl
    exact .usage rfl

theorem returns_code_iff {exit : Exec Int} {c code : ExitCode} (returns : exit = .returns c.code) :
    exit = .returns code.code ↔ code = c := by
  constructor
  · exact fun other => returned_code other returns
  · rintro rfl
    exact returns

/-- The exit code tells the kind of failure, except where the program misleads. -/
theorem main_exit_code_iff (J : Jansson) (env : ProgramEnv) (dir : CacheDir) (args : List Bytes)
    (plain : ∀ cmd ∈ args.head?, cmd ∉ INTERACTIVE) :
    (∀ code : ExitCode, (main J env dir args).1 = .returns code.code ↔ Deserved J env dir args code) ↔
      ¬ Misled J env dir args := by
  by_cases none : args = []
  · subst none
    have silent : ¬ Misled J env dir [] := by
      intro misled
      cases misled with
      | unconstructed some_ _ => exact some_ rfl
      | outOfRange _ failed => cases failed
      | command _ parsed _ => cases parsed
    have usage : (main J env dir []).1 = .returns ExitCode.invalidArgs.code := rfl
    simp [silent, deserved_usage, returns_code_iff usage]
  cases constructs : env.constructs with
  | false =>
      have exits := @main_unconstructed J dir env args constructs none
      have misled : Misled J env dir args := .unconstructed none constructs
      refine iff_of_false (fun tells => ?_) (not_not_intro misled)
      cases (tells .networkError).mp exits with
      | command constructs' _ _ => cases constructs.symm.trans constructs'
  | true =>
      rw [main_command constructs none plain, runCommandLine]
      cases parsed : parse env.command.erange args with
      | ok command =>
          simp only [deserved_parsed constructs parsed, misled_parsed constructs parsed]
          exact tells_iff rfl rfl
      | error e =>
          simp only [deserved_refused constructs parsed]
          cases e with
          | invalidArgument what =>
              have silent : ¬ Misled J env dir args := by
                intro misled
                cases misled with
                | unconstructed _ failed => cases constructs.symm.trans failed
                | outOfRange _ failed => cases parsed.symm.trans failed
                | command _ parsed' _ => cases parsed.symm.trans parsed'
              have exits : (Exec.returns (caught (.invalidArgument what)) : Exec Int) =
                  .returns ExitCode.invalidArgs.code := rfl
              exact iff_of_true (fun code => returns_code_iff exits) silent
          | outOfRange what =>
              refine iff_of_false (fun tells => ?_) (not_not_intro (.outOfRange constructs parsed))
              cases (tells .invalidArgs).mpr rfl
          | runtimeError what => exact (parse_error parsed).elim

/-- A machine with memory, on this network. -/
def machine (net : Network) : ProgramEnv where
  constructs := true
  command :=
    { erange := fun _ => true
      request := { reaching fun _ => true with net }
      puts := fun _ => true
      dumps := true
      clear := .calm 0 }
  input := []

/-- A command that is not known. -/
theorem main_exit_code_unknown :
    (main .emptyTexts (machine (delivering [])) noFiles [ascii "forecast"]).1 = .returns 1 ∧
      ∀ code : ExitCode,
        (main .emptyTexts (machine (delivering [])) noFiles [ascii "forecast"]).1 = .returns code.code ↔
          Deserved .emptyTexts (machine (delivering [])) noFiles [ascii "forecast"] code := by
  refine ⟨rfl, (main_exit_code_iff _ _ _ _ (by decide)).mpr ?_⟩
  intro misled
  cases misled with
  | unconstructed _ failed => cases failed
  | outOfRange _ failed => cases failed
  | command _ parsed _ => cases parsed

/-- The name of the server is not resolved, and the exit code is that of a bad answer. -/
theorem main_exit_code_unresolved :
    let env := machine ⟨none, [], [], plenty⟩
    (∀ cmd ∈ [ascii "homepage"].head?, cmd ∉ INTERACTIVE) ∧
      ¬ ∀ code : ExitCode, (main .emptyTexts env noFiles [ascii "homepage"]).1 = .returns code.code ↔
        Deserved .emptyTexts env noFiles [ascii "homepage"] code := by
  intro env
  refine ⟨by decide, fun tells => ?_⟩
  have absent : cachedFor .emptyTexts env.command (.create .default) noFiles (homepageRequest .default) =
      none := by
    have missing := missing_noFiles .emptyTexts env.command.request .default .getHomepage
    rw [cachedFor, missing (homepageRequest .default) rfl]
    rfl
  have asks : Asks .emptyTexts env.command (.create .default) noFiles .homepage
      (cStr (homepageRequest .default).url) := .call rfl rfl absent
  obtain ⟨u, parsed⟩ := asks.parses rfl
  have lost : IsLost env.command (cStr (homepageRequest .default).url) := ⟨u, parsed, .resolving rfl⟩
  have deserved : Deserved .emptyTexts env noFiles [ascii "homepage"] .networkError :=
    .command rfl rfl (.unreachable asks lost)
  have exits : (main .emptyTexts env noFiles [ascii "homepage"]).1 = .returns 3 := by decide +kernel
  cases exits.symm.trans ((tells .networkError).mpr deserved)

end JustWeather.Cli
