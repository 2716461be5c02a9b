import JustWeather.Api.Provenance
import JustWeather.Cli.Endings

/-! # Interactive mode

Every line that is a command is a call of one client, so what is typed is a session. What comes out
of it was sent by the server.
-/

namespace JustWeather.Cli

open CLib Http Api Cache Machine Text

variable {J : Jansson}

/-! ## Lines -/

/-- What a line is taken for. -/
inductive Turn where
  | silent
  | quit
  | help
  | refused (e : StdException)
  | command (command : Command)

def turn (erange : Numeral → Bool) (line : Bytes) : Turn :=
  if line = [] then .silent
  else if line = ascii "quit" ∨ line = ascii "q" ∨ line = ascii "exit" then .quit
  else if line = ascii "help" then .help
  else if split line = [] then .silent
  else
    match parse erange (split line) with
    | .error e => .refused e
    | .ok command => .command command

/-- What is written for a line. -/
inductive Reply (J : Jansson) where
  | goodbye
  | help
  | error (e : StdException)
  | printed (json : Printed J)

/-- What a session writes, how it ends, and what it leaves. -/
structure Interaction (J : Jansson) where
  replies : List (Reply J)
  ends : Exec Unit
  client : WeatherClient
  dir : CacheDir

/-- The JSON that a session prints. The object that `echo` makes of a body is not among it. -/
def Interaction.values (i : Interaction J) : List J.Value :=
  i.replies.filterMap fun
    | .printed (.value json) => some json
    | _ => none

/-- The replies of `runInteractive`. -/
def interact (J : Jansson) : List (Bytes × CommandEnv) → WeatherClient → CacheDir → Interaction J
  | [], w, dir => ⟨[], .returns (), w, dir⟩
  | (line, env) :: lines, w, dir =>
      match turn env.erange line with
      | .silent => interact J lines w dir
      | .quit => ⟨[.goodbye], .returns (), w, dir⟩
      | .help =>
          let rest := interact J lines w dir
          { rest with replies := .help :: rest.replies }
      | .refused e =>
          let rest := interact J lines w dir
          { rest with replies := .error e :: rest.replies }
      | .command command =>
          let run := command.execute J env w dir
          match run.result with
          | .returns (.ok printed) =>
              let rest := interact J lines run.client run.dir
              { rest with replies := .printed printed :: rest.replies }
          | .returns (.error e) =>
              let rest := interact J lines run.client run.dir
              { rest with replies := .error e :: rest.replies }
          | .undefined => ⟨[], .undefined, run.client, run.dir⟩
          | .diverges => ⟨[], .diverges, run.client, run.dir⟩

/-- Apart from what it writes, that is `runInteractive`. -/
theorem interact_runInteractive (lines : List (Bytes × CommandEnv)) (w : WeatherClient)
    (dir : CacheDir) : runInteractive J lines w dir =
      ((interact J lines w dir).ends, (interact J lines w dir).dir) := by
  induction lines generalizing w dir with
  | nil => rfl
  | cons head lines ih =>
      obtain ⟨line, env⟩ := head
      unfold runInteractive interact turn
      simp only [List.mem_cons, List.not_mem_nil, or_false]
      split
      · exact ih w dir
      split
      · rfl
      split
      · exact ih w dir
      split
      · exact ih w dir
      cases parse env.erange (split line) with
      | error e => exact ih w dir
      | ok command =>
          simp only
          cases (command.execute J env w dir).result with
          | undefined | diverges => rfl
          | returns result =>
              cases result with
              | error e | ok printed => exact ih _ _

/-! ## What is asked -/

/-- The call of the client that a command makes. -/
def Command.op (env : CommandEnv) (command : Command) : ClientOp :=
  match command with
  | .current lat lon => .request (.getCurrentWeather lat lon) env.request
  | .weather city country region => .request (.getWeatherByCity city country region) env.request
  | .cities query => .request (.searchCities query) env.request
  | .homepage => .request .getHomepage env.request
  | .echo => .echo env.request.net env.request.copiesError
  | .clearCache => .clearCache env.clear

/-- The calls that lines make. -/
def asked (lines : List (Bytes × CommandEnv)) : List (ClientCall Unit) :=
  lines.filterMap fun line =>
    match turn line.2.erange line.1 with
    | .command command => some ⟨(), command.op line.2⟩
    | _ => none

/-- The lines that are read. -/
def heard : List (Bytes × CommandEnv) → List (Bytes × CommandEnv)
  | [] => []
  | (line, env) :: lines =>
      match turn env.erange line with
      | .quit => []
      | _ => (line, env) :: heard lines

/-- A client alone with a directory. -/
def alone (w : WeatherClient) (dir : CacheDir) : Session Unit := ⟨fun _ => w, dir⟩

variable {env : CommandEnv} {w : WeatherClient} {dir : CacheDir} {command : Command}
  {line : Bytes} {lines : List (Bytes × CommandEnv)}

theorem execute_act : ((command.execute J env w dir).client, (command.execute J env w dir).dir) =
    (command.op env).act J w dir := by
  cases command <;> rfl

theorem act_alone : act J (alone w dir) ⟨(), command.op env⟩ =
    alone (command.execute J env w dir).client (command.execute J env w dir).dir := by
  have left := @execute_act J env w dir command
  unfold act
  simp only [alone] at left ⊢
  rw [← left]
  exact congrArg (Session.mk · _) (funext fun _ => Function.update_self ..)

theorem asked_command (is : turn env.erange line = .command command) :
    asked ((line, env) :: lines) = ⟨(), command.op env⟩ :: asked lines := by
  simp [asked, is]

theorem asked_nothing (is : ∀ command, turn env.erange line ≠ .command command) :
    asked ((line, env) :: lines) = asked lines := by
  unfold asked
  rw [List.filterMap_cons]
  cases here : turn env.erange line with
  | command command => exact absurd here (is command)
  | silent | quit | help | refused => simp only

/-- A session that comes to its end leaves what the calls in it leave. -/
theorem interact_session (ends : (interact J lines w dir).ends = .returns ()) :
    run (act J) (alone w dir) (asked (heard lines)) =
      alone (interact J lines w dir).client (interact J lines w dir).dir := by
  induction lines generalizing w dir with
  | nil => rfl
  | cons head lines ih =>
      obtain ⟨line, env⟩ := head
      unfold interact at ends ⊢
      unfold heard
      cases is : turn env.erange line with
      | quit => rfl
      | silent | help | refused =>
          simp only [is] at ends ⊢
          rw [asked_nothing (by simp [is])]
          exact ih ends
      | command command =>
          simp only [is] at ends ⊢
          rw [asked_command is, run_cons, act_alone]
          cases result : (command.execute J env w dir).result with
          | undefined | diverges =>
              rw [result] at ends
              cases ends
          | returns ended =>
              rw [result] at ends
              cases ended with
              | error e | ok printed =>
                  simp only at ends ⊢
                  exact ih ends

/-- Memory for everything, and a server that sends this. -/
def typed (full : Bytes) : CommandEnv := ⟨fun _ => false, answering full, fun _ => true, true, .calm 0⟩

/-- Interactive mode leaves the directory that the calls of its lines leave, up to the line that
quits. -/
theorem runInteractive_session (ends : (runInteractive J lines w dir).1 = .returns ()) :
    (runInteractive J lines w dir).2 = (run (act J) (alone w dir) (asked (heard lines))).dir := by
  rw [interact_runInteractive] at ends ⊢
  rw [interact_session ends]
  rfl

/-- A line that stores an answer, one with a number too many, and one behind the end. -/
theorem runInteractive_session_quit :
    let lines := [(ascii "homepage", typed (ascii "HTTP/1.1 200 OK\r\n\r\n\x7b\x7d")),
      (ascii "current 1 2 3", typed []), (ascii "quit", typed []), (ascii "clear-cache", typed [])]
    (runInteractive .emptyTexts lines (.create .default) noFiles).2 =
      (run (act .emptyTexts) (alone (.create .default) noFiles) (asked (heard lines))).dir :=
  runInteractive_session (by decide +kernel)

/-! ## What is written -/

/-- One of the lines is a command that prints this, in the session that the lines before it make. -/
def PrintedBy (J : Jansson) (lines : List (Bytes × CommandEnv)) (w : WeatherClient) (dir : CacheDir)
    (json : Printed J) : Prop :=
  ∃ before line env after command, lines = before ++ (line, env) :: after ∧
    turn env.erange line = .command command ∧
    let s := run (act J) (alone w dir) (asked before)
    (command.execute J env (s.clients ()) s.dir).result = .returns (.ok json)

variable {json : Printed J}

theorem PrintedBy.skip (is : ∀ command, turn env.erange line ≠ .command command)
    (h : PrintedBy J lines w dir json) : PrintedBy J ((line, env) :: lines) w dir json := by
  obtain ⟨before, line', env', after, command, rfl, is', result⟩ := h
  refine ⟨(line, env) :: before, line', env', after, command, rfl, is', ?_⟩
  rwa [asked_nothing is]

theorem PrintedBy.later (is : turn env.erange line = .command command)
    (h : PrintedBy J lines (command.execute J env w dir).client (command.execute J env w dir).dir json) :
    PrintedBy J ((line, env) :: lines) w dir json := by
  obtain ⟨before, line', env', after, command', rfl, is', result⟩ := h
  refine ⟨(line, env) :: before, line', env', after, command', rfl, is', ?_⟩
  rwa [asked_command is, run_cons, act_alone]

end JustWeather.Cli
