import JustWeather.Api.WeatherClient
import JustWeather.Cli.CommandParser
import JustWeather.Text.Words

/-! # The program

A command calls one method of the client and prints what it returns. What is thrown is caught in
`runCommandLine`, and what is thrown before that, in `main`.
-/

namespace JustWeather.Cli

open CLib Http Api Cache Text

/-- What a command meets. -/
structure CommandEnv where
  /-- The tiny numerals for which `strtod` sets `ERANGE`. -/
  erange : Numeral → Bool
  request : RequestEnv
  /-- `json_string` makes a value of the text, and `json_object_set_new` stores it. -/
  puts : Bytes → Bool
  /-- `json_dumps` gets memory. -/
  dumps : Bool
  /-- During `client_cache_clear`. -/
  clear : Surroundings

/-! ## Commands -/

/-- What a command prints. -/
inductive Printed (J : Jansson) where
  | value (json : J.Value)
  /-- An object with a text under `echo`, or without one. -/
  | echo (text : Option Bytes)
  /-- That the cache is cleared. -/
  | cleared
  /-- That the JSON could not be serialized, on standard error. -/
  | failure

/-- How `execute` ends, and the client and the directory after it. -/
structure CommandRun (J : Jansson) where
  result : Exec (Except StdException (Printed J))
  client : WeatherClient
  dir : CacheDir

variable (J : Jansson)

/-- The JSON is printed, if it gets serialized. -/
def printJson (env : CommandEnv) (json : Printed J) : Printed J := if env.dumps then json else .failure

/-- What is thrown by a method is a `WeatherClientException`, which is a `runtime_error`. -/
def execution {α : Type} (print : α → Printed J) (result : Exec (Except Bytes α)) :
    Exec (Except StdException (Printed J)) :=
  result.andThen fun r => .returns ((r.map print).mapError .runtimeError)

def executeCall (env : CommandEnv) (w : WeatherClient) (dir : CacheDir) (call : Call) : CommandRun J :=
  let run := call.perform J env.request w dir
  ⟨execution J (fun json => printJson J env (.value json)) run.result, run.client, run.dir⟩

def executeEcho (env : CommandEnv) (w : WeatherClient) (dir : CacheDir) : CommandRun J :=
  let (result, client) := echo env.request.net env.request.copiesError w
  let print text := printJson J env (.echo (if env.puts text then some text else none))
  ⟨execution J print result, client, dir⟩

def executeClearCache (env : CommandEnv) (w : WeatherClient) (dir : CacheDir) : CommandRun J :=
  let (client, dir) := clearCache env.clear w dir
  ⟨.returns (.ok .cleared), client, dir⟩

def Command.execute (env : CommandEnv) (w : WeatherClient) (dir : CacheDir) : Command → CommandRun J
  | current lat lon => executeCall J env w dir (.getCurrentWeather lat lon)
  | weather city country region => executeCall J env w dir (.getWeatherByCity city country region)
  | cities query => executeCall J env w dir (.searchCities query)
  | homepage => executeCall J env w dir .getHomepage
  | echo => executeEcho J env w dir
  | clearCache => executeClearCache J env w dir

/-! ## `CLI` and `main` -/

inductive ExitCode where
  | ok
  | invalidArgs
  | networkError
  | serverError
  deriving DecidableEq

def ExitCode.code : ExitCode → Int
  | ok => 0
  | invalidArgs => 1
  | networkError => 2
  | serverError => 3

/-- The two handlers of `runCommandLine`. -/
def caught : StdException → Int
  | .invalidArgument _ => 1
  | _ => 3

/-- What `runCommandLine` returns for the end of a command. -/
def returned (result : Exec (Except StdException (Printed J))) : Exec Int :=
  result.andThen fun
    | .ok _ => .returns 0
    | .error e => .returns (caught e)

def runCommandLine (env : CommandEnv) (w : WeatherClient) (dir : CacheDir) (tokens : List Bytes) :
    Exec Int × CacheDir :=
  match parse env.erange tokens with
  | .error e => (.returns (caught e), dir)
  | .ok command =>
      let run := command.execute J env w dir
      (returned J run.result, run.dir)

/-- The words of a line. -/
def split (line : Bytes) : List Bytes := words isSpace line

/-- `runInteractive` over the lines of its input, each with what a command on it meets. What a command
throws is printed, and the next line is read. -/
def runInteractive : List (Bytes × CommandEnv) → WeatherClient → CacheDir → Exec Unit × CacheDir
  | [], _, dir => (.returns (), dir)
  | (line, env) :: lines, w, dir =>
      if line = [] then runInteractive lines w dir
      else if line ∈ [ascii "quit", ascii "q", ascii "exit"] then (.returns (), dir)
      else if line = ascii "help" then runInteractive lines w dir
      else if split line = [] then runInteractive lines w dir
      else
        match parse env.erange (split line) with
        | .error _ => runInteractive lines w dir
        | .ok command =>
            let run := command.execute J env w dir
            match run.result with
            | .returns _ => runInteractive lines run.client run.dir
            | .undefined => (.undefined, run.dir)
            | .diverges => (.diverges, run.dir)

/-- What the program meets. -/
structure ProgramEnv where
  /-- The constructor of the client gets memory. -/
  constructs : Bool
  command : CommandEnv
  input : List (Bytes × CommandEnv)

/-- The arguments that start interactive mode. -/
def INTERACTIVE : List Bytes := [ascii "interactive", ascii "-i"]

/-- `main`, with the arguments behind the name of the program. -/
def main (env : ProgramEnv) (dir : CacheDir) : List Bytes → Exec Int × CacheDir
  | [] => (.returns ExitCode.invalidArgs.code, dir)
  | cmd :: args =>
      if env.constructs then
        let client := WeatherClient.create .default
        if cmd ∈ INTERACTIVE then
          let (ends, dir) := runInteractive J env.input client dir
          (ends.andThen fun _ => .returns ExitCode.ok.code, dir)
        else runCommandLine J env.command client dir (cmd :: args)
      else (.returns ExitCode.networkError.code, dir)

end JustWeather.Cli
