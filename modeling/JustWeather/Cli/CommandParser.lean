import JustWeather.CLib.Stod

/-! # `CommandParser`

A command line is a list of tokens, the first of which names the command. Parsing
looks at the tokens a command needs; what else there is it may not look at.
-/

namespace JustWeather.Cli

open CLib

/-- The commands, with the arguments they are made with. -/
inductive Command where
  | current (lat lon : Double)
  | weather (city : Bytes) (country region : Option Bytes)
  | cities (query : Bytes)
  | homepage
  | echo
  | clearCache
  deriving DecidableEq

def parse (erange : Numeral → Bool) : List Bytes → Except StdException Command
  | [] => .error (.invalidArgument (ascii "Empty command"))
  | cmd :: args =>
      if cmd = ascii "current" then
        match args with
        | [lat, lon] => do return .current (← stod erange lat) (← stod erange lon)
        | _ => .error (.invalidArgument (ascii "Usage: current <lat> <lon>"))
      else if cmd = ascii "weather" then
        match args with
        | [] => .error (.invalidArgument (ascii "Usage: weather <city> [country] [region]"))
        | city :: more => .ok (.weather city more[0]? more[1]?)
      else if cmd = ascii "cities" then
        match args with
        | [] => .error (.invalidArgument (ascii "Usage: cities <query>"))
        | first :: more => .ok (.cities (more.foldl (fun query word => query ++ (32 :: word)) first))
      else if cmd = ascii "homepage" then .ok .homepage
      else if cmd = ascii "echo" then .ok .echo
      else if cmd = ascii "clear-cache" then .ok .clearCache
      else .error (.invalidArgument (ascii "Unknown command: " ++ cmd))

/-- The printed usage, with all of a token read: the tokens a command is given, and the command they
make. A query may be of several words. -/
inductive Usage (erange : Numeral → Bool) : List Bytes → Command → Prop where
  | current {lat lon : Bytes} {x y : Double} : IsNumeral lat → IsNumeral lon →
      stod erange lat = .ok x → stod erange lon = .ok y →
      Usage erange [ascii "current", lat, lon] (.current x y)
  | city {city : Bytes} : Usage erange [ascii "weather", city] (.weather city none none)
  | country {city country : Bytes} :
      Usage erange [ascii "weather", city, country] (.weather city (some country) none)
  | region {city country region : Bytes} :
      Usage erange [ascii "weather", city, country, region] (.weather city (some country) (some region))
  | cities {words : List Bytes} : words ≠ [] →
      Usage erange (ascii "cities" :: words) (.cities (List.intercalate [32] words))
  | homepage : Usage erange [ascii "homepage"] .homepage
  | echo : Usage erange [ascii "echo"] .echo
  | clearCache : Usage erange [ascii "clear-cache"] .clearCache

/-- Tokens, or parts of a coordinate, that parsing does not look at. -/
inductive LeavesOut (erange : Numeral → Bool) : List Bytes → Prop where
  | coordinate {lat lon : Bytes} {x y : Double} : stod erange lat = .ok x → stod erange lon = .ok y →
      ¬ (IsNumeral lat ∧ IsNumeral lon) → LeavesOut erange [ascii "current", lat, lon]
  | weather {city country region token : Bytes} {more : List Bytes} :
      LeavesOut erange (ascii "weather" :: city :: country :: region :: token :: more)
  | plain {name token : Bytes} {more : List Bytes} :
      name ∈ [ascii "homepage", ascii "echo", ascii "clear-cache"] →
      LeavesOut erange (name :: token :: more)

variable {erange : Numeral → Bool} {tokens : List Bytes} {command : Command}

/-- Joining the words with a space between each two. -/
theorem foldl_words (first : Bytes) (more : List Bytes) :
    more.foldl (fun query word => query ++ (32 :: word)) first =
      List.intercalate [32] (first :: more) := by
  induction more generalizing first with
  | nil => simp [List.intercalate]
  | cons word more ih =>
      rw [List.foldl_cons, ih]
      cases more <;> simp [List.intercalate, List.intersperse]

/-- A command without arguments is made whatever follows its name. -/
theorem parse_plain {name : Bytes} {more : List Bytes}
    (plain : name ∈ [ascii "homepage", ascii "echo", ascii "clear-cache"]) :
    ∃ command, parse erange (name :: more) = .ok command ∧
      ∀ tokens, Usage erange tokens command ↔ tokens = [name] := by
  simp only [List.mem_cons, List.not_mem_nil, or_false] at plain
  rcases plain with rfl | rfl | rfl
  · refine ⟨.homepage, rfl, fun tokens => ⟨fun usage => by cases usage; rfl, ?_⟩⟩
    rintro rfl
    exact .homepage
  · refine ⟨.echo, rfl, fun tokens => ⟨fun usage => by cases usage; rfl, ?_⟩⟩
    rintro rfl
    exact .echo
  · refine ⟨.clearCache, rfl, fun tokens => ⟨fun usage => by cases usage; rfl, ?_⟩⟩
    rintro rfl
    exact .clearCache

/-- The text that the strings of a command stand for, if it has any. -/
def Command.text : Command → Option Bytes
  | weather city country region => some (List.intercalate [32] (city :: (country.toList ++ region.toList)))
  | cities query => some query
  | _ => none

/-- The strings of a command determine the text behind its name. -/
theorem Usage.text_eq {text : Bytes} (usage : Usage erange tokens command)
    (held : command.text = some text) : text = List.intercalate [32] (tokens.drop 1) := by
  cases usage with
  | current | homepage | echo | clearCache => cases held
  | city | country | region | cities =>
      cases held
      rfl

theorem usage_current {x y : Double} (usage : Usage erange tokens (.current x y)) :
    ∃ lat lon, tokens = [ascii "current", lat, lon] ∧ IsNumeral lat ∧ IsNumeral lon := by
  cases usage with
  | current lat lon => exact ⟨_, _, rfl, lat, lon⟩

theorem usage_weather {city : Bytes} {country region : Option Bytes}
    (usage : Usage erange tokens (.weather city country region)) : tokens.length ≤ 4 := by
  cases usage with
  | city | country | region => simp

/-- What the usage allows makes its command. -/
theorem parse_usage (usage : Usage erange tokens command) : parse erange tokens = .ok command := by
  cases usage with
  | current _ _ lat lon =>
      simp only [parse, if_true, lat, lon]
      rfl
  | city | country | region | homepage | echo | clearCache => rfl
  | @cities words some_ =>
      obtain ⟨first, more, rfl⟩ := List.exists_cons_of_ne_nil some_
      rw [← foldl_words]
      rfl

/-- Both coordinates are read, or the first thing that is wrong is thrown. -/
theorem parse_current (args : List Bytes) :
    (∃ lat lon x y, args = [lat, lon] ∧ stod erange lat = .ok x ∧ stod erange lon = .ok y ∧
      parse erange (ascii "current" :: args) = .ok (.current x y)) ∨
    ∃ e, parse erange (ascii "current" :: args) = .error e ∧ e.IsLogicError := by
  simp only [parse, if_true]
  split
  · next lat lon =>
      cases first : stod erange lat with
      | error e => exact .inr ⟨e, rfl, stod_error first⟩
      | ok x =>
          cases second : stod erange lon with
          | error e => exact .inr ⟨e, rfl, stod_error second⟩
          | ok y => exact .inl ⟨lat, lon, x, y, rfl, first, second, rfl⟩
  · exact .inr ⟨_, rfl, trivial⟩

theorem usage_of_current {args : List Bytes} (whole : ¬ LeavesOut erange (ascii "current" :: args))
    (made : parse erange (ascii "current" :: args) = .ok command) :
    Usage erange (ascii "current" :: args) command := by
  obtain ⟨lat, lon, x, y, rfl, first, second, made'⟩ | ⟨e, failed, -⟩ := @parse_current erange args
  · cases made.symm.trans made'
    have numerals : IsNumeral lat ∧ IsNumeral lon := by
      by_contra part
      exact whole (.coordinate first second part)
    exact .current numerals.1 numerals.2 first second
  · cases made.symm.trans failed

theorem usage_of_weather {args : List Bytes} (whole : ¬ LeavesOut erange (ascii "weather" :: args))
    (made : parse erange (ascii "weather" :: args) = .ok command) :
    Usage erange (ascii "weather" :: args) command := by
  match args with
  | [] => cases made
  | [city] =>
      cases made
      exact .city
  | [city, country] =>
      cases made
      exact .country
  | [city, country, region] =>
      cases made
      exact .region
  | city :: country :: region :: token :: more => exact absurd .weather whole

/-- Where nothing is left out, parsing follows the usage. -/
theorem usage_of_parse (whole : ¬ LeavesOut erange tokens) (made : parse erange tokens = .ok command) :
    Usage erange tokens command := by
  cases tokens with
  | nil => cases made
  | cons cmd args =>
      by_cases current : cmd = ascii "current"
      · subst current
        exact usage_of_current whole made
      by_cases weather : cmd = ascii "weather"
      · subst weather
        exact usage_of_weather whole made
      by_cases cities : cmd = ascii "cities"
      · subst cities
        cases args with
        | nil => cases made
        | cons first more =>
            cases made
            rw [foldl_words]
            exact .cities (List.cons_ne_nil _ _)
      by_cases plain : cmd ∈ [ascii "homepage", ascii "echo", ascii "clear-cache"]
      · cases args with
        | nil =>
            obtain ⟨made', parsed, only⟩ := @parse_plain erange cmd [] plain
            cases parsed.symm.trans made
            exact (only [cmd]).mpr rfl
        | cons token more => exact absurd (.plain plain) whole
      · simp only [List.mem_cons, List.not_mem_nil, or_false, not_or] at plain
        obtain ⟨homepage, echo, clearCache⟩ := plain
        simp only [parse, current, weather, cities, homepage, echo, clearCache, if_false] at made
        cases made

/-- The other commands are made, or their usage is shown. -/
theorem parse_other {cmd : Bytes} {args : List Bytes} (other : cmd ≠ ascii "current") :
    (∃ command, parse erange (cmd :: args) = .ok command) ∨
      ∃ what, parse erange (cmd :: args) = .error (.invalidArgument what) := by
  simp only [parse, if_neg other]
  cases args with
  | nil => split_ifs <;> simp
  | cons first more => split_ifs <;> simp

/-- Arguments are invalid, or a number is out of range. -/
theorem parse_error {e : StdException} (failed : parse erange tokens = .error e) : e.IsLogicError := by
  cases tokens with
  | nil =>
      cases failed
      trivial
  | cons cmd args =>
      by_cases current : cmd = ascii "current"
      · subst current
        obtain ⟨lat, lon, x, y, -, -, -, made⟩ | ⟨e', failed', logic⟩ := @parse_current erange args
        · cases failed.symm.trans made
        · cases failed.symm.trans failed'
          exact logic
      · obtain ⟨command, made⟩ | ⟨what, shown⟩ := @parse_other erange cmd args current
        · cases failed.symm.trans made
        · cases failed.symm.trans shown
          trivial

/-- Every token goes into the command, in full, exactly when none is left out. -/
theorem parse_uses_all_iff (erange : Numeral → Bool) (tokens : List Bytes) :
    (∀ command, parse erange tokens = .ok command → Usage erange tokens command) ↔
      ¬ LeavesOut erange tokens := by
  constructor
  · intro uses out
    cases out with
    | @coordinate lat lon x y first second part =>
        have made : parse erange [ascii "current", lat, lon] = .ok (.current x y) := by
          simp only [parse, if_true, first, second]
          rfl
        obtain ⟨lat', lon', same, numerals⟩ := usage_current (uses _ made)
        cases same
        exact part numerals
    | weather =>
        have short := usage_weather (uses _ rfl)
        simp only [List.length_cons] at short
        omega
    | plain plain =>
        obtain ⟨command, made, only⟩ := parse_plain plain
        have same := (only _).mp (uses command made)
        simp at same
  · exact fun whole command => usage_of_parse whole

/-- Coordinates with a hemisphere: the letters are left out. -/
theorem parse_leaves_letters :
    ¬ ∀ command, parse (fun _ => true) [ascii "current", ascii "59.33N", ascii "18.07E"] = .ok command →
      Usage (fun _ => true) [ascii "current", ascii "59.33N", ascii "18.07E"] command := by
  have made : parse (fun _ => true) [ascii "current", ascii "59.33N", ascii "18.07E"] =
      .ok (.current ⟨false, 1028, 3846355556751114⟩ ⟨false, 1027, 582653201791058⟩) := by decide +kernel
  have letter : ¬ IsNumeral (ascii "59.33N") := by decide +kernel
  intro uses
  obtain ⟨lat, lon, same, numeral, -⟩ := usage_current (uses _ made)
  rw [List.cons.injEq, List.cons.injEq] at same
  rw [← same.2.1] at numeral
  exact letter numeral

end JustWeather.Cli
