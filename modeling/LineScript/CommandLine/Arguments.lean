import LineScript.Text.Basic
import LineScript.Word

/-!
# Command-line arguments

The program is called with the name of an action, a program file and options. Options may stand before or after the file;
an option with a value takes it from the next argument or from after an equals sign; two dashes alone end the options.
Arguments are read from left to right, so a call for help counts unless something before it is wrong.
-/

namespace LineScript

/-- What `run` is told. -/
structure RunOptions where
  /-- The program file. -/
  program : String
  /-- The file with the settings. -/
  config : Option String := none
  /-- The labels to fire. -/
  labels : List String := []
  /-- How long timers are served, in milliseconds. -/
  timeout : Nat := 10000
  /-- Whether a report is printed. -/
  json : Bool := false
  deriving DecidableEq

/-- What `check` is told. -/
structure CheckOptions where
  /-- The program file. -/
  program : String
  /-- Whether the lines are listed. -/
  list : Bool := false
  /-- Whether the lines are printed as JSON. -/
  json : Bool := false
  deriving DecidableEq

/-- The things help can be asked about. -/
inductive HelpTopic where
  | program
  | run
  | check
  | help
  deriving DecidableEq

/-- What the arguments ask for. -/
inductive Invocation where
  | run (options : RunOptions)
  | check (options : CheckOptions)
  | help (topic : HelpTopic)
  | version
  /-- The arguments make no sense. -/
  | misuse
  deriving DecidableEq

namespace Arguments

/-- An option of an action. -/
inductive Flag where
  /-- An option without a value. -/
  | plain (name : String)
  /-- An option with a value that may be given once. -/
  | valued (name : String)
  /-- An option with a value that may be given again. -/
  | repeated (name : String)
  deriving DecidableEq

/-- The name of an option, without dashes. -/
def Flag.name : Flag → String
  | plain name | valued name | repeated name => name

/-- What was read so far: the options given, each with its value, last first, and the file. -/
structure Given where
  /-- The options, last first. -/
  options : List (String × String) := []
  /-- The file. -/
  file : Option String := none

/-- Whether an option was given. -/
def Given.has (given : Given) (name : String) : Bool :=
  given.options.any (·.1 == name)

/-- The values of an option, in order. -/
def Given.values (given : Given) (name : String) : List String :=
  ((given.options.filter (·.1 == name)).map (·.2)).reverse

/-- Splits an argument at its first equals sign. -/
def splitValue (arg : List Char) : String × Option String :=
  match arg.span (· != '=') with
  | (name, _ :: value) => (.ofList name, some (.ofList value))
  | (name, []) => (.ofList name, none)

/-- How reading the arguments of an action ended. -/
inductive Outcome where
  | given (g : Given)
  | help
  | misuse

/-- Whether the value of an option can be used: a file must have a name and a time must be a number. -/
def isUsable (name value : String) : Bool :=
  if name == "config" then !value.isEmpty
  else if name == "timeout-ms" then value.toList.head? != some '-' && (Text.intBetween? 0 (values64 - 1) value).isSome
  else true

/-- Adds an option. One that may be given once must not be there already. -/
def addOption (given : Given) (flag : Flag) (value : String) : Option Given :=
  let again := match flag with
    | .repeated _ => true
    | _ => false
  if (!again && given.has flag.name) || !isUsable flag.name value then none
  else some { given with options := (flag.name, value) :: given.options }

/-- Adds the file. There is only one, and it must have a name. -/
def addFile (given : Given) (arg : String) : Option Given :=
  if given.file.isSome || arg.isEmpty then none else some { given with file := some arg }

/-- Whether an argument looks like an option: a dash with more after it. -/
def isOption (arg : String) : Bool :=
  arg.toList.head? == some '-' && arg != "-"

/-- Reads the arguments after the options have ended. -/
def readFiles : Given → List String → Outcome
  | given, [] => .given given
  | given, arg :: rest =>
    match addFile given arg with
    | some given => readFiles given rest
    | none => .misuse

/-- What an argument makes of what was read before it. -/
inductive Reading where
  /-- Goes on. -/
  | next (given : Given)
  /-- Waits for the value of an option. -/
  | value (flag : Flag) (given : Given)
  /-- Help is asked for. -/
  | help
  /-- The argument makes no sense. -/
  | misuse

/-- Goes on if something could be added. -/
def Reading.ofOption : Option Given → Reading
  | some given => .next given
  | none => .misuse

/-- Reads an option that starts with two dashes. -/
def readLong (flags : List Flag) (given : Given) (arg : List Char) : Reading :=
  let (name, value) := splitValue arg
  if name == "help" && value.isNone then .help
  else match flags.find? (·.name == name), value with
    | none, _ => .misuse
    | some (.plain name), none => .ofOption (addOption given (.plain name) "")
    | some (.plain _), some _ => .misuse
    | some flag, some value => .ofOption (addOption given flag value)
    | some flag, none => .value flag given

/-- Reads an argument. -/
def readArg (flags : List Flag) (given : Given) (arg : String) : Reading :=
  if !isOption arg then .ofOption (addFile given arg)
  else match arg.toList with
    | '-' :: '-' :: long => readLong flags given long
    | '-' :: 'h' :: _ => .help
    | _ => .misuse

/-- Reads the arguments of an action that knows some options, the first of them possibly as the value of an option. -/
def readArgs (flags : List Flag) : Option Flag → Given → List String → Outcome
  | none, given, [] => .given given
  | some _, _, [] => .misuse
  | some flag, given, value :: rest =>
    if isOption value then .misuse
    else match addOption given flag value with
      | some given => readArgs flags none given rest
      | none => .misuse
  | none, given, arg :: rest =>
    if arg == "--" then readFiles given rest
    else match readArg flags given arg with
      | .next given => readArgs flags none given rest
      | .value flag given => readArgs flags (some flag) given rest
      | .help => .help
      | .misuse => .misuse

/-- The options of `run`. -/
def runFlags : List Flag := [.valued "config", .repeated "trigger", .valued "timeout-ms", .plain "json"]

/-- The options of `check`. -/
def checkFlags : List Flag := [.plain "list", .plain "json"]

/-- What `run` is asked for. -/
def runInvocation (args : List String) : Invocation :=
  match readArgs runFlags none {} args with
  | .help => .help .run
  | .misuse => .misuse
  | .given given =>
    match given.file with
    | none => .misuse
    | some program =>
      let timeout := ((given.values "timeout-ms").head?.bind fun s => Text.intBetween? 0 (values64 - 1) s).map Int.toNat
      .run { program, config := (given.values "config").head?, labels := given.values "trigger"
             timeout := timeout.getD 10000, json := given.has "json" }

/-- What `check` is asked for. -/
def checkInvocation (args : List String) : Invocation :=
  match readArgs checkFlags none {} args with
  | .help => .help .check
  | .misuse => .misuse
  | .given given =>
    match given.file with
    | none => .misuse
    | some program => .check { program, list := given.has "list", json := given.has "json" }

/-- What `help` is asked about. -/
def helpInvocation : List String → Invocation
  | [] => .help .program
  | ["run"] => .help .run
  | ["check"] => .help .check
  | ["help"] => .help .help
  | _ => .misuse

end Arguments

namespace Invocation

/-- What some arguments ask for. -/
def ofArgs : List String → Invocation
  | [] => misuse
  | "run" :: rest => Arguments.runInvocation rest
  | "check" :: rest => Arguments.checkInvocation rest
  | "help" :: rest => Arguments.helpInvocation rest
  | "--help" :: _ => help .program
  | "--version" :: _ => version
  | arg :: _ =>
    match arg.toList with
    | '-' :: 'h' :: _ => help .program
    | '-' :: 'V' :: _ => version
    | _ => misuse

end Invocation

end LineScript
