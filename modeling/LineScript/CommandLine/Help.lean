import LineScript.CommandLine.Arguments

/-!
# Help

The texts that explain the command line.
-/

namespace LineScript

namespace HelpTopic

/-- What the program is called. -/
def programName : String := "hotscript"

/-- The name and version of the program. -/
def versionLine : String :=
  programName ++ " 0.2.0"

/-- A heading with entries below it: each has a name and an explanation, and the explanations stand below each other. -/
def block (heading : String) (entries : List (String × String)) : List String :=
  let width := entries.foldl (fun n entry => max n entry.1.length) 0
  heading :: entries.map fun (name, text) => "  " ++ Text.padRight width name ++ "  " ++ text

/-- What `run` does. -/
def aboutRun : String := "Run the auto-execute section, then deliver triggers and service timers"

/-- What `check` does. -/
def aboutCheck : String := "Load a program without running it"

/-- What `help` does. -/
def aboutHelp : String := "Print this message or the help of the given subcommand(s)"

/-- The actions. -/
def actions : List String :=
  block "Commands:" [("run", aboutRun), ("check", aboutCheck), ("help", aboutHelp)]

/-- How help is asked for. -/
def helpEntry : String × String :=
  ("-h, --help", "Print help")

/-- The lines of help about a topic. -/
def lines : HelpTopic → List String
  | program =>
    ["Runs pre-tokenized hotscript programs", "", "Usage: " ++ programName ++ " <COMMAND>", ""] ++ actions ++ [""] ++
      block "Options:" [helpEntry, ("-V, --version", "Print version")]
  | run =>
    [aboutRun, "", "Usage: " ++ programName ++ " run [OPTIONS] <PROGRAM>", ""] ++
      block "Arguments:" [("<PROGRAM>", "Program file (JSON)")] ++ [""] ++
      block "Options:" [
        ("    --config <CONFIG>", "Engine settings (TOML)"),
        ("    --trigger <TRIGGERS>", "Label to trigger once the auto-execute section is done (repeatable)"),
        ("    --timeout-ms <TIMEOUT_MS>", "Stop servicing timers after this many milliseconds [default: 10000]"),
        ("    --json", "Print the final variables and errors as JSON"),
        helpEntry]
  | check =>
    [aboutCheck, "", "Usage: " ++ programName ++ " check [OPTIONS] <PROGRAM>", ""] ++
      block "Arguments:" [("<PROGRAM>", "")] ++ [""] ++
      block "Options:" [("    --list", "Print the structured line listing"), ("    --json", ""), helpEntry]
  | help =>
    [aboutHelp, "", "Usage: " ++ programName ++ " help [COMMAND]...", ""] ++
      block "Arguments:" [("[COMMAND]...", "Print help for the subcommand(s)")]

/-- The text of help about a topic. -/
def text (topic : HelpTopic) : String :=
  topic.lines.foldl (fun text line => text ++ line ++ "\n") ""

end HelpTopic

end LineScript
