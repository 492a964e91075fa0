import LineScript.CommandLine.Help
import LineScript.Config.Reader
import LineScript.Engine.Runner
import LineScript.Listing
import LineScript.Load.Program
import LineScript.ProgramFile
import LineScript.Report

/-!
# Sessions

A session is one call of the program from the command line: a program to run, or an answer that is there at once. The
exit code is zero if all went well, one if something failed, and two if the arguments made no sense.
-/

namespace LineScript

/-- What a call leaves behind. -/
structure Conclusion where
  /-- The exit code. -/
  exit : Nat
  /-- What is printed at the end. -/
  output : String := ""
  /-- What is told apart from the output. -/
  complaints : String := ""
  deriving DecidableEq

/-- A call on its way. -/
inductive Session where
  /-- A program runs. -/
  | running (name : String) (json : Bool) (runner : Runner)
  /-- The call is answered. -/
  | concluded (conclusion : Conclusion)

namespace Session

/-- Something failed. -/
def failed : Session :=
  concluded { exit := 1 }

/-- An answer that is there at once. -/
def answered (output : String) : Session :=
  concluded { exit := 0, output }

/-- The text of a file. -/
def textAt? (files : Files) (path : String) : Option String :=
  match files.read path with
  | .ok bytes => Utf8.strict? bytes
  | .error _ => none

/-- The program in a file, with the name it is known by. -/
def programAt? (files : Files) (path : String) : Option (String × Program) := do
  let file ← ProgramFile.ofJson? (← textAt? files path)
  match Program.load Standard.commands (file.toItems path) with
  | .ok program => return (file.displayName path, program)
  | .error _ => none

/-- The settings in a file; the defaults if none is named. -/
def configAt? (files : Files) : Option String → Option Config
  | none => some {}
  | some path => do Config.ofToml? (← textAt? files path)

/-- Runs a program. -/
def run (files : Files) (options : RunOptions) : Session :=
  match configAt? files options.config, programAt? files options.program with
  | some config, some (name, program) =>
    running name options.json (Runner.start program config options.labels options.timeout { files })
  | _, _ => failed

/-- Checks a program: its listing, if one is asked for, and its size. -/
def check (files : Files) (options : CheckOptions) : Session :=
  match programAt? files options.program with
  | none => failed
  | some (name, program) =>
    let script := program.script
    if options.json then answered (script.listingJson.render ++ "\n")
    else
      let listed := if options.list then script.listing.map ListingEntry.render else []
      let summary := name ++ ": ok (" ++ toString script.lines.size ++ " lines, " ++
        toString script.labels.entries.size ++ " labels)"
      answered ((listed ++ [summary]).foldl (fun text line => text ++ line ++ "\n") "")

/-- Starts a call. -/
def start (files : Files) (args : List String) : Session :=
  match Invocation.ofArgs args with
  | .run options => run files options
  | .check options => check files options
  | .help topic => answered topic.text
  | .version => answered (HelpTopic.versionLine ++ "\n")
  | .misuse => concluded { exit := 2 }

/-- How the problem of a thread is told. -/
def complaint (e : RuntimeError) : String :=
  "error: " ++ e.message ++ "\n"

/-- What a finished program leaves behind. -/
def conclude (name : String) (json : Bool) (engine : Engine) : Conclusion :=
  let exit := if engine.errors.isEmpty then 0 else 1
  if json then { exit, output := (Report.ofEngine name engine).toJson.render ++ "\n" }
  else { exit, complaints := String.join (engine.errors.map complaint) }

/-- The whole call: what it leaves behind, with everything printed, and the files. A program that is not done after
`fuel` steps is taken as it is. -/
def runWhole (fuel : Nat) (files : Files) (args : List String) : Conclusion × Files :=
  match start files args with
  | concluded conclusion => (conclusion, files)
  | running name json runner =>
    let engine := (Runner.run fuel runner).engine
    let conclusion := conclude name json engine
    ({ conclusion with output := engine.world.output ++ conclusion.output }, engine.world.files)

end Session

end LineScript
