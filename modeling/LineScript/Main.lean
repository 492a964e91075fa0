import LineScript.CommandLine.Session

/-!
# The program

Runs a session on the working folder: its files are read before the session and written back after it if they changed.
What a program prints is shown at once, and where its clock moves on, time passes.
-/

namespace LineScript

namespace Folder

/-- An entry of a folder with all that is below it. Whatever cannot be read is left out. -/
partial def readEntry (entry : IO.FS.DirEntry) : IO (Option Node) := do
  try
    if ← entry.path.isDir then
      let inner ← (← entry.path.readDir).toList.filterMapM readEntry
      return some (.folder entry.fileName inner)
    else return some (.file entry.fileName (← IO.FS.readBinFile entry.path))
  catch _ => return none

/-- The files of the working folder. -/
def read : IO Files := do
  let here ← IO.currentDir
  return { entries := ← (← here.readDir).toList.filterMapM readEntry }

mutual

/-- The files of a tree below `base`, with the names that lead to each. -/
def filesBelow (base : List String) : Node → List (List String × ByteArray)
  | .file name content => [(base ++ [name], content)]
  | .folder name entries => filesAmong (base ++ [name]) entries

/-- The files of several trees below `base`. -/
def filesAmong (base : List String) : List Node → List (List String × ByteArray)
  | [] => []
  | node :: rest => filesBelow base node ++ filesAmong base rest

end

/-- Writes the files that are not what they were. -/
def write (old new : Files) : IO Unit := do
  for (names, content) in filesAmong [] new.entries do
    if (old.content? names).map (·.toList) != some content.toList then
      IO.FS.writeBinFile (Text.joinWith "/" names) content

end Folder

namespace Runner

/-- A runner whose output has been shown. -/
def shown (runner : Runner) : Runner :=
  let machine := runner.machine
  let world := { machine.engine.world with printed := [] }
  { runner with machine := { machine with engine := { machine.engine with world } } }

/-- Takes steps until the program is done. Shows what it prints and waits where its clock moves on. -/
partial def drive (runner : Runner) : IO Runner := do
  let next := runner.step
  let world := next.engine.world
  if !world.printed.isEmpty then
    IO.print world.output
    (← IO.getStdout).flush
  let passed := world.now - runner.engine.world.now
  if 0 < passed then IO.sleep (UInt32.ofNat passed)
  if next.isFinished then return next.shown else drive next.shown

end Runner

namespace Session

/-- Tells how a call ended. -/
def tell (conclusion : Conclusion) : IO UInt32 := do
  IO.print conclusion.output
  IO.eprint conclusion.complaints
  return UInt32.ofNat conclusion.exit

end Session

end LineScript

/-- Runs a session with the arguments of the command line and gives its exit code. -/
def main (args : List String) : IO UInt32 := do
  let files ← LineScript.Folder.read
  match LineScript.Session.start files args with
  | .concluded conclusion => LineScript.Session.tell conclusion
  | .running name json runner =>
    let runner ← runner.drive
    LineScript.Folder.write files runner.engine.world.files
    LineScript.Session.tell (LineScript.Session.conclude name json runner.engine)
