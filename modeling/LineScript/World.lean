import LineScript.Files.Tree
import LineScript.Registry.Store

/-!
# The world outside

What a program sees and changes beyond its own variables: files, the registry, the output and the clock.
-/

namespace LineScript

/-- The world outside a program. -/
structure World where
  /-- The files below the working folder. -/
  files : Files := {}
  /-- The registry. -/
  registry : Registry := {}
  /-- The lines printed, last first. -/
  printed : List String := []
  /-- The clock, in milliseconds. -/
  now : Nat := 0

namespace World

instance : Inhabited World := ⟨{}⟩

/-- Prints a line. -/
def print (world : World) (line : String) : World :=
  { world with printed := line :: world.printed }

/-- Lets time pass. -/
def wait (world : World) (ms : Nat) : World :=
  { world with now := world.now + ms }

/-- What was printed, each line ended by a line feed. -/
def output (world : World) : String :=
  world.printed.foldl (fun text line => line ++ "\n" ++ text) ""

end World

end LineScript
