import LineScript.Text.Basic

/-!
# Commands

What the loader and the engine know of a leaf command: its name, how many arguments it takes and of which kind, whether
its answer selects the next line, and whether it waits. What a command does is not said here.
-/

namespace LineScript

/-- How an argument is read: as text, as the contents of a variable, or as a variable to store into. -/
inductive ArgKind where
  | text
  | input
  | output
  deriving DecidableEq

/-- The description of a leaf command. -/
structure CommandSpec where
  /-- The name it is registered under. -/
  name : String
  /-- The least number of arguments. -/
  minArgs : Nat
  /-- The greatest number of arguments. -/
  maxArgs : Nat
  /-- The kinds of the first arguments; the others are texts. -/
  argKinds : List ArgKind := []
  /-- Its answer is true or false and selects the line after it. -/
  conditional : Bool := false
  /-- It blocks for a while, so pending triggers run before it. -/
  waits : Bool := false
  deriving DecidableEq

/-- The kind of the argument at a position. -/
def CommandSpec.argKind (spec : CommandSpec) (pos : Nat) : ArgKind :=
  (spec.argKinds[pos]?).getD .text

/-- The number of a command in its set. -/
abbrev CommandId := Nat

/-- The commands a program may use, in the order they were registered. -/
structure CommandSet where
  /-- The descriptions. -/
  specs : Array CommandSpec := #[]

namespace CommandSet

/-- The command of a name, ASCII case aside. -/
def find? (set : CommandSet) (name : String) : Option CommandId :=
  let key := Text.asciiLower name
  set.specs.findIdx? fun spec => Text.asciiLower spec.name == key

/-- Registers a command. One of the same name takes the place of the earlier one. -/
def add (set : CommandSet) (spec : CommandSpec) : CommandSet × CommandId :=
  match set.find? spec.name with
  | some id => ({ specs := set.specs.setIfInBounds id spec }, id)
  | none => ({ specs := set.specs.push spec }, set.specs.size)

/-- The commands of a list, registered in order. -/
def ofList (specs : List CommandSpec) : CommandSet :=
  specs.foldl (fun set spec => (set.add spec).1) {}

/-- The description of a command. -/
def get (set : CommandSet) (id : CommandId) : CommandSpec :=
  (set.specs[id]?).getD { name := "", minArgs := 0, maxArgs := 0 }

end CommandSet

end LineScript
