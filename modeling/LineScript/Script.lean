import LineScript.Line
import LineScript.Text.Lower

/-!
# Programs

A loaded program: its lines, its labels, the files it was read from and the commands it may use. Jumps may leave blocks
and bodies but never enter one: `Script.isJumpValid` follows the enclosing lines of the jump.
-/

namespace LineScript

/-- A label: its name, the lower-case form it is found by, and the line it names. -/
structure Label where
  /-- The name as declared. -/
  name : String
  /-- The lower-case form of the name. -/
  key : String
  /-- The line it names. -/
  target : LineId
  deriving DecidableEq

/-- Labels in the order they were declared. -/
structure Labels where
  /-- The labels. -/
  entries : Array Label := #[]

namespace Labels

/-- The label of a name, case aside. -/
def find? (labels : Labels) (name : String) : Option LabelId :=
  let key := Text.lower name
  labels.entries.findIdx? (·.key == key)

/-- The label of a number. -/
def get? (labels : Labels) (id : LabelId) : Option Label :=
  labels.entries[id]?

/-- The line a label names. -/
def target (labels : Labels) (id : LabelId) : LineId :=
  ((labels.get? id).map (·.target)).getD 0

/-- The name of a label, as declared. -/
def name (labels : Labels) (id : LabelId) : String :=
  ((labels.get? id).map (·.name)).getD ""

/-- Declares a label, unless its name is taken. -/
def insert (labels : Labels) (name : String) (target : LineId) : Option (Labels × LabelId) :=
  match labels.find? name with
  | some _ => none
  | none => some ({ entries := labels.entries.push { name, key := Text.lower name, target } }, labels.entries.size)

end Labels

/-- A loaded program without its variables. -/
structure Script where
  /-- The lines. -/
  lines : Array Line := #[]
  /-- The labels. -/
  labels : Labels := {}
  /-- The names of the files the lines come from. -/
  files : Array String := #[]
  /-- The commands it may use. -/
  commands : CommandSet := {}

namespace Script

instance : Inhabited Script := ⟨{}⟩

/-- The line of a number. -/
def line (script : Script) (id : LineId) : Line :=
  (script.lines[id]?).getD default

/-- The line where the program starts. -/
def firstLine? (script : Script) : Option LineId :=
  if script.lines.isEmpty then none else some 0

/-- Whether an action tests a condition that selects the line after it. -/
def isConditional (commands : CommandSet) : Action → Bool
  | .cond _ => true
  | .command id => (commands.get id).conditional
  | _ => false

/-- Whether a line tests a condition that selects the line after it. -/
def isIfFamily (script : Script) (id : LineId) : Bool :=
  isConditional script.commands (script.line id).action

/-- The else that belongs to a conditional line. -/
def elseOf? (script : Script) (id : LineId) : Option LineId :=
  (script.line id).related.filter fun r => (script.line r).action == .otherwise

/-- Whether `wanted` is `level` or encloses it, looking at most `fuel` levels up. -/
def encloses (script : Script) (wanted : Option LineId) : (fuel : Nat) → (level : Option LineId) → Bool
  | 0, level => level == wanted
  | fuel + 1, level =>
    if level == wanted then true
    else match level with
      | some id => encloses script wanted fuel (script.line id).parent
      | none => false

/-- A jump is valid when what encloses its target also encloses the jumping line. Every level up has a smaller line
number, so the number of lines bounds the search. -/
def isJumpValid (script : Script) (start target : LineId) : Bool :=
  script.encloses (script.line target).parent (script.lines.size + 1) (script.line start).parent

/-- A label whose routine starts with a `Suspend` other than `Suspend, On` still runs while hotkeys are suspended. -/
def isExempt (script : Script) (label : LabelId) : Bool :=
  let line := script.line (script.labels.target label)
  line.action == .suspend && !Text.sameAscii (line.argText 0) "on"

/-- The name of a file; a program read from no file has a name of its own. -/
def fileName (files : Array String) (file : Nat) : String :=
  (files[file]?).getD "<script>"

/-- Where a line comes from: its file and line number. -/
def place (script : Script) (id : LineId) : String :=
  let line := script.line id
  fileName script.files line.file ++ ":" ++ toString line.lineNo

/-- The name of a line's action, with a command's own name for a command. -/
def actionName (script : Script) (id : LineId) : String :=
  match (script.line id).action with
  | .command cmd => (script.commands.get cmd).name
  | action => action.name

end Script

/-- A loaded program with its variables. -/
structure Program where
  /-- The lines and labels. -/
  script : Script
  /-- The variables its lines name. -/
  vars : Variables

end LineScript
