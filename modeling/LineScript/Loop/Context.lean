import LineScript.Loop.Fields
import LineScript.Loop.Folder
import LineScript.Loop.Keys
import LineScript.Loop.Lines

/-!
# Running loops

A loop that has started: what it goes through, how many rounds it has made and what the current one shows. Starting a
loop reads its arguments; `LoopContext.advance` moves to the next round.
-/

namespace LineScript

/-- What the current round of a loop shows to the script. -/
inductive LoopItem where
  | none
  | field (text : String)
  | line (text : String)
  | file (item : FileItem)
  | key (item : RegItem)
  deriving DecidableEq

/-- What a loop goes through. A loop over a file's lines may name a file to write to. -/
inductive Cursor where
  | count (rounds : Option Int64)
  | folder (c : FolderCursor)
  | keys (c : KeyCursor)
  | fields (c : FieldCursor)
  | lines (c : LineCursor) (output : Option String)

/-- A running loop. -/
structure LoopContext where
  /-- Its kind, decided when it started. -/
  kind : LoopKind
  /-- The number of the current round, zero before the first. -/
  index : Nat
  /-- What the current round shows. -/
  current : LoopItem
  /-- What it goes through. -/
  cursor : Cursor

namespace LoopContext

/-- Whether an argument says yes. -/
def flag (arg : String) : Bool :=
  Text.trim arg == "1"

/-- The kind of a loop whose first argument is only known when it starts. -/
def kindOf (first : String) : LoopKind :=
  let text := Text.trim first
  let isInteger := match Number.ofText? text with
    | some (.int _) => true
    | _ => false
  if text.isEmpty || isInteger then .count
  else if (RegRoot.ofName? text).isSome then .registry
  else .file

/-- The rounds of a counting loop; a blank argument sets no end. -/
def roundsOf (arg : String) : Option Int64 :=
  let text := Text.trim arg
  if text.isEmpty then .none
  else match Number.ofText? text with
    | some n => some n.toInt64
    | .none => some 0

/-- What a loop of a known kind goes through. -/
def cursorOf (files : Files) (kind : LoopKind) (arg : Nat → String) : Except Problem Cursor :=
  match kind with
  | .count | .unknown => .ok (.count (roundsOf (arg 0)))
  | .file => do
    let mode ← FolderMode.ofArg (arg 1)
    let cursor ← FolderCursor.start FolderCursor.wildcard (arg 0) mode (flag (arg 2))
    return .folder cursor
  | .registry =>
    match RegRoot.ofName? (arg 0) with
    | .none => .error (.badParameter (.registryRoot (arg 0)))
    | some root => do
      let mode ← KeyMode.ofArg (arg 2)
      return .keys (KeyCursor.start root (arg 1) mode (flag (arg 3)))
  | .parse => .ok (.fields (FieldCursor.start (arg 1) (arg 2) (arg 3)))
  | .read =>
    let output := Text.trim (arg 2)
    .ok (.lines (LineCursor.start files (arg 1)) (if output.isEmpty then .none else some output))

/-- Starts a loop with its expanded arguments. -/
def start (files : Files) (kind : LoopKind) (args : List String) : Except Problem LoopContext := do
  let arg (i : Nat) : String := (args[i]?).getD ""
  let kind := if kind == .unknown then kindOf (arg 0) else kind
  let cursor ← cursorOf files kind arg
  return { kind, index := 0, current := .none, cursor }

/-- What the next round shows, if there is one, and the cursor after it. -/
def nextItem (files : Files) (reg : Registry) (index : Nat) : Cursor → Except Problem (Option LoopItem × Cursor)
  | .count rounds =>
    match rounds with
    | .none => .ok (some .none, .count rounds)
    | some n => .ok (if (index : Int) < n.toInt then some .none else .none, .count rounds)
  | .folder c => do
    let (found, c) ← c.next files
    return (found.map .file, .folder c)
  | .keys c =>
    let (found, c) := c.next reg
    .ok (found.map .key, .keys c)
  | .fields c =>
    let (found, c) := c.next
    .ok (found.map .field, .fields c)
  | .lines c output =>
    match c.next files with
    | .error e => .error (.io (.read e))
    | .ok (found, c) => .ok (found.map .line, .lines c output)

/-- Moves to the next round. Says whether there is one. -/
def advance (files : Files) (reg : Registry) (loop : LoopContext) : Except Problem (Bool × LoopContext) := do
  let (found, cursor) ← nextItem files reg loop.index loop.cursor
  match found with
  | .none => return (false, { loop with cursor })
  | some current => return (true, { loop with index := loop.index + 1, current, cursor })

/-- The file a loop over lines writes to. -/
def output? (loop : LoopContext) : Option String :=
  match loop.cursor with
  | .lines _ output => output
  | _ => .none

end LoopContext

end LineScript
