import LineScript.Load.Keyword
import LineScript.Load.Reference
import LineScript.Registry.Root
import LineScript.Script

/-!
# Building lines

Turns statements into lines one after the other, without the links between them. A label names the line that is added
next. `Repeat` and `EndRepeat` are written out as a loop over a block.
-/

namespace LineScript

/-- A program under construction. -/
structure Builder where
  /-- The lines so far. -/
  lines : Array Line := #[]
  /-- The labels whose lines are known. -/
  labels : Labels := {}
  /-- The labels that await their line, first declared first. -/
  pending : List String := []
  /-- The names of the files begun. -/
  files : Array String := #[]
  /-- The number of the current file. -/
  file : Nat := 0
  /-- The commands the program may use. -/
  commands : CommandSet
  /-- The variables named so far. -/
  vars : Variables
  /-- The greatest line number so far. -/
  lastLineNo : Nat := 0

namespace Builder

/-- The variable every thread saves and restores. -/
def errorLevelName : String := "ErrorLevel"

/-- An empty program that may use some commands. -/
def start (commands : CommandSet) : Builder :=
  { commands, vars := (({} : Variables).intern errorLevelName).1 }

/-- Begins another file; what follows is read from it. -/
def beginFile (b : Builder) (name : String) : Builder :=
  { b with files := b.files.push name, file := b.files.size }

/-- A problem at a line of the current file. -/
def fail {α : Type} (b : Builder) (lineNo : Nat) (problem : LoadProblem) : Except LoadError α :=
  .error ⟨Script.fileName b.files b.file, lineNo, problem⟩

/-- A result of loading, with its problem placed at a line of the current file. -/
def at_ {α : Type} (b : Builder) (lineNo : Nat) : Except LoadProblem α → Except LoadError α
  | .ok a => .ok a
  | .error problem => b.fail lineNo problem

/-- Declares a label for the line added next. Its name is not blank and holds neither a comma nor white space. Among
labels that await their line only ASCII case is disregarded. -/
def addLabel (b : Builder) (name : String) (lineNo : Nat) : Except LoadError Builder :=
  let name := Text.trim name
  if name.isEmpty || name.toList.any fun c => c == ',' || Text.isBlank c then b.fail lineNo (.invalidLabel name)
  else if (b.labels.find? name).isSome || b.pending.any (Text.sameAscii · name) then b.fail lineNo (.duplicateLabel name)
  else .ok { b with pending := b.pending ++ [name] }

/-- The kind of a loop with a given first argument. -/
def loopKind (first : Arg) : LoopKind :=
  if !first.isLiteral then .unknown
  else
    let text := Text.trim first.text
    if text.isEmpty || (Text.intBetween? leastInt greatestInt text).isSome then .count
    else if Text.sameAscii text "parse" then .parse
    else if Text.sameAscii text "read" then .read
    else if (RegRoot.ofName? text).isSome then .registry
    else .file

/-- How the argument at a position is read. -/
def argKind (commands : CommandSet) (action : Action) (note : Note) (pos : Nat) : ArgKind :=
  match action with
  | .assign _ => if pos == 0 then .output else .text
  | .cond .expr => .text
  | .cond _ => if pos == 0 then .input else .text
  | .loop => if pos == 1 && note == .loop .parse then .input else .text
  | .command id => (commands.get id).argKind pos
  | _ => .text

/-- Whether the argument at a position is an expression. -/
def isExprArg (action : Action) (pos : Nat) : Bool :=
  (action == .assign .expr && pos == 1) || (action == .cond .expr && pos == 0)

/-- Builds the arguments from a position on. The first argument of a loop decides its kind. An output that must be given
may not be blank. -/
def buildArgs (commands : CommandSet) (action : Action) (minArgs : Nat) :
    (pos : Nat) → (note : Note) → (vars : Variables) → List RawArg → Except LoadProblem (Variables × Note × List Arg)
  | _, note, vars, [] => .ok (vars, note, [])
  | pos, note, vars, raw :: rest => do
    let kind := argKind commands action note pos
    let (vars, arg) ← Reference.argument vars kind (isExprArg action pos) raw
    if kind == .output && pos < minArgs && arg.derefs.isEmpty then throw (.blankOutput action.name)
    let note := if action == .loop && pos == 0 then .loop (loopKind arg) else note
    let (vars, note, args) ← buildArgs commands action minArgs (pos + 1) note vars rest
    return (vars, note, arg :: args)

/-- Whether the argument at a position, if it is literal, is blank or one of the allowed words. -/
def literalIn (args : List Arg) (pos : Nat) (allowed : List String) : Bool :=
  match args[pos]? with
  | some arg =>
    let text := Text.trim arg.text
    !arg.isLiteral || text.isEmpty || allowed.any (Text.sameAscii text)
  | none => true

/-- The least and the greatest number of arguments of a loop. -/
def loopBounds : LoopKind → Nat × Nat
  | .count => (0, 1)
  | .file => (1, 3)
  | .unknown | .registry => (1, 4)
  | .parse => (2, 4)
  | .read => (2, 3)

/-- Checks the arguments of a loop: their number, and literal modes of file and registry loops. -/
def checkLoop (kind : LoopKind) (args : List Arg) : Except LoadProblem Unit :=
  let (least, most) := loopBounds kind
  if args.length < least then .error (.tooFew Action.loop.name)
  else if most < args.length then .error (.tooMany Action.loop.name)
  else match kind with
    | .file =>
      if !literalIn args 1 ["0", "1", "2"] then .error .fileMode
      else if !literalIn args 2 ["0", "1"] then .error .recurseFlag
      else .ok ()
    | .registry =>
      if !literalIn args 2 ["0", "1", "2"] then .error .registryMode
      else if !literalIn args 3 ["0", "1"] then .error .recurseFlag
      else .ok ()
    | _ => .ok ()

/-- Whether a text is an integer of 64 bits. -/
def isInteger (s : String) : Bool :=
  (Text.intBetween? leastInt greatestInt s).isSome

/-- Checks literal options of `Suspend`, `Thread` and `SetTimer`. -/
def checkOptions (action : Action) (args : List Arg) : Except LoadProblem Unit :=
  match action with
  | .suspend => if literalIn args 0 ["on", "off", "toggle", "permit"] then .ok () else .error .suspendMode
  | .thread => if literalIn args 0 ["priority", "interrupt"] then .ok () else .error .threadSetting
  | .setTimer =>
    if literalIn args 1 ["on", "off"] || ((args[1]?).map fun arg => isInteger (Text.trim arg.text)) == some true then
      .ok ()
    else .error .timerPeriod
  | _ => .ok ()

/-- Checks what a line's kind demands of its arguments. -/
def checkArgs (action : Action) (note : Note) (args : List Arg) : Except LoadProblem Note := do
  let note := if action == .loop && args.isEmpty then .loop .count else note
  match note with
  | .loop kind => checkLoop kind args
  | _ => pure ()
  checkOptions action args
  return note

/-- Binds labels to a line. A name that is taken by then is passed over. -/
def bindLabels (labels : Labels) (names : List String) (target : LineId) : Labels :=
  names.foldl (fun labels name => ((labels.insert name target).map (·.1)).getD labels) labels

/-- The arguments that count: a single blank one is none where none is needed. -/
def givenArgs (least : Nat) (args : List RawArg) : List RawArg :=
  match args with
  | [arg] => if arg.text.isEmpty && least == 0 then [] else args
  | _ => args

/-- Adds a line and binds the pending labels to it. -/
def push (b : Builder) (action : Action) (args : List RawArg) (lineNo : Nat) : Except LoadError Builder := do
  let (least, most) := Keyword.argBounds b.commands action
  let args := givenArgs least args
  if args.length < least then b.fail lineNo (.tooFew action.name)
  if most < args.length then b.fail lineNo (.tooMany action.name)
  let (vars, note, args) ← b.at_ lineNo (buildArgs b.commands action least 0 .none b.vars args)
  let note ← b.at_ lineNo (checkArgs action note args)
  return { b with
    lines := b.lines.push { action, file := b.file, lineNo, args, note }
    labels := bindLabels b.labels b.pending b.lines.size
    pending := []
    vars
    lastLineNo := max b.lastLineNo lineNo }

/-- The greatest number of arguments of a statement. -/
def maxArgs : Nat := 20

/-- Arguments without the blank ones at the end; the first one stays. -/
def dropBlankEnd : List RawArg → List RawArg
  | [] => []
  | first :: rest => first :: (rest.reverse.dropWhile (·.text.isEmpty)).reverse

/-- Adds the lines of one statement; `alone` says that no other statement follows it on its line. -/
def addStatement (b : Builder) (s : Statement) (alone : Bool) : Except LoadError Builder := do
  let word := Text.trim s.keyword
  let lower := Text.asciiLower word
  let args := dropBlankEnd s.args
  if maxArgs < args.length then b.fail s.lineNo .tooManyArgs
  if lower == "repeat" then
    let count := (args.head?.map fun a => Text.trim a.text).filter fun t => !t.isEmpty && t != "0"
    let b ← b.push .loop (count.toList.map RawArg.plain) s.lineNo
    let b ← b.push .blockBegin [] s.lineNo
    if alone then return b else b.fail s.lineNo .noSameLine
  else if lower == "endrepeat" then
    let b ← b.push .blockEnd [] s.lineNo
    if alone then return b else b.fail s.lineNo .noSameLine
  else
    let (action, args) ← b.at_ s.lineNo (Keyword.action b.commands s.keyword args)
    let b ← b.push action args s.lineNo
    if alone || Script.isConditional b.commands action || action == .otherwise then return b
    else b.fail s.lineNo (.sameLineNotAllowed word)

/-- Adds the lines of the statements of one line. Only a condition or an else may be followed by another statement. -/
def addStatements : (b : Builder) → List Statement → Except LoadError Builder
  | b, [] => .ok b
  | b, s :: rest => do
    let b ← b.addStatement s rest.isEmpty
    b.addStatements rest

/-- Adds one entry of a program. -/
def addItem (b : Builder) : Item → Except LoadError Builder
  | .label name lineNo => b.addLabel name lineNo
  | .statement first sameLine => b.addStatements (first :: sameLine)
  | .file name => .ok (b.beginFile name)

end Builder

end LineScript
