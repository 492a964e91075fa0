import LineScript.Json.Reader
import LineScript.Statement

/-!
# Program files

A program as a JSON document: an object with a name, which may be left out, and a list of items. An item is a label or a
statement; a statement has a keyword, arguments in which backticks escape, a line number and possibly a statement on the
same line. Objects may also be written as arrays of their fields, in order. A line number that is missing or zero is the
position of the item, and inside a line that of the statement before.
-/

namespace LineScript

/-- A program as written. -/
structure ProgramFile where
  /-- The name it gives itself. -/
  name : Option String
  /-- Its items. -/
  items : List Item
  deriving DecidableEq

namespace ProgramFile

/-- How deep arrays and objects may be nested in the items of a document. -/
def maxDepth : Nat := 126

/-- A line number, with another one in place of zero. -/
def lineOr (fallback n : Nat) : Nat :=
  if n == 0 then fallback else n

/-- The value of a field that may be left out. -/
def orElse {α : Type} (dflt : α) (read : JsonValue → Option α) : Option JsonValue → Option α
  | none => some dflt
  | some v => read v

/-- The parts of a statement: keyword, arguments, line number and the statement on the same line. -/
def statementParts (v : JsonValue) : Option (JsonValue × Option JsonValue × Option JsonValue × Option JsonValue) :=
  match v with
  | .object fields => do
    let keyword ← ← JsonValue.once? fields "cmd"
    let args ← JsonValue.once? fields "args"
    let line ← JsonValue.once? fields "line"
    let sameLine ← JsonValue.once? fields "then"
    return (keyword, args, line, sameLine)
  | .array items =>
    match items with
    | keyword :: rest => if 3 < rest.length then none else some (keyword, rest[0]?, rest[1]?, rest[2]?)
    | [] => none
  | _ => none

/-- A statement with those that follow it on the same line. Each stands inside the one before it, which bounds their
number. -/
def statements? : (fuel : Nat) → (fallback : Nat) → JsonValue → Option (List Statement)
  | 0, _, _ => none
  | fuel + 1, fallback, v => do
    let (keyword, args, line, sameLine) ← statementParts v
    let keyword ← keyword.string?
    let args ← orElse [] JsonValue.strings? args
    let lineNo := lineOr fallback (← orElse 0 JsonValue.word? line)
    let rest ← match sameLine with
      | none | some .null => some []
      | some v => statements? fuel lineNo v
    return { keyword, args := args.map RawArg.ofEscaped, lineNo } :: rest

/-- A label at a position. -/
def label? (position : Nat) : JsonValue → Option Item
  | .object fields => do
    let name ← (← ← JsonValue.once? fields "label").string?
    let line ← orElse 0 JsonValue.word? (← JsonValue.once? fields "line")
    return .label name (lineOr position line)
  | _ => none

/-- The item at a position: a label if it can be read as one, a statement otherwise. -/
def item? (position : Nat) (v : JsonValue) : Option Item :=
  label? position v <|> do
    match ← statements? maxDepth position v with
    | first :: sameLine => return .statement first sameLine
    | [] => none

/-- The items of a program, the first at a position. -/
def itemsFrom? : (position : Nat) → List JsonValue → Option (List Item)
  | _, [] => some []
  | position, v :: rest => do
    let item ← item? position v
    let items ← itemsFrom? (position + 1) rest
    return item :: items

/-- A program from its name and items. -/
def ofParts? (name : Option JsonValue) (items : JsonValue) : Option ProgramFile := do
  let name ← match name with
    | none | some .null => some none
    | some v => some <$> v.string?
  if !items.isReadable maxDepth then none
  match items with
  | .array items => return { name, items := ← itemsFrom? 1 items }
  | _ => none

/-- The program a JSON document holds. -/
def ofJson? (document : String) : Option ProgramFile := do
  match ← JsonValue.parse? document with
  | .object fields =>
    let name ← JsonValue.once? fields "name"
    let items ← ← JsonValue.once? fields "items"
    ofParts? name items
  | .array [name, items] => ofParts? (some name) items
  | _ => none

/-- The last name on a path; none if it leads to a folder above or nowhere. -/
def lastName? (path : String) : Option String :=
  let names := ((Text.splitBy (· == '/') path.toList).map String.ofList).filter fun n => n != "" && n != "."
  names.getLast?.filter (· != "..")

/-- The name a program is known by: its own, or that of its file. -/
def displayName (file : ProgramFile) (path : String) : String :=
  file.name.getD ((lastName? path).getD path)

/-- The items to load, under the name the program is known by. -/
def toItems (file : ProgramFile) (path : String) : List Item :=
  .file (file.displayName path) :: file.items

end ProgramFile

end LineScript
