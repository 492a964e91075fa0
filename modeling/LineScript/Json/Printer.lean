import LineScript.Json.Basic

/-!
# Writing JSON

JSON documents written over several lines: one item or field to a line, two spaces deeper than what holds it.
-/

namespace LineScript

namespace JsonValue

/-- A hexadecimal digit. -/
def hexDigit (n : Nat) : Char :=
  if n < 10 then Char.ofNat ('0'.toNat + n) else Char.ofNat ('a'.toNat + n - 10)

/-- A character as it stands in a string. -/
def escaped (c : Char) : List Char :=
  match c with
  | '"' => ['\\', '"']
  | '\\' => ['\\', '\\']
  | '\x08' => ['\\', 'b']
  | '\x0c' => ['\\', 'f']
  | '\n' => ['\\', 'n']
  | '\r' => ['\\', 'r']
  | '\t' => ['\\', 't']
  | c => if c < ' ' then ['\\', 'u', '0', '0', hexDigit (c.toNat / 16), hexDigit (c.toNat % 16)] else [c]

/-- A string with its quotes. -/
def stringText (s : String) : String :=
  "\"" ++ .ofList (s.toList.flatMap escaped) ++ "\""

/-- The start of a line that is `depth` levels deep. -/
def lineStart (depth : Nat) : String :=
  "\n" ++ .ofList (List.replicate (2 * depth) ' ')

mutual

/-- A value that stands `depth` levels deep. -/
def renderAt (depth : Nat) : JsonValue → String
  | null | unreadable => "null"
  | bool b => if b then "true" else "false"
  | integer n => toString n
  | real digits exponent => toString digits ++ "e" ++ toString exponent
  | string s => stringText s
  | array [] => "[]"
  | array (v :: rest) =>
    "[" ++ lineStart (depth + 1) ++ renderAt (depth + 1) v ++ renderItems (depth + 1) rest ++ lineStart depth ++ "]"
  | object [] => "\x7b\x7d"
  | object ((name, v) :: rest) =>
    "\x7b" ++ lineStart (depth + 1) ++ stringText name ++ ": " ++ renderAt (depth + 1) v ++
      renderFields (depth + 1) rest ++ lineStart depth ++ "\x7d"

/-- The items after the first. -/
def renderItems (depth : Nat) : List JsonValue → String
  | [] => ""
  | v :: rest => "," ++ lineStart depth ++ renderAt depth v ++ renderItems depth rest

/-- The fields after the first. -/
def renderFields (depth : Nat) : List (String × JsonValue) → String
  | [] => ""
  | (name, v) :: rest =>
    "," ++ lineStart depth ++ stringText name ++ ": " ++ renderAt depth v ++ renderFields depth rest

end

/-- A value written as a document. -/
def render (v : JsonValue) : String :=
  renderAt 0 v

end JsonValue

end LineScript
