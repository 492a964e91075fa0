import LineScript.Text.Basic

/-!
# Fields of a text

A parse loop goes through the fields of a text: the pieces between delimiters, the values of a line of comma-separated
values, or single characters. Characters to omit are taken off both ends of a field.
-/

namespace LineScript

/-- A text on the way through its fields. -/
structure FieldCursor where
  /-- The characters not read yet. -/
  rest : List Char
  /-- The characters that end a field; without any, every character is a field. -/
  delimiters : List Char
  /-- The characters taken off both ends of a field. -/
  omitted : List Char
  /-- Whether fields are comma-separated values, which may be quoted. -/
  quoted : Bool
  /-- Whether the last field has been read. -/
  done : Bool
  deriving DecidableEq

namespace FieldCursor

/-- The start of a text. The delimiter `CSV`, in any case, stands for comma-separated values. An empty text has no
fields. -/
def start (input delimiters omitted : String) : FieldCursor :=
  let quoted := Text.sameAscii delimiters "csv"
  { rest := input.toList, delimiters := if quoted then [] else delimiters.toList, omitted := omitted.toList, quoted
    done := input.isEmpty }

/-- A field without the characters to omit at its ends. -/
def trimmed (c : FieldCursor) (field : List Char) : String :=
  .ofList (Text.trimList c.omitted.contains field)

/-- The next field up to a character that satisfies `p`. -/
def upTo (c : FieldCursor) (p : Char → Bool) : String × FieldCursor :=
  let field := c.rest.takeWhile (!p ·)
  match c.rest.dropWhile (!p ·) with
  | [] => (c.trimmed field, { c with rest := [], done := true })
  | _ :: rest => (c.trimmed field, { c with rest })

/-- The next character that is not omitted. -/
def nextChar (c : FieldCursor) : Option String × FieldCursor :=
  match c.rest.dropWhile c.omitted.contains with
  | [] => (none, { c with rest := [], done := true })
  | x :: rest => (some x.toString, { c with rest })

/-- Reads up to the quote that closes a value, with `taken` in reverse before it; a doubled quote stands for one. -/
def closeQuote : (taken : List Char) → List Char → List Char × List Char
  | taken, [] => (taken, [])
  | taken, '"' :: '"' :: rest => closeQuote ('"' :: taken) rest
  | taken, '"' :: rest => (taken, rest)
  | taken, c :: rest => closeQuote (c :: taken) rest

/-- The next comma-separated value. What stands between a closing quote and the comma belongs to it; only bare values
are trimmed. -/
def nextQuoted (c : FieldCursor) : String × FieldCursor :=
  match c.rest with
  | '"' :: rest =>
    let (taken, rest) := closeQuote [] rest
    let field := taken.reverse ++ rest.takeWhile (· != ',')
    match rest.dropWhile (· != ',') with
    | [] => (.ofList field, { c with rest := [], done := true })
    | _ :: rest => (.ofList field, { c with rest })
  | _ => c.upTo (· == ',')

/-- The next field, if there is one. -/
def next (c : FieldCursor) : Option String × FieldCursor :=
  if c.done then (none, c)
  else if c.quoted then
    let (field, c) := c.nextQuoted
    (some field, c)
  else if c.delimiters.isEmpty then c.nextChar
  else
    let (field, c) := c.upTo c.delimiters.contains
    (some field, c)

/-- All fields from here on, and the cursor after them. Every field but the last takes a character, which bounds the
rounds. -/
def drain : (fuel : Nat) → (done : List String) → FieldCursor → List String × FieldCursor
  | 0, done, c => (done.reverse, c)
  | fuel + 1, done, c =>
    match c.next with
    | (none, c) => (done.reverse, c)
    | (some field, c) => drain fuel (field :: done) c

/-- All fields from here on. -/
def toList (c : FieldCursor) : List String × FieldCursor :=
  c.drain (c.rest.length + 2) []

end FieldCursor

end LineScript
