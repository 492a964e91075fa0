import LineScript.Binary64
import LineScript.Text.Scan
import LineScript.Toml.Basic

/-!
# Reading TOML

A reader for TOML documents: comments, names, values of every kind, headers. A document that breaks a rule of the format
is refused as a whole.
-/

namespace LineScript

namespace Toml

/-- How deep arrays and tables in braces may be nested, and how many parts a name may have, is below this. -/
def depthLimit : Nat := 80

/-- Skips spaces and tabs. -/
def spaces : Scan Unit := do
  let _ ← Scan.many Text.isSpaceOrTab

/-- Whether a character may stand in a comment or a string: no control character but the tab. -/
def isVisible (c : Char) : Bool :=
  c == '\t' || (' ' ≤ c && c != '\x7f')

/-- A comment, if one starts here. -/
def comment : Scan Unit := do
  if ← Scan.skip '#' then
    let _ ← Scan.many isVisible

/-- A line end. -/
def lineEnd : Scan Unit :=
  Scan.char '\n' <|> Scan.word "\r\n"

/-- The rest of a line: blanks, a comment, and a line end or the end of the document. -/
def lineRest : Scan Unit := do
  spaces
  comment
  if !(← Scan.atEnd) then lineEnd

/-- Skips blanks, comments and line ends. Every line takes a character, which bounds their number. -/
def blankLines : (fuel : Nat) → Scan Unit
  | 0 => return ()
  | fuel + 1 => do
    spaces
    comment
    match ← Scan.optional lineEnd with
    | some () => blankLines fuel
    | none => return ()

/-- The character of a code, if it is one. -/
def charOf? (n : Nat) : Option Char :=
  if n < 0xD800 || (0xE000 ≤ n && n < 0x110000) then some (Char.ofNat n) else none

/-- The character an escape stands for, after its backslash. -/
def escaped : Scan Char := do
  let c ← Scan.satisfy fun _ => true
  match c with
  | 'b' => return '\x08'
  | 't' => return '\t'
  | 'n' => return '\n'
  | 'f' => return '\x0c'
  | 'r' => return '\r'
  | '"' => return '"'
  | '\\' => return '\\'
  | 'u' => do
    let cs ← Scan.hexDigits 4
    (charOf? (Scan.hexValue cs)).elim failure pure
  | 'U' => do
    let cs ← Scan.hexDigits 8
    (charOf? (Scan.hexValue cs)).elim failure pure
  | _ => failure

/-- The rest of a string in double quotes, after the characters in `done` in reverse. -/
def basicRest : (fuel : Nat) → (done : List Char) → Scan String
  | 0, _ => failure
  | fuel + 1, done => do
    let c ← Scan.satisfy isVisible
    if c == '"' then return .ofList done.reverse
    else if c == '\\' then
      let c ← escaped
      basicRest fuel (c :: done)
    else basicRest fuel (c :: done)

/-- A string in double quotes. -/
def basicText (fuel : Nat) : Scan String := do
  Scan.char '"'
  basicRest fuel []

/-- A string in single quotes, which knows no escapes. -/
def literalText : Scan String := do
  Scan.char '\x27'
  let cs ← Scan.many fun c => isVisible c && c != '\x27'
  Scan.char '\x27'
  return .ofList cs

/-- A line end, which reads as a line feed. -/
def lineFeed : Scan Char := do
  lineEnd
  return '\n'

/-- Skips blanks and line ends. -/
def blankRest : (fuel : Nat) → Scan Unit
  | 0 => return ()
  | fuel + 1 => do
    spaces
    match ← Scan.optional lineEnd with
    | some () => blankRest fuel
    | none => return ()

/-- The end of a string over several lines: three quotes, with up to two more that belong to it. -/
def tripleEnd (quote : Char) : Scan (List Char) := do
  Scan.char quote
  Scan.char quote
  Scan.char quote
  if ← Scan.skip quote then
    if ← Scan.skip quote then return [quote, quote] else return [quote]
  else return []

/-- The rest of a string over several lines, after the characters in `done` in reverse. Only in double quotes does a
backslash escape. -/
def tripleRest (quote : Char) : (fuel : Nat) → (done : List Char) → Scan String
  | 0, _ => failure
  | fuel + 1, done => do
    match ← Scan.optional (tripleEnd quote) with
    | some more => return .ofList (more ++ done).reverse
    | none =>
      match ← Scan.optional lineFeed with
      | some c => tripleRest quote fuel (c :: done)
      | none =>
        let c ← Scan.satisfy isVisible
        if c == '\\' && quote == '"' then
          match ← Scan.optional (do spaces; lineEnd) with
          | some () =>
            blankRest fuel
            tripleRest quote fuel done
          | none =>
            let c ← escaped
            tripleRest quote fuel (c :: done)
        else tripleRest quote fuel (c :: done)

/-- A string over several lines. A line end right after the opening quotes is left out. -/
def tripleText (quote : Char) (fuel : Nat) : Scan String := do
  Scan.word (.ofList [quote, quote, quote])
  let _ ← Scan.optional lineEnd
  tripleRest quote fuel []

/-- A string of any kind. -/
def text (fuel : Nat) : Scan String :=
  tripleText '"' fuel <|> tripleText '\x27' fuel <|> basicText fuel <|> literalText

/-- A character of a name without quotes. -/
def isBare (c : Char) : Bool :=
  c.isAlphanum || c == '_' || c == '-'

/-- One part of a name. -/
def namePart (fuel : Nat) : Scan String := do
  match ← Scan.peek with
  | some '"' => basicText fuel
  | some '\x27' => literalText
  | _ => return .ofList (← Scan.many1 isBare)

/-- The parts of a name, with points between them, after those in `done` in reverse. Blanks may stand around each. -/
def nameParts : (fuel : Nat) → (done : List String) → Scan (List String)
  | 0, _ => failure
  | fuel + 1, done => do
    spaces
    let part ← namePart fuel
    spaces
    if ← Scan.skip '.' then nameParts fuel (part :: done)
    else return (part :: done).reverse

/-- A name: the parts before the last, and the last. -/
def name (fuel : Nat) : Scan (List String × String) := do
  let parts ← nameParts fuel []
  if depthLimit ≤ parts.length then failure
  match parts.getLast? with
  | some last => return (parts.dropLast, last)
  | none => failure

/-- Digits of a kind, with single underscores between them, after those in `done` in reverse. -/
def groupsRest (p : Char → Bool) : (done : List Char) → List Char → List Char × List Char
  | done, '_' :: c :: rest => if p c then groupsRest p (c :: done) rest else (done.reverse, '_' :: c :: rest)
  | done, c :: rest => if p c then groupsRest p (c :: done) rest else (done.reverse, c :: rest)
  | done, [] => (done.reverse, [])

/-- Digits of a kind, with single underscores between them. -/
def groups (p : Char → Bool) : Scan (List Char) := do
  let c ← Scan.satisfy p
  fun cs => some (groupsRest p [c] cs)

/-- The value of digits in a base. -/
def valueIn (base : Nat) (cs : List Char) : Nat :=
  cs.foldl (fun n c => n * base + Scan.hexValue [c]) 0

/-- An integer, if it has at most 64 bits. -/
def word (n : Int) : Scan TomlValue :=
  if leastInt ≤ n && n ≤ greatestInt then return .integer n else failure

/-- An integer in a base other than ten. -/
def based : Scan TomlValue := do
  Scan.char '0'
  let c ← Scan.satisfy fun _ => true
  match c with
  | 'x' => do word (valueIn 16 (← groups Text.isHexDigit))
  | 'o' => do word (valueIn 8 (← groups fun c => '0' ≤ c && c ≤ '7'))
  | 'b' => do word (valueIn 2 (← groups fun c => c == '0' || c == '1'))
  | _ => failure

/-- A sign, if there is one: whether it is a minus. -/
def sign : Scan Bool := do
  if ← Scan.skip '-' then return true
  else
    let _ ← Scan.skip '+'
    return false

/-- The digits before a point: a zero alone, or digits that start with another one. -/
def lead : Scan (List Char) := do
  if ← Scan.skip '0' then return ['0'] else groups Char.isDigit

/-- An exponent, if there is one. -/
def exponent? : Scan (Option Int) := do
  let marked ← if ← Scan.skip 'e' then pure true else Scan.skip 'E'
  if marked then
    let negative ← sign
    let n : Int := Text.digitsOnto 0 (← groups Char.isDigit)
    return some (if negative then -n else n)
  else return none

/-- A number in base ten. A float must not be too large, unless it is negative. -/
def decimal : Scan TomlValue := do
  let negative ← sign
  let digits ← lead
  let fraction ← if ← Scan.skip '.' then some <$> groups Char.isDigit else pure none
  let power ← exponent?
  if fraction.isNone && power.isNone then
    let n : Int := Text.digitsOnto 0 digits
    word (if negative then -n else n)
  else
    let fraction := fraction.getD []
    let size := Text.digitsOnto 0 (digits ++ fraction)
    if !negative && Binary64.overflows size (power.getD 0 - (fraction.length : Nat)) then failure
    else return .float

/-- A float that is no number or infinite. -/
def special : Scan TomlValue := do
  let _ ← sign
  Scan.word "inf" <|> Scan.word "nan"
  return .float

/-- A given number of digits whose value lies between bounds. -/
def digitsBetween (count low high : Nat) : Scan Nat := fun cs =>
  let digits := cs.take count
  let n := Text.digitsOnto 0 digits
  if digits.length == count && digits.all Char.isDigit && low ≤ n && n ≤ high then some (n, cs.drop count) else none

/-- The number of days of a month. -/
def daysOf (year month : Nat) : Nat :=
  if month == 2 then
    if year % 4 == 0 && (year % 100 != 0 || year % 400 == 0) then 29 else 28
  else if month == 4 || month == 6 || month == 9 || month == 11 then 30
  else 31

/-- A day. -/
def day : Scan Unit := do
  let year ← digitsBetween 4 0 9999
  Scan.char '-'
  let month ← digitsBetween 2 1 12
  Scan.char '-'
  let _ ← digitsBetween 2 1 (daysOf year month)

/-- A time of day. -/
def clock : Scan Unit := do
  let _ ← digitsBetween 2 0 23
  Scan.char ':'
  let _ ← digitsBetween 2 0 59
  Scan.char ':'
  let _ ← digitsBetween 2 0 60
  if ← Scan.skip '.' then
    let _ ← Scan.many1 Char.isDigit

/-- A distance from universal time. -/
def zone : Scan Unit := do
  let c ← Scan.satisfy fun c => c == 'Z' || c == 'z' || c == '+' || c == '-'
  if c == '+' || c == '-' then
    let _ ← digitsBetween 2 0 23
    Scan.char ':'
    let _ ← digitsBetween 2 0 59

/-- A day, a time of day, or both. -/
def date : Scan TomlValue := (do
  day
  let _ ← Scan.optional (do
    let _ ← Scan.satisfy fun c => c == 'T' || c == 't' || c == ' '
    clock
    Scan.optional zone)
  return .date) <|> do
  clock
  return .date

/-- A number or a date. -/
def number : Scan TomlValue :=
  date <|> based <|> special <|> decimal

mutual

/-- A value that starts here. -/
def value (depth : Nat) : (fuel : Nat) → Scan TomlValue
  | 0 => failure
  | fuel + 1 => do
    match ← Scan.peek with
    | none => failure
    | some c =>
      if c == '"' || c == '\x27' then return .string (← text fuel)
      else if c == '[' then
        if depthLimit ≤ depth + 1 then failure
        Scan.char c
        return .array (← items (depth + 1) fuel [])
      else if c == '\x7b' then
        if depthLimit ≤ depth + 1 then failure
        Scan.char c
        spaces
        if ← Scan.skip '\x7d' then return .closed []
        else return .closed (← entries (depth + 1) fuel [])
      else if c == 't' then Scan.word "true"; return .bool true
      else if c == 'f' then Scan.word "false"; return .bool false
      else number

/-- The items of an array from one on, with those before it in reverse. A comma may stand after the last. -/
def items (depth : Nat) : (fuel : Nat) → (done : List TomlValue) → Scan (List TomlValue)
  | 0, _ => failure
  | fuel + 1, done => do
    blankLines fuel
    if ← Scan.skip ']' then return done.reverse
    else
      let v ← value depth fuel
      blankLines fuel
      if ← Scan.skip ',' then items depth fuel (v :: done)
      else
        Scan.char ']'
        return (v :: done).reverse

/-- The entries of a table in braces from one on, with those before it. -/
def entries (depth : Nat) : (fuel : Nat) → TomlTable → Scan TomlTable
  | 0, _ => failure
  | fuel + 1, table => do
    let (names, last) ← name fuel
    Scan.char '='
    spaces
    let v ← value depth fuel
    match TomlTable.assign table names last v with
    | none => failure
    | some table =>
      spaces
      if ← Scan.skip ',' then entries depth fuel table
      else
        Scan.char '\x7d'
        return table

end

/-- A document on the way: its table, and the names of the latest header. -/
structure Draft where
  /-- The table so far. -/
  table : TomlTable := []
  /-- The names of the latest header. -/
  header : List String := []

/-- A header, in single or double brackets. -/
def header (fuel : Nat) (draft : Draft) : Scan Draft := do
  Scan.char '['
  let double ← Scan.skip '['
  let (names, last) ← name fuel
  Scan.char ']'
  if double then Scan.char ']'
  let opened := if double then draft.table.openItem names last else draft.table.openTable names last
  match opened with
  | some table => return { table, header := names ++ [last] }
  | none => failure

/-- A name with its value. -/
def assignment (fuel : Nat) (draft : Draft) : Scan Draft := do
  let (names, last) ← name fuel
  Scan.char '='
  spaces
  let v ← value 0 fuel
  match draft.table.assignIn draft.header names last v with
  | some table => return { draft with table }
  | none => failure

/-- The lines of a document from one on. -/
def lines : (fuel : Nat) → Draft → Scan TomlTable
  | 0, _ => failure
  | fuel + 1, draft => do
    spaces
    match ← Scan.peek with
    | none => return draft.table
    | some c =>
      let draft ← if c == '#' || c == '\n' || c == '\r' then pure draft
        else if c == '[' then header fuel draft
        else assignment fuel draft
      lineRest
      lines fuel draft

end Toml

namespace TomlTable

/-- The table a document holds. A byte order mark at its start is skipped. Every line, name, value or part of one takes
a character, which bounds the rounds. -/
def parse? (document : String) : Option TomlTable :=
  let cs := document.toList
  Scan.whole (do
    let _ ← Scan.skip '\ufeff'
    Toml.lines (2 * cs.length + 2) {}) cs

end TomlTable

end LineScript
