import LineScript.Binary64
import LineScript.Json.Basic
import LineScript.Text.Scan

/-!
# Reading JSON

A reader for JSON documents. Blanks are spaces, tabs and line ends; nothing else may stand around or between values.
-/

namespace LineScript

namespace JsonValue

/-- The blanks of JSON. -/
def isSpace (c : Char) : Bool :=
  c == ' ' || c == '\t' || c == '\n' || c == '\r'

/-- Skips blanks. -/
def spaces : Scan Unit := do
  let _ ← Scan.many isSpace

/-- A string on the way: its characters in reverse, the first half of a surrogate pair if one has just been read, and
whether all is well so far. -/
structure Spelling where
  /-- The characters, in reverse. -/
  done : List Char := []
  /-- The first half of a surrogate pair. -/
  high : Option Nat := none
  /-- Whether all is well so far. -/
  readable : Bool := true

namespace Spelling

/-- Adds a character. -/
def push (s : Spelling) (c : Char) : Spelling :=
  { done := c :: s.done, readable := s.readable && s.high.isNone }

/-- Adds an escaped unit of sixteen bits. -/
def pushUnit (s : Spelling) (n : Nat) : Spelling :=
  if 0xD800 ≤ n && n < 0xDC00 then { s with high := some n, readable := s.readable && s.high.isNone }
  else if 0xDC00 ≤ n && n < 0xE000 then
    match s.high with
    | some h => { s with done := Char.ofNat (0x10000 + (h - 0xD800) * 0x400 + (n - 0xDC00)) :: s.done, high := none }
    | none => { s with readable := false }
  else s.push (Char.ofNat n)

/-- The string, if it can be read. -/
def text? (s : Spelling) : Option String :=
  if s.readable && s.high.isNone then some (.ofList s.done.reverse) else none

end Spelling

/-- The character that an escape of one letter stands for. -/
def escape? : Char → Option Char
  | '"' => some '"'
  | '\\' => some '\\'
  | '/' => some '/'
  | 'b' => some '\x08'
  | 'f' => some '\x0c'
  | 'n' => some '\n'
  | 'r' => some '\r'
  | 't' => some '\t'
  | _ => none

/-- Reads a string after its opening quote. Gives `none` for one that cannot be read. -/
def spell : Spelling → Scan (Option String)
  | _, [] => none
  | s, '"' :: rest => some (s.text?, rest)
  | s, '\\' :: 'u' :: a :: b :: c :: d :: rest =>
    if [a, b, c, d].all Text.isHexDigit then spell (s.pushUnit (Scan.hexValue [a, b, c, d])) rest else none
  | s, '\\' :: c :: rest =>
    match escape? c with
    | some c => spell (s.push c) rest
    | none => none
  | s, c :: rest => if c < ' ' then none else spell (s.push c) rest

/-- Reads a string. -/
def quotedText : Scan (Option String) := do
  Scan.char '"'
  spell {}

/-- Reads digits that do not start with a zero, unless it is the only one. -/
def leadDigits : Scan (List Char) := do
  let c ← Scan.satisfy Char.isDigit
  if c == '0' then
    match ← Scan.peek with
    | some d => if d.isDigit then failure else return [c]
    | none => return [c]
  else
    let cs ← Scan.many Char.isDigit
    return c :: cs

/-- Digits with another one behind them, as long as the number fits into 64 bits. -/
def withDigit? (digits : Nat) (c : Char) : Option Nat :=
  let n := Text.digitsOnto digits [c]
  if n < values64 then some n else none

/-- The digits before a point that fit into 64 bits, and the number of those left over. -/
def wholeOnto : (digits : Nat) → List Char → Nat × Nat
  | digits, [] => (digits, 0)
  | digits, c :: cs =>
    match withDigit? digits c with
    | some n => wholeOnto n cs
    | none => (digits, cs.length + 1)

/-- The digits after a point that still fit, and the number of those taken. -/
def fractionOnto : (digits taken : Nat) → List Char → Nat × Nat
  | digits, taken, [] => (digits, taken)
  | digits, taken, c :: cs =>
    match withDigit? digits c with
    | some n => fractionOnto n (taken + 1) cs
    | none => (digits, taken)

/-- Whether digits times a power of ten are finite when both are rounded to doubles and then multiplied. -/
def isFinite (digits : Nat) (power : Int) : Bool :=
  digits == 0 || power < 0 ||
    (power ≤ 308 && (Float.ofScientific digits false 0 * Float.ofScientific 1 false power.toNat).isFinite)

/-- Whether a number can be read. It is cut to the digits that fit into 64 bits, and integers of no more digits than
that always can. -/
def inRange (lead : List Char) (fraction : List Char) (power : Int) : Bool :=
  let (digits, left) := wholeOnto 0 lead
  let (digits, taken) := fractionOnto digits 0 fraction
  isFinite digits (left - taken + power)

/-- Reads an exponent after its mark. -/
def exponent : Scan Int := do
  let negative ← Scan.skip '-'
  if !negative then
    let _ ← Scan.skip '+'
  let cs ← Scan.many1 Char.isDigit
  let n : Int := Text.digitsOnto 0 cs
  return if negative then -n else n

/-- Reads a number. Negative zero is no integer. -/
def number : Scan JsonValue := do
  let negative ← Scan.skip '-'
  let lead ← leadDigits
  let fraction ← if ← Scan.skip '.' then some <$> Scan.many1 Char.isDigit else pure none
  let marked ← if ← Scan.skip 'e' then pure true else Scan.skip 'E'
  let power ← if marked then some <$> exponent else pure none
  let digits := lead ++ fraction.getD []
  let shift := power.getD 0 - ((fraction.getD []).length : Nat)
  let size := Text.digitsOnto 0 digits
  let n : Int := if negative then -size else size
  if !inRange lead (fraction.getD []) (power.getD 0) then return unreadable
  else if fraction.isNone && power.isNone && !(negative && n == 0) then return .integer n
  else return .real n shift

/-- An object, unless one of its names cannot be read. -/
def ofFields (fields : List (Option String × JsonValue)) : JsonValue :=
  match fields.mapM fun (name, v) => name.map fun name => (name, v) with
  | some fields => object fields
  | none => unreadable

mutual

/-- Reads a value that starts here. -/
def value : (fuel : Nat) → Scan JsonValue
  | 0 => failure
  | fuel + 1 => do
    match ← Scan.peek with
    | none => failure
    | some c =>
      if c == '\x7b' then
        Scan.char c
        spaces
        if ← Scan.skip '\x7d' then return object []
        else return ofFields (← fields fuel [])
      else if c == '[' then
        Scan.char c
        spaces
        if ← Scan.skip ']' then return array []
        else return array (← items fuel [])
      else if c == '"' then return ((← quotedText).map string).getD unreadable
      else if c == 't' then Scan.word "true"; return bool true
      else if c == 'f' then Scan.word "false"; return bool false
      else if c == 'n' then Scan.word "null"; return null
      else number

/-- Reads the items of an array from one on, with those before it in reverse. -/
def items : (fuel : Nat) → (done : List JsonValue) → Scan (List JsonValue)
  | 0, _ => failure
  | fuel + 1, done => do
    let v ← value fuel
    spaces
    if ← Scan.skip ',' then
      spaces
      items fuel (v :: done)
    else
      Scan.char ']'
      return (v :: done).reverse

/-- Reads the fields of an object from one on, with those before it in reverse. -/
def fields : (fuel : Nat) → (done : List (Option String × JsonValue)) → Scan (List (Option String × JsonValue))
  | 0, _ => failure
  | fuel + 1, done => do
    let name ← quotedText
    spaces
    Scan.char ':'
    spaces
    let v ← value fuel
    spaces
    if ← Scan.skip ',' then
      spaces
      fields fuel ((name, v) :: done)
    else
      Scan.char '\x7d'
      return ((name, v) :: done).reverse

end

/-- The value a document holds. Reading a value or a part of one takes a character, which bounds the nesting. -/
def parse? (document : String) : Option JsonValue :=
  let cs := document.toList
  Scan.whole (do
    spaces
    let v ← value (2 * cs.length + 2)
    spaces
    return v) cs

end JsonValue

end LineScript
