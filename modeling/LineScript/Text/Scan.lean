import LineScript.Text.Basic

/-!
# Scanning texts

Small readers of a list of characters. A reader takes some characters off the front and gives what they stand for, or
fails and takes none.
-/

namespace LineScript

/-- A reader of characters. -/
abbrev Scan (α : Type) := StateT (List Char) Option α

namespace Scan

/-- The next character, left where it is. -/
def peek : Scan (Option Char) :=
  fun cs => some (cs.head?, cs)

/-- Whether a character comes next. -/
def isNext (c : Char) : Scan Bool :=
  fun cs => some (cs.head? == some c, cs)

/-- Whether no characters are left. -/
def atEnd : Scan Bool :=
  fun cs => some (cs.isEmpty, cs)

/-- The next character, if it satisfies `p`. -/
def satisfy (p : Char → Bool) : Scan Char
  | [] => none
  | c :: cs => if p c then some (c, cs) else none

/-- A given character. -/
def char (c : Char) : Scan Unit := do
  let _ ← satisfy (· == c)

/-- Takes a character if it comes next. Says whether it did. -/
def skip (c : Char) : Scan Bool
  | [] => some (false, [])
  | x :: cs => if x == c then some (true, cs) else some (false, x :: cs)

/-- The characters up to the first that does not satisfy `p`. -/
def many (p : Char → Bool) : Scan (List Char) :=
  fun cs => some (cs.span p)

/-- The characters up to the first that does not satisfy `p`, at least one. -/
def many1 (p : Char → Bool) : Scan (List Char) := do
  let c ← satisfy p
  let cs ← many p
  return c :: cs

/-- A given text. -/
def word (s : String) : Scan Unit :=
  fun cs => if s.toList.isPrefixOf cs then some ((), cs.drop s.length) else none

/-- What a reader gives, if it gives anything. -/
def optional {α : Type} (scan : Scan α) : Scan (Option α) := do
  (some <$> scan) <|> return none

/-- A whole text read by a reader. -/
def whole {α : Type} (scan : Scan α) (cs : List Char) : Option α :=
  match scan cs with
  | some (a, []) => some a
  | _ => none

/-- The value of hexadecimal digits. -/
def hexValue (cs : List Char) : Nat :=
  cs.foldl (fun n c => n * 16 +
    (if c.isDigit then c.toNat - '0'.toNat else c.toLower.toNat - 'a'.toNat + 10)) 0

/-- A given number of hexadecimal digits. -/
def hexDigits : Nat → Scan (List Char)
  | 0 => return []
  | n + 1 => do
    let c ← satisfy Text.isHexDigit
    let cs ← hexDigits n
    return c :: cs

end Scan

end LineScript
