import LineScript.Text.Runs

/-!
# Texts

Trimming, ASCII case and byte positions. Texts are `String`s, worked on through their lists of characters; lengths and
offsets count UTF-8 bytes, so a cut is only defined where a character ends.
-/

namespace LineScript

namespace Text

/-- The characters of the Unicode property White_Space. -/
def blankRuns : List CodeRun := [
  (0x9, 0xD, 1), (0x20, 0x20, 1), (0x85, 0x85, 1), (0xA0, 0xA0, 1), (0x1680, 0x1680, 1), (0x2000, 0x200A, 1),
  (0x2028, 0x2029, 1), (0x202F, 0x202F, 1), (0x205F, 0x205F, 1), (0x3000, 0x3000, 1)]

/-- White space of any script. -/
def isBlank (c : Char) : Bool :=
  inRuns blankRuns c.toNat

/-- A space or a tab. -/
def isSpaceOrTab (c : Char) : Bool :=
  c == ' ' || c == '\t'

/-- A hexadecimal digit. -/
def isHexDigit (c : Char) : Bool :=
  c.isDigit || ('a' ≤ c && c ≤ 'f') || ('A' ≤ c && c ≤ 'F')

/-- A list without the elements at either end that satisfy `p`. -/
def trimList (p : Char → Bool) (cs : List Char) : List Char :=
  (((cs.dropWhile p).reverse).dropWhile p).reverse

/-- A text without the characters at either end that satisfy `p`. -/
def trimBy (p : Char → Bool) (s : String) : String :=
  .ofList (trimList p s.toList)

/-- A text without white space at either end. -/
def trim (s : String) : String :=
  trimBy isBlank s

/-- A text without spaces and tabs at either end. -/
def trimTabs (s : String) : String :=
  trimBy isSpaceOrTab s

/-- A text with its ASCII capitals made small. -/
def asciiLower (s : String) : String :=
  .ofList (s.toList.map Char.toLower)

/-- A text with its ASCII small letters made capital. -/
def asciiUpper (s : String) : String :=
  .ofList (s.toList.map Char.toUpper)

/-- Equality of texts up to ASCII case. -/
def sameAscii (a b : String) : Bool :=
  asciiLower a == asciiLower b

/-- Whether a text holds a character. -/
def has (s : String) (c : Char) : Bool :=
  s.toList.contains c

/-- The number of UTF-8 bytes of a list of characters. -/
def byteSize (cs : List Char) : Nat :=
  cs.foldl (fun n c => n + c.utf8Size) 0

/-- Cuts a list of characters after its first `n` bytes, with `taken` in reverse before it; there is no cut inside a
character or past the end. -/
def cutOnto : (taken : List Char) → List Char → Nat → Option (List Char × List Char)
  | taken, cs, 0 => some (taken.reverse, cs)
  | _, [], _ + 1 => none
  | taken, c :: cs, n + 1 => if c.utf8Size ≤ n + 1 then cutOnto (c :: taken) cs (n + 1 - c.utf8Size) else none

/-- Cuts a list of characters after its first `n` bytes. -/
def cut? (cs : List Char) (n : Nat) : Option (List Char × List Char) :=
  cutOnto [] cs n

/-- The part of a text between two byte offsets, if both stand between characters and in order. -/
def slice? (s : String) (start stop : Nat) : Option String :=
  if stop < start then none
  else do
    let (_, rest) ← cut? s.toList start
    let (part, _) ← cut? rest (stop - start)
    return .ofList part

/-- The part of a text between two byte offsets, empty where there is none. -/
def slice (s : String) (start stop : Nat) : String :=
  (slice? s start stop).getD ""

/-- The characters of a list with the byte offset of each, counted from `start`. -/
def withOffsets (start : Nat) (cs : List Char) : List (Nat × Char) :=
  (cs.foldl (fun (acc : List (Nat × Char) × Nat) c => ((acc.2, c) :: acc.1, acc.2 + c.utf8Size)) ([], start)).1.reverse

/-- The position, counted from `i`, where `needle` first occurs. -/
def findFrom (needle : List Char) : Nat → List Char → Option Nat
  | i, [] => if needle.isEmpty then some i else none
  | i, c :: cs => if needle.isPrefixOf (c :: cs) then some i else findFrom needle (i + 1) cs

/-- Whether `needle` occurs in `hay`. -/
def occursIn (needle hay : List Char) : Bool :=
  (findFrom needle 0 hay).isSome

/-- The pieces of a list between the elements that satisfy `p`: `done` holds the finished pieces and `piece` the
elements of the current one, both in reverse. -/
def splitOnto {α : Type} (p : α → Bool) : (done : List (List α)) → (piece : List α) → List α → List (List α)
  | done, piece, [] => (piece.reverse :: done).reverse
  | done, piece, c :: cs =>
    if p c then splitOnto p (piece.reverse :: done) [] cs else splitOnto p done (c :: piece) cs

/-- The pieces of a list between the elements that satisfy `p`; one more than there are such elements. -/
def splitBy {α : Type} (p : α → Bool) (cs : List α) : List (List α) :=
  splitOnto p [] [] cs

/-- Texts joined with a separator between neighbours. -/
def joinWith (separator : String) (parts : List String) : String :=
  separator.intercalate parts

/-- A text filled up with spaces on the right to at least `width` characters. -/
def padRight (width : Nat) (s : String) : String :=
  s ++ .ofList (List.replicate (width - s.toList.length) ' ')

/-- A text filled up with spaces on the left to at least `width` characters. -/
def padLeft (width : Nat) (s : String) : String :=
  .ofList (List.replicate (width - s.toList.length) ' ') ++ s

/-- A text between double quotes. -/
def quoted (s : String) : String :=
  "\"" ++ s ++ "\""

/-- An ordering of texts by their characters' code points, which is also the order of their UTF-8 bytes. -/
def order (a b : String) : Ordering :=
  if a < b then .lt else if a == b then .eq else .gt

/-- The value of a list of decimal digits, read after `n`. -/
def digitsOnto (n : Nat) (cs : List Char) : Nat :=
  cs.foldl (fun n c => n * 10 + (c.toNat - '0'.toNat)) n

/-- The natural number a text of decimal digits stands for. -/
def natOfDigits? (cs : List Char) : Option Nat :=
  if cs.isEmpty || !cs.all Char.isDigit then none else some (digitsOnto 0 cs)

/-- The integer a text stands for: decimal digits after an optional sign. -/
def intOfDigits? : List Char → Option Int
  | '-' :: cs => (natOfDigits? cs).map fun n => - (n : Int)
  | '+' :: cs => (natOfDigits? cs).map fun n => (n : Int)
  | cs => (natOfDigits? cs).map fun n => (n : Int)

/-- The integer a text stands for, if it lies between the bounds. -/
def intBetween? (low high : Int) (s : String) : Option Int :=
  (intOfDigits? s.toList).filter fun n => low ≤ n && n ≤ high

end Text

end LineScript
