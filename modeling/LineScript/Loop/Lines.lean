import LineScript.Files.Tree

/-!
# Lines of a file

A read loop goes through the lines of a file. A line longer than 65535 bytes is cut into pieces of that size; a line
end that directly follows such a piece belongs to it. The file is read through a window of 8192 bytes, and a carriage
return at the very end of the window is taken as the first half of a line end.
-/

namespace LineScript

/-- A file on the way through its lines: the names that lead to it, the bytes read, and the end of the window. A source
that was closed has no more lines; a folder can be opened but not read. -/
inductive LineCursor where
  | closed
  | folder
  | file (names : List String) (taken filled : Nat)
  deriving DecidableEq

namespace LineCursor

/-- The most bytes handed out at once. -/
def maxLine : Nat := 65535

/-- The bytes read into the window at once. -/
def windowSize : Nat := 8192

/-- Opens the file at a path. A path that leads nowhere gives no lines. -/
def start (files : Files) (path : String) : LineCursor :=
  match files.find path with
  | .ok (.entry names (.file ..)) => file names 0 0
  | .ok _ => folder
  | .error _ => closed

/-- The end of a line that goes on at `i`: after its line feed, or after `left` bytes. -/
def lineEnd (bytes : ByteArray) : (left : Nat) → (i : Nat) → Nat
  | 0, i => i
  | left + 1, i => if bytes[i]? == some 10 then i + 1 else lineEnd bytes left (i + 1)

/-- The end of the window once it reaches `target`, at most `size`. -/
def refill (filled target size : Nat) : Nat :=
  if target ≤ filled then filled
  else min size (filled + (target - filled + windowSize - 1) / windowSize * windowSize)

/-- The byte at a position, if there is one before `stop`. -/
def byteBefore (bytes : ByteArray) (stop i : Nat) : Option UInt8 :=
  if i < stop then bytes[i]? else none

/-- Passes over a line end that directly follows a full piece, as far as the window shows it. Gives the new position and
the end of the window. -/
def skipLineEnd (bytes : ByteArray) (taken filled : Nat) : Nat × Nat :=
  let filled := if filled == taken then min bytes.size (filled + windowSize) else filled
  match byteBefore bytes filled taken with
  | some 10 => (taken + 1, filled)
  | some 13 =>
    if taken + 1 < filled then
      if bytes[taken + 1]? == some 10 then (taken + 2, filled) else (taken, filled)
    else
      let filled := min bytes.size (filled + windowSize)
      if byteBefore bytes filled (taken + 1) == some 10 then (taken + 2, filled) else (taken + 1, filled)
  | _ => (taken, filled)

/-- Bytes without the line feeds and carriage returns at their end. -/
def dropLineEnd (bytes : List UInt8) : List UInt8 :=
  (bytes.reverse.dropWhile fun b => b == 10 || b == 13).reverse

/-- The next piece of a file's bytes, if there is one, with the new position and the end of the window. -/
def nextPiece (bytes : ByteArray) (taken filled : Nat) : Option (List UInt8 × Nat × Nat) :=
  let stop := lineEnd bytes (min maxLine (bytes.size - taken)) taken
  if stop ≤ taken then none
  else
    let piece := (bytes.extract taken stop).toList
    let full := stop - taken == maxLine && bytes[stop - 1]? != some 10
    let atEnd := !full && bytes[stop - 1]? != some 10
    let filled := refill filled (if atEnd then bytes.size else stop) bytes.size
    let (taken, filled) := if full then skipLineEnd bytes stop filled else (stop, filled)
    some (dropLineEnd piece, taken, filled)

/-- The next line, if there is one. -/
def next (files : Files) (c : LineCursor) : Except FileError (Option String × LineCursor) :=
  match c with
  | closed => .ok (none, closed)
  | folder => .error .isFolder
  | file names taken filled =>
    match nextPiece ((files.content? names).getD .empty) taken filled with
    | none => .ok (none, closed)
    | some (piece, taken, filled) => .ok (some (.ofList (Utf8.read piece).done.reverse), file names taken filled)

end LineCursor

end LineScript
