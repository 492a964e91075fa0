import LineScript.Problem
import LineScript.Word

/-!
# The scratch buffer

The expanded text of running lines is held in one buffer with a ceiling. Room is reserved before text is written; the
capacity grows to powers of two and never shrinks. What a line wrote is given back when it is done, last written first.
-/

namespace LineScript

/-- The buffer: the pieces written to it, last first, its capacity in bytes and its ceiling. -/
structure Scratch where
  /-- The pieces held, last written first. -/
  pieces : List String := []
  /-- The bytes it has room for. -/
  capacity : Nat := 0
  /-- The most bytes it may hold. -/
  limit : Nat
  deriving DecidableEq

namespace Scratch

/-- The text held. -/
def contents (s : Scratch) : String :=
  s.pieces.foldl (fun text piece => piece ++ text) ""

/-- The number of bytes held. -/
def size (s : Scratch) : Nat :=
  s.pieces.foldl (fun n piece => n + piece.utf8ByteSize) 0

/-- A place in the buffer to go back to: the number of pieces held. -/
def mark (s : Scratch) : Nat :=
  s.pieces.length

/-- Gives back what was written since a mark. The capacity stays. -/
def release (s : Scratch) (mark : Nat) : Scratch :=
  { s with pieces := s.pieces.drop (s.pieces.length - mark) }

/-- The least power of two that is at least `n`, tried from `p` on by doubling. -/
def powerFrom : (fuel : Nat) → (p n : Nat) → Nat
  | 0, p, _ => p
  | fuel + 1, p, n => if n ≤ p then p else powerFrom fuel (2 * p) n

/-- The least power of two that is at least `n`. -/
def powerOfTwo (n : Nat) : Nat :=
  powerFrom (Nat.log2 n + 2) 1 n

/-- The number of bytes a machine can address. -/
def wordLimit : Nat := values64 - 1

/-- Makes room for more bytes: up to the ceiling, in powers of two. -/
def reserve (s : Scratch) (additional : Nat) : Except Problem Scratch :=
  let needed := min wordLimit (s.size + additional)
  if needed ≤ s.capacity then .ok s
  else if s.limit < needed then .error (.outOfMemory needed s.limit)
  else .ok { s with capacity := min (powerOfTwo needed) s.limit }

/-- Writes a text. Where no room was reserved the capacity at least doubles. -/
def push (s : Scratch) (text : String) : Scratch :=
  let needed := s.size + text.utf8ByteSize
  let capacity := if needed ≤ s.capacity then s.capacity else max 8 (max (2 * s.capacity) needed)
  { s with pieces := text :: s.pieces, capacity }

/-- The text between two byte offsets, empty where there is none. -/
def get (s : Scratch) (start stop : Nat) : String :=
  Text.slice s.contents start stop

end Scratch

end LineScript
