/-!
# Bytes to text

`Utf8.decode` reads bytes as UTF-8 and puts U+FFFD for every longest run of bytes that starts a character but does not
finish one, and for every byte that starts none. `Utf8.strict?` accepts valid bytes only.
-/

namespace LineScript

namespace Utf8

/-- A character whose first bytes have been read: how many bytes are missing, between which bounds the next one must
lie, and the bits read so far. -/
structure Partial where
  /-- Continuation bytes still missing. -/
  missing : Nat
  /-- Least value of the next byte. -/
  low : Nat
  /-- Greatest value of the next byte. -/
  high : Nat
  /-- The bits read so far. -/
  bits : Nat

/-- What a byte in first position stands for: a character of its own, the start of a longer one, or nothing. -/
inductive Lead where
  | single (c : Char)
  | start (p : Partial)
  | invalid

/-- Reads a byte in first position. Over-long forms, surrogates and code points past U+10FFFF are excluded by the
bounds on the second byte. -/
def lead (b : Nat) : Lead :=
  if b < 0x80 then .single (Char.ofNat b)
  else if b < 0xC2 then .invalid
  else if b < 0xE0 then .start ⟨1, 0x80, 0xBF, b - 0xC0⟩
  else if b == 0xE0 then .start ⟨2, 0xA0, 0xBF, 0⟩
  else if b == 0xED then .start ⟨2, 0x80, 0x9F, 0xD⟩
  else if b < 0xF0 then .start ⟨2, 0x80, 0xBF, b - 0xE0⟩
  else if b == 0xF0 then .start ⟨3, 0x90, 0xBF, 0⟩
  else if b < 0xF4 then .start ⟨3, 0x80, 0xBF, b - 0xF0⟩
  else if b == 0xF4 then .start ⟨3, 0x80, 0x8F, 4⟩
  else .invalid

/-- The state of the reader: the characters read, in reverse, whether every byte fitted so far, and the character under
way. -/
structure Reader where
  /-- Characters read, last first. -/
  done : List Char := []
  /-- No byte was replaced. -/
  clean : Bool := true
  /-- The character under way. -/
  pending : Option Partial := none

/-- The replacement character, put for bytes that are no character. -/
def replacement : Char := '\uFFFD'

/-- Reads a byte in first position. -/
def Reader.begin (r : Reader) (b : Nat) : Reader :=
  match lead b with
  | .single c => { r with done := c :: r.done, pending := none }
  | .start p => { r with pending := some p }
  | .invalid => { r with done := replacement :: r.done, clean := false, pending := none }

/-- Reads one byte. A byte that does not continue the character under way ends it as a replacement and is read anew. -/
def Reader.step (r : Reader) (b : UInt8) : Reader :=
  let b := b.toNat
  match r.pending with
  | none => r.begin b
  | some p =>
    if p.low ≤ b && b ≤ p.high then
      let bits := p.bits * 64 + (b - 0x80)
      if p.missing ≤ 1 then { r with done := Char.ofNat bits :: r.done, pending := none }
      else { r with pending := some ⟨p.missing - 1, 0x80, 0xBF, bits⟩ }
    else Reader.begin { r with done := replacement :: r.done, clean := false } b

/-- Ends the reading; a character under way becomes a replacement. -/
def Reader.finish (r : Reader) : Reader :=
  match r.pending with
  | none => r
  | some _ => { r with done := replacement :: r.done, clean := false, pending := none }

/-- The reader after all bytes. -/
def read (bytes : List UInt8) : Reader :=
  (bytes.foldl Reader.step {}).finish

/-- The text of some bytes, with U+FFFD where they are not UTF-8. -/
def decode (bytes : ByteArray) : String :=
  .ofList (read bytes.toList).done.reverse

/-- The text of some bytes, if they are UTF-8. -/
def strict? (bytes : ByteArray) : Option String :=
  let r := read bytes.toList
  if r.clean then some (.ofList r.done.reverse) else none

end Utf8

end LineScript
