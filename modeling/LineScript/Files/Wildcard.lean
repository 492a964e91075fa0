import LineScript.Text.Basic
import LineScript.Text.Fold

/-!
# Wildcards

A pattern in which `*` stands for any characters and `?` for any one character, line feeds aside. All other characters
stand for themselves, case aside, and the whole name must match.

The stars cut a pattern into pieces. The first piece must stand at the front of the name, the last one at its end, and
each piece between at its first place after the one before: what a star passes over holds no line feed, so a piece
without line feeds leaves the most room at its first place, and one with a line feed has no other place.
-/

namespace LineScript

namespace Wildcard

/-- The pieces of a pattern between its stars. -/
def pieces (pattern : String) : List (List Char) :=
  Text.splitBy (· == '*') pattern.toList

/-- Whether a character of a piece stands for a character of a name. -/
def fits (p c : Char) : Bool :=
  if p == '?' then c != '\n' else Text.sameFolded p c

/-- What is left of a name after a piece at its front. -/
def strip? : (piece : List Char) → List Char → Option (List Char)
  | [], cs => some cs
  | _ :: _, [] => none
  | p :: ps, c :: cs => if fits p c then strip? ps cs else none

/-- What is left of a name after a piece at its first place that a star can reach. -/
def seek? (piece : List Char) : List Char → Option (List Char)
  | [] => strip? piece []
  | c :: cs =>
    match strip? piece (c :: cs) with
    | some rest => some rest
    | none => if c == '\n' then none else seek? piece cs

/-- Whether a piece stands at the end of a name, and a star can reach it. -/
def closes (piece cs : List Char) : Bool :=
  let gap := cs.length - piece.length
  piece.length ≤ cs.length && !(cs.take gap).contains '\n' && (strip? piece (cs.drop gap)).isSome

/-- Whether the pieces that each follow a star match the rest of a name. -/
def acceptsRest : (pieces : List (List Char)) → List Char → Bool
  | [], cs => cs.isEmpty
  | [piece], cs => closes piece cs
  | piece :: rest, cs =>
    match seek? piece cs with
    | some cs => acceptsRest rest cs
    | none => false

/-- Whether the pieces of a pattern match all characters of a name. -/
def acceptsAll (pieces : List (List Char)) (cs : List Char) : Bool :=
  match pieces with
  | [] => cs.isEmpty
  | piece :: rest =>
    match strip? piece cs with
    | some cs => acceptsRest rest cs
    | none => false

/-- Whether a pattern matches a name. -/
def accepts (pattern name : String) : Bool :=
  acceptsAll (pieces pattern) name.toList

end Wildcard

end LineScript
