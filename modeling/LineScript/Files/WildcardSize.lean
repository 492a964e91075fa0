import LineScript.Files.Wildcard

/-!
# The size of a wildcard

A pattern stands for two automata over UTF-8 bytes, one that reads a name forwards and one that reads it backwards.
Neither may take more than ten mebibytes; a pattern that needs more is refused. This module measures them.

A set of characters is a list of byte sequences, each a list of byte ranges. Forwards, sequences share the states from
which the same is left to be read; backwards, they share the states of a common start.
-/

namespace LineScript

namespace Wildcard

/-- The least and the greatest of some neighbouring bytes. -/
abbrev ByteRange := Nat × Nat

/-- The ranges that the bytes of a character lie in, first byte first. -/
abbrev ByteRanges := List ByteRange

/-- The bytes of a state. -/
def stateSize : Nat := 32

/-- The bytes of a transition. -/
def transitionSize : Nat := 8

/-- The bytes of an alternative. -/
def alternativeSize : Nat := 4

/-- The greatest size of an automaton, in bytes. -/
def maxSize : Nat := 10485760

/-- The sizes of the two automata. -/
structure Size where
  /-- The bytes of the automaton that reads forwards. -/
  forward : Nat
  /-- The bytes of the automaton that reads backwards. -/
  backward : Nat
  deriving DecidableEq

namespace Size

instance : Add Size := ⟨fun a b => { forward := a.forward + b.forward, backward := a.backward + b.backward }⟩

/-- Automata of the same size either way. -/
def both (n : Nat) : Size :=
  { forward := n, backward := n }

/-- What every pattern needs: the start, both ends of the name and acceptance, and forwards the two ends of the match. -/
def frame : Size :=
  { forward := 6 * stateSize, backward := 4 * stateSize }

/-- Whether neither automaton is too large. -/
def isAllowed (s : Size) : Bool :=
  s.forward ≤ maxSize && s.backward ≤ maxSize

end Size

/-- The bytes of a character, each a range of its own. -/
def encode (c : Char) : ByteRanges :=
  (String.singleton c).toUTF8.toList.map fun b => (b.toNat, b.toNat)

/-- Joins two sequences that differ in the last byte only, where the ranges of that byte are neighbours. -/
def join? : ByteRanges → ByteRanges → Option ByteRanges
  | [(a, b)], [(c, d)] => if b + 1 == c then some [(a, d)] else none
  | a :: as, b :: bs => if a == b then (join? as bs).map (a :: ·) else none
  | _, _ => none

/-- The sequences of characters in ascending order, neighbours joined. -/
def sequences (cs : List Char) : List ByteRanges :=
  cs.foldr (fun c found =>
    match found with
    | [] => [encode c]
    | next :: rest =>
      match join? (encode c) next with
      | some joined => joined :: rest
      | none => encode c :: next :: rest) []

/-- What is left of the sequences that start with a range, after it. -/
def after (range : ByteRange) (seqs : List ByteRanges) : List ByteRanges :=
  seqs.filterMap fun
    | [] => none
    | r :: rest => if r == range then some rest else none

/-- The ranges that some sequences start with. -/
def starts (seqs : List ByteRanges) : List ByteRange :=
  (seqs.filterMap List.head?).eraseDups

/-- The sets of sequences that are left to be read on the way through some, with repetitions. A character has at most
four bytes. -/
def remainders : (depth : Nat) → List ByteRanges → List (List ByteRanges)
  | 0, _ => []
  | depth + 1, seqs =>
    match starts seqs with
    | [] => []
    | ranges => seqs :: ranges.flatMap fun range => remainders depth (after range seqs)

/-- The nonempty starts of a sequence. -/
def leads (seq : ByteRanges) : List ByteRanges :=
  (List.range seq.length).map fun n => seq.take (n + 1)

/-- The size of a set of characters: an end, and forwards a state for each set of sequences left to be read, backwards a
choice of sequences with a state for each start of one. -/
def setSize (seqs : List ByteRanges) : Size :=
  let nodes := (remainders 4 seqs).eraseDups
  let transitions := nodes.foldl (fun n node => n + (starts node).length) 0
  { forward := stateSize * (1 + nodes.length) + transitionSize * transitions
    backward := stateSize * (2 + (seqs.flatMap leads).eraseDups.length) + alternativeSize * seqs.length }

/-- The sequences of all characters but the line feed. -/
def anySequences : List ByteRanges := [
  [(0x00, 0x09)], [(0x0B, 0x7F)],
  [(0xC2, 0xDF), (0x80, 0xBF)],
  [(0xE0, 0xE0), (0xA0, 0xBF), (0x80, 0xBF)],
  [(0xE1, 0xEC), (0x80, 0xBF), (0x80, 0xBF)],
  [(0xED, 0xED), (0x80, 0x9F), (0x80, 0xBF)],
  [(0xEE, 0xEF), (0x80, 0xBF), (0x80, 0xBF)],
  [(0xF0, 0xF0), (0x90, 0xBF), (0x80, 0xBF), (0x80, 0xBF)],
  [(0xF1, 0xF3), (0x80, 0xBF), (0x80, 0xBF), (0x80, 0xBF)],
  [(0xF4, 0xF4), (0x80, 0x8F), (0x80, 0xBF), (0x80, 0xBF)]]

/-- The size of any one character but a line feed. -/
def anySize : Size :=
  setSize anySequences

/-- What a star needs beside the character it repeats: a choice between going on and going around. -/
def repeatSize : Size :=
  .both (stateSize + 2 * alternativeSize)

/-- The size of a character that stands for itself, case aside. ASCII characters are told apart in one step. -/
def charSize (c : Char) : Size :=
  match Text.variants c with
  | [c] => .both (stateSize * c.utf8Size)
  | cs =>
    if cs.all fun c => c.toNat < 128 then .both (2 * stateSize + transitionSize * cs.length)
    else setSize (sequences cs)

/-- The size of a pattern. -/
def size (pattern : String) : Size :=
  let any := anySize
  pattern.toList.foldl (fun size c =>
    size + (if c == '*' then any + repeatSize else if c == '?' then any else charSize c)) .frame

/-- Whether a pattern is small enough to be used. -/
def isAllowed (pattern : String) : Bool :=
  (size pattern).isAllowed

end Wildcard

end LineScript
