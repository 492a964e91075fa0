/-!
# Runs of code points

A property of characters, or a map between characters, is listed as runs: code points at a fixed distance from one
another, between a first and a last one. `inRuns` and `shiftBy` read such lists; the modules beside this one hold them.
-/

namespace LineScript

namespace Text

/-- The first code point of a run, its last one, and the distance between neighbours. -/
abbrev CodeRun := Nat × Nat × Nat

/-- A run together with what is added to each of its code points. -/
abbrev ShiftRun := Nat × Nat × Nat × Int

/-- Whether a code point belongs to one of the runs. -/
def inRuns (runs : List CodeRun) (n : Nat) : Bool :=
  runs.any fun (first, last, step) => first ≤ n && n ≤ last && (n - first) % step == 0

/-- The code point shifted by the first run that holds it, or itself when none does. -/
def shiftBy : List ShiftRun → Nat → Nat
  | [], n => n
  | (first, last, step, shift) :: rest, n =>
    if first ≤ n && n ≤ last && (n - first) % step == 0 then (Int.ofNat n + shift).toNat else shiftBy rest n

end Text

end LineScript
