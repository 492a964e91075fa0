import LineScript.Line

/-!
# History

The lines run last. Only a fixed number of them is shown; older ones are dropped from time to time.
-/

namespace LineScript

/-- The lines run last: those since the last clearing out, last first, how many they are, and the ones before them. -/
structure History where
  /-- The lines since the last clearing out, last first. -/
  latest : List LineId := []
  /-- How many they are. -/
  count : Nat := 0
  /-- The lines before them, last first. -/
  older : List LineId := []
  deriving DecidableEq

namespace History

/-- How many lines are shown. -/
def shown : Nat := 200

/-- Adds a line. Once as many lines are held as are shown, those before them are let go. -/
def push (history : History) (id : LineId) : History :=
  if history.count + 1 < shown then { history with latest := id :: history.latest, count := history.count + 1 }
  else { latest := [], count := 0, older := id :: history.latest }

/-- The lines shown, oldest first. -/
def toList (history : History) : List LineId :=
  ((history.latest ++ history.older).take shown).reverse

end History

end LineScript
