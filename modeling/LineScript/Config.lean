/-!
# Settings

What can be tuned about running programs: limits, and how often waiting triggers are looked at.
-/

namespace LineScript

/-- The settings of an engine. Times are in milliseconds. -/
structure Config where
  /-- The most bytes the expanded texts of running lines may take. -/
  maxMemory : Nat := 64 * 1024 * 1024
  /-- Waiting triggers are looked at after this many lines; zero turns that off. -/
  batchLines : Nat := 0
  /-- Waiting triggers are looked at after this time; zero turns that off. -/
  batchMs : Nat := 10
  /-- A new thread is not interrupted before this much time has passed, -/
  uninterruptibleMs : Nat := 15
  /-- or before it has run this many lines, whichever comes first. -/
  uninterruptedLines : Nat := 1000
  /-- How deep blocks, loops, routines and interrupting threads may be nested. -/
  maxDepth : Nat := 1024
  /-- How many threads there may be at once. -/
  maxThreads : Nat := 10
  /-- Whether a text is assigned without the blanks at either end. -/
  autoTrim : Bool := true
  /-- The period of a timer that is started without one. -/
  defaultTimerPeriodMs : Nat := 250
  deriving DecidableEq

end LineScript
