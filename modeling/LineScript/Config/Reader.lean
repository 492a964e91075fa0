import LineScript.Config
import LineScript.Toml.Reader
import LineScript.Word

/-!
# Reading settings

Settings are read from a TOML document. What it leaves out has its default; names it does not know are passed over.
-/

namespace LineScript

namespace Config

/-- A whole number below a bound. -/
def number? (bound : Nat) : TomlValue → Option Nat
  | .integer n => if 0 ≤ n && n < bound then some n.toNat else none
  | _ => none

/-- A truth value. -/
def flag? : TomlValue → Option Bool
  | .bool b => some b
  | _ => none

/-- What a name is set to: the default if it is left out, nothing if it does not fit. -/
def setting? {α : Type} (table : TomlTable) (name : String) (read : TomlValue → Option α) (dflt : α) : Option α :=
  match table.get? name with
  | none => some dflt
  | some v => read v

/-- The settings of a table. -/
def ofTable? (table : TomlTable) : Option Config := do
  let dflt : Config := {}
  let long := number? values64
  return {
    maxMemory := ← setting? table "max_mem" long dflt.maxMemory
    batchLines := ← setting? table "batch_lines" (number? values32) dflt.batchLines
    batchMs := ← setting? table "batch_ms" long dflt.batchMs
    uninterruptibleMs := ← setting? table "uninterruptible_ms" long dflt.uninterruptibleMs
    uninterruptedLines := ← setting? table "uninterrupted_lines" long dflt.uninterruptedLines
    maxDepth := ← setting? table "max_recursion_depth" long dflt.maxDepth
    maxThreads := ← setting? table "max_threads_total" long dflt.maxThreads
    autoTrim := ← setting? table "auto_trim" flag? dflt.autoTrim
    defaultTimerPeriodMs := ← setting? table "default_timer_period_ms" long dflt.defaultTimerPeriodMs }

/-- The settings a document holds. -/
def ofToml? (document : String) : Option Config := do
  ofTable? (← TomlTable.parse? document)

end Config

end LineScript
