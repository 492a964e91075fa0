import LineScript.Engine.Basic
import LineScript.Json.Printer

/-!
# Reports

What a finished program leaves behind, as a JSON document: whether it ended, the problems of its threads, and its
variables in the order of their names.
-/

namespace LineScript

/-- What a finished program leaves behind. -/
structure Report where
  /-- The name of the program. -/
  program : String
  /-- Whether it ended. -/
  terminated : Bool
  /-- The problems that ended threads. -/
  errors : List RuntimeError
  /-- The variables with their texts. -/
  vars : List (String × String)
  deriving DecidableEq

namespace Report

/-- The name and version of the document's form. -/
def schema : String := "hotscript.run/1"

/-- The report of a program. -/
def ofEngine (program : String) (engine : Engine) : Report :=
  { program, terminated := engine.terminated, errors := engine.errors
    vars := (engine.vars.toList.map fun (name, value) => (name, value.toText)).mergeSort
      fun a b => (Text.order a.1 b.1).isLE }

/-- A problem as a JSON object. -/
def errorJson (e : RuntimeError) : JsonValue :=
  .object [("at", .string e.place), ("message", .string e.problem.message)]

/-- A report as a JSON document. -/
def toJson (report : Report) : JsonValue :=
  .object [("schema", .string schema), ("program", .string report.program), ("terminated", .bool report.terminated),
    ("errors", .array (report.errors.map errorJson)),
    ("vars", .object (report.vars.map fun (name, text) => (name, .string text)))]

end Report

end LineScript
