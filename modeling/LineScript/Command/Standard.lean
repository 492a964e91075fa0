import LineScript.Command.Call

/-!
# Standard commands

The commands every program may use: printing, appending to files, asking for files, measuring texts, firing triggers and
waiting.
-/

namespace LineScript

namespace Standard

/-- The descriptions of the standard commands. -/
def specs : List CommandSpec := [
  { name := "Echo", minArgs := 0, maxArgs := 1 },
  { name := "FileAppend", minArgs := 1, maxArgs := 2 },
  { name := "IfExist", minArgs := 1, maxArgs := 1, conditional := true },
  { name := "IfNotExist", minArgs := 1, maxArgs := 1, conditional := true },
  { name := "StringLen", minArgs := 2, maxArgs := 2, argKinds := [.output, .input] },
  { name := "Fire", minArgs := 1, maxArgs := 2 },
  { name := "Wait", minArgs := 0, maxArgs := 1, waits := true }]

/-- The standard commands. -/
def commands : CommandSet :=
  .ofList specs

/-- The answer of a condition. -/
def answer (holds : Bool) : Reply :=
  { status := if holds then .yes else .no }

/-- The answer of a command that tried to store a value. -/
def stored : Except NameError (List Deed) → Reply
  | .ok deeds => { deeds }
  | .error e => { status := .fail e.message }

/-- Appends a line to the file named, or to the one the loop around writes to. The error level says how it went. -/
def fileAppend (call : Call) : Reply :=
  let text := call.text 0
  let named := Text.trim (call.text 1)
  let level (n : Int64) : Deed := .store call.errorLevel (.int n)
  let path := if named.isEmpty then call.loopOutput? else some named
  match path with
  | none => { deeds := [level 1], status := .fail "no file named and no read-file loop to append to" }
  | some path =>
    match call.files.append path (text ++ "\n").toUTF8 with
    | .ok _ => { deeds := [.append path text, level 0] }
    | .error e => { deeds := [level 1], status := .fail e.message }

/-- A priority between the bounds of 32 bits. -/
def priority? (s : String) : Option Int32 :=
  (Text.intBetween? (-2147483648) 2147483647 s).map Int32.ofInt

/-- Fires the hotkey of a label, with a priority if one is given. -/
def fire (call : Call) : Reply :=
  let label := Text.trim (call.text 0)
  let given := Text.trim (call.text 1)
  match if given.isEmpty then some 0 else priority? given with
  | some priority => { deeds := [.send { kind := .hotkey, label, priority }] }
  | none => { status := .fail ("invalid priority " ++ Text.quoted given) }

/-- What the standard commands do, by the name they are registered under. Any other name fails. -/
def perform : Performer := fun call =>
  match call.spec.name with
  | "Echo" => { deeds := [.print (call.text 0)] }
  | "FileAppend" => fileAppend call
  | "IfExist" => answer (call.files.pathExists (Text.trim (call.text 0)))
  | "IfNotExist" => answer !(call.files.pathExists (Text.trim (call.text 0)))
  | "StringLen" => stored (call.storeAt 0 (.int (Int64.ofNat (call.text 1).length)))
  | "Fire" => fire call
  | "Wait" => { deeds := [.wait (((Text.intBetween? 0 (values64 - 1) (Text.trim (call.text 0))).map Int.toNat).getD 0)] }
  | other => { status := .fail (other ++ " is not supported here") }

end Standard

end LineScript
