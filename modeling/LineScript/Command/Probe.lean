import LineScript.Command.Standard

/-!
# Probing commands

Commands that make visible what commands get and what the engine makes of their answers: every status, arguments of
every kind, and triggers of every kind.
-/

namespace LineScript

namespace Probe

/-- The descriptions of the probing commands. -/
def specs : List CommandSpec := [
  { name := "Fail", minArgs := 0, maxArgs := 1 },
  { name := "Last", minArgs := 0, maxArgs := 0 },
  { name := "SetLevel", minArgs := 1, maxArgs := 1 },
  { name := "IfEven", minArgs := 1, maxArgs := 1, argKinds := [.input], conditional := true },
  { name := "IfOk", minArgs := 0, maxArgs := 0, conditional := true },
  { name := "True", minArgs := 0, maxArgs := 0 },
  { name := "Dump", minArgs := 0, maxArgs := 20 },
  { name := "Trig", minArgs := 2, maxArgs := 5 },
  { name := "SetOut", minArgs := 2, maxArgs := 2, argKinds := [.output] },
  { name := "MaybeOut", minArgs := 0, maxArgs := 2, argKinds := [.output, .input] },
  { name := "Poke", minArgs := 1, maxArgs := 2 }]

/-- The standard and the probing commands. -/
def commands : CommandSet :=
  .ofList (Standard.specs ++ specs)

/-- How a status is printed. -/
def statusText : Option Status → String
  | none => "none"
  | some .ok => "Ok"
  | some .yes => "True"
  | some .no => "False"
  | some (.fail message) => "Fail " ++ message

/-- Whether a text is an even integer of 64 bits. -/
def isEven (s : String) : Bool :=
  (Text.intBetween? leastInt greatestInt s).any (· % 2 == 0)

/-- The kind of trigger of a name. -/
def kind? : String → Option TriggerKind
  | "hotkey" => some .hotkey
  | "hotstring" => some .hotstring
  | "timer" => some .timer
  | "menu" => some .menu
  | "onexit" => some .onExit
  | "internal" => some .internal
  | _ => none

/-- Sends a trigger of any kind. A priority or a number of threads that cannot be read is left out. -/
def trig (call : Call) : Reply :=
  match kind? (call.text 0) with
  | none => { status := .fail "bad trigger kind" }
  | some kind =>
    let label := call.text 1
    let trigger : Trigger :=
      { kind, label
        name := if (call.text 4).isEmpty then label else call.text 4
        priority := (Standard.priority? (call.text 2)).getD 0 }
    let trigger := match Text.intBetween? 0 (values32 - 1) (call.text 3) with
      | some n => trigger.withMaxThreads n.toNat
      | none => trigger
    { deeds := [.send trigger] }

/-- Stores a text and prints what the argument it goes to reads as. -/
def setOut (call : Call) : Reply :=
  match call.storeAt 0 (.text (call.text 1)) with
  | .ok deeds => { deeds := deeds ++ [.print ("out<" ++ call.text 0 ++ ">")] }
  | .error e => { status := .fail e.message }

/-- Prints its arguments and stores their number. -/
def maybeOut (call : Call) : Reply :=
  let count := call.args.length
  let name := ((call.args.output? 0).map call.vars.name).getD "-"
  let line := toString count ++ " " ++ name ++ " in<" ++ call.text 1 ++ ">"
  match call.storeAt 0 (.int (Int64.ofNat count)) with
  | .ok deeds => { deeds := .print line :: deeds }
  | .error e => { deeds := [.print line], status := .fail e.message }

/-- Sets a variable by its name. -/
def poke (call : Call) : Reply :=
  let name := call.text 0
  let value : Value := .text (call.text 1)
  match call.vars.resolve name with
  | .error e => { status := .fail e.message }
  | .ok (vars, id) =>
    match vars.set id value with
    | .error e => { deeds := [.declare name], status := .fail e.message }
    | .ok _ => { deeds := [.declare name, .store id value] }

/-- What the standard and the probing commands do. -/
def perform : Performer := fun call =>
  match call.spec.name with
  | "Fail" => { status := .fail (call.text 0) }
  | "Last" => { deeds := [.print (statusText call.lastResult)] }
  | "SetLevel" => { deeds := [.store call.errorLevel (.text (call.text 0))] }
  | "IfEven" => Standard.answer (isEven (Text.trim (call.text 0)))
  | "IfOk" => {}
  | "True" => { status := .yes }
  | "Dump" =>
    { deeds := [.print (toString call.args.length ++ ":<" ++ Text.joinWith "|" call.args.texts ++ ">")] }
  | "Trig" => trig call
  | "SetOut" => setOut call
  | "MaybeOut" => maybeOut call
  | "Poke" => poke call
  | _ => Standard.perform call

end Probe

end LineScript
