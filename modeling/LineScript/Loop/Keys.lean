import LineScript.Problem
import LineScript.Registry.Store

/-!
# Keys and values of the registry

A registry loop goes through a key: its subkeys, then its values, and then, if it recurses, the same for each subkey.
-/

namespace LineScript

/-- What a registry loop wants. -/
inductive KeyMode where
  | values
  | both
  | keys
  deriving DecidableEq

/-- The mode an argument stands for. -/
def KeyMode.ofArg (arg : String) : Except Problem KeyMode :=
  let text := Text.trim arg
  if text == "" || text == "0" then .ok values
  else if text == "1" then .ok both
  else if text == "2" then .ok keys
  else .error (.badParameter (.registryMode text))

/-- A key or value a registry loop stands at. -/
structure RegItem where
  /-- The name of the key or value. -/
  name : String
  /-- The type of a value, or `KEY`. -/
  kind : String
  /-- The root. -/
  root : RegRoot
  /-- The key it was found in. -/
  subkey : String
  deriving DecidableEq

/-- A registry on the way through its keys. -/
structure KeyCursor where
  /-- The root. -/
  root : RegRoot
  /-- What is wanted. -/
  mode : KeyMode
  /-- Whether subkeys are entered. -/
  recurse : Bool
  /-- The keys to visit, next first. -/
  pending : List String
  /-- The items found and not handed out yet. -/
  ready : List RegItem
  deriving DecidableEq

namespace KeyCursor

/-- The start of a registry loop. -/
def start (root : RegRoot) (key : String) (mode : KeyMode) (recurse : Bool) : KeyCursor :=
  { root, mode, recurse, pending := [Text.trimBy (· == '\\') key], ready := [] }

/-- The path of a subkey. -/
def join (key name : String) : String :=
  if key.isEmpty then name else key ++ "\\" ++ name

/-- Visits a key: its wanted subkeys and values become ready, and its subkeys are next to be visited. -/
def visit (reg : Registry) (c : KeyCursor) (key : String) : KeyCursor :=
  let subkeys := reg.subkeys c.root key
  let keyItems := if c.mode == .values then [] else subkeys.map fun name => (⟨name, "KEY", c.root, key⟩ : RegItem)
  let valueItems := if c.mode == .keys then [] else
    (reg.values c.root key).map fun v => (⟨v.name, v.kind, c.root, key⟩ : RegItem)
  let inner := if c.recurse then subkeys.map (join key) else []
  { c with ready := c.ready ++ keyItems ++ valueItems, pending := inner ++ c.pending }

/-- The next item, visiting keys until there is one. -/
def nextWithin (reg : Registry) : (fuel : Nat) → KeyCursor → Option RegItem × KeyCursor
  | 0, c => (none, c)
  | fuel + 1, c =>
    match c.ready, c.pending with
    | found :: ready, _ => (some found, { c with ready })
    | [], [] => (none, c)
    | [], key :: pending => nextWithin reg fuel (visit reg { c with pending } key)

/-- The next item, if there is one. A key without items is not visited twice in a row, so the number of keys bounds the
rounds. -/
def next (reg : Registry) (c : KeyCursor) : Option RegItem × KeyCursor :=
  nextWithin reg (c.pending.length + reg.keys.length + 2) c

end KeyCursor

end LineScript
