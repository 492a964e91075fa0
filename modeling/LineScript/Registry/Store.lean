import LineScript.Registry.Root
import LineScript.Text.Lower

/-!
# The registry

Keys are paths with backslashes between their parts, below one of five roots, and are found whatever their case. A key
holds named values. Keys are kept in the order of their roots and lower-case paths; a key shows the spelling it was
first created with.
-/

namespace LineScript

/-- A value of a key. -/
structure RegValue where
  /-- Its name. -/
  name : String
  /-- Its type, such as `REG_SZ`. -/
  kind : String
  /-- Its contents. -/
  data : String
  deriving DecidableEq

/-- A key: its root, its path in lower case, the spelling of its last part, and its values in the order they were first
stored. -/
structure RegKey where
  /-- The root. -/
  root : RegRoot
  /-- The path in lower case. -/
  path : String
  /-- The spelling of the last part of the path. -/
  name : String
  /-- The values. -/
  values : List RegValue := []
  deriving DecidableEq

/-- A registry: keys ordered by root and path. -/
structure Registry where
  /-- The keys. -/
  keys : List RegKey := []
  deriving DecidableEq

namespace RegRoot

/-- The place of a root in the order. -/
def rank : RegRoot → Nat
  | localMachine => 0
  | currentUser => 1
  | classesRoot => 2
  | users => 3
  | currentConfig => 4

end RegRoot

namespace Registry

/-- The path a text stands for: without backslashes at either end, in lower case. -/
def normal (key : String) : String :=
  Text.lower (Text.trimBy (· == '\\') key)

/-- The order of keys. -/
def order (r : RegRoot) (p : String) (s : RegRoot) (q : String) : Ordering :=
  (compare r.rank s.rank).then (Text.order p q)

/-- Adds a key to ordered ones unless it is there. -/
def insertKey (key : RegKey) : List RegKey → List RegKey
  | [] => [key]
  | k :: rest =>
    match order key.root key.path k.root k.path with
    | .lt => key :: k :: rest
    | .eq => k :: rest
    | .gt => k :: insertKey key rest

/-- The key of a root and path. -/
def find? (reg : Registry) (root : RegRoot) (path : String) : Option RegKey :=
  reg.keys.find? fun k => k.root == root && k.path == path

/-- Creates the keys from `above` down through some parts. -/
def createBelow (root : RegRoot) : (above : String) → List String → Registry → Registry
  | _, [], reg => reg
  | above, part :: rest, reg =>
    let path := if above.isEmpty then part else above ++ "\\" ++ part
    createBelow root path rest { keys := insertKey { root, path := Text.lower path, name := part } reg.keys }

/-- The parts of a key's path that are not blank. -/
def parts (key : String) : List String :=
  ((Text.splitBy (· == '\\') key.toList).filter (!·.isEmpty)).map String.ofList

/-- Creates a key and those above it. -/
def create (reg : Registry) (root : RegRoot) (key : String) : Registry :=
  createBelow root "" (parts key) reg

/-- Stores a value: in place of one of the same name, ASCII case aside, or after the others. -/
def putValue (value : RegValue) : List RegValue → List RegValue
  | [] => [value]
  | v :: rest => if Text.sameAscii v.name value.name then value :: rest else v :: putValue value rest

/-- Stores a value in a key, which is created with those above it. A path with blank parts inside is a key of its own,
without a name. -/
def setValue (reg : Registry) (root : RegRoot) (key : String) (value : RegValue) : Registry :=
  let path := normal key
  let reg := reg.create root key
  let keys := insertKey { root, path, name := "" } reg.keys
  { keys := keys.map fun k => if k.root == root && k.path == path then { k with values := putValue value k.values } else k }

/-- The path of the key above a path: what stands before its last backslash. -/
def parentPath (path : String) : String :=
  .ofList (((path.toList.reverse.dropWhile (· != '\\')).drop 1).reverse)

/-- The names of the keys directly below a key, in order. -/
def subkeys (reg : Registry) (root : RegRoot) (key : String) : List String :=
  let above := normal key
  (reg.keys.filter fun k => k.root == root &&
    (if Text.has k.path '\\' then parentPath k.path == above else above.isEmpty)).map (·.name)

/-- The values of a key, in order. -/
def values (reg : Registry) (root : RegRoot) (key : String) : List RegValue :=
  ((reg.find? root (normal key)).map (·.values)).getD []

end Registry

end LineScript
