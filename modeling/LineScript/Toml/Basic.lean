import LineScript.Text.Basic

/-!
# TOML documents

A TOML document is a table of values. Tables come from headers, from dotted names and from values in braces, and each
may be opened in one way only: `TomlTable.assign`, `TomlTable.openTable` and `TomlTable.openItem` refuse to define a name
twice and to mix the ways.
-/

namespace LineScript

/-- How a table came to be. -/
inductive TableOrigin where
  /-- By a header of its own. -/
  | header
  /-- On the way to the table of a longer header. -/
  | path
  /-- By dotted names. -/
  | dotted
  deriving DecidableEq

/-- A TOML value. A table in braces is closed; the others may still grow. Of floats and dates only the kind is kept. -/
inductive TomlValue where
  | string (s : String)
  | integer (n : Int)
  | bool (b : Bool)
  | float
  | date
  | array (items : List TomlValue)
  | closed (entries : List (String × TomlValue))
  | table (origin : TableOrigin) (entries : List (String × TomlValue))
  /-- The tables of a header in double brackets, the last one first. -/
  | tables (last : List (String × TomlValue)) (others : List (List (String × TomlValue)))

/-- The entries of a table. -/
abbrev TomlTable := List (String × TomlValue)

namespace TomlTable

/-- The value of a name. -/
def get? (table : TomlTable) (name : String) : Option TomlValue :=
  table.lookup name

/-- Gives a name another value. -/
def replace (table : TomlTable) (name : String) (value : TomlValue) : TomlTable :=
  table.map fun entry => if entry.1 == name then (name, value) else entry

/-- Adds a name that is not there. -/
def add (table : TomlTable) (name : String) (value : TomlValue) : TomlTable :=
  table ++ [(name, value)]

/-- Changes the table that names lead to. Tables on the way are made where they are missing, with the origin given;
dotted names do not lead into the table of a header. -/
def alterAt (made : TableOrigin) (change : TableOrigin → TomlTable → Option TomlTable) :
    (origin : TableOrigin) → (names : List String) → TomlTable → Option TomlTable
  | origin, [], table => change origin table
  | _, name :: rest, table =>
    match table.get? name with
    | none => (alterAt made change made rest []).map fun inner => table.add name (.table made inner)
    | some (.table origin inner) =>
      if made == .dotted && origin == .header then none
      else (alterAt made change origin rest inner).map fun inner => table.replace name (.table origin inner)
    | some (.tables last others) =>
      (alterAt made change .header rest last).map fun last => table.replace name (.tables last others)
    | some _ => none

/-- Gives a value to a name behind dotted names. The table it goes to is either made by dotted names or not, as the name
has some or none. -/
def assign (table : TomlTable) (names : List String) (name : String) (value : TomlValue) : Option TomlTable :=
  alterAt .dotted (fun origin table =>
    if (origin == .dotted) == names.isEmpty || (table.get? name).isSome then none else some (table.add name value))
    .header names table

/-- Opens the table of a header. -/
def openTable (table : TomlTable) (names : List String) (name : String) : Option TomlTable :=
  alterAt .path (fun _ table =>
    match table.get? name with
    | none => some (table.add name (.table .header []))
    | some (.table .path inner) => some (table.replace name (.table .header inner))
    | some _ => none) .header names table

/-- Opens one more table of a header in double brackets. -/
def openItem (table : TomlTable) (names : List String) (name : String) : Option TomlTable :=
  alterAt .path (fun _ table =>
    match table.get? name with
    | none => some (table.add name (.tables [] []))
    | some (.tables last others) => some (table.replace name (.tables [] (last :: others)))
    | some _ => none) .header names table

/-- Gives a value to a name in the table of the latest header. -/
def assignIn (table : TomlTable) (header names : List String) (name : String) (value : TomlValue) : Option TomlTable :=
  alterAt .path (fun _ table => table.assign names name value) .header header table

end TomlTable

end LineScript
