import LineScript.Json.Printer
import LineScript.Script

/-!
# Listings

The lines of a loaded program with the links between them, as text and as JSON.
-/

namespace LineScript

/-- What a listing shows of a line. -/
structure ListingEntry where
  /-- The number of the line. -/
  id : LineId
  /-- The file and line number. -/
  place : String
  /-- The name of its action. -/
  action : String
  /-- The texts of its arguments. -/
  args : List String
  /-- The line that encloses it. -/
  parent : Option LineId
  /-- The other end of a block, the else of an `if`, or the line after a body. -/
  related : Option LineId
  deriving DecidableEq

namespace ListingEntry

/-- A number of a line after a mark, if there is one. -/
def linkText (mark : String) : Option LineId → String
  | some id => "  [" ++ mark ++ " " ++ toString id ++ "]"
  | none => ""

/-- An entry as a line of text. -/
def render (entry : ListingEntry) : String :=
  Text.padLeft 4 (toString entry.id) ++ "  " ++ Text.padRight 12 entry.action ++ " " ++ Text.joinWith ", " entry.args ++
    linkText "in" entry.parent ++ linkText "->" entry.related

/-- A field for the number of a line, if there is one. -/
def linkField (name : String) : Option LineId → List (String × JsonValue)
  | some id => [(name, .integer id)]
  | none => []

/-- An entry as a JSON object. Links that are not there are left out. -/
def toJson (entry : ListingEntry) : JsonValue :=
  .object ([("id", .integer entry.id), ("at", .string entry.place), ("action", .string entry.action),
    ("args", .array (entry.args.map .string))] ++ linkField "parent" entry.parent ++ linkField "related" entry.related)

end ListingEntry

namespace Script

/-- What a listing shows of a program. -/
def listing (script : Script) : List ListingEntry :=
  script.lines.toList.mapIdx fun id line =>
    { id, place := script.place id, action := script.actionName id, args := line.args.map (·.text)
      parent := line.parent, related := line.related }

/-- The listing of a program as a JSON document. -/
def listingJson (script : Script) : JsonValue :=
  .array (script.listing.map ListingEntry.toJson)

end Script

end LineScript
