import LineScript.Files.Tree
import LineScript.Files.WildcardSize
import LineScript.Problem

/-!
# Entries of a folder

A file loop goes through the entries of a folder that match, by name, and then, if it recurses, through those of its
folders in the same way. A folder is listed when its turn comes. One that does not exist has no entries. What matches is
up to a matcher that is made of the last part of the loop's argument; file loops take wildcards.
-/

namespace LineScript

/-- Which entries a file loop wants. -/
inductive FolderMode where
  | files
  | both
  | folders
  deriving DecidableEq

namespace FolderMode

/-- The mode an argument stands for. -/
def ofArg (arg : String) : Except Problem FolderMode :=
  let text := Text.trim arg
  if text == "" || text == "0" then .ok files
  else if text == "1" then .ok both
  else if text == "2" then .ok folders
  else .error (.badParameter (.fileMode text))

/-- Whether an entry is wanted. -/
def wants (mode : FolderMode) (isFolder : Bool) : Bool :=
  match mode with
  | files => !isFolder
  | both => true
  | folders => isFolder

end FolderMode

/-- An entry a file loop stands at. -/
structure FileItem where
  /-- The name of the entry. -/
  name : String
  /-- The path of its folder, as the loop came to it. -/
  folder : String
  /-- Its path. -/
  fullPath : String
  /-- Its size in bytes, zero for a folder. -/
  size : Nat
  /-- Whether it is a folder. -/
  isFolder : Bool
  deriving DecidableEq

/-- The extension of a name: what follows its last point, unless the name starts with that point. -/
def FileItem.extension (item : FileItem) : String :=
  let cs := item.name.toList
  let tail := (cs.reverse.takeWhile (· != '.')).reverse
  if cs.length ≤ tail.length + 1 || item.name == ".." then "" else .ofList tail

/-- A folder tree on the way through its entries. -/
structure FolderCursor where
  /-- Whether a name matches. -/
  matcher : String → Bool
  /-- Which entries are wanted. -/
  mode : FolderMode
  /-- Whether folders are entered. -/
  recurse : Bool
  /-- The folders to list, next first. -/
  pending : List String
  /-- The entries found and not handed out yet. -/
  ready : List FileItem

namespace FolderCursor

/-- The folder and the pattern of an argument: what stands before and after its last slash of either kind. -/
def splitPattern (arg : String) : String × String :=
  let isSlash (c : Char) : Bool := c == '/' || c == '\\'
  let cs := arg.toList
  let name := (cs.reverse.takeWhile (!isSlash ·)).reverse
  if cs.any isSlash then
    let folder := cs.take (cs.length - name.length - 1)
    (if folder.isEmpty then "/" else .ofList folder, .ofList name)
  else ("", arg)

/-- The start of a file loop, given what makes a matcher of a pattern or refuses it. -/
def start (compile : String → Except Problem (String → Bool)) (arg : String) (mode : FolderMode) (recurse : Bool) :
    Except Problem FolderCursor := do
  let (folder, pattern) := splitPattern arg
  let matcher ← compile pattern
  return { matcher, mode, recurse, pending := [folder], ready := [] }

/-- The path of an entry of a folder. -/
def join (folder name : String) : String :=
  if folder.isEmpty then name
  else if folder.toList.getLast? == some '/' then folder ++ name
  else folder ++ "/" ++ name

/-- An entry as a file loop shows it. -/
def item (folder : String) (node : Node) : FileItem :=
  { name := node.name, folder, fullPath := join folder node.name, size := node.size, isFolder := node.isFolder }

/-- Entries in the order of their names. -/
def byName (entries : List Node) : List Node :=
  entries.mergeSort fun a b => (Text.order a.name b.name).isLE

/-- Lists a folder: its matching entries become ready, and its folders are next to be listed. -/
def scan (files : Files) (c : FolderCursor) (folder : String) : Except Problem FolderCursor :=
  match files.entriesAt (if folder.isEmpty then "." else folder) with
  | .error e => if e.isMissing then .ok c else .error (.io (.folder folder e))
  | .ok entries =>
    let entries := byName entries
    let wanted := entries.filter fun node => c.mode.wants node.isFolder && c.matcher node.name
    let inner := if c.recurse then (entries.filter Node.isFolder).map fun node => join folder node.name else []
    .ok { c with ready := c.ready ++ wanted.map (item folder), pending := inner ++ c.pending }

/-- The next entry, listing folders until there is one. -/
def nextWithin (files : Files) : (fuel : Nat) → FolderCursor → Except Problem (Option FileItem × FolderCursor)
  | 0, c => .ok (none, c)
  | fuel + 1, c =>
    match c.ready, c.pending with
    | found :: ready, _ => .ok (some found, { c with ready })
    | [], [] => .ok (none, c)
    | [], folder :: pending =>
      match scan files { c with pending } folder with
      | .error e => .error e
      | .ok c => nextWithin files fuel c

/-- The next entry, if there is one. Every round lists another folder, so the number of entries bounds them. -/
def next (files : Files) (c : FolderCursor) : Except Problem (Option FileItem × FolderCursor) :=
  nextWithin files (c.pending.length + Node.countAll files.entries + 2) c

/-! ## Wildcards -/

/-- Refuses a pattern that is too large. -/
def checkPattern (pattern : String) : Except Problem Unit :=
  if Wildcard.isAllowed pattern then .ok () else .error (.badParameter (.filePattern pattern Wildcard.maxSize))

/-- The matcher of a wildcard. -/
def wildcard (pattern : String) : Except Problem (String → Bool) := do
  checkPattern pattern
  return Wildcard.accepts pattern

end FolderCursor

end LineScript
