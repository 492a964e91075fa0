import LineScript.Files.Error
import LineScript.Text.Basic
import LineScript.Text.Utf8

/-!
# Files

The files a program sees: a tree of folders below the working folder. Paths are relative, with components between
slashes; `.` and `..` are followed as they come, so every component on the way must exist. A file is read and appended to
by its path.
-/

namespace LineScript

/-- A file with its bytes, or a folder with its entries in no particular order. -/
inductive Node where
  | file (name : String) (content : ByteArray)
  | folder (name : String) (entries : List Node)

namespace Node

/-- The name of an entry. -/
def name : Node → String
  | file name _ => name
  | folder name _ => name

/-- Whether an entry is a folder. -/
def isFolder : Node → Bool
  | file .. => false
  | folder .. => true

/-- The size of a file in bytes; folders have none. -/
def size : Node → Nat
  | file _ content => content.size
  | folder .. => 0

mutual

/-- The number of entries of a tree, itself included. -/
def count : Node → Nat
  | file .. => 1
  | folder _ entries => 1 + countAll entries

/-- The number of entries of several trees. -/
def countAll : List Node → Nat
  | [] => 0
  | node :: rest => node.count + countAll rest

end

mutual

/-- The paths of a tree below `base` with the text of each file; a folder's path ends with a slash. -/
def listing (base : String) : Node → List (String × String)
  | file name content => [(base ++ name, Utf8.decode content)]
  | folder name entries => (base ++ name ++ "/", "") :: listingAll (base ++ name ++ "/") entries

/-- The paths of several trees below `base`. -/
def listingAll (base : String) : List Node → List (String × String)
  | [] => []
  | node :: rest => node.listing base ++ listingAll base rest

end

/-- The entry of a name among some. -/
def find? (entries : List Node) (name : String) : Option Node :=
  entries.find? (·.name == name)

/-- The entry reached by following names down from some entries; no names lead to no entry. -/
def at? : List Node → List String → Option Node
  | _, [] => none
  | entries, [name] => find? entries name
  | entries, name :: rest =>
    match find? entries name with
    | some (folder _ inner) => at? inner rest
    | _ => none

/-- Replaces an entry of the same name, or adds it. -/
def put (entries : List Node) (node : Node) : List Node :=
  if entries.any (·.name == node.name) then entries.map fun e => if e.name == node.name then node else e
  else entries ++ [node]

/-- Puts an entry into the folder that the names lead to. Folders on the way are made where they are missing. -/
def putAt (node : Node) : List String → List Node → List Node
  | [], entries => put entries node
  | name :: rest, entries =>
    let inner := match find? entries name with
      | some (folder _ inner) => inner
      | _ => []
    put entries (folder name (putAt node rest inner))

end Node

/-- The files below the working folder. -/
structure Files where
  /-- The entries of the working folder. -/
  entries : List Node := []

namespace Files

instance : Inhabited Files := ⟨{}⟩

/-- What a path leads to: the working folder, or an entry below it with the names that lead there. -/
inductive Found where
  | root
  | entry (names : List String) (node : Node)

/-- The greatest length of a name, in bytes. -/
def maxName : Nat := 255

/-- The greatest length of a path, in bytes. -/
def maxPath : Nat := 4095

/-- The entries of the folder that the names, last first, lead to. -/
def folderAt (files : Files) (here : List String) : Except FileError (List Node) :=
  match here with
  | [] => .ok files.entries
  | _ =>
    match Node.at? files.entries here.reverse with
    | some (.folder _ entries) => .ok entries
    | some (.file ..) => .error .notFolder
    | none => .error .notFound

/-- Follows components from the place that the names, last first, lead to. The working folder is its own parent. -/
def follow (files : Files) : (here : List String) → List String → Except FileError (List String)
  | here, [] => .ok here
  | here, part :: rest =>
    match files.folderAt here with
    | .error e => .error e
    | .ok entries =>
      if part == "" || part == "." then follow files here rest
      else if part == ".." then follow files here.tail rest
      else if maxName < part.utf8ByteSize then .error .nameTooLong
      else if (Node.find? entries part).isSome then follow files (part :: here) rest
      else .error .notFound

/-- The components of a path. -/
def components (path : String) : List String :=
  (Text.splitBy (· == '/') path.toList).map String.ofList

/-- Checks what the operating system asks of every path. Absolute paths lead out of the tree. -/
def checkPath (path : String) : Except FileError Unit :=
  if Text.has path '\x00' then .error .nulByte
  else if maxPath < path.utf8ByteSize then .error .nameTooLong
  else if path.isEmpty || path.toList.head? == some '/' then .error .notFound
  else .ok ()

/-- The names, last first, that a path leads to. -/
def locate (files : Files) (path : String) : Except FileError (List String) := do
  checkPath path
  files.follow [] (components path)

/-- What a path leads to. -/
def find (files : Files) (path : String) : Except FileError Found := do
  let here ← files.locate path
  match here with
  | [] => return .root
  | _ =>
    match Node.at? files.entries here.reverse with
    | some node => return .entry here.reverse node
    | none => throw .notFound

/-- Whether a path leads anywhere. -/
def pathExists (files : Files) (path : String) : Bool :=
  match files.locate path with
  | .ok _ => true
  | .error _ => false

/-- The entries of the folder at a path. -/
def entriesAt (files : Files) (path : String) : Except FileError (List Node) := do
  let here ← files.locate path
  files.folderAt here

/-- The bytes of the file that the names lead to. -/
def content? (files : Files) (names : List String) : Option ByteArray :=
  match Node.at? files.entries names with
  | some (.file _ content) => some content
  | _ => none

/-- Stores a file under the names that lead to it; the last one is its own. -/
def store (files : Files) (names : List String) (content : ByteArray) : Files :=
  match names.reverse with
  | [] => files
  | name :: above => { entries := Node.putAt (.file name content) above.reverse files.entries }

/-- Makes a folder, and those above it, where they are missing. -/
def makeFolder (files : Files) (names : List String) : Files :=
  match Node.at? files.entries names, names.reverse with
  | some _, _ => files
  | none, [] => files
  | none, name :: above => { entries := Node.putAt (.folder name []) above.reverse files.entries }

/-- The folder, as its names with the last first, and the name of the file that a path asks for. A path that ends with a
slash, `.` or `..` asks for a folder, whatever is there. -/
def fileAt (files : Files) (path : String) : Except FileError (List String × String) := do
  checkPath path
  let parts := (components path).reverse
  let named := parts.dropWhile (· == "")
  match named with
  | [] => throw .notFound
  | name :: above =>
    let here ← files.follow [] above.reverse
    let _ ← files.folderAt here
    if name == "." || name == ".." || parts.length != named.length then throw .isFolder
    if maxName < name.utf8ByteSize then throw .nameTooLong
    return (here, name)

/-- Appends bytes to the file at a path, which is made if it is missing. -/
def append (files : Files) (path : String) (bytes : ByteArray) : Except FileError Files := do
  let (here, name) ← files.fileAt path
  let names := (name :: here).reverse
  match Node.at? files.entries names with
  | some (.file _ content) => return files.store names (content ++ bytes)
  | some (.folder ..) => throw .isFolder
  | none => return files.store names bytes

/-- The bytes of the file at a path. -/
def read (files : Files) (path : String) : Except FileError ByteArray := do
  match ← files.find path with
  | .entry _ (.file _ content) => return content
  | _ => throw .isFolder

/-- Every path with the text of each file, in order. -/
def listing (files : Files) : List (String × String) :=
  (Node.listingAll "" files.entries).mergeSort fun a b => (Text.order a.1 b.1).isLE

end Files

end LineScript
