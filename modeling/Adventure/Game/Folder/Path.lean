import Adventure.Game.Error
import Adventure.Game.Folder.Tree

namespace Adventure

namespace Folder

/-- The parts of a path, which slashes separate. -/
def names (path : String) : List String :=
  (path.toList.splitOn '/').map String.ofList

/-- The parts of a path that name something: an empty part and a dot stay where they are. -/
def steps (path : String) : List String :=
  (names path).filter fun name => name ≠ "" ∧ name ≠ "."

/-- The name of the file that a path leads to. -/
def fileName (path : String) : String := (steps path).getLastD ""

def isAbsolute (path : String) : Bool := path.toList.head? = some '/'

/-- The path of a name in a folder. A name that starts with a slash is a path of its own. -/
def join (folder name : String) : String :=
  if isAbsolute name then name else s!"{folder}/{name}"

/-- How many bytes a name may have. -/
def maxName : Nat := 255

/-- How many bytes a path may have, with those that lead to the place where it starts. -/
def maxPath : Nat := 4095

/-- The place where a path starts. A path that starts with a slash starts at the top. -/
def start (place : List String) (path : String) : List String :=
  if isAbsolute path then [] else place

/-- The bytes of a path with those of the place where it starts. -/
def size (place : List String) (path : String) : Nat :=
  (start place path).foldr (fun name size => size + name.utf8ByteSize + 1) 0 +
    path.utf8ByteSize + 1

/-- Refuses a path that no tree can have. -/
def check (place : List String) (path : String) : Except PathError Unit :=
  if path.toList.contains '\x00' then .error .nul
  else if maxPath < size place path then .error .tooLong
  else .ok ()

/-- The place that names lead to from a place in a tree. Two dots go up. -/
def walk (tree : Node) (place : List String) : List String → Except PathError (List String)
  | [] => .ok place
  | name :: names =>
    match tree.at? place with
    | none => .error .missing
    | some node =>
      if !node.isFolder then .error .notFolder
      else if name = "" ∨ name = "." then walk tree place names
      else if name = ".." then walk tree place.dropLast names
      else if maxName < name.utf8ByteSize then .error .tooLong
      else if (node.entry? name).isSome then walk tree (place ++ [name]) names
      else .error .missing

/-- Where a path leads from a place. -/
def locate (tree : Node) (place : List String) (path : String) :
    Except PathError (List String) := do
  check place path
  walk tree (start place path) (names path)

/-- The bytes of a file, or none if there is nothing at its path. -/
def read (tree : Node) (place : List String) (path : String) :
    Except PathError (Option (List UInt8)) :=
  match locate tree place path with
  | .error .missing => .ok none
  | .error error => .error error
  | .ok found =>
    match tree.at? found with
    | some (.file data) => .ok (some data)
    | some (.folder _) => .error .isFolder
    | none => .ok none

/-- The folders that are made on the way to a folder. A dot at the end of a path stands in a folder
    that is there already, so the last of its names is not made. -/
def made (path : String) : List String :=
  if ((names path).filter (· ≠ "")).getLast? = some "." then (steps path).dropLast else steps path

/-- Makes the folders of names, each in the one before it, unless they are there. Those made stay
    when another cannot be made. -/
def makeWay (tree : Node) (place : List String) : List String → Node × Except PathError Unit
  | [] =>
    let isFolder := ((tree.at? place).map Node.isFolder).getD false
    (tree, if isFolder then .ok () else .error .inTheWay)
  | name :: names =>
    match tree.at? place with
    | none => (tree, .error .missing)
    | some node =>
      if !node.isFolder then (tree, .error .notFolder)
      else if name = ".." then makeWay tree place.dropLast names
      else if maxName < name.utf8ByteSize then (tree, .error .tooLong)
      else if (node.entry? name).isSome then makeWay tree (place ++ [name]) names
      else makeWay (tree.modify (·.put name (.folder [])) place) (place ++ [name]) names

/-- Makes a folder and those on its way, and answers its place. -/
def make (tree : Node) (place : List String) (path : String) :
    Node × Except PathError (List String) :=
  match check place path with
  | .error error => (tree, .error error)
  | .ok () =>
    match makeWay tree (start place path) (made path) with
    | (tree, .error error) => (tree, .error error)
    | (tree, .ok ()) => (tree, locate tree place path)

/-- The folder that a path leads through last, and the name of the file in it. -/
def parent (tree : Node) (place : List String) (path : String) :
    Except PathError (List String × String) := do
  check place path
  let parts := names path
  let folder ← walk tree (start place path) parts.dropLast
  match tree.at? folder with
  | some (.folder _) =>
    let name := parts.getLastD ""
    if name = "" ∨ name = "." ∨ name = ".." then throw .isFolder
    if maxName < name.utf8ByteSize then throw .tooLong
    return (folder, name)
  | some (.file _) => throw .notFolder
  | none => throw .missing

/-- A file cannot stand where there is a folder. -/
def isTaken (tree : Node) (folder : List String) (name : String) : Bool :=
  ((tree.at? (folder ++ [name])).map Node.isFolder).getD false

/-- Writes a file at a path. -/
def write (tree : Node) (place : List String) (path : String) (data : List UInt8) :
    Except PathError Node := do
  let (folder, name) ← parent tree place path
  if isTaken tree folder name then throw .isFolder
  return tree.modify (·.put name (.file data)) folder

/-- Moves a file from one path to another. -/
def move (tree : Node) (place : List String) (source target : String) :
    Except PathError Node := do
  let (sourceFolder, sourceName) ← parent tree place source
  let (folder, name) ← parent tree place target
  match tree.at? (sourceFolder ++ [sourceName]) with
  | some entry =>
    if isTaken tree folder name then throw .isFolder
    let tree := tree.modify (·.remove sourceName) sourceFolder
    return tree.modify (·.put name entry) folder
  | none => throw .missing

end Folder

end Adventure
