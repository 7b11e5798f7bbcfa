namespace Adventure

inductive Node where
  | file (data : List UInt8)
  | folder (entries : List (String × Node))

namespace Node

/-- The folder or file of a name in a folder. -/
def entry? : Node → String → Option Node
  | .folder entries, name => entries.lookup name
  | .file _, _ => none

def isFolder : Node → Bool
  | .folder _ => true
  | .file _ => false

/-- A folder with an entry put in or replaced. -/
def put (node : Node) (name : String) (entry : Node) : Node :=
  match node with
  | .folder entries => .folder ((name, entry) :: entries.filter (·.1 ≠ name))
  | .file data => .file data

/-- A folder without an entry. -/
def remove (node : Node) (name : String) : Node :=
  match node with
  | .folder entries => .folder (entries.filter (·.1 ≠ name))
  | .file data => .file data

/-- What stands at the end of a list of names. -/
def at? (node : Node) : List String → Option Node
  | [] => some node
  | name :: names => (node.entry? name).bind (·.at? names)

/-- The tree in which a node stands at the end of a list of names, with nothing beside its way. -/
def under (node : Node) : List String → Node
  | [] => node
  | name :: names => .folder [(name, node.under names)]

/-- The tree with the folder at the end of a list of names changed. -/
def modify (node : Node) (change : Node → Node) : List String → Node
  | [] => change node
  | name :: names =>
    match node.entry? name with
    | some entry => node.put name (entry.modify change names)
    | none => node

end Node

end Adventure
