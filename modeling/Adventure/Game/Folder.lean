import Adventure.Game.Folder.Path
import Adventure.Game.Rebuild
import Adventure.Game.Settings

namespace Adventure

namespace Folder

/-- Makes the output folder and checks that it is not the folder of the game. The folder stays
    when the check fails. -/
def prepareOutput (tree : Node) (game : List String) (output : String) :
    Node × Except Game.Error (List String) :=
  match make tree game output with
  | (tree, .error error) => (tree, .error (.unusable error))
  | (tree, .ok place) =>
    if place = game then (tree, .error (.outputIsGameFolder output)) else (tree, .ok place)

/-- The name that a file has until all files are written. The number stands for the one of the
    running program. -/
def partName (name : String) : String := name ++ ".part_10000"

/-- Writes all files under other names. If one cannot be written, none is left. -/
def stage (before tree : Node) (place : List String) :
    List (String × List UInt8) → Node × Except PathError Unit
  | [] => (tree, .ok ())
  | (name, data) :: rest =>
    match write tree place (partName name) data with
    | .ok tree => stage before tree place rest
    | .error error => (before, .error error)

/-- Gives all written files their names. -/
def publish (tree : Node) (place : List String) : List String → Node × Except PathError Unit
  | [] => (tree, .ok ())
  | name :: rest =>
    match move tree place (partName name) name with
    | .ok tree => publish tree place rest
    | .error error => (tree, .error error)

/-- Writes files into a folder, and answers their names. -/
def writeOutputs (tree : Node) (place : List String) (outputs : List (String × List UInt8)) :
    Node × Except PathError (List String) :=
  match stage tree tree place outputs with
  | (tree, .error error) => (tree, .error error)
  | (tree, .ok ()) =>
    let (tree, published) := publish tree place (outputs.map (·.1))
    (tree, published.map fun _ => outputs.map fun (name, _) => fileName name)

/-- The settings of a game folder, which are the defaults if it has none. -/
def settings (tree : Node) (game : List String) : Except Settings.Error Settings :=
  match read tree game Settings.fileName with
  | .error _ => .error .unreadable
  | .ok none => .ok .default
  | .ok (some data) =>
    match String.fromUTF8? ⟨data.toArray⟩ with
    | some document => Settings.parse document
    | none => .error .unreadable

/-- Why the files of a game are not in the output folder. -/
inductive Error where
  /-- The output folder cannot be used. -/
  | output (error : Game.Error)
  /-- The game cannot be read or rebuilt. -/
  | game (error : Game.Error)
  /-- A file cannot be written. -/
  | unwritten (error : PathError)
  deriving Repr, DecidableEq

/-- What a rebuild chose and did: the names of the files written, and the tree after it. -/
structure Outcome where
  variant : Variant
  language : Language
  written : Except Error (List String)
  tree : Node

/-- The files of a rebuilt game in the order of their names. Of two files of one name the later one
    counts. -/
def rebuiltOutputs (tree : Node) (game : List String) (variant : Variant) (language : Language)
    (edits : Game.Edits) : Except Game.Error (List (String × List UInt8)) := do
  let loaded ← Game.load variant (read tree game)
  let rebuilt ← loaded.rebuild language edits
  return (rebuilt.install variant ∅).toList

/-- Rebuilds the game of a folder into an output folder, as its settings say. -/
def rebuild (tree : Node) (game : List String) (output : String) (edits : Game.Edits) :
    Except Settings.Error Outcome := do
  let settings ← settings tree game
  let variant ← settings.variant
  let language := settings.languageFor variant
  let (tree, prepared) := prepareOutput tree game output
  match prepared with
  | .error error => return ⟨variant, language, .error (.output error), tree⟩
  | .ok place =>
    match rebuiltOutputs tree game variant language edits with
    | .error error => return ⟨variant, language, .error (.game error), tree⟩
    | .ok outputs =>
      let (tree, written) := writeOutputs tree place outputs
      return ⟨variant, language, written.mapError .unwritten, tree⟩

end Folder

end Adventure
