import Adventure.Game.Extract
import Adventure.Game.Rebuild
import Adventure.Text.Pieces

namespace Adventure.Game

/-- The current files of a game, and its documents by name. -/
structure Session where
  variant : Variant
  language : Language
  files : Files
  documents : Std.TreeMap String String

namespace Session

def load (session : Session) : Except Error Game := Game.load session.variant session.files.source

def setFile (session : Session) (name : String) (data : Option (List UInt8)) : Session :=
  { session with files :=
      match data with
      | some data => session.files.insert name data
      | none => session.files.erase name }

/-- The text of a document, which is empty if there is none. -/
def document (session : Session) (name : String) : String := session.documents.getD name ""

def setDocument (session : Session) (name text : String) : Session :=
  { session with documents := session.documents.insert name text }

def dropDocument (session : Session) (name : String) : Session :=
  { session with documents := session.documents.erase name }

/-- Replaces a part of a document wherever it occurs, and counts how often it does. A document that
    is not there counts as an empty one and is there afterwards. -/
def replace (session : Session) (name part replacement : String) : Nat × Session :=
  let pieces := Text.pieces part.toList (session.document name).toList
  let text := String.ofList (replacement.toList.intercalate pieces)
  (pieces.length - 1, session.setDocument name text)

/-- The documents of the game as its files are now. -/
def extract (session : Session) : Except Error (Extraction × Session) := do
  let extraction ← (← session.load).extract session.language
  let session := session.setDocument "strings" extraction.strings
  let session := session.setDocument "scripts" extraction.scripts
  return (extraction, session.setDocument "objects" extraction.objects)

/-- What the documents edit. One that is not there edits nothing. -/
def edits (session : Session) : Edits :=
  ⟨session.documents["strings"]?, session.documents["scripts"]?, session.documents["objects"]?⟩

/-- The game rebuilt from the documents, which gives it new files. -/
def rebuild (session : Session) : Except Error (Rebuilt × Session) := do
  let rebuilt ← (← session.load).rebuild session.language session.edits
  return (rebuilt, { session with files := rebuilt.install session.variant session.files })

end Session

end Adventure.Game
