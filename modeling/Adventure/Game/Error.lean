import Adventure.Basefile
import Adventure.Container
import Adventure.Listing.Error
import Adventure.Script.DecodeError
import Adventure.World.Error

namespace Adventure

/-- Why a path of a folder cannot be used. -/
inductive PathError where
  | missing
  | notFolder
  | isFolder
  /-- A file stands where a folder should be made. -/
  | inTheWay
  /-- A name in the path, or all of it, has too many bytes. -/
  | tooLong
  /-- The path has the character that ends it for the system. -/
  | nul
  deriving Repr, DecidableEq

def PathError.message : PathError → String
  | missing => "No such file or directory (os error 2)"
  | notFolder => "Not a directory (os error 20)"
  | isFolder => "Is a directory (os error 21)"
  | inTheWay => "File exists (os error 17)"
  | tooLong => "File name too long (os error 36)"
  | nul => "file name contained an unexpected NUL byte"

namespace Game

inductive Error where
  | unusable (error : PathError)
  | missingFile (name : String)
  | recordCount (expected found : Nat)
  | unknownStringFile (file : String)
  | stringCount (file : String) (expected found : Nat)
  | text (file : String) (id : Nat) (error : CodePage.Error)
  | removedObjects (expected found : Nat)
  /-- The resident script cannot be read, and so cannot be replaced. -/
  | undecodedRecord (file : String)
  | outputIsGameFolder (folder : String)
  | globalStringsFull (file : String) (count limit : Nat)
  | container (error : Container.Error)
  | basefile (error : Basefile.Error)
  | strings (error : Strings.Error)
  | tableIndex (error : TableIndex.Error)
  | decode (error : DecodeError)
  | listing (error : Listing.Error)
  | world (error : World.Error)
  deriving Repr, DecidableEq

def Error.message : Error → String
  | unusable error => error.message
  | missingFile name => s!"{name} is missing from the game directory"
  | recordCount expected found =>
    s!"container holds {found} records but {expected} were expected"
  | unknownStringFile file => s!"{file} is not a text file of this game"
  | stringCount file expected found =>
    s!"{file} holds {expected} strings but the strings file gives {found}"
  | text file id error => s!"{file} string {id}: {error.message}"
  | removedObjects expected found =>
    s!"the game has {expected} objects but the object file holds {found}, objects cannot be removed"
  | undecodedRecord file => s!"{file} failed to decode, its scripts cannot be replaced"
  | outputIsGameFolder folder => s!"refusing to write into the game directory {folder}"
  | globalStringsFull file count limit =>
    s!"{file} would hold {count} strings but global string ids end at {limit}"
  | container error => error.message
  | basefile error => error.message
  | strings error => error.message
  | tableIndex error => error.message
  | decode error => error.message
  | listing error => error.message
  | world error => error.message

end Game

end Adventure
