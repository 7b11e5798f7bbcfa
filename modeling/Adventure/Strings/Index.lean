import Adventure.Bytes.Cursor
import Adventure.Strings.Error
import Adventure.Text.Utf8

namespace Adventure

open Bytes

/-- A text file and the upper bound of its string numbers. -/
structure TextIndexEntry where
  name : String
  baseMax : UInt16
  deriving Repr, DecidableEq

namespace TextIndex

/-- The first string number of the text files; lower ones are global. -/
def firstBase : Nat := 0x8000

/-- The width of a name field. -/
def nameWidth : Nat := 7

/-- The next entry, or none at the end of the data. -/
def readEntry (c : Cursor) : Except Strings.Error (Option TextIndexEntry × Cursor) := do
  if c.atEnd then return (none, c)
  let (name, c) ← (c.padded nameWidth).mapError .index
  if !Text.isAscii name then throw (.indexName (Text.ofUtf8 name))
  let (baseMax, c) ← c.word16.mapError .index
  return (some ⟨Text.ofAscii name, baseMax⟩, c)

def ofBytes (data : List UInt8) : Except Strings.Error (List TextIndexEntry) :=
  ((Cursor.ofBytes data).collect readEntry).map (·.1)

def entryBytes (entry : TextIndexEntry) : Except Strings.Error (List UInt8) := do
  let name ← (padded (Text.utf8 entry.name) nameWidth).mapError .index
  return name ++ word16 entry.baseMax

def toBytes (index : List TextIndexEntry) : Except Strings.Error (List UInt8) :=
  (index.mapM entryBytes).map List.flatten

/-- The bases of files, when the next one starts at `base` and `bounds` are the upper bounds not
    yet passed: a file that holds strings passes the first of them. -/
def basesFrom (isEmpty : String → Bool) (base : Nat) (bounds : List Nat) :
    List TextIndexEntry → List Nat
  | [] => []
  | entry :: rest =>
    base ::
      if isEmpty entry.name then basesFrom isEmpty base bounds rest
      else basesFrom isEmpty (bounds.headD base) bounds.tail rest

/-- The first string number of every file, given which files hold no string. -/
def bases (index : List TextIndexEntry) (isEmpty : String → Bool) : List Nat :=
  basesFrom isEmpty firstBase (index.map (·.baseMax.toNat)) index

end TextIndex

end Adventure
