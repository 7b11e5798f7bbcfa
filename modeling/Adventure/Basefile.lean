import Adventure.Bytes.Cursor
import Adventure.Strings.Table

namespace Adventure

open Bytes

namespace Basefile

/-- The words at the start of the file. The last two are the number and the size of the strings as
    they were read; writing counts them anew. -/
structure Header where
  totalItems : UInt32
  version : UInt32
  items : UInt32
  strings : UInt32
  textSize : UInt32
  deriving Repr, DecidableEq

inductive Error where
  | unknownVersion (version : Nat)
  | stringCountMismatch (declared found : Nat)
  | tooManyItems (count : Nat)
  | strings (error : Strings.Error)
  | fault (reason : Fault)
  deriving Repr, DecidableEq

def Error.message : Error → String
  | unknownVersion version => s!"unknown basefile version {version}"
  | stringCountMismatch declared found =>
    s!"header declares {declared} strings but the text block holds {found}"
  | tooManyItems count => s!"{count} items do not fit the item counters"
  | strings error => error.message
  | fault reason => reason.message

/-- The version of all files known. -/
def knownVersion : UInt32 := 128

def headerSize : Nat := 20

end Basefile

/-- A base file. `data` is the objects, the resident script and whatever follows. -/
structure Basefile where
  header : Basefile.Header
  strings : StringTable
  data : List UInt8
  deriving Repr, DecidableEq

namespace Basefile

/-- The header that the words of a header block give. -/
def Header.read (c : Cursor) : Except Fault Header := do
  let (totalItems, c) ← c.word32
  let (version, c) ← c.word32
  let (items, c) ← c.word32
  let (strings, c) ← c.word32
  let (textSize, _) ← c.word32
  return ⟨totalItems, version, items, strings, textSize⟩

def Header.toBytes (header : Header) : List UInt8 :=
  word32 header.totalItems ++ word32 header.version ++ word32 header.items ++
    word32 header.strings ++ word32 header.textSize

def ofBytes (input : List UInt8) : Except Error Basefile := do
  let (block, c) ← ((Cursor.ofBytes input).bytes headerSize).mapError .fault
  let header ← (Header.read (Cursor.ofBytes block)).mapError .fault
  if header.version ≠ knownVersion then throw (.unknownVersion header.version.toNat)
  let (texts, c) ← (c.bytes header.textSize.toNat).mapError .fault
  let strings ← (StringTable.ofBytes 0 texts).mapError .strings
  if strings.entries.length ≠ header.strings.toNat then
    throw (.stringCountMismatch header.strings.toNat strings.entries.length)
  return ⟨header, strings, c.rest⟩

/-- The header that is written: the strings are counted anew. -/
def writtenHeader (base : Basefile) : Header :=
  { base.header with
    strings := UInt32.ofNat base.strings.entries.length
    textSize := UInt32.ofNat base.strings.toBytes.length }

def toBytes (base : Basefile) : List UInt8 :=
  base.writtenHeader.toBytes ++ base.strings.toBytes ++ base.data

/-- The number of objects in the file. -/
def objectCount (base : Basefile) : Nat := base.header.items.toNat

/-- The number of objects that exist only while the game runs. -/
def dynamicCount (base : Basefile) : Nat :=
  base.header.totalItems.toNat - base.header.items.toNat

/-- Changes the number of objects in the file and keeps that of the others. -/
def setObjectCount (base : Basefile) (count : Nat) : Except Error Basefile :=
  let total := count + base.dynamicCount
  if total < 0x100000000 then
    .ok { base with header :=
      { base.header with totalItems := UInt32.ofNat total, items := UInt32.ofNat count } }
  else .error (.tooManyItems count)

end Basefile

end Adventure
