import Adventure.Game.Error
import Adventure.Game.Variant
import Adventure.Script.Decode
import Adventure.Script.Symbols
import Adventure.Strings.Index
import Adventure.World.Decode

namespace Adventure

/-- Where files come from: the bytes of a name, or none if there is no such file. -/
abbrev FileSource := String → Except PathError (Option (List UInt8))

/-- Files by name. -/
abbrev Files := Std.TreeMap String (List UInt8)

def Files.source (files : Files) : FileSource := fun name => .ok files[name]?

/-- A record and the slot that it fills. -/
structure Record where
  slot : Slot
  data : List UInt8
  deriving Repr, DecidableEq

/-- A loaded game. `extra` is the extra block of its container, if it has a container. -/
structure Game where
  variant : Variant
  basefile : Basefile
  textIndex : List TextIndexEntry
  tableIndex : List TableIndexEntry
  records : List Record
  extra : Option (List UInt8)
  deriving Repr, DecidableEq

namespace Game

def find (source : FileSource) (name : String) : Except Error (Option (List UInt8)) :=
  (source name).mapError .unusable

/-- A file that must be there. -/
def require (source : FileSource) (name : String) : Except Error (List UInt8) := do
  match ← find source name with
  | some data => return data
  | none => throw (.missingFile name)

/-- The text index, which is empty if the release or the folder has none. -/
def loadTextIndex (variant : Variant) (source : FileSource) :
    Except Error (List TextIndexEntry) := do
  let some name := variant.textIndex | return []
  let some data ← find source name | return []
  (TextIndex.ofBytes data).mapError .strings

/-- The table index, which is empty if the release or the folder has none. -/
def loadTableIndex (variant : Variant) (source : FileSource) :
    Except Error (List TableIndexEntry) := do
  let some name := variant.tableIndex | return []
  let some data ← find source name | return []
  (TableIndex.ofBytes data).mapError .tableIndex

/-- The slots of a release, as the two indexes fill them. -/
def slots (variant : Variant) (texts : List TextIndexEntry) (tables : List TableIndexEntry) :
    List Slot :=
  Slot.layout variant.segments (texts.map (·.name)) (tables.map (·.file))

/-- The files of the records that a release without a container has, if its indexes can be read. -/
def recordFiles (variant : Variant) (source : FileSource) : List String :=
  match variant.container, loadTextIndex variant source, loadTableIndex variant source with
  | none, .ok texts, .ok tables => (slots variant texts tables).map (·.name)
  | _, _, _ => []

/-- The records of the slots, from the container or from a file each. -/
def loadRecords (variant : Variant) (slots : List Slot) (source : FileSource) :
    Except Error (List Record × Option (List UInt8)) := do
  match variant.container with
  | some name =>
    let data ← require source name
    let container ← (Container.ofBytes data variant.layout).mapError .container
    let found := container.records.length
    if found ≠ slots.length then throw (.recordCount slots.length found)
    return (slots.zipWith Record.mk container.records, some container.extra)
  | none =>
    let records ← slots.mapM fun slot => (require source slot.name).map (Record.mk slot)
    return (records, none)

def load (variant : Variant) (source : FileSource) : Except Error Game := do
  let basefile ← (Basefile.ofBytes (← require source variant.baseFile)).mapError .basefile
  let textIndex ← loadTextIndex variant source
  let tableIndex ← loadTableIndex variant source
  let (records, extra) ← loadRecords variant (slots variant textIndex tableIndex) source
  return ⟨variant, basefile, textIndex, tableIndex, records, extra⟩

/-- The first record of a name. -/
def record? (game : Game) (name : String) : Option (List UInt8) :=
  (game.records.find? (·.slot.name = name)).map (·.data)

/-- The first string number of every text file. -/
def textBases (game : Game) : List Nat :=
  TextIndex.bases game.textIndex fun name => ((game.record? name).getD []).isEmpty

/-- The strings of every text file. -/
def textTables (game : Game) : Except Error (List (String × StringTable)) :=
  (game.textIndex.zip game.textBases).mapM fun (entry, base) => do
    let some data := game.record? entry.name | throw (.missingFile entry.name)
    return (entry.name, ← (StringTable.ofBytes base data).mapError .strings)

/-- `replacement` in place of the first occurrence of `part`. -/
def replaceFirst (part replacement : List Char) : List Char → List Char
  | [] => if part.isEmpty then replacement else []
  | c :: rest =>
    if part.isPrefixOf (c :: rest) then replacement ++ (c :: rest).drop part.length
    else c :: replaceFirst part replacement rest

/-- The text file that goes with a script file. -/
def pairedText (file : String) : String :=
  String.ofList (replaceFirst "TABLES".toList "TEXT".toList file.toList)

/-- The string numbers of the text file that goes with a script file, if the release limits the
    script file to them. -/
def textRange? (game : Game) (file : String) : Option (Nat × Nat) :=
  if game.variant.narrowTexts then
    ((game.textIndex.zip game.textBases).find? (·.1.name = pairedText file)).map
      fun (entry, base) => (base, entry.baseMax.toNat)
  else none

/-- The data of a base file: the objects, their length, what follows them, and the script at the
    start of that with its length. -/
structure Resident where
  items : List Item
  objectsEnd : Nat
  rest : List UInt8
  script : Except DecodeError (Script × Nat)

/-- The parts of the base file's data. -/
def resident (game : Game) : Except Error Resident := do
  let c := Cursor.ofBytes game.basefile.data
  let (items, c) ← (Item.readAll c game.basefile.objectCount).mapError .decode
  return ⟨items, c.position, c.rest, Script.ofBlock game.variant.set c.rest⟩

/-- The number behind the last item that scripts may refer to, with `added` new ones. -/
def itemCount (game : Game) (added : Nat) : Nat :=
  min (game.basefile.header.totalItems.toNat + Item.first + added) 0xffffffff

/-- Adds the strings of a table to those that scripts may refer to. -/
def addTexts (texts : Std.TreeMap Nat String) (table : StringTable) (language : Language) :
    Std.TreeMap Nat String :=
  (table.ids.zip (table.decode language)).foldl (fun texts (id, text) => texts.insert id text) texts

/-- The strings of the base file and of the text files by number. -/
def texts (game : Game) (tables : List (String × StringTable)) (language : Language) :
    Std.TreeMap Nat String :=
  tables.foldl (fun texts (_, table) => addTexts texts table language)
    (addTexts ∅ game.basefile.strings language)

end Game

end Adventure
