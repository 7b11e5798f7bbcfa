import Adventure.Game.Load
import Adventure.Listing.Assemble
import Adventure.Strings.Document
import Adventure.World.Parse

namespace Adventure

namespace Game

/-- Edited documents. One that is absent edits nothing. -/
structure Edits where
  strings : Option String
  scripts : Option String
  objects : Option String
  deriving Repr, DecidableEq

/-- The files of a rebuilt game: the base file, the container if it has one, and the other files
    that changed. -/
structure Rebuilt where
  basefile : List UInt8
  container : Option (List UInt8)
  files : List (String × List UInt8)
  deriving Repr, DecidableEq

/-- The strings of a file, which are numbered from `base` on, or the first that has a character
    without a glyph. -/
def encodeTable (file : String) (base : Nat) (texts : List String) (language : Language) :
    Except Error StringTable :=
  (texts.zipIdx.mapM fun (text, index) =>
    (language.encode text).mapError (Error.text file (base + index))).map (⟨base, ·⟩)

/-- The strings while a strings document edits them: the global ones and those of each file. -/
structure StringTables where
  basefile : StringTable
  files : List (String × StringTable)
  deriving Repr, DecidableEq

namespace StringTables

/-- Puts a table in place of the first one of a file. -/
def replaceTable (file : String) (table : StringTable) :
    List (String × StringTable) → List (String × StringTable)
  | [] => []
  | (name, old) :: rest =>
    if name = file then (name, table) :: rest else (name, old) :: replaceTable file table rest

/-- The table of a file with its texts replaced. `fits` tells whether their number will do. -/
def edited (file : String) (entries : List StringEntry) (table : StringTable)
    (fits : Nat → Nat → Bool) (language : Language) : Except Error StringTable := do
  let texts ← (StringsDocument.contiguousTexts file entries table.base).mapError .strings
  let expected := table.entries.length
  if !fits expected texts.length then throw (.stringCount file expected texts.length)
  encodeTable file table.base texts language

/-- Edits the strings of one file. Only the base file may get more of them. -/
def edit (variant : Variant) (language : Language) (tables : StringTables)
    (group : String × List StringEntry) : Except Error StringTables := do
  let (file, entries) := group
  if file = variant.baseFile then
    let table ← edited file entries { tables.basefile with base := 0 } (· ≤ ·) language
    return { tables with basefile := table }
  match tables.files.lookup file with
  | some table =>
    let table ← edited file entries table (· = ·) language
    return { tables with files := replaceTable file table tables.files }
  | none => throw (.unknownStringFile file)

/-- Edits the strings of all files of a strings document. -/
def editAll (variant : Variant) (language : Language) (tables : StringTables)
    (document : String) : Except Error StringTables := do
  let entries ← (StringsDocument.parse document).mapError .strings
  (StringsDocument.group entries).foldlM (edit variant language) tables

end StringTables

/-- The items and their bytes, as the objects document has them. None may be removed. -/
def editItems (game : Game) (resident : Resident) (document : Option String) :
    Except Error (List Item × List UInt8) := do
  match document with
  | none => return (resident.items, game.basefile.data.take resident.objectsEnd)
  | some document =>
    let items ← (Item.parseAll document).mapError .world
    let expected := resident.items.length
    if items.length < expected then throw (.removedObjects expected items.length)
    return (items, ← (Item.allBytes items).mapError .world)

/-- A record that has been assembled, and the ranges that its file has now. -/
structure Assembled where
  file : String
  data : List UInt8
  ranges : List TableRange
  deriving Repr, DecidableEq

/-- What has been assembled so far, and the strings that the scripts declare. -/
structure Assemblies where
  records : List Assembled
  pool : StringPool
  deriving Repr, DecidableEq

namespace Assemblies

/-- The record of a file. -/
def find? (assemblies : Assemblies) (file : String) : Option Assembled :=
  assemblies.records.find? (·.file = file)

/-- Assembles a file of a script text. The file must belong to the game, must not have come before,
    and if it is the base file, the resident script must be one that can be read. -/
def add (game : Game) (resident : Resident) (assembler : Listing.Assembler)
    (assemblies : Assemblies) (file : Listing.SourceFile) : Except Error Assemblies := do
  let .tables ranges _ := file.body | return assemblies
  let isBasefile := file.name = game.variant.baseFile
  if !isBasefile && !(game.tableIndex.any (·.file = file.name)) then
    throw (.listing (.unknownFile file.line file.name))
  if isBasefile && !resident.script.isOk then throw (.undecodedRecord file.name)
  if (assemblies.find? file.name).isSome then
    throw (.listing (.malformedLine file.line (.fileTwice file.name)))
  let texts := if isBasefile then none else game.textRange? file.name
  let (assembled, pool) := assembler.assembleWith file texts assemblies.pool
  return ⟨⟨file.name, ← assembled.mapError .listing, ranges⟩ :: assemblies.records, pool⟩

/-- Assembles the files of a script text, unless the release keeps its scripts as they are. -/
def ofDocument (game : Game) (resident : Resident) (symbols : Symbols) (pool : StringPool)
    (document : Option String) : Except Error Assemblies := do
  let some document := document | return ⟨[], pool⟩
  if !game.variant.scriptRebuild then return ⟨[], pool⟩
  let files ← (Listing.parse document).mapError .listing
  files.foldlM (add game resident ⟨game.variant.set, symbols⟩) ⟨[], pool⟩

end Assemblies

/-- The number of global strings stays below the numbers of the text files. -/
def globalLimit (game : Game) : Nat :=
  min (game.textBases.headD TextIndex.firstBase) TextIndex.firstBase

/-- The global strings with those that the scripts declare behind them. -/
def withDeclared (game : Game) (strings : StringTable) (declared : List String)
    (language : Language) : Except Error StringTable := do
  let file := game.variant.baseFile
  let added ← encodeTable file strings.entries.length declared language
  let entries := strings.entries ++ added.entries
  let limit := game.globalLimit
  if limit < entries.length then throw (.globalStringsFull file entries.length limit)
  return { strings with entries := entries }

/-- The base file's data: the objects, the resident script, and what follows it. -/
def basefileData (resident : Resident) (objects : List UInt8) (script : Option Assembled) :
    List UInt8 :=
  objects ++
    match script, resident.script with
    | some assembled, .ok (_, used) => assembled.data ++ resident.rest.drop used
    | _, _ => resident.rest

/-- The bytes of a record: those of its strings or its scripts if the documents have them, else
    the old ones. -/
def recordData (tables : List (String × StringTable)) (assembled : List Assembled)
    (record : Record) : List UInt8 :=
  match record.slot.kind with
  | .text => ((tables.lookup record.slot.name).map StringTable.toBytes).getD record.data
  | .tables =>
    ((assembled.find? (·.file = record.slot.name)).map Assembled.data).getD record.data
  | .other => record.data

/-- The container of the records, or else the files of those that changed. -/
def packRecords (game : Game) (records : List Record) :
    Except Error (Option (List UInt8) × List (String × List UInt8)) := do
  match game.extra with
  | some extra =>
    let container : Container := ⟨game.variant.layout, extra, records.map (·.data)⟩
    return (some (← container.toBytes.mapError .container), [])
  | none =>
    let changed := (records.zip game.records).filter fun (new, old) => new.data ≠ old.data
    return (none, changed.map fun (new, _) => (new.slot.name, new.data))

/-- The table index with the ranges of the files that have been assembled. -/
def editIndex (index : List TableIndexEntry) (assembled : List Assembled) :
    List TableIndexEntry :=
  index.map fun entry =>
    match assembled.find? (·.file = entry.file) with
    | some found => { entry with ranges := found.ranges }
    | none => entry

/-- The file of the table index, if the release has one and it changed. -/
def indexFiles (game : Game) (assembled : List Assembled) : List (String × List UInt8) :=
  match game.variant.tableIndex with
  | some name =>
    let index := editIndex game.tableIndex assembled
    if index = game.tableIndex then [] else [(name, TableIndex.toBytes index)]
  | none => []

def rebuild (game : Game) (language : Language) (edits : Edits) : Except Error Rebuilt := do
  let file := game.variant.baseFile
  let stored : StringTables := ⟨game.basefile.strings, ← game.textTables⟩
  let texts := game.texts stored.files language
  let tables ← match edits.strings with
    | some document => stored.editAll game.variant language document
    | none => pure stored
  let resident ← game.resident
  let (items, objects) ← game.editItems resident edits.objects
  let symbols : Symbols :=
    ⟨texts, Item.names items, game.itemCount (items.length - resident.items.length)⟩
  let pool := StringPool.bounded tables.basefile.entries.length game.globalLimit
  let assemblies ← Assemblies.ofDocument game resident symbols pool edits.scripts
  let strings ← game.withDeclared tables.basefile assemblies.pool.added language
  let script := assemblies.find? file
  let assembled := assemblies.records.filter (·.file ≠ file)
  let basefile ← ({ game.basefile with strings := strings }.setObjectCount items.length).mapError
    .basefile
  let basefile := { basefile with data := basefileData resident objects script }
  let records := game.records.map fun record =>
    { record with data := recordData tables.files assembled record }
  let (container, files) ← game.packRecords records
  return ⟨basefile.toBytes, container, files ++ game.indexFiles assembled⟩

/-- All files of a rebuilt game by name. -/
def Rebuilt.outputs (rebuilt : Rebuilt) (variant : Variant) : List (String × List UInt8) :=
  (variant.baseFile, rebuilt.basefile) ::
    (variant.container.toList.zip rebuilt.container.toList ++ rebuilt.files)

/-- The files of a rebuilt game that are not as they were. -/
def Rebuilt.changes (rebuilt : Rebuilt) (variant : Variant) (files : Files) :
    List (String × List UInt8) :=
  (rebuilt.outputs variant).filter fun (name, data) => files[name]? ≠ some data

/-- The files of a game after it has been rebuilt. -/
def Rebuilt.install (rebuilt : Rebuilt) (variant : Variant) (files : Files) : Files :=
  (rebuilt.outputs variant).foldl (fun files (name, data) => files.insert name data) files

end Game

end Adventure
