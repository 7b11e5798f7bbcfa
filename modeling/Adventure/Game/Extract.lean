import Adventure.Game.Load
import Adventure.Listing.Print
import Adventure.Strings.Document
import Adventure.World.Render

namespace Adventure

namespace Game

/-- The documents, the script files that could not be listed, and the voices of the strings. -/
structure Extraction where
  strings : String
  scripts : String
  objects : String
  failures : List (String × DecodeError)
  voices : VoiceMap

/-- A script with the labels of its jumps. -/
abbrev Labelled := Script × Labels

def labelled (script : Script) : Except DecodeError Labelled :=
  (Labels.ofScript script).map fun labels => (script, labels)

/-- The script of a record, which keeps to the ranges of its file. -/
def decodeRecord (set : InstructionSet) (ranges : List TableRange) (data : List UInt8) :
    Except DecodeError Labelled := do
  let script ← Script.ofRecord set data
  script.checkRanges ranges
  labelled script

/-- A script file, and its script or why it cannot be listed. -/
structure ScriptFile where
  name : String
  ranges : List TableRange
  script : Except DecodeError Labelled

/-- The script files: the resident script first, then those of the table index. -/
def scriptFiles (game : Game) (resident : Resident) : Except Error (List ScriptFile) := do
  let files ← game.tableIndex.mapM fun entry => do
    let some data := game.record? entry.file | throw (.missingFile entry.file)
    return ⟨entry.file, entry.ranges, decodeRecord game.variant.set entry.ranges data⟩
  let script := resident.script >>= fun (script, _) => labelled script
  return ⟨game.variant.baseFile, [], script⟩ :: files

/-- The voices that objects and scripts name for strings, if the release is spoken. -/
def voices (game : Game) (items : List Item) (files : List ScriptFile) : VoiceMap :=
  if game.variant.hasVoices then
    files.foldl (fun voices file =>
      match file.script with
      | .ok (script, _) => voices.addAll script.voices
      | .error _ => voices) (VoiceMap.addAll ∅ (Item.voices items))
  else ∅

/-- The section of a script file. -/
def listing (context : Labels → Listing.Context) (file : ScriptFile) : List Char :=
  match file.script with
  | .ok (script, labels) => (context labels).file file.name file.ranges script.tables
  | .error error => Listing.rawFile file.name error.message

def failures (files : List ScriptFile) : List (String × DecodeError) :=
  files.filterMap fun file =>
    match file.script with
    | .ok _ => none
    | .error error => some (file.name, error)

/-- The lines of the strings document for a table. -/
def stringEntries (voices : Option VoiceMap) (language : Language) (file : String)
    (table : StringTable) : List StringEntry :=
  (table.ids.zip (table.decode language)).map fun (id, text) =>
    ⟨file, id, text, voices.map fun voices => voices.getD id []⟩

def extract (game : Game) (language : Language) : Except Error Extraction := do
  let tables ← game.textTables
  let resident ← game.resident
  let symbols : Symbols :=
    ⟨game.texts tables language, Item.names resident.items, game.itemCount 0⟩
  let files ← game.scriptFiles resident
  let voices := game.voices resident.items files
  let shown := if game.variant.hasVoices then some voices else none
  let entries := ((game.variant.baseFile, game.basefile.strings) :: tables).flatMap
    fun (file, table) => stringEntries shown language file table
  return {
    strings := StringsDocument.render entries
    scripts := String.ofList (files.flatMap (listing fun labels =>
      ⟨game.variant.set, labels, symbols, shown⟩))
    objects := Item.renderAll resident.items symbols
    failures := failures files
    voices := voices }

end Game

end Adventure
