import Adventure.Game.Extract
import Adventure.Game.Folder
import Adventure.Game.Options
import Adventure.Soundbank

namespace Adventure.CommandLine

def orFail {α ε : Type} (message : ε → String) : Except ε α → IO α
  | .ok value => pure value
  | .error error => throw (IO.userError (message error))

/-- The bytes of a file, or none if there is no such file. -/
def read? (path : String) : IO (Option (List UInt8)) := do
  try
    return some (← IO.FS.readBinFile path).toList
  catch
    | .noFileOrDirectory .. => return none
    | error => throw error

def write (path : String) (data : List UInt8) : IO Unit :=
  IO.FS.writeBinFile path ⟨data.toArray⟩

/-- The text of a document, or none if there is no such document. -/
def document? (path : String) : IO (Option String) := do
  let some data ← read? path | return none
  match String.fromUTF8? ⟨data.toArray⟩ with
  | some text => return some text
  | none => throw (IO.userError s!"cannot read {path}")

/-- Adds to files those of a folder that are there. -/
def addFiles (folder : String) (files : Files) (names : List String) : IO Files :=
  names.foldlM (fun files name => do
    match ← read? (Folder.join folder name) with
    | some data => return files.insert name data
    | none => return files) files

/-- The game of a folder. -/
def load (folder : String) (variant : Variant) : IO Game := do
  let files ← addFiles folder ∅ variant.fixedFiles
  let files ← addFiles folder files (Game.recordFiles variant files.source)
  orFail Game.Error.message (Game.load variant files.source)

/-- A game folder, and what its settings and the options choose for it. -/
structure Choice where
  folder : String
  settings : Settings
  variant : Variant
  language : Language

def choose (options : Options) : IO Choice := do
  let folder ← orFail Options.Error.message options.folder
  let settings ← match ← document? (Folder.join folder Settings.fileName) with
    | some text => orFail Settings.Error.message (Settings.parse text)
    | none => pure .default
  let settings ← orFail Options.Error.message (options.override settings)
  let variant ← orFail Settings.Error.message settings.variant
  let language := settings.languageFor variant
  IO.println s!"{variant.name} ({language.tag})"
  return ⟨folder, settings, variant, language⟩

/-- Writes every sample of a bank into a file of its own. -/
def splitBank (bank folder : String) : IO Unit := do
  let some data ← read? bank | throw (IO.userError s!"cannot read {bank}")
  let samples ← orFail Bytes.Fault.message (Soundbank.samples data)
  let target := Folder.join folder (Soundbank.fileName bank)
  IO.FS.createDirAll target
  for sample in samples do
    write (Folder.join target (Soundbank.sampleName bank sample.ordinal)) sample.data
  IO.println s!"{bank}: {samples.length} samples"

/-- The bank of the samples in a folder, or none if there are no samples. -/
def joinBank? (bank folder : String) : IO (Option (String × List UInt8)) := do
  let source := Folder.join folder (Soundbank.fileName bank)
  let samples : Soundbank.Bank ← (List.range Soundbank.maxSamples).foldlM (fun samples ordinal => do
    match ← read? (Folder.join source (Soundbank.sampleName bank ordinal)) with
    | some data => return samples.insert ordinal data
    | none => return samples) ∅
  if samples.isEmpty then return none
  return some (Soundbank.fileName bank, ← orFail Bytes.Fault.message samples.toBytes)

def extract (options : Options) : IO Unit := do
  let choice ← choose options
  let game ← load choice.folder choice.variant
  let extraction ← orFail Game.Error.message (game.extract choice.language)
  IO.FS.writeFile choice.settings.strings extraction.strings
  IO.FS.writeFile choice.settings.scripts extraction.scripts
  IO.FS.writeFile choice.settings.objects extraction.objects
  for (name, error) in extraction.failures do
    IO.println s!"{name}: kept as raw bytes ({error.message})"
  if let some bank := choice.settings.voices then
    splitBank bank options.voiceFolder

/-- Makes the output folder, which must not be the folder of the game. -/
def prepareOutput (game output : String) : IO Unit := do
  let top := if Folder.isAbsolute output then "" else "."
  let _ ← (Folder.made output).foldlM (fun folder name => do
    let folder := Folder.join folder name
    IO.FS.createDirAll folder
    return folder) top
  if (← IO.FS.realPath output) = (← IO.FS.realPath game) then
    throw (IO.userError (Game.Error.outputIsGameFolder output).message)

/-- Writes files under other names first, so that none is replaced if one cannot be written. -/
def writeOutputs (folder : String) (outputs : List (String × List UInt8)) : IO Unit := do
  let part := fun (name : String) => Folder.join folder (Folder.partName name)
  try
    for (name, data) in outputs do
      write (part name) data
  catch error =>
    for (name, _) in outputs do
      try IO.FS.removeFile (part name) catch _ => pure ()
    throw error
  for (name, _) in outputs do
    IO.FS.rename (part name) (Folder.join folder name)

def rebuild (options : Options) : IO Unit := do
  let choice ← choose options
  prepareOutput choice.folder options.output
  let edits : Game.Edits := ⟨← document? choice.settings.strings,
    ← document? choice.settings.scripts, ← document? choice.settings.objects⟩
  let game ← load choice.folder choice.variant
  let rebuilt ← orFail Game.Error.message (game.rebuild choice.language edits)
  let bank ← match choice.settings.voices with
    | some bank => joinBank? bank options.voiceFolder
    | none => pure none
  let outputs := rebuilt.outputs choice.variant ++ bank.toList
  writeOutputs options.output outputs
  IO.println s!"{outputs.length} files written to {options.output}"

def usage : String :=
  "usage: adventure (extract | rebuild) --game-dir FOLDER [OPTION VALUE]..."

def run : List String → IO Unit
  | "extract" :: words => do extract (← orFail Options.Error.message (Options.parse words))
  | "rebuild" :: words => do rebuild (← orFail Options.Error.message (Options.parse words))
  | _ => throw (IO.userError usage)

end Adventure.CommandLine

/-- Extracts or rebuilds a game. -/
def main (words : List String) : IO UInt32 := do
  try
    Adventure.CommandLine.run words
    return 0
  catch error =>
    IO.eprintln s!"Error: {error}"
    return 1
