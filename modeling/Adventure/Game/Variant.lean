import Adventure.CodePage.Language
import Adventure.Container
import Adventure.Instruction.Shipped
import Adventure.Slot

namespace Adventure

open Slot

/-- A release of a game. -/
structure Variant where
  id : String
  name : String
  /-- The base file: global strings, objects and the resident script. -/
  baseFile : String
  /-- The container of the records, or none where each is a file of its own. -/
  container : Option String
  layout : Container.Layout
  segments : List Segment
  set : InstructionSet
  language : Language
  /-- Its strings are spoken. -/
  hasVoices : Bool
  textIndex : Option String
  tableIndex : Option String
  /-- Its scripts can be assembled again. -/
  scriptRebuild : Bool
  /-- A script file may use only the strings of the text file that goes with it. -/
  narrowTexts : Bool
  deriving Repr, DecidableEq

namespace Variant

def looseSegments : List Segment := [.textFiles, .tableFiles]

def simon1Segments : List Segment :=
  [.zones 164, .named "UNKNOWN.BIN", .numbered "MOD" ".MUS" 0 35, .named "EMPTYFILE", .textFiles,
    .tableFiles, .named "EMPTYFILE"]

def simon2Segments : List Segment :=
  [.zones 141, .numbered "HI" ".XMI" 1 93, .named "EMPTYFILE", .textFiles, .tableFiles,
    .named "EMPTYFILE", .numbered "SFX" ".VOC" 1 19, .numbered "LO" ".XMI" 1 93,
    .named "EMPTYFILE"]

/-- A release without a container, whose files are those of the floppy version of the first
    game. -/
def loose (id name baseFile : String) (set : InstructionSet) : Variant where
  id := id
  name := name
  baseFile := baseFile
  container := none
  layout := .indexed
  segments := looseSegments
  set := set
  language := .english
  hasVoices := false
  textIndex := some "STRIPPED.TXT"
  tableIndex := some "TBLLIST"
  scriptRebuild := true
  narrowTexts := true

def waxworks : Variant :=
  { loose "waxworks" "Waxworks" "GAMEPC" .waxworks with
    tableIndex := none
    scriptRebuild := false
    narrowTexts := false }

def waxworksDemo : Variant :=
  { waxworks with
    id := "waxworks-demo"
    name := "Waxworks: Demo"
    baseFile := "DEMO"
    textIndex := none }

def simon1 : Variant := loose "simon1" "Simon the Sorcerer: Floppy version" "GAMEPC" .simon

def simon1Demo : Variant :=
  { loose "simon1-demo" "Simon the Sorcerer: Demo" "GDEMO" .simon with scriptRebuild := false }

def simon1Talkie : Variant :=
  { loose "simon1-talkie" "Simon the Sorcerer: Talkie version" "GAMEPC" .simonTalkie with
    container := some "SIMON.GME"
    segments := simon1Segments
    hasVoices := true }

def simon2 : Variant :=
  { loose "simon2" "Simon the Sorcerer II: Floppy version" "GAME32" .simon2 with
    container := some "SIMON2.GME"
    layout := .talkie 1
    segments := simon2Segments }

def simon2Talkie : Variant :=
  { simon2 with
    id := "simon2-talkie"
    name := "Simon the Sorcerer II: Talkie version"
    baseFile := "GSPTR30"
    set := .simon2Talkie
    hasVoices := true }

def feeble : Variant :=
  { loose "feeble" "The Feeble Files" "GAME22" .feeble with
    hasVoices := true
    textIndex := none }

/-- All releases, in the order of their identifiers. -/
def all : List Variant :=
  [feeble, simon1, simon1Demo, simon1Talkie, simon2, simon2Talkie, waxworks, waxworksDemo]

def ids : List String := all.map (·.id)

def ofId? (id : String) : Option Variant := all.find? (·.id = id)

/-- The files that a release names itself, whatever is in its indexes. -/
def fixedFiles (variant : Variant) : List String :=
  variant.baseFile ::
    (variant.container.toList ++ variant.textIndex.toList ++ variant.tableIndex.toList)

end Variant

end Adventure
