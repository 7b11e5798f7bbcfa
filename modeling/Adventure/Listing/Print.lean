import Adventure.Script.Label
import Adventure.Script.Symbols
import Adventure.Script.Voices
import Adventure.Strings.Escape
import Adventure.Text.Lines

namespace Adventure

open Text

namespace Listing

/-- What a listing is made with. `labels` belong to the record that is listed. -/
structure Context where
  set : InstructionSet
  labels : Labels
  symbols : Symbols
  voices : Option VoiceMap

/-- Numbers between commas. -/
def commaList (values : List UInt16) : List Char :=
  [','].intercalate (values.map fun value => decimal value.toNat)

namespace Context

def operand (context : Context) : Operand → List Char
  | .byte value => decimal value.toNat
  | .var number => ['['] ++ decimal number.toNat ++ [']']
  | .word _ value => decimal value.toNat
  | .text .none => ['-', '1']
  | .text .special => ['-', '3']
  | .text (.id id) => decimal id.toNat
  | .item (.special code) =>
    match ItemRef.specialName? code with
    | some name => name.toList
    | none => '$' :: decimal code.toNat
  | .item (.id item) => ['<'] ++ decimal item.toNat ++ ['>']
  | .jump target =>
    match context.labels[target.toNat]? with
    | some ordinal => Labels.name ordinal
    | none => decimal target.toNat
  | .list values => ['\x7b'] ++ commaList values ++ ['\x7d']

/-- What a comment says of an operand: the string, the voices that speak it, or the name. -/
def notes (context : Context) : Operand → List (List Char)
  | .text (.id id) =>
    let text := match context.symbols.text? id.toNat with
      | some text => Strings.escape text.toList
      | none => ['?']
    let voices := match context.voices.bind (·[id.toNat]?) with
      | some voices => ["[voice ".toList ++ commaList voices ++ [']']]
      | none => []
    (['\x7b'] ++ text ++ ['\x7d']) :: voices
  | .item (.id item) =>
    match context.symbols.itemName? item.toNat with
    | some name => [['<'] ++ Strings.escape name.toList ++ ['>']]
    | none => []
  | _ => []

/-- The mnemonic of an opcode, also of one that the set does not have. -/
def mnemonic (context : Context) (opcode : UInt8) : String :=
  match context.set.get? opcode with
  | some op => op.mnemonic
  | none => Opcode.numberedMnemonic opcode

/-- The opcode in parentheses, which checks the mnemonic behind it. -/
def marker (opcode : UInt8) : List Char := "(0x".toList ++ hexPadded 2 opcode.toNat ++ [')']

/-- A command: its label if something jumps to it, its opcode, its mnemonic and its operands. -/
def command (context : Context) (command : Command) : List Char :=
  let label := match context.labels[command.offset]? with
    | some ordinal => Labels.name ordinal ++ [':', ' ']
    | none => []
  let operands := command.operands.flatMap fun operand => ' ' :: context.operand operand
  let notes := command.operands.flatMap context.notes
  let comment := if notes.isEmpty then [] else " // ".toList ++ [' '].intercalate notes
  label ++ marker command.opcode ++ [' '] ++ (context.mnemonic command.opcode).toList ++ operands ++
    comment

def lineHeader : Option LineHeader → List Char
  | some header =>
    "==> DEF ".toList ++ decimal header.verb.toNat ++ [' '] ++ decimal header.noun1.toNat ++
      [' '] ++ decimal header.noun2.toNat
  | none => "==>".toList

def line (context : Context) (line : Line) : List (List Char) :=
  lineHeader line.header :: line.commands.map fun command => '\t' :: context.command command

def table (context : Context) (table : Table) : List (List Char) :=
  ("== TABLE ".toList ++ decimal table.number.toNat) :: table.lines.flatMap context.line

/-- The lines of the tables of a record. -/
def tables (context : Context) (tables : List Table) : List (List Char) :=
  tables.flatMap context.table

end Context

/-- The line before the tables of a file. -/
def fileHeader (name : String) (ranges : List TableRange) : List Char :=
  "== FILE ".toList ++ name.toList ++ [' '] ++ TableRange.renderAll ranges

/-- The line of a record that cannot be listed, and is kept as it is. -/
def rawHeader (name reason : String) : List Char :=
  "== FILE ".toList ++ name.toList ++ " RAW // ".toList ++
    reason.toList.map fun c => if c = '\n' then ' ' else c

/-- The section of a file that can be listed. -/
def Context.file (context : Context) (name : String) (ranges : List TableRange)
    (tables : List Table) : List Char :=
  unlines (fileHeader name ranges :: context.tables tables)

/-- The section of a file that cannot. -/
def rawFile (name reason : String) : List Char := unlines [rawHeader name reason]

end Listing

end Adventure
