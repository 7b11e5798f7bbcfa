import Adventure.Script.Ranges
import Adventure.Script.Table
import Adventure.Strings.Error

namespace Adventure.Listing

/-- A line that has no place or no meaning in a script text. -/
inductive LineDefect where
  | unterminatedString
  | badRange (token : String)
  /-- A number that is none; `what` is what it should be the number of. -/
  | badNumber (what token : String)
  | missingCommand
  | lineOutsideTable
  | headerForm
  | headerMisplaced
  | missingFileName
  | missingRanges
  | tableForm
  | tableOutsideFile
  | sectionForm
  | commandOutsideLine
  /-- A file without tables is to be assembled. -/
  | noTables (file : String)
  /-- A file that has come before. -/
  | fileTwice (file : String)
  deriving Repr, DecidableEq

def LineDefect.message : LineDefect → String
  | unterminatedString => "unterminated string"
  | badRange token => s!"bad table range {Text.quoted token}"
  | badNumber what token => s!"bad {what} {Text.quoted token}"
  | missingCommand => "missing command"
  | lineOutsideTable => "line outside of a table"
  | headerForm => "expected ==> or ==> DEF <verb> <noun1> <noun2>"
  | headerMisplaced => "DEF is required in table 0 and not allowed elsewhere"
  | missingFileName => "missing file name"
  | missingRanges => "missing table ranges"
  | tableForm => "expected == TABLE <number>"
  | tableOutsideFile => "table outside of a script file"
  | sectionForm => "expected == FILE or == TABLE"
  | commandOutsideLine => "command outside of a line"
  | noTables file => s!"{file} holds no tables"
  | fileTwice file => s!"{file} appears twice"

/-- An operand that cannot stand where it stands. -/
inductive OperandFault where
  /-- The escapes between the quotes, on a line of the text. -/
  | escape (line : Nat) (error : Strings.EscapeError)
  | expectedNewText
  | noIdsLeft
  | expectedText
  | unknownSpecial
  | expectedItem
  | sharedName (items : List Nat)
  | badItem
  | playerItem
  | badVariable
  | expectedByte
  | byteIsMark
  | expectedList
  | badListValue
  | listValueIsEnd
  | expectedNumber
  | labelTooFar
  /-- The whole file cannot be stored. -/
  | unencodable (error : Script.Error)
  deriving Repr, DecidableEq

def OperandFault.message : OperandFault → String
  | escape line error => (Strings.Error.malformedLine line (.badEscape error)).message
  | expectedNewText => "expected +\"text\""
  | noIdsLeft => "no global string ids left"
  | expectedText => "expected a string id or quoted text"
  | unknownSpecial => "unknown special item"
  | expectedItem => "expected <item> or $NAME"
  | sharedName items =>
    let items := ", ".intercalate (items.map fun item => s!"{item}")
    s!"name is shared by items [{items}]"
  | badItem => "bad item number"
  | playerItem => "item 1 cannot be referenced directly"
  | badVariable => "bad variable"
  | expectedByte => "expected a byte"
  | byteIsMark => "255 is only written as a variable"
  | expectedList => "expected \x7ba,b,...\x7d"
  | badListValue => "bad list value"
  | listValueIsEnd => "list values end at 65535"
  | expectedNumber => "expected a number"
  | labelTooFar => "label lies beyond the 16-bit jump range"
  | unencodable error => error.message

inductive Error where
  | unknownMnemonic (line : Nat) (mnemonic : String)
  | unresolvedReference (line : Nat) (reference : String)
  | malformedOperand (line : Nat) (operand : String) (fault : OperandFault)
  | parameterCount (line : Nat) (mnemonic : String) (expected found : Nat)
  | opcodeMismatch (line : Nat) (mnemonic : String) (expected : UInt8) (found : String)
  | undefinedLabel (line : Nat) (label : String)
  | duplicateLabel (line : Nat) (label : String)
  | textOutOfRange (line : Nat) (id : Nat) (file : String)
  | tableOutOfRange (line : Nat) (number : UInt16) (ranges : List TableRange)
  | malformedLine (line : Nat) (defect : LineDefect)
  | unknownFile (line : Nat) (file : String)
  deriving Repr, DecidableEq

def Error.message : Error → String
  | unknownMnemonic line mnemonic => s!"line {line}: unrecognized command {mnemonic}"
  | unresolvedReference line reference =>
    s!"line {line}: {reference} does not name a known string or item"
  | malformedOperand line operand fault =>
    s!"line {line}: cannot use {Text.quoted operand} here: {fault.message}"
  | parameterCount line mnemonic expected found =>
    s!"line {line}: {mnemonic} takes {expected} parameters but {found} were given"
  | opcodeMismatch line mnemonic expected found =>
    let digits := String.ofList (Text.hexPadded 2 expected.toNat)
    s!"line {line}: opcode for {mnemonic} should have been (0x{digits}) but found {found}"
  | undefinedLabel line label => s!"line {line}: jump to undefined label {label}"
  | duplicateLabel line label => s!"line {line}: label {label} is defined twice"
  | textOutOfRange line id file => s!"line {line}: string {id} does not belong to {file}"
  | tableOutOfRange line number ranges =>
    let ranges := String.ofList (TableRange.renderAll ranges)
    s!"line {line}: table {number} is outside the ranges {ranges}"
  | malformedLine line defect => s!"line {line}: {defect.message}"
  | unknownFile line file => s!"line {line}: {file} is not a script file of this game"

end Adventure.Listing
