import Adventure.Script.Ranges
import Adventure.Text.Numeral

namespace Adventure

/-- What is wrong with an operand or a field that is there in full. -/
inductive OperandDefect where
  | itemSelector (code : UInt16)
  | textKind (kind : UInt16)
  /-- A door of a room that leads to no item. -/
  | exitToNothing
  deriving Repr, DecidableEq

def OperandDefect.message : OperandDefect → String
  | itemSelector code => s!"item selector {code}"
  | textKind kind => s!"text kind {kind}"
  | exitToNothing => "exit leads to no item"

/-- Why a record or the objects cannot be read. Offsets count from the start of the data. -/
inductive DecodeError where
  | unknownOpcode (opcode : UInt8) (offset : Nat)
  /-- The data end within the command, item or property that starts at `offset`. -/
  | truncatedOperand (offset : Nat)
  /-- The data end where a mark, a header or an opcode should stand. -/
  | unexpectedEnd (offset : Nat)
  | malformedOperand (offset : Nat) (defect : OperandDefect)
  | unexpectedMarker (offset : Nat) (found : UInt16)
  | invalidJumpTarget (offset target : Nat)
  | unknownProperty (kind : UInt16) (offset : Nat)
  | trailingData (offset length : Nat)
  | tableOutOfRange (number : UInt16) (ranges : List TableRange)
  deriving Repr, DecidableEq

namespace DecodeError

def message : DecodeError → String
  | unknownOpcode opcode offset =>
    s!"unknown opcode 0x{String.ofList (Text.hexPadded 2 opcode.toNat)} at offset {offset}"
  | truncatedOperand offset =>
    s!"operand of the command at offset {offset} runs past the end of the data"
  | unexpectedEnd offset => s!"data ends inside the table structure at offset {offset}"
  | malformedOperand offset defect => s!"malformed operand at offset {offset}: {defect.message}"
  | unexpectedMarker offset found =>
    s!"unexpected marker 0x{String.ofList (Text.hexPadded 4 found.toNat)} at offset {offset}"
  | invalidJumpTarget offset target =>
    s!"command at offset {offset} jumps to {target}, which is not the start of a command"
  | unknownProperty kind offset => s!"unknown property type {kind} at offset {offset}"
  | trailingData offset length => s!"{length} bytes of trailing data at offset {offset}"
  | tableOutOfRange number ranges =>
    let ranges := String.ofList (TableRange.renderAll ranges)
    s!"table {number} lies outside the ranges {ranges} of the table index"

end DecodeError

end Adventure
